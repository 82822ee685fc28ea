import Plenum.Answer
import Plenum.Base64
import Plenum.Bytes
import Plenum.Channel
import Plenum.Config.Arguments
import Plenum.Config.KeyFile
import Plenum.Config.LaoFile
import Plenum.Ed25519.Point
import Plenum.Ed25519.Signature
import Plenum.Election
import Plenum.Election.Question
import Plenum.Envelope
import Plenum.Fault
import Plenum.Hub
import Plenum.Inbox
import Plenum.Inbox.Ledger
import Plenum.Json.Glyph
import Plenum.Json.Numeral
import Plenum.Json.Reading
import Plenum.Json.Token
import Plenum.Json.Tree
import Plenum.Lao
import Plenum.Main
import Plenum.Message
import Plenum.Payload
import Plenum.Payload.Decode
import Plenum.Proofs.Ballot
import Plenum.Proofs.Base64
import Plenum.Proofs.Conduct
import Plenum.Proofs.Election
import Plenum.Proofs.Ending
import Plenum.Proofs.Envelope
import Plenum.Proofs.Guards
import Plenum.Proofs.Hub
import Plenum.Proofs.Identifier
import Plenum.Proofs.Json.Lexing
import Plenum.Proofs.Json.Numeral
import Plenum.Proofs.Json.Reading
import Plenum.Proofs.Json.Rendering
import Plenum.Proofs.Payload
import Plenum.Proofs.Recount
import Plenum.Proofs.Regular
import Plenum.Proofs.Replay
import Plenum.Proofs.Results
import Plenum.Proofs.Stages
import Plenum.Proofs.Table
import Plenum.Query
import Plenum.Service
import Plenum.Sha2
import Plenum.Socket
import Plenum.Suite
import Plenum.Summary
import Plenum.Table
import Plenum.Text.Blank
import Plenum.Text.Hidden
import Plenum.Text.Mark
import Plenum.Text.Quoted
import Plenum.Toml.Document
import Plenum.Toml.Node
import Plenum.Toml.Reader
import Plenum.Turn
import Plenum.Proofs.Refusal
import Plenum.Proofs.Log
import Plenum.Proofs.Report
import Plenum.Proofs.Authentic
import Plenum.Proofs.Authority
import Plenum.Proofs.VoteOrder
import Plenum.Proofs.Query
import Plenum.Proofs.Broadcast
import Plenum.Proofs.Reception
import Plenum.Proofs.Ledger
import Plenum.Proofs.Overtaken
import Plenum.Proofs.Tally
import Plenum.Proofs.Spelling
import Plenum.Proofs.Namesake
import Plenum.Proofs.Voters
import Plenum.Proofs.Independence
import Plenum.Proofs.Conversation
import Plenum.Proofs.Framing
import Plenum.Proofs.Json.Fields
import Plenum.Proofs.Readers
import Plenum.Proofs.Identity
import Plenum.Proofs.Founding
import Plenum.Proofs.Admission
import Plenum.Proofs.Publication
import Plenum.Proofs.Limit
import Plenum.Proofs.Submission
import Plenum.Proofs.Blame
import Plenum.Proofs.Reply
