import Plenum.Json.Reading

namespace Plenum

open Json

-- How the ballots on a question are counted.
inductive Method
  | plurality
  | approval
  deriving DecidableEq, Repr

structure SetupQuestion where
  id : String
  question : String
  method : Method
  options : List String
  writeIn : Bool
  deriving DecidableEq, Repr

structure Setup where
  object : String
  action : String
  version : String
  id : String
  lao : String
  name : String
  createdAt : Int64
  startTime : Int64
  endTime : Int64
  questions : List SetupQuestion
  deriving DecidableEq, Repr

structure Opening where
  object : String
  action : String
  lao : String
  election : String
  openedAt : Int64
  deriving DecidableEq, Repr

-- One ballot of a vote: the positions of the options chosen.
structure Ballot where
  id : String
  question : String
  choices : List Int64
  deriving DecidableEq, Repr

structure CastVote where
  object : String
  action : String
  lao : String
  election : String
  createdAt : Int64
  votes : List Ballot
  deriving DecidableEq, Repr

structure Closing where
  object : String
  action : String
  lao : String
  election : String
  createdAt : Int64
  registeredVotes : String
  deriving DecidableEq, Repr

structure OptionCount where
  option : String
  count : UInt64
  deriving DecidableEq, Repr

structure QuestionOutcome where
  id : String
  result : List OptionCount
  deriving DecidableEq, Repr

structure Outcome where
  object : String
  action : String
  questions : List QuestionOutcome
  deriving DecidableEq, Repr

inductive Payload
  | setup (p : Setup)
  | opening (p : Opening)
  | castVote (p : CastVote)
  | closing (p : Closing)
  | outcome (p : Outcome)
  deriving DecidableEq, Repr

namespace Method

def name : Method → String
  | plurality => "Plurality"
  | approval => "Approval"

def ofName? (s : String) : Option Method :=
  if s = "Plurality" then some plurality
  else if s = "Approval" then some approval
  else none

def toTree (m : Method) : Tree :=
  .text m.name

-- A method is its name, or an object whose only member has that name and no value.
def ofTree? : Tree → Option Method
  | .string (some s) => ofName? s
  | .object [(some s, .null)] => ofName? s
  | _ => none

end Method

namespace SetupQuestion

def toTree (q : SetupQuestion) : Tree :=
  .record [
    ("id", .text q.id),
    ("question", .text q.question),
    ("voting_method", q.method.toTree),
    ("ballot_options", .array (q.options.map .text)),
    ("write_in", .bool q.writeIn)]

def layout : Layout :=
  ⟨["id", "question", "voting_method", "ballot_options", "write_in"], 4, true⟩

def ofTree? (t : Tree) : Option SetupQuestion := do
  let fs ← layout.read? t
  let id ← fs.get? "id" Tree.text?
  let question ← fs.get? "question" Tree.text?
  let method ← fs.get? "voting_method" Method.ofTree?
  let options ← fs.get? "ballot_options" (Tree.list? Tree.text?)
  let writeIn ← fs.getD? "write_in" false Tree.bool?
  some { id, question, method, options, writeIn }

end SetupQuestion

namespace Setup

def toTree (p : Setup) : Tree :=
  .record [
    ("object", .text p.object),
    ("action", .text p.action),
    ("version", .text p.version),
    ("id", .text p.id),
    ("lao", .text p.lao),
    ("name", .text p.name),
    ("created_at", .int p.createdAt.toInt),
    ("start_time", .int p.startTime.toInt),
    ("end_time", .int p.endTime.toInt),
    ("questions", .array (p.questions.map SetupQuestion.toTree))]

def layout : Layout :=
  ⟨["object", "action", "version", "id", "lao", "name", "created_at", "start_time", "end_time",
    "questions"], 10, true⟩

def ofTree? (t : Tree) : Option Setup := do
  let fs ← layout.read? t
  let object ← fs.get? "object" Tree.text?
  let action ← fs.get? "action" Tree.text?
  let version ← fs.get? "version" Tree.text?
  let id ← fs.get? "id" Tree.text?
  let lao ← fs.get? "lao" Tree.text?
  let name ← fs.get? "name" Tree.text?
  let createdAt ← fs.get? "created_at" Tree.int64?
  let startTime ← fs.get? "start_time" Tree.int64?
  let endTime ← fs.get? "end_time" Tree.int64?
  let questions ← fs.get? "questions" (Tree.list? SetupQuestion.ofTree?)
  some { object, action, version, id, lao, name, createdAt, startTime, endTime, questions }

end Setup

namespace Opening

def toTree (p : Opening) : Tree :=
  .record [
    ("object", .text p.object),
    ("action", .text p.action),
    ("lao", .text p.lao),
    ("election", .text p.election),
    ("opened_at", .int p.openedAt.toInt)]

def layout : Layout :=
  ⟨["object", "action", "lao", "election", "opened_at"], 5, true⟩

def ofTree? (t : Tree) : Option Opening := do
  let fs ← layout.read? t
  let object ← fs.get? "object" Tree.text?
  let action ← fs.get? "action" Tree.text?
  let lao ← fs.get? "lao" Tree.text?
  let election ← fs.get? "election" Tree.text?
  let openedAt ← fs.get? "opened_at" Tree.int64?
  some { object, action, lao, election, openedAt }

end Opening

namespace Ballot

def toTree (b : Ballot) : Tree :=
  .record [
    ("id", .text b.id),
    ("question", .text b.question),
    ("vote", .array (b.choices.map fun i => .int i.toInt))]

def layout : Layout :=
  ⟨["id", "question", "vote"], 3, true⟩

def ofTree? (t : Tree) : Option Ballot := do
  let fs ← layout.read? t
  let id ← fs.get? "id" Tree.text?
  let question ← fs.get? "question" Tree.text?
  let choices ← fs.get? "vote" (Tree.list? Tree.int64?)
  some { id, question, choices }

end Ballot

namespace CastVote

def toTree (p : CastVote) : Tree :=
  .record [
    ("object", .text p.object),
    ("action", .text p.action),
    ("lao", .text p.lao),
    ("election", .text p.election),
    ("created_at", .int p.createdAt.toInt),
    ("votes", .array (p.votes.map Ballot.toTree))]

def layout : Layout :=
  ⟨["object", "action", "lao", "election", "created_at", "votes"], 6, true⟩

def ofTree? (t : Tree) : Option CastVote := do
  let fs ← layout.read? t
  let object ← fs.get? "object" Tree.text?
  let action ← fs.get? "action" Tree.text?
  let lao ← fs.get? "lao" Tree.text?
  let election ← fs.get? "election" Tree.text?
  let createdAt ← fs.get? "created_at" Tree.int64?
  let votes ← fs.get? "votes" (Tree.list? Ballot.ofTree?)
  some { object, action, lao, election, createdAt, votes }

end CastVote

namespace Closing

def toTree (p : Closing) : Tree :=
  .record [
    ("object", .text p.object),
    ("action", .text p.action),
    ("lao", .text p.lao),
    ("election", .text p.election),
    ("created_at", .int p.createdAt.toInt),
    ("registered_votes", .text p.registeredVotes)]

def layout : Layout :=
  ⟨["object", "action", "lao", "election", "created_at", "registered_votes"], 6, true⟩

def ofTree? (t : Tree) : Option Closing := do
  let fs ← layout.read? t
  let object ← fs.get? "object" Tree.text?
  let action ← fs.get? "action" Tree.text?
  let lao ← fs.get? "lao" Tree.text?
  let election ← fs.get? "election" Tree.text?
  let createdAt ← fs.get? "created_at" Tree.int64?
  let registeredVotes ← fs.get? "registered_votes" Tree.text?
  some { object, action, lao, election, createdAt, registeredVotes }

end Closing

namespace OptionCount

def toTree (c : OptionCount) : Tree :=
  .record [("ballot_option", .text c.option), ("count", .int c.count.toNat)]

def layout : Layout :=
  ⟨["ballot_option", "count"], 2, true⟩

def ofTree? (t : Tree) : Option OptionCount := do
  let fs ← layout.read? t
  let option ← fs.get? "ballot_option" Tree.text?
  let count ← fs.get? "count" Tree.uint64?
  some { option, count }

end OptionCount

namespace QuestionOutcome

def toTree (q : QuestionOutcome) : Tree :=
  .record [("id", .text q.id), ("result", .array (q.result.map OptionCount.toTree))]

def layout : Layout :=
  ⟨["id", "result"], 2, true⟩

def ofTree? (t : Tree) : Option QuestionOutcome := do
  let fs ← layout.read? t
  let id ← fs.get? "id" Tree.text?
  let result ← fs.get? "result" (Tree.list? OptionCount.ofTree?)
  some { id, result }

end QuestionOutcome

namespace Outcome

def toTree (p : Outcome) : Tree :=
  .record [
    ("object", .text p.object),
    ("action", .text p.action),
    ("questions", .array (p.questions.map QuestionOutcome.toTree))]

def layout : Layout :=
  ⟨["object", "action", "questions"], 3, true⟩

def ofTree? (t : Tree) : Option Outcome := do
  let fs ← layout.read? t
  let object ← fs.get? "object" Tree.text?
  let action ← fs.get? "action" Tree.text?
  let questions ← fs.get? "questions" (Tree.list? QuestionOutcome.ofTree?)
  some { object, action, questions }

end Outcome

-- The five kinds of payload.
inductive Payload.Kind
  | setup
  | opening
  | castVote
  | closing
  | outcome
  deriving DecidableEq, Repr

namespace Payload

-- The object that every payload of an election is about.
def object : String :=
  "election"

namespace Kind

def action : Kind → String
  | setup => "setup"
  | opening => "open"
  | castVote => "cast_vote"
  | closing => "end"
  | outcome => "result"

def ofAction? (s : String) : Option Kind :=
  [setup, opening, castVote, closing, outcome].find? (·.action = s)

def ofTree? : Kind → Tree → Option Payload
  | setup, t => (Setup.ofTree? t).map .setup
  | opening, t => (Opening.ofTree? t).map .opening
  | castVote, t => (CastVote.ofTree? t).map .castVote
  | closing, t => (Closing.ofTree? t).map .closing
  | outcome, t => (Outcome.ofTree? t).map .outcome

end Kind

def kind : Payload → Kind
  | setup _ => .setup
  | opening _ => .opening
  | castVote _ => .castVote
  | closing _ => .closing
  | outcome _ => .outcome

def toTree : Payload → Tree
  | setup p => p.toTree
  | opening p => p.toTree
  | castVote p => p.toTree
  | closing p => p.toTree
  | outcome p => p.toTree

def render (p : Payload) : String :=
  p.toTree.render

end Payload
end Plenum
