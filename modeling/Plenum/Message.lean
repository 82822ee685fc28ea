import Plenum.Json.Reading
import Plenum.Suite

namespace Plenum

open Json

structure WitnessSignature where
  witness : String
  signature : String
  deriving DecidableEq, Repr

-- The data are the payload in base 64. The signature is the sender's over the payload, and the id
-- is made of the spellings of both.
structure Message where
  data : String
  sender : String
  signature : String
  id : String
  witnesses : List WitnessSignature
  deriving DecidableEq, Repr

namespace WitnessSignature

def toTree (w : WitnessSignature) : Tree :=
  .record [("witness", .text w.witness), ("signature", .text w.signature)]

def layout : Layout :=
  ⟨["witness", "signature"], 2, false⟩

def ofTree? (t : Tree) : Option WitnessSignature := do
  let fs ← layout.read? t
  let witness ← fs.get? "witness" Tree.text?
  let signature ← fs.get? "signature" Tree.text?
  some { witness, signature }

end WitnessSignature

namespace Message

def toTree (m : Message) : Tree :=
  .record [
    ("data", .text m.data),
    ("sender", .text m.sender),
    ("signature", .text m.signature),
    ("message_id", .text m.id),
    ("witness_signatures", .array (m.witnesses.map WitnessSignature.toTree))]

def layout : Layout :=
  ⟨["data", "sender", "signature", "message_id", "witness_signatures"], 4, false⟩

def ofTree? (t : Tree) : Option Message := do
  let fs ← layout.read? t
  let data ← fs.get? "data" Tree.text?
  let sender ← fs.get? "sender" Tree.text?
  let signature ← fs.get? "signature" Tree.text?
  let id ← fs.get? "message_id" Tree.text?
  let witnesses ← fs.getD? "witness_signatures" [] (Tree.list? WitnessSignature.ofTree?)
  some { data, sender, signature, id, witnesses }

-- The message as one line of JSON.
def render (m : Message) : String :=
  m.toTree.render

def read? (s : String) : Option Message :=
  (parse (Glyph.ofText s)).bind ofTree?

-- The message that a host makes of a payload.
def sign (h : Host) (payload : Bytes) : Message :=
  let data := Base64.encode payload
  let signature := Base64.encode (h.sign payload).toList
  { data
    sender := h.publicText
    signature
    id := h.suite.identifier [data, signature]
    witnesses := [] }

-- The payload.
def payload (m : Message) : Except Fault Bytes :=
  match Base64.decode? m.data with
  | none => .error (.decode Unreadable.base64.text)
  | some b => .ok b

-- The identifier that the message has to carry.
def expectedId (S : Suite) (m : Message) : String :=
  S.identifier [m.data, m.signature]

-- The identifier is checked first. It covers neither the sender nor the witnesses.
def verify (S : Suite) (m : Message) (payload : Bytes) : Except Fault Key := do
  if m.expectedId S ≠ m.id then throw (.messageId m.id (m.expectedId S))
  let k ← S.readKey m.sender
  S.check k payload m.signature
  return k

end Message
end Plenum
