import Plenum.Fault
import Plenum.Payload

namespace Plenum

open Json

-- What a payload is about and what it does.
structure Header where
  object : String
  action : String
  deriving DecidableEq, Repr

namespace Header

def layout : Layout :=
  ⟨["object", "action"], 2, false⟩

def ofTree? (t : Tree) : Option Header := do
  let fs ← layout.read? t
  let object ← fs.get? "object" Tree.text?
  let action ← fs.get? "action" Tree.text?
  some { object, action }

def read (b : Bytes) : Except Fault Header :=
  match (parse (Glyph.ofBytes b)).bind ofTree? with
  | none => .error (.decode s!"failed to read object/action: {Unreadable.json.text}")
  | some h => .ok h

-- The kind of payload that the header names.
def kind? (h : Header) : Option Payload.Kind :=
  if h.object = Payload.object then Payload.Kind.ofAction? h.action else none

def isKnown (h : Header) : Bool :=
  h.kind?.isSome

end Header

namespace Payload

def decode (b : Bytes) : Except Fault Payload := do
  let h ← Header.read b
  match h.kind? with
  | none =>
    throw (.request s!"no handler for {h.object}#{h.action} on an election channel")
  | some k =>
    match (parse (Glyph.ofBytes b)).bind k.ofTree? with
    | none => throw (.schema s!"{h.object}#{h.action}: {Unreadable.json.text}")
    | some p => return p

-- A member of an object that is a text and not empty.
def tag (t : Tree) (name : String) : Except Fault String :=
  match (t.member? name).bind Tree.text? with
  | some s =>
    if s = "" then .error (.schema s!"missing or empty string field '{name}'") else .ok s
  | none => .error (.schema s!"missing or empty string field '{name}'")

-- Whether the payload is an object with its two tags and, if its kind is known, the shape of
-- that kind.
def validate (b : Bytes) : Except Fault Unit :=
  match Tree.readWhole? (Glyph.ofBytes b) with
  | none => .error (.schema s!"payload is not JSON: {Unreadable.json.text}")
  | some (.object ms) => do
    let object ← tag (.object ms) "object"
    let action ← tag (.object ms) "action"
    if Header.isKnown ⟨object, action⟩ then
      match decode b with
      | .ok _ => return ()
      | .error (.schema text) => throw (.schema text)
      | .error f => throw (.schema f.text)
    else return ()
  | some _ => .error (.schema "payload must be a JSON object")

-- The bytes that a payload is sent as.
def encode (p : Payload) : Bytes :=
  Bytes.ofText p.render

end Payload
end Plenum
