namespace Plenum

inductive Fault
  | decode (text : String)
  | schema (text : String)
  | messageId (got expected : String)
  | signature (text : String)
  | duplicate (id : String)
  | unauthorized (text : String)
  | ballot (text : String)
  | unknownQuestion (id : String)
  | request (text : String)
  | notSubscribed
  | unknownChannel (path : String)
  | unknownMethod (name : String)
  | internal (text : String)
  deriving DecidableEq, Repr

namespace Fault

-- The classes are -1 unknown method, -2 no such channel or subscription, -3 already there, -4 bad
-- message, -5 not allowed, -6 internal.
def code : Fault → Int32
  | unknownMethod _ => -1
  | notSubscribed | unknownChannel _ => -2
  | duplicate _ => -3
  | decode _ | schema _ | messageId .. | signature _ | ballot _ | unknownQuestion _ | request _ =>
    -4
  | unauthorized _ => -5
  | internal _ => -6

def text : Fault → String
  | decode t => s!"failed to decode message data: {t}"
  | schema t => s!"failed to verify json schema: {t}"
  | messageId got expected => s!"message_id is {got}, should be {expected}"
  | signature t => s!"invalid signature: {t}"
  | duplicate id => s!"message {id} already exists"
  | unauthorized t => t
  | ballot t => s!"invalid ballot: {t}"
  | unknownQuestion id => s!"no question with question id {id} exists"
  | request t => t
  | notSubscribed => "client is not subscribed to this channel"
  | unknownChannel path => s!"channel {path} does not exist"
  | unknownMethod name => s!"unknown method: {name}"
  | internal t => s!"internal error: {t}"

end Fault

-- A text or byte string that could not be read at all, by what it should have been.
inductive Unreadable
  | json
  | base64
  | key
  | signature
  deriving DecidableEq, Repr

def Unreadable.text : Unreadable → String
  | json => "<json error>"
  | base64 => "<base64 error>"
  | key => "<key error>"
  | signature => "<signature error>"

end Plenum
