import Plenum.Message

namespace Plenum

open Json

-- A broadcast is also what a hub sends to subscribers. It alone may come without an id, and then no
-- answer is due.
inductive Query
  | subscribe (version : String) (id : Int64) (channel : String)
  | unsubscribe (version : String) (id : Int64) (channel : String)
  | publish (version : String) (id : Int64) (channel : String) (message : Message)
  | broadcast (version : String) (id : Option Int64) (channel : String) (message : Message)
  | catchup (version : String) (id : Int64) (channel : String)
  deriving DecidableEq, Repr

inductive Query.Method
  | subscribe
  | unsubscribe
  | publish
  | broadcast
  | catchup
  deriving DecidableEq, Repr

-- The version of the protocol that is written, and assumed where a request names none.
def protocolVersion : String :=
  "2.0"

namespace Query

namespace Method

def name : Method → String
  | subscribe => "subscribe"
  | unsubscribe => "unsubscribe"
  | publish => "publish"
  | broadcast => "broadcast"
  | catchup => "catchup"

def ofName? (s : String) : Option Method :=
  [subscribe, unsubscribe, publish, broadcast, catchup].find? (·.name = s)

end Method

def id? : Query → Option Int64
  | subscribe _ id _ | unsubscribe _ id _ | publish _ id _ _ | catchup _ id _ => some id
  | broadcast _ id _ _ => id

def channel : Query → String
  | subscribe _ _ c | unsubscribe _ _ c | publish _ _ c _ | broadcast _ _ c _ | catchup _ _ c => c

def message? : Query → Option Message
  | publish _ _ _ m | broadcast _ _ _ m => some m
  | _ => none

def method : Query → Method
  | subscribe .. => .subscribe
  | unsubscribe .. => .unsubscribe
  | publish .. => .publish
  | broadcast .. => .broadcast
  | catchup .. => .catchup

def version : Query → String
  | subscribe v _ _ | unsubscribe v _ _ | publish v _ _ _ | broadcast v _ _ _ | catchup v _ _ => v

-- The line that tells subscribers of `channel` about `message`.
def notification (channel : String) (message : Message) : Query :=
  broadcast protocolVersion none channel message

def idMember : Option Int64 → List (String × Tree)
  | none => []
  | some id => [("id", .int id.toInt)]

def messageMember : Option Message → List (String × Tree)
  | none => []
  | some m => [("message", m.toTree)]

def toTree (q : Query) : Tree :=
  .record ([("method", .text q.method.name), ("jsonrpc", .text q.version)] ++ idMember q.id? ++
    [("params", .record (("channel", .text q.channel) :: messageMember q.message?))])

def render (q : Query) : String :=
  q.toTree.render

def layout : Layout :=
  ⟨["jsonrpc", "id", "params"], 3, false⟩

def channelLayout : Layout :=
  ⟨["channel"], 1, false⟩

def messageLayout : Layout :=
  ⟨["channel", "message"], 2, false⟩

def channel? (t : Tree) : Option String := do
  let fs ← channelLayout.read? t
  fs.get? "channel" Tree.text?

def addressed? (t : Tree) : Option (String × Message) := do
  let fs ← messageLayout.read? t
  let channel ← fs.get? "channel" Tree.text?
  let message ← fs.get? "message" Message.ofTree?
  some (channel, message)

-- Reads a request of a known method.
def ofTree? (m : Method) (t : Tree) : Option Query := do
  let fs ← layout.read? t
  let version ← fs.getD? "jsonrpc" protocolVersion Tree.text?
  match m with
  | .subscribe => some (subscribe version (← fs.get? "id" Tree.int64?) (← fs.get? "params" channel?))
  | .unsubscribe =>
    some (unsubscribe version (← fs.get? "id" Tree.int64?) (← fs.get? "params" channel?))
  | .publish =>
    let id ← fs.get? "id" Tree.int64?
    let (channel, message) ← fs.get? "params" addressed?
    some (publish version id channel message)
  | .broadcast =>
    let id ← fs.getD? "id" none (Tree.nullable? Tree.int64?)
    let (channel, message) ← fs.get? "params" addressed?
    some (broadcast version id channel message)
  | .catchup => some (catchup version (← fs.get? "id" Tree.int64?) (← fs.get? "params" channel?))

def parse (line : String) : Except Fault Query :=
  match Tree.readWhole? (Glyph.ofText line) with
  | none => .error (.decode s!"invalid JSON-RPC request: {Unreadable.json.text}")
  | some t =>
    match (t.member? "method").bind Tree.text? with
    | none => .error (.decode "missing method")
    | some name =>
      match Method.ofName? name with
      | none => .error (.unknownMethod name)
      | some m =>
        match ofTree? m t with
        | none => .error (.decode s!"invalid {name} request: {Unreadable.json.text}")
        | some q => .ok q

end Query
end Plenum
