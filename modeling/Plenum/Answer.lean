import Plenum.Query

namespace Plenum

open Json

inductive Answer.Result
  | number (n : Int32)
  | messages (ms : List Message)
  deriving DecidableEq, Repr

structure Answer.Error where
  code : Int32
  description : String
  deriving DecidableEq, Repr

-- A result or an error, under the id of the request.
structure Answer where
  version : String
  id : Option Int64
  result : Option Answer.Result
  error : Option Answer.Error
  deriving DecidableEq, Repr

namespace Answer

def ok (id : Option Int64) : Answer :=
  ⟨protocolVersion, id, some (.number 0), none⟩

def log (id : Option Int64) (ms : List Message) : Answer :=
  ⟨protocolVersion, id, some (.messages ms), none⟩

def fault (id : Option Int64) (f : Fault) : Answer :=
  ⟨protocolVersion, id, none, some ⟨f.code, f.text⟩⟩

def isError (a : Answer) : Bool :=
  a.error.isSome

namespace Result

def toTree : Result → Tree
  | number n => .int n.toInt
  | messages ms => .array (ms.map Message.toTree)

def ofTree? : Tree → Option Result
  | .array vs => ((Tree.array vs).list? Message.ofTree?).map messages
  | t => t.int32?.map number

end Result

namespace Error

def toTree (e : Error) : Tree :=
  .record [("code", .int e.code.toInt), ("description", .text e.description)]

def layout : Layout :=
  ⟨["code", "description"], 2, false⟩

def ofTree? (t : Tree) : Option Error := do
  let fs ← layout.read? t
  let code ← fs.get? "code" Tree.int32?
  let description ← fs.get? "description" Tree.text?
  some { code, description }

end Error

def toTree (a : Answer) : Tree :=
  .record ([("jsonrpc", .text a.version),
      ("id", match a.id with | none => .null | some id => .int id.toInt)] ++
    (match a.result with | none => [] | some r => [("result", r.toTree)]) ++
    (match a.error with | none => [] | some e => [("error", e.toTree)]))

def render (a : Answer) : String :=
  a.toTree.render

def layout : Layout :=
  ⟨["jsonrpc", "id", "result", "error"], 2, false⟩

-- What kind of result it is shows only once it has been read as a whole, one level down.
def ofTree? (t : Tree) : Option Answer := do
  let fs ← layout.read? t
  let version ← fs.get? "jsonrpc" Tree.text?
  let id ← fs.getD? "id" none (Tree.nullable? Tree.int64?)
  let result ← fs.getD? "result" none fun t =>
    if t.isSound (maxDepth - 1) then Tree.nullable? Result.ofTree? t else none
  let error ← fs.getD? "error" none (Tree.nullable? Error.ofTree?)
  some { version, id, result, error }

def read? (s : String) : Option Answer :=
  (parse (Glyph.ofText s)).bind ofTree?

end Answer
end Plenum
