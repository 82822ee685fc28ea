namespace Plenum.Toml

-- How a table came about: named on the way to another, made by a dotted key, or defined by its own
-- header. Nothing is defined twice.
inductive Origin
  | implied
  | dotted
  | defined
  deriving DecidableEq, Repr

-- A value, a table, or an array of tables. Numbers, booleans and times are kept without what
-- they denote.
inductive Node
  | text (s : String)
  | other
  | array (items : List Node)
  | record (entries : List (String × Node))
  | table (origin : Origin) (entries : List (String × Node))
  | tables (elements : List (List (String × Node)))

abbrev Entries := List (String × Node)

namespace Entries

def get? (es : Entries) (k : String) : Option Node :=
  es.lookup k

-- Replaces the node under a key that is there.
def set (es : Entries) (k : String) (n : Node) : Entries :=
  es.map fun e => if e.1 = k then (k, n) else e

-- Adds a key that is not there.
def add? (es : Entries) (k : String) (n : Node) : Option Entries :=
  if (es.get? k).isSome then none else some (es ++ [(k, n)])

-- Changes the last of the tables.
def modifyLast? (f : Entries → Option Entries) : List Entries → Option (List Entries)
  | [] => none
  | [es] => (f es).map ([·])
  | es :: rest => (modifyLast? f rest).map (es :: ·)

-- Changes the table that a header names, making the tables on the way.
def at? (f : Entries → Option Entries) : List String → Entries → Option Entries
  | [], es => f es
  | k :: ks, es =>
    match es.get? k with
    | none => do
      let sub ← at? f ks []
      return es ++ [(k, .table .implied sub)]
    | some (.table o sub) => do
      let sub ← at? f ks sub
      return es.set k (.table o sub)
    | some (.tables ts) => do
      let ts ← modifyLast? (at? f ks) ts
      return es.set k (.tables ts)
    | some _ => none

-- A dotted key adds to tables that dotted keys made, also inside tables that are only implied.
def addDotted? (key : String) (n : Node) (origin : Origin) : List String → Entries → Option Entries
  | [], es => if origin = .dotted then es.add? key n else none
  | k :: ks, es =>
    match es.get? k with
    | none => do
      let sub ← addDotted? key n .dotted ks []
      return es ++ [(k, .table .dotted sub)]
    | some (.table o sub) =>
      if o = .defined then none
      else do
        let sub ← addDotted? key n o ks sub
        return es.set k (.table o sub)
    | some (.tables ts) => do
      let ts ← modifyLast? (addDotted? key n .defined ks) ts
      return es.set k (.tables ts)
    | some _ => none

-- Adds a value under a key, which may be dotted: `path` is all of it but the last part.
def put? (es : Entries) (path : List String) (key : String) (n : Node) : Option Entries :=
  if path = [] then es.add? key n else es.addDotted? key n .defined path

-- The header of a table.
def define? (key : String) (es : Entries) : Option Entries :=
  match es.get? key with
  | none => some (es ++ [(key, .table .defined [])])
  | some (.table .implied sub) => some (es.set key (.table .defined sub))
  | some _ => none

-- The header of another element of an array of tables.
def extend? (key : String) (es : Entries) : Option Entries :=
  match es.get? key with
  | none => some (es ++ [(key, .tables [[]])])
  | some (.tables ts) => some (es.set key (.tables (ts ++ [[]])))
  | some _ => none

end Entries
end Plenum.Toml
