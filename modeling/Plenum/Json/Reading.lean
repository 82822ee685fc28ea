import Plenum.Json.Tree

namespace Plenum.Json

-- How deep arrays and objects may nest in a tree that is read as a whole.
def maxDepth : Nat :=
  127

namespace Tree

mutual

-- Whether every string and number can be read and no container is nested deeper than `depth`.
def isSound (depth : Nat) : Tree → Bool
  | null => true
  | bool _ => true
  | number n => !n.isHuge
  | string s => s.isSome
  | array vs => depth ≠ 0 && areSound (depth - 1) vs
  | object ms => depth ≠ 0 && membersSound (depth - 1) ms

def areSound (depth : Nat) : List Tree → Bool
  | [] => true
  | v :: vs => isSound depth v && areSound depth vs

def membersSound (depth : Nat) : List (Option String × Tree) → Bool
  | [] => true
  | (k, v) :: ms => k.isSome && isSound depth v && membersSound depth ms

end

mutual

-- The tree with only the last of the members of one name, in every object.
def lastWins : Tree → Tree
  | array vs => array (lastWinsAll vs)
  | object ms => object (lastWinsMembers ms)
  | t => t

def lastWinsAll : List Tree → List Tree
  | [] => []
  | v :: vs => lastWins v :: lastWinsAll vs

def lastWinsMembers : List (Option String × Tree) → List (Option String × Tree)
  | [] => []
  | (k, v) :: ms =>
    let rest := lastWinsMembers ms
    if ms.any (·.1 = k) then rest else (k, lastWins v) :: rest

end

-- Reads a whole text into a tree.
def readWhole? (gs : List Glyph) : Option Tree := do
  let t ← parse gs
  if t.isSound maxDepth then some t.lastWins else none

def text? : Tree → Option String
  | string s => s
  | _ => none

def bool? : Tree → Option Bool
  | bool b => some b
  | _ => none

def int? : Tree → Option Int
  | number n => n.int?
  | _ => none

def int64? (t : Tree) : Option Int64 := do
  let n ← t.int?
  if Int64.minValue.toInt ≤ n ∧ n ≤ Int64.maxValue.toInt then some (.ofInt n) else none

def int32? (t : Tree) : Option Int32 := do
  let n ← t.int?
  if Int32.minValue.toInt ≤ n ∧ n ≤ Int32.maxValue.toInt then some (.ofInt n) else none

def uint64? (t : Tree) : Option UInt64 := do
  let n ← t.int?
  if 0 ≤ n ∧ n < UInt64.size then some (.ofNat n.toNat) else none

-- A list, read item by item.
def list? {α : Type} (item? : Tree → Option α) : Tree → Option (List α)
  | array vs => vs.mapM item?
  | _ => none

-- A value that may be `null`.
def nullable? {α : Type} (value? : Tree → Option α) : Tree → Option (Option α)
  | null => some none
  | t => (value? t).map some

-- The member of a name in an object, the last one if there are several.
def member? (name : String) : Tree → Option Tree
  | object ms => (ms.reverse.find? (·.1 = some name)).map (·.2)
  | _ => none

end Tree

-- The fields of a record that have a value.
abbrev Fields := List (String × Tree)

-- The names of a record's fields in order, how many of them an array must give at least, and
-- whether other names are refused.
structure Layout where
  names : List String
  least : Nat
  closed : Bool

namespace Layout

-- A known name stands once. The value of an unknown name is not looked at.
def fields? (l : Layout) : List (Option String × Tree) → Option Fields
  | [] => some []
  | (none, _) :: _ => none
  | (some k, v) :: ms => do
    let more ← fields? l ms
    if k ∈ l.names then
      if (more.lookup k).isSome then none else some ((k, v) :: more)
    else if l.closed then none
    else some more

def read? (l : Layout) : Tree → Option Fields
  | .array vs =>
    if l.least ≤ vs.length ∧ vs.length ≤ l.names.length then some (l.names.zip vs) else none
  | .object ms => l.fields? ms
  | _ => none

end Layout

namespace Fields

variable {α : Type}

-- A field that must be there.
def get? (fs : Fields) (name : String) (value? : Tree → Option α) : Option α :=
  (fs.lookup name).bind value?

-- A field that stands for `default` where it is absent.
def getD? (fs : Fields) (name : String) (default : α) (value? : Tree → Option α) : Option α :=
  match fs.lookup name with
  | none => some default
  | some t => value? t

end Fields
end Plenum.Json
