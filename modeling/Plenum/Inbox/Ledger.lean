import Plenum.Inbox
import Plenum.Table

namespace Plenum

-- A claim on an id by an admission under way. Whoever has it commits it or drops it.
structure Reservation where
  id : String
  committed : Bool
  deriving DecidableEq, Repr

-- A log with a table of where the message of an id is.
structure Ledger where
  messages : List Message
  index : Table Nat
  pending : List String
  deriving DecidableEq, Repr

namespace Ledger

def empty : Ledger :=
  ⟨[], [], []⟩

def length (l : Ledger) : Nat :=
  l.messages.length

def isEmpty (l : Ledger) : Bool :=
  l.length = 0

def append (l : Ledger) (m : Message) : Ledger :=
  { l with index := Table.insert l.index m.id l.length, messages := l.messages ++ [m] }

-- Appends a message unless its id has a position. Ids that are only reserved do not count.
def store (l : Ledger) (m : Message) : Ledger :=
  if Table.contains l.index m.id then l else l.append m

-- The message at the position of an id. The error is a position at which there is no message,
-- where the server would come to its end.
def find (l : Ledger) (id : String) : Except Nat (Option Message) :=
  match Table.get? l.index id with
  | none => .ok none
  | some i =>
    match l.messages[i]? with
    | some m => .ok (some m)
    | none => .error i

def claim (l : Ledger) (id : String) : Ledger :=
  { l with pending := id :: l.pending }

def release (l : Ledger) (id : String) : Ledger :=
  { l with pending := l.pending.filter (· ≠ id) }

def reserve (l : Ledger) (id : String) : Except Fault (Ledger × Reservation) :=
  if Table.contains l.index id ∨ id ∈ l.pending then .error (.duplicate id)
  else .ok (l.claim id, ⟨id, false⟩)

-- The end of a reservation, which gives its id back unless it was committed.
def drop (l : Ledger) (r : Reservation) : Ledger :=
  if r.committed then l else l.release r.id

-- What a commit leaves, what its fan-out has seen, and how it ended.
structure Admission where
  ledger : Ledger
  seen : List Message
  outcome : Except Fault Unit

-- A reservation is used up by this, also where the message is not the one of its id. The fan-out
-- sees what is then the last message.
def commit (l : Ledger) (r : Reservation) (m : Message) : Admission :=
  if m.id ≠ r.id then
    ⟨l.drop r, [], .error (.internal s!"reservation for {r.id} committed with {m.id}")⟩
  else
    let stored := (l.release r.id).append m
    ⟨stored.drop { r with committed := true }, stored.messages.getLast?.toList, .ok ()⟩

end Ledger

-- A ledger in use: the reservations that are alive, each in a slot of its own, and all that the
-- fan-outs have seen so far.
structure Desk where
  ledger : Ledger
  held : Table Reservation
  seen : List Message
  deriving DecidableEq, Repr

namespace Desk

inductive Call
  | store (m : Message)
  | get (id : String)
  | list
  | reserve (slot id : String)
  | drop (slot : String)
  | commit (slot : String) (m : Message)
  deriving DecidableEq, Repr

inductive Result
  | done
  | found (m? : Option Message)
  | astray (position : Nat)
  | listed (ms : List Message)
  | reserved (id : String)
  | vacant
  | committed (seen : List Message)
  | refused (f : Fault)
  deriving DecidableEq, Repr

def empty : Desk :=
  ⟨.empty, [], []⟩

-- Drops the reservation in a slot, if there is one.
def vacate (d : Desk) (slot : String) : Desk :=
  match Table.get? d.held slot with
  | none => d
  | some r => { d with ledger := d.ledger.drop r, held := Table.erase d.held slot }

-- A reservation that is made for a slot in use takes the place of the one that was there, which
-- is dropped once the new one is made.
def reserve (d : Desk) (slot id : String) : Desk × Result :=
  match d.ledger.reserve id with
  | .error f => (d, .refused f)
  | .ok (ledger, r) =>
    let d := { d with ledger }.vacate slot
    ({ d with held := Table.insert d.held slot r }, .reserved r.id)

def commit (d : Desk) (slot : String) (m : Message) : Desk × Result :=
  match Table.get? d.held slot with
  | none => (d, .vacant)
  | some r =>
    let a := d.ledger.commit r m
    (⟨a.ledger, Table.erase d.held slot, d.seen ++ a.seen⟩,
      match a.outcome with
      | .error f => .refused f
      | .ok () => .committed a.seen)

def step (d : Desk) : Call → Desk × Result
  | .store m => ({ d with ledger := d.ledger.store m }, .done)
  | .get id =>
    (d, match d.ledger.find id with
      | .ok m? => .found m?
      | .error i => .astray i)
  | .list => (d, .listed d.ledger.messages)
  | .reserve slot id => d.reserve slot id
  | .drop slot => (d.vacate slot, if Table.contains d.held slot then .done else .vacant)
  | .commit slot m => d.commit slot m

end Desk
end Plenum
