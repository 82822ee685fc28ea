import Plenum.Message

namespace Plenum

-- A log with the ids that are reserved. A message is stored directly, or its id is reserved first
-- and then committed with the message or released.
structure Inbox where
  messages : List Message
  pending : List String
  deriving DecidableEq, Repr

namespace Inbox

def empty : Inbox :=
  ⟨[], []⟩

def has (i : Inbox) (id : String) : Bool :=
  i.messages.any (·.id = id)

-- Appends a message unless its id is stored. Ids that are only reserved do not count.
def store (i : Inbox) (m : Message) : Inbox :=
  if i.has m.id then i else { i with messages := i.messages ++ [m] }

-- The last message of an id.
def get? (i : Inbox) (id : String) : Option Message :=
  i.messages.reverse.find? (·.id = id)

def reserve (i : Inbox) (id : String) : Except Fault Inbox :=
  if i.has id ∨ id ∈ i.pending then .error (.duplicate id)
  else .ok { i with pending := id :: i.pending }

def release (i : Inbox) (id : String) : Inbox :=
  { i with pending := i.pending.filter (· ≠ id) }

-- Turns the reservation of `id` into the message `m`, which must be the one of that id.
def commit (i : Inbox) (id : String) (m : Message) : Except Fault Inbox :=
  if m.id = id then .ok { (i.release id) with messages := i.messages ++ [m] }
  else .error (.internal s!"reservation for {id} committed with {m.id}")

end Inbox
end Plenum
