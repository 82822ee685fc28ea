import Plenum.Table

namespace Plenum

structure Socket where
  id : String
  queue : String
  deriving DecidableEq, Repr

-- One line for one queue.
structure Delivery where
  queue : String
  line : String
  deriving DecidableEq, Repr

-- Lines that wait to be taken, until nobody takes them any more. A line that does not fit is lost.
structure Queue where
  capacity : Nat
  lines : List String
  closed : Bool
  deriving DecidableEq, Repr

namespace Queue

def empty (capacity : Nat) : Queue :=
  ⟨capacity, [], false⟩

-- Whether another line is taken in.
def hasRoom (q : Queue) : Bool :=
  !q.closed && q.lines.length < q.capacity

def offer (q : Queue) (line : String) : Queue :=
  if q.hasRoom then { q with lines := q.lines ++ [line] } else q

-- Takes all lines; there are none to take from a closed queue.
def take (q : Queue) : Option (List String) × Queue :=
  if q.closed then (none, q) else (some q.lines, { q with lines := [] })

def close (q : Queue) : Queue :=
  { q with lines := [], closed := true }

end Queue

abbrev Queues := Table Queue

namespace Queues

def hasRoom (qs : Queues) (name : String) : Bool :=
  match Table.get? qs name with
  | some q => q.hasRoom
  | none => false

def deliver (qs : Queues) (d : Delivery) : Queues :=
  match Table.get? qs d.queue with
  | some q => Table.insert qs d.queue (q.offer d.line)
  | none => qs

def deliverAll (qs : Queues) (ds : List Delivery) : Queues :=
  ds.foldl deliver qs

end Queues

-- The sockets of a channel: the queue of each name.
abbrev Sockets := Table String

namespace Sockets

-- Adds a socket in place of another of the same name.
def add (ss : Sockets) (s : Socket) : Sockets :=
  Table.insert ss s.id s.queue

-- The same line for every socket.
def fanOut (ss : Sockets) (line : String) : List Delivery :=
  ss.map fun s => ⟨s.2, line⟩

end Sockets
end Plenum
