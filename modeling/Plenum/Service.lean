import Plenum.Hub
import Plenum.Text.Blank

namespace Plenum

namespace Bytes

def lineFeed : UInt8 :=
  10

-- Puts a byte in front of lines; a line feed is a line of its own.
def consLine (b : UInt8) (ls : List Bytes) : List Bytes :=
  if b = lineFeed then [b] :: ls
  else
    match ls with
    | [] => [[b]]
    | l :: ls => (b :: l) :: ls

-- The lines of a stream, each with its line feed; the last may be without.
def lines (b : Bytes) : List Bytes :=
  b.foldr consLine []

theorem flatten_consLine (b : UInt8) (ls : List Bytes) :
    (consLine b ls).flatten = b :: ls.flatten := by
  unfold consLine
  split
  · rfl
  · cases ls <;> rfl

theorem flatten_lines (b : Bytes) : (lines b).flatten = b := by
  induction b with
  | nil => rfl
  | cons b bs ih => simpa [lines, flatten_consLine] using ih

-- Whether a line is complete.
def endsLine (l : Bytes) : Bool :=
  l.getLast? = some lineFeed

end Bytes

-- What a line turns out to be.
inductive Incoming
  | request (line : String)
  | blank
  | tooLong
  | unreadable
  deriving DecidableEq, Repr

-- The length of a line counts its line feed.
def Incoming.ofBytes (limit : Nat) (l : Bytes) : Incoming :=
  match l.text? with
  | none => unreadable
  | some s =>
    if limit < l.length then tooLong
    else
      let s := Text.trim s
      if s = "" then blank else request s

-- Everything that goes to the queues because of a request, in order.
def Reply.deliveries (r : Reply) (s : Socket) : List Delivery :=
  r.sent ++ (r.answer.map fun a => ⟨s.queue, a.render⟩).toList

structure Service where
  hub : Hub
  queues : Queues
  deriving DecidableEq

namespace Service

-- How many lines may wait for a client.
def queueCapacity : Nat :=
  4096

-- Opens the queue of a socket.
def join (v : Service) (s : Socket) : Service :=
  { v with queues := Table.insert v.queues s.queue (.empty queueCapacity) }

-- Takes the lines that wait for a socket.
def collect (v : Service) (s : Socket) : List String × Service :=
  match Table.get? v.queues s.queue with
  | none => ([], v)
  | some q => (q.take.1.getD [], { v with queues := Table.insert v.queues s.queue q.take.2 })

-- Forgets the queue of a socket.
def leave (v : Service) (s : Socket) : Service :=
  { v with queues := Table.erase v.queues s.queue }

def take (v : Service) (r : Reply) (s : Socket) : Service :=
  ⟨r.hub, v.queues.deliverAll (r.deliveries s)⟩

def overlong (limit : Nat) : Fault :=
  .decode s!"request exceeds {limit} bytes"

-- Hears one line. Nothing comes back if the connection ends with it.
def hear (h : Host) (limit : Nat) (v : Service) (s : Socket) (l : Bytes) : Option Service :=
  match Incoming.ofBytes limit l with
  | .unreadable => none
  | .blank => some v
  | .tooLong => some (v.take ⟨v.hub, [], some (.fault none (overlong limit))⟩ s)
  | .request line => some (v.take (v.hub.handleLine h line s) s)

-- Ends a connection: its socket leaves every election.
def hangUp (v : Service) (s : Socket) : Service :=
  { v with hub := v.hub.removeSocket s.id }

-- Hears lines one after another until they end or the connection does.
def hearAll (h : Host) (limit : Nat) (v : Service) (s : Socket) : List Bytes → Service × Bool
  | [] => (v, true)
  | l :: ls =>
    match v.hear h limit s l with
    | none => (v, false)
    | some v => hearAll h limit v s ls

-- A whole connection: all that the client sends, and the end.
def converse (h : Host) (limit : Nat) (v : Service) (s : Socket) (stream : Bytes) : Service :=
  (v.hearAll h limit s stream.lines).1.hangUp s

end Service

-- The reading side of a connection: the start of a line that is not complete yet, and whether
-- the connection has ended.
structure Connection where
  socket : Socket
  rest : Bytes
  ended : Bool
  deriving DecidableEq

namespace Connection

def start (s : Socket) : Connection :=
  ⟨s, [], false⟩

-- Takes bytes as they come; a line that is not complete waits.
def feed (h : Host) (limit : Nat) (v : Service) (c : Connection) (b : Bytes) :
    Service × Connection :=
  if c.ended then (v, c)
  else
    let ls := (c.rest ++ b).lines
    let rest := (ls.filter (!Bytes.endsLine ·)).flatten
    let (v, alive) := v.hearAll h limit c.socket (ls.filter Bytes.endsLine)
    if alive then (v, { c with rest })
    else (v.hangUp c.socket, { c with rest := [], ended := true })

-- The client sends no more: what is left is its last line.
def finish (h : Host) (limit : Nat) (v : Service) (c : Connection) : Service × Connection :=
  if c.ended then (v, c)
  else
    let (v, _) := v.hearAll h limit c.socket c.rest.lines
    (v.hangUp c.socket, { c with rest := [], ended := true })

end Connection
end Plenum
