import Plenum.Inbox
import Plenum.Query
import Plenum.Turn

namespace Plenum

structure Channel where
  path : String
  sockets : Sockets
  inbox : Inbox
  deriving DecidableEq, Repr

namespace Channel

def empty (path : String) : Channel :=
  ⟨path, [], .empty⟩

def subscribe (c : Channel) (s : Socket) : Channel :=
  { c with sockets := c.sockets.add s }

def unsubscribe (c : Channel) (id : String) : Except Fault Channel :=
  if Table.contains c.sockets id then .ok { c with sockets := Table.erase c.sockets id }
  else .error .notSubscribed

def removeSocket (c : Channel) (id : String) : Channel :=
  { c with sockets := Table.erase c.sockets id }

-- The line that announces a message of this channel.
def announcement (c : Channel) (m : Message) : String :=
  (Query.notification c.path m).render

def release (c : Channel) (id : String) : Channel :=
  { c with inbox := c.inbox.release id }

-- Logs the message whose id is reserved and announces it.
def commit (c : Channel) (id : String) (m : Message) : Turn Channel Unit :=
  match c.inbox.commit id m with
  | .error f => .refuse (c.release id) f
  | .ok inbox => ⟨{ c with inbox }, c.sockets.fanOut (c.announcement m), .ok ()⟩

end Channel
end Plenum
