import Plenum.Config.Arguments
import Plenum.Config.KeyFile
import Plenum.Service
import Std.Async.DNS
import Std.Async.TCP
import Std.Sync.Mutex

namespace Plenum.Program

open Std Std.Async Std.Net

def succeeds (act : IO Unit) : IO Bool := do
  try
    act
    return true
  catch _ => return false

-- A file that may not be read is there all the same.
def disk : Config.Store IO where
  exists? path := do
    try
      let _ ← IO.FS.Handle.mk path .read
      return true
    catch
      | .permissionDenied .. => return true
      | _ => return false
  read? path := do
    try
      return some (← IO.FS.readBinFile path).toList
    catch _ => return none
  makeDirectories path := succeeds (IO.FS.createDirAll path)
  write path content := succeeds (IO.FS.writeFile path content)

def freshSeed : IO Seed := do
  let b ← IO.getRandomBytes 32
  return Vector.ofFn fun i => b.get! i.val

-- What the clients share. Each is served in two tasks of its own, one for each direction.
structure Shared where
  host : Host
  limit : Nat
  service : Mutex Service
  changed : Condvar

namespace Shared

-- Changes the service and wakes those who wait for lines.
def update {α : Type} (s : Shared) (f : Service → α × Service) : IO α := do
  let a ← s.service.atomically (modifyGet f)
  s.changed.notifyAll
  return a

-- Waits for lines; there are none only if the connection has ended.
def nextLines (s : Shared) (socket : Socket) (ended : IO.Ref Bool) : IO (List String) :=
  s.service.atomicallyOnce s.changed
    (do return !((← get).collect socket).1.isEmpty || (← ended.get))
    (modifyGet (·.collect socket))

end Shared

partial def write (s : Shared) (client : TCP.Socket.Client) (socket : Socket)
    (ended : IO.Ref Bool) : IO Unit := do
  let lines ← s.nextLines socket ended
  if lines.isEmpty then return
  (client.send (String.join (lines.map (· ++ "\n"))).toUTF8).block
  write s client socket ended

partial def read (s : Shared) (client : TCP.Socket.Client) (c : Connection) : IO Unit := do
  let received ← try (client.recv? 65536).block catch _ => pure none
  let step : Service → Connection × Service := fun v =>
    let (v, c) := match received with
      | some b => c.feed s.host s.limit v b.toList
      | none => c.finish s.host s.limit v
    (c, v)
  let c ← s.update step
  unless c.ended do read s client c

-- Serves a client until it leaves and has its last lines.
def serve (s : Shared) (client : TCP.Socket.Client) (name : String) : IO Unit := do
  let socket : Socket := ⟨name, name⟩
  let ended ← IO.mkRef false
  s.update fun v => ((), v.join socket)
  let writer ← IO.asTask (write s client socket ended) .dedicated
  read s client (.start socket)
  ended.set true
  s.changed.notifyAll
  let _ ← IO.wait writer
  s.update fun v => ((), v.leave socket)
  client.shutdown.block

partial def accept (s : Shared) (server : TCP.Socket.Server) : IO Unit := do
  let client ← server.accept.block
  let peer ← client.getPeerName
  let _ ← IO.asTask (serve s client s!"{peer.ipAddr}:{peer.port}") .dedicated
  accept s server

def resolve (host : String) (port : UInt16) : IO SocketAddress := do
  let found : Array IPAddr ← (DNS.getAddrInfo host (toString port)).block
  match found.toList with
  | .v4 a :: _ => return .v4 ⟨a, port⟩
  | .v6 a :: _ => return .v6 ⟨a, port⟩
  | [] => throw (IO.userError s!"no address for {host}")

def orFail {α : Type} : Except Config.Problem α → IO α
  | .ok a => return a
  | .error p =>
    throw (IO.userError (p.text ++ (p.cause?.map fun f => s!": {f.text}").getD ""))

def registerFile (h : Host) (path : Option String) : IO Hub := do
  match path with
  | none => return .empty
  | some path =>
    let entries ← orFail (Config.LaoFile.load h.suite path (← disk.read? path))
    return Config.LaoFile.registerAll h.suite .empty entries

def run (settings : Config.Settings) : IO Unit := do
  let some (host, port) := settings.hostAndPort?
    | throw (IO.userError "invalid socket address")
  let server ← TCP.Socket.Server.mk
  server.bind (← resolve host port)
  server.listen 1024
  let h ← orFail (← Config.KeyFile.load Suite.standard disk (← freshSeed) settings.keyFile)
  let hub ← registerFile h settings.laoFile
  IO.eprintln s!"listening on {settings.listenAddress} as {h.publicText}"
  accept ⟨h, settings.maxLineLength, ← Mutex.new ⟨hub, []⟩, ← Condvar.new⟩ server

def environment : IO (List (String × String)) := do
  let found ← (Config.Setting.all.filterMap (·.environmentName?)).mapM fun name => do
    return (← IO.getEnv name).map fun value => (name, value)
  return found.filterMap id

end Plenum.Program

def main (arguments : List String) : IO UInt32 := do
  match Plenum.Config.Settings.read arguments (← Plenum.Program.environment) with
  | .ok settings =>
    try
      Plenum.Program.run settings
      return 0
    catch e =>
      IO.eprintln s!"Error: {e}"
      return 1
  | .error .displayHelp =>
    IO.println Plenum.Config.Settings.usage
    return 0
  | .error e =>
    IO.eprintln s!"error: {e.text}"
    return 2
