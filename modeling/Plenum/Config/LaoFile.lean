import Plenum.Hub
import Plenum.Toml.Document

namespace Plenum.Config

open Toml

structure LaoEntry where
  id : String
  organizer : String
  attendees : List String
  deriving DecidableEq, Repr

-- What can be wrong with the configuration, with the file or id it is about.
inductive Problem
  | unreadableLaos (path : String)
  | badLaos (path : String)
  | badOrganizer (lao : String) (cause : Fault)
  | unreadableKey (path : String)
  | badKey (path : String) (cause : Fault)
  | noDirectory (path : String)
  | unwritableKey (path : String)
  deriving DecidableEq, Repr

namespace Problem

def text : Problem → String
  | unreadableLaos path => s!"can't read LAO file {path}"
  | badLaos path => s!"bad LAO file {path}"
  | badOrganizer lao _ => s!"bad organizer key for LAO {lao}"
  | unreadableKey path => s!"can't read server key {path}"
  | badKey path _ => s!"bad server key in {path}"
  | noDirectory path => s!"can't create {path}"
  | unwritableKey path => s!"can't write server key {path}"

def cause? : Problem → Option Fault
  | badOrganizer _ f | badKey _ f => some f
  | _ => none

end Problem

namespace LaoEntry

def text? : Node → Option String
  | .text s => some s
  | _ => none

def texts? : Option Node → Option (List String)
  | none => some []
  | some (.array ns) => ns.mapM text?
  | some _ => none

def ofEntries? (es : Entries) : Option LaoEntry := do
  let id ← (es.get? "id").bind text?
  let organizer ← (es.get? "organizer").bind text?
  let attendees ← texts? (es.get? "attendees")
  return { id, organizer, attendees }

-- An entry may also be an array of its fields in order.
def ofNode? : Node → Option LaoEntry
  | .record es | .table _ es => ofEntries? es
  | .array (id :: organizer :: rest) => do
    let id ← text? id
    let organizer ← text? organizer
    let attendees ← texts? rest.head?
    return { id, organizer, attendees }
  | _ => none

end LaoEntry

namespace LaoFile

def ofEntries? (es : Entries) : Option (List LaoEntry) :=
  match es.get? "lao" with
  | none => some []
  | some (.array ns) => ns.mapM LaoEntry.ofNode?
  | some (.tables ts) => ts.mapM LaoEntry.ofEntries?
  | some _ => none

def checkKeys (S : Suite) : List LaoEntry → Except Problem Unit
  | [] => .ok ()
  | e :: es =>
    match S.readKey e.organizer with
    | .error f => .error (.badOrganizer e.id f)
    | .ok _ => checkKeys S es

-- Reads the content of the file at `path`; no content stands for a file that is not there.
def load (S : Suite) (path : String) (content : Option Bytes) :
    Except Problem (List LaoEntry) := do
  let some s := content.bind Bytes.text?
    | throw (.unreadableLaos path)
  let some entries := (Document.read? s).bind ofEntries?
    | throw (.badLaos path)
  checkKeys S entries
  return entries

-- Registers the LAOs of a file that was loaded.
def registerAll (S : Suite) (hub : Hub) (entries : List LaoEntry) : Hub :=
  entries.foldl (fun hub e =>
    match S.readKey e.organizer with
    | .error _ => hub
    | .ok k => hub.register e.id k e.attendees) hub

end LaoFile
end Plenum.Config
