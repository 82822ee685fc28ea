import Plenum.Suite

namespace Plenum

-- Keys without repetition.
abbrev Attendees := List String

namespace Attendees

def add (as : Attendees) (key : String) : Attendees :=
  if key ∈ as then as else as ++ [key]

def addAll (as : Attendees) (keys : List String) : Attendees :=
  keys.foldl add as

def ofList (keys : List String) : Attendees :=
  addAll [] keys

end Attendees

-- A local autonomous organization. Attendees are known by the spelling of their keys.
structure Lao where
  organizer : Key
  attendees : Attendees
  deriving DecidableEq

end Plenum
