import Plenum.Config.LaoFile

namespace Plenum.Config

-- Files by their paths. Making directories and writing say whether it worked; reading gives
-- nothing where there is no file to read.
structure Store (m : Type → Type) where
  exists? : String → m Bool
  read? : String → m (Option Bytes)
  makeDirectories : String → m Bool
  write : String → String → m Bool

namespace Location

-- A part that stands for nothing; a point at the very start does count.
def isIdle (position : Nat) (part : String) : Bool :=
  part = "" || (part = "." && position ≠ 0)

def trimParts (parts : List String) : List String :=
  (parts.zipIdx.reverse.dropWhile fun (part, i) => isIdle i part).reverse.map (·.1)

-- The path of the directory that a path is in, as far as the path names it.
def parent? (path : String) : Option String :=
  let parts := path.splitOn "/"
  match (trimParts parts).dropLast, trimParts parts with
  | _, [] => none
  | up, _ =>
    match trimParts up with
    | [] => if path.startsWith "/" then some "/" else none
    | up => some (String.intercalate "/" up)

end Location

namespace KeyFile

-- Finds the host whose seed is in a file, or makes one of a fresh seed. Without a file the host
-- lasts as long as the program.
def load {m : Type → Type} [Monad m] (S : Suite) (store : Store m) (fresh : Seed) :
    Option String → m (Except Problem Host)
  | none => return .ok (.ofSeed S fresh)
  | some path => do
    if ← store.exists? path then
      match (← store.read? path).bind Bytes.text? with
      | none => return .error (.unreadableKey path)
      | some secret =>
        match Host.read S secret with
        | .error f => return .error (.badKey path f)
        | .ok h => return .ok h
    else
      let h := Host.ofSeed S fresh
      if let some directory := Location.parent? path then
        if !(← store.makeDirectories directory) then
          return .error (.noDirectory directory)
      if ← store.write path h.secret then return .ok h
      else return .error (.unwritableKey path)

end KeyFile

-- A file system in memory: directories and files by the parts of their places, counted from the
-- root.
structure Folder where
  directories : List (List String)
  files : List (List String × Bytes)

namespace Folder

-- The directory that relative paths start from.
def home : List String :=
  ["home"]

def empty : Folder :=
  ⟨[[], home], []⟩

-- Whether a path can be asked for at all: some bytes but not too many, and none of them zero.
def isPath (path : String) : Bool :=
  path ≠ "" && path.utf8ByteSize < 4096 && !path.toList.contains (Char.ofNat 0)

def isName (part : String) : Bool :=
  part.utf8ByteSize ≤ 255

def isDirectory (d : Folder) (place : List String) : Bool :=
  d.directories.contains place

def file? (d : Folder) (place : List String) : Option Bytes :=
  d.files.lookup place

def start (path : String) : List String :=
  if path.startsWith "/" then [] else home

-- One step from a directory to another that is there.
def enter (d : Folder) (place : List String) (part : String) : Option (List String) :=
  if part = "" ∨ part = "." then some place
  else if part = ".." then some place.dropLast
  else if isName part ∧ d.isDirectory (place ++ [part]) then some (place ++ [part])
  else none

-- The directory that a path leads to. Every step of it must be there.
def directory? (d : Folder) (path : String) : Option (List String) :=
  if isPath path then (path.splitOn "/").foldlM d.enter (start path) else none

-- The place of a file that a path names, in a directory that is there.
def place? (d : Folder) (path : String) : Option (List String) :=
  let parts := path.splitOn "/"
  let name := parts.getLast?.getD ""
  if !isPath path ∨ !isName name ∨ name = "" ∨ name = "." ∨ name = ".." then none
  else do
    let place ← parts.dropLast.foldlM d.enter (start path)
    return place ++ [name]

def read? (d : Folder) (path : String) : Option Bytes :=
  (d.place? path).bind d.file?

def exists? (d : Folder) (path : String) : Bool :=
  (d.directory? path).isSome || (d.read? path).isSome

-- One step from a directory to another, which is made if nothing is there.
def reach (at_ : Folder × List String) (part : String) : Option (Folder × List String) :=
  match at_.1.enter at_.2 part with
  | some place => some (at_.1, place)
  | none =>
    let place := at_.2 ++ [part]
    if isName part ∧ (at_.1.file? place).isNone then
      some ({ at_.1 with directories := place :: at_.1.directories }, place)
    else none

def makeDirectories (d : Folder) (path : String) : Option Folder :=
  if isPath path then ((path.splitOn "/").foldlM reach (d, start path)).map (·.1) else none

def writeFile (d : Folder) (path : String) (b : Bytes) : Option Folder := do
  let place ← d.place? path
  if d.isDirectory place then none
  else some { d with files := (place, b) :: d.files.filter (·.1 ≠ place) }

def changeWith (f : Folder → Option Folder) : StateM Folder Bool := fun d =>
  match f d with
  | some d => (true, d)
  | none => (false, d)

def store : Store (StateM Folder) where
  exists? path := return (← get).exists? path
  read? path := return (← get).read? path
  makeDirectories path := changeWith (·.makeDirectories path)
  write path content := changeWith (·.writeFile path (.ofText content))

end Folder
end Plenum.Config
