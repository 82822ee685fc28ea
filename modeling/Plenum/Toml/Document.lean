import Plenum.Toml.Reader

namespace Plenum.Toml

-- What a line says.
inductive Line
  | nothing
  | define (path : List String)
  | extend (path : List String)
  | put (path : List String) (key : String) (value : Node)

namespace Line

open Reader

def content : Reader Line :=
  (do
    char '['
    char '['
    let path ← key
    char ']'
    char ']'
    return .extend path)
  <|> (do
    char '['
    let path ← key
    char ']'
    return .define path)
  <|> (do
    let (path, k, n) ← keyValue (value (depthLimit - 1))
    return .put path k n)
  <|> return .nothing

def read : Reader Line := do
  blanks
  let line ← content
  blanks
  let _ ← opt comment
  return line

end Line

-- The tree so far and the header that is in force.
structure Document where
  root : Entries
  header : List String

namespace Document

def take? (d : Document) : Line → Option Document
  | .nothing => some d
  | .put path k n => do
    let root ← d.root.at? (·.put? path k n) d.header
    return { d with root }
  | .define path => do
    let k ← path.getLast?
    let root ← d.root.at? (Entries.define? k) path.dropLast
    return ⟨root, path⟩
  | .extend path => do
    let k ← path.getLast?
    let root ← d.root.at? (Entries.extend? k) path.dropLast
    return ⟨root, path⟩

-- Every line but the last takes a line end, so that the length of the text bounds their number.
def readLines (d : Document) : Nat → List Char → Option Document
  | 0, _ => none
  | n + 1, cs => do
    let (line, cs) ← Line.read cs
    let d ← d.take? line
    if cs = [] then return d
    else
      let ((), cs) ← Reader.newline cs
      readLines d n cs

-- Reads a document. A byte order mark in front does not count.
def read? (s : String) : Option Entries := do
  let cs := match s.toList with
    | c :: cs => if c.toNat = 0xFEFF then cs else c :: cs
    | [] => []
  let d ← readLines ⟨[], []⟩ (cs.length + 1) cs
  return d.root

end Document
end Plenum.Toml
