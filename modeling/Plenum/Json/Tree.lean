import Plenum.Json.Token

namespace Plenum.Json

-- A value as written: members of an object in order, repeated names included.
inductive Tree
  | null
  | bool (b : Bool)
  | number (n : Numeral)
  | string (s : Option String)
  | array (items : List Tree)
  | object (members : List (Option String × Tree))

namespace Tree

def text (s : String) : Tree :=
  string (some s)

def int (n : Int) : Tree :=
  number (.ofInt n)

def record (members : List (String × Tree)) : Tree :=
  object (members.map fun (k, v) => (some k, v))

mutual

def tokens : Tree → List Token
  | null => [.null]
  | bool b => [.bool b]
  | number n => [.number n]
  | string s => [.string s]
  | array [] => [.openArray, .closeArray]
  | array (v :: vs) => .openArray :: tokens v ++ itemTokens vs
  | object [] => [.openObject, .closeObject]
  | object ((k, v) :: ms) => .openObject :: .string k :: .colon :: tokens v ++ memberTokens ms

def itemTokens : List Tree → List Token
  | [] => [.closeArray]
  | v :: vs => .comma :: tokens v ++ itemTokens vs

def memberTokens : List (Option String × Tree) → List Token
  | [] => [.closeObject]
  | (k, v) :: ms => .comma :: .string k :: .colon :: tokens v ++ memberTokens ms

end

def render (t : Tree) : String :=
  String.ofList (t.tokens.flatMap Token.toList)

end Tree

-- A container that is not closed yet, what is in it last first. In an object, the name whose
-- value is being read.
inductive Parser.Frame
  | items (rev : List Tree)
  | members (rev : List (Option String × Tree)) (name : Option String)

-- What a parser waits for.
inductive Parser.Goal
  | value
  | firstItem
  | firstName
  | name (rev : List (Option String × Tree))
  | colon (rev : List (Option String × Tree)) (name : Option String)
  | nextItem (rev : List Tree)
  | nextMember (rev : List (Option String × Tree))
  | done (t : Tree)

-- The containers around the place reached, innermost first, and what may come there.
structure Parser where
  frames : List Parser.Frame
  goal : Parser.Goal

namespace Parser

-- A value is complete.
def complete (t : Tree) : List Frame → Parser
  | [] => ⟨[], .done t⟩
  | .items rev :: fs => ⟨fs, .nextItem (t :: rev)⟩
  | .members rev name :: fs => ⟨fs, .nextMember ((name, t) :: rev)⟩

-- A token where a value is due.
def value (fs : List Frame) : Token → Option Parser
  | .null => some (complete .null fs)
  | .bool b => some (complete (.bool b) fs)
  | .number n => some (complete (.number n) fs)
  | .string s => some (complete (.string s) fs)
  | .openArray => some ⟨fs, .firstItem⟩
  | .openObject => some ⟨fs, .firstName⟩
  | _ => none

def step (p : Parser) (t : Token) : Option Parser :=
  match p.goal, t with
  | .value, t => value p.frames t
  | .firstItem, .closeArray => some (complete (.array []) p.frames)
  | .firstItem, t => value (.items [] :: p.frames) t
  | .firstName, .closeObject => some (complete (.object []) p.frames)
  | .firstName, .string k => some ⟨p.frames, .colon [] k⟩
  | .name rev, .string k => some ⟨p.frames, .colon rev k⟩
  | .colon rev k, .colon => some ⟨.members rev k :: p.frames, .value⟩
  | .nextItem rev, .comma => some ⟨.items rev :: p.frames, .value⟩
  | .nextItem rev, .closeArray => some (complete (.array rev.reverse) p.frames)
  | .nextMember rev, .comma => some ⟨p.frames, .name rev⟩
  | .nextMember rev, .closeObject => some (complete (.object rev.reverse) p.frames)
  | _, _ => none

def result (p : Parser) : Option Tree :=
  match p.goal with
  | .done t => some t
  | _ => none

end Parser

-- The tree that a sequence of tokens spells.
def assemble (ts : List Token) : Option Tree :=
  (ts.foldlM Parser.step ⟨[], .value⟩).bind Parser.result

def parse (gs : List Glyph) : Option Tree :=
  (lex gs).bind assemble

end Plenum.Json
