import Plenum.Json.Glyph
import Plenum.Json.Numeral

namespace Plenum.Json

-- A string token is `none` if it holds stray bytes or a surrogate without its partner: such a
-- string can be passed over but not read.
inductive Token
  | openArray
  | closeArray
  | openObject
  | closeObject
  | comma
  | colon
  | null
  | bool (b : Bool)
  | number (n : Numeral)
  | string (s : Option String)
  deriving DecidableEq, Repr

-- What a string is made of: characters, 16-bit units written in hexadecimal, stray bytes.
inductive Piece
  | char (c : Char)
  | unit (n : Nat)
  | stray
  deriving DecidableEq, Repr

namespace Piece

def isHigh (n : Nat) : Bool :=
  0xD800 ≤ n && n < 0xDC00

def isLow (n : Nat) : Bool :=
  0xDC00 ≤ n && n < 0xE000

-- Two units that stand next to each other, high before low, are one character.
def text? : List Piece → Option (List Char)
  | [] => some []
  | .char c :: ps => (text? ps).map (c :: ·)
  | .unit h :: .unit l :: ps =>
    if isHigh h then
      if isLow l then
        (text? ps).map (Char.ofNat (0x10000 + (h - 0xD800) * 0x400 + (l - 0xDC00)) :: ·)
      else none
    else if isLow h then none
    else (text? (.unit l :: ps)).map (Char.ofNat h :: ·)
  | .unit n :: ps => if isHigh n || isLow n then none else (text? ps).map (Char.ofNat n :: ·)
  | .stray :: _ => none

end Piece

namespace Token

def hexDigit (n : Nat) : Char :=
  Char.ofNat (if n < 10 then 48 + n else 87 + n)

-- Only the quote, the backslash and the characters below the blank are escaped.
def escape (c : Char) : List Char :=
  if c = '\"' then ['\\', '\"']
  else if c = '\\' then ['\\', '\\']
  else if c.toNat = 8 then ['\\', 'b']
  else if c.toNat = 9 then ['\\', 't']
  else if c.toNat = 10 then ['\\', 'n']
  else if c.toNat = 12 then ['\\', 'f']
  else if c.toNat = 13 then ['\\', 'r']
  else if c.toNat < 32 then
    ['\\', 'u', '0', '0', hexDigit (c.toNat / 16), hexDigit (c.toNat % 16)]
  else [c]

def quote (cs : List Char) : List Char :=
  '\"' :: cs.flatMap escape ++ ['\"']

def toList : Token → List Char
  | openArray => ['[']
  | closeArray => [']']
  | openObject => ['{']
  | closeObject => ['}']
  | comma => [',']
  | colon => [':']
  | null => ['n', 'u', 'l', 'l']
  | bool true => ['t', 'r', 'u', 'e']
  | bool false => ['f', 'a', 'l', 's', 'e']
  | number n => n.toList
  | string s => quote (s.getD "").toList

def ofWord? (cs : List Char) : Option Token :=
  if cs = ['n', 'u', 'l', 'l'] then some null
  else if cs = ['t', 'r', 'u', 'e'] then some (bool true)
  else if cs = ['f', 'a', 'l', 's', 'e'] then some (bool false)
  else none

end Token

-- Where a lexer stands: between tokens, or inside a word, a number, a string, or an escape. What
-- it has read of the token is kept last glyph first.
inductive Lexer.Mode
  | blank
  | word (rev : List Char)
  | number (rev : List Char)
  | string (rev : List Piece)
  | escape (rev : List Piece)
  | hex (rev : List Piece) (digits unit : Nat)
  deriving DecidableEq, Repr

-- The tokens so far, last first.
structure Lexer where
  tokens : List Token
  mode : Lexer.Mode
  deriving DecidableEq, Repr

namespace Lexer

def push (ts : List Token) (t : Token) : Option Lexer :=
  some ⟨t :: ts, .blank⟩

-- A character between tokens.
def start (ts : List Token) (c : Char) : Option Lexer :=
  if c = ' ' ∨ c = '\n' ∨ c = '\t' ∨ c = '\r' then some ⟨ts, .blank⟩
  else if c = '\"' then some ⟨ts, .string []⟩
  else if c = '[' then push ts .openArray
  else if c = ']' then push ts .closeArray
  else if c = '{' then push ts .openObject
  else if c = '}' then push ts .closeObject
  else if c = ',' then push ts .comma
  else if c = ':' then push ts .colon
  else if c = '-' ∨ c.isDigit then some ⟨ts, .number [c]⟩
  else if c.isLower then some ⟨ts, .word [c]⟩
  else none

def isNumeric (c : Char) : Bool :=
  c.isDigit || c = '.' || c = '-' || c = '+' || c = 'e' || c = 'E'

-- A character after a backslash.
def unescape (ts : List Token) (rev : List Piece) (c : Char) : Option Lexer :=
  let piece := fun d => some ⟨ts, .string (.char d :: rev)⟩
  if c = '\"' ∨ c = '\\' ∨ c = '/' then piece c
  else if c = 'b' then piece (Char.ofNat 8)
  else if c = 't' then piece '\t'
  else if c = 'n' then piece '\n'
  else if c = 'f' then piece (Char.ofNat 12)
  else if c = 'r' then piece '\r'
  else if c = 'u' then some ⟨ts, .hex rev 0 0⟩
  else none

def hexValue? (c : Char) : Option Nat :=
  if c.isDigit then some (c.toNat - 48)
  else if 'a' ≤ c ∧ c ≤ 'f' then some (c.toNat - 87)
  else if 'A' ≤ c ∧ c ≤ 'F' then some (c.toNat - 55)
  else none

def close (ts : List Token) (rev : List Piece) : Lexer :=
  ⟨.string ((Piece.text? rev.reverse).map String.ofList) :: ts, .blank⟩

def endWord (ts : List Token) (rev : List Char) : Option (List Token) :=
  (Token.ofWord? rev.reverse).map (· :: ts)

def endNumber (ts : List Token) (rev : List Char) : Option (List Token) :=
  (Numeral.read? rev.reverse).map (.number · :: ts)

def step (l : Lexer) (g : Glyph) : Option Lexer :=
  match l.mode, g with
  | .blank, .char c => start l.tokens c
  | .word rev, .char c =>
    if c.isLower then some ⟨l.tokens, .word (c :: rev)⟩
    else (endWord l.tokens rev).bind (start · c)
  | .number rev, .char c =>
    if isNumeric c then some ⟨l.tokens, .number (c :: rev)⟩
    else (endNumber l.tokens rev).bind (start · c)
  | .string rev, .char c =>
    if c = '\"' then some (close l.tokens rev)
    else if c = '\\' then some ⟨l.tokens, .escape rev⟩
    else if c.toNat < 32 then none
    else some ⟨l.tokens, .string (.char c :: rev)⟩
  | .string rev, .stray => some ⟨l.tokens, .string (.stray :: rev)⟩
  | .escape rev, .char c => unescape l.tokens rev c
  | .hex rev digits unit, .char c =>
    (hexValue? c).map fun d =>
      if digits = 3 then ⟨l.tokens, .string (.unit (16 * unit + d) :: rev)⟩
      else ⟨l.tokens, .hex rev (digits + 1) (16 * unit + d)⟩
  | _, .stray => none

def finish (l : Lexer) : Option (List Token) :=
  match l.mode with
  | .blank => some l.tokens.reverse
  | .word rev => (endWord l.tokens rev).map List.reverse
  | .number rev => (endNumber l.tokens rev).map List.reverse
  | _ => none

end Lexer

-- The tokens of a sequence of glyphs.
def lex (gs : List Glyph) : Option (List Token) :=
  (gs.foldlM Lexer.step ⟨[], .blank⟩).bind Lexer.finish

end Plenum.Json
