import Plenum.Toml.Node

namespace Plenum.Toml

-- Reads something from the front of a text.
abbrev Reader := StateT (List Char) Option

namespace Reader

variable {α : Type}

def fail : Reader α :=
  fun _ => none

def satisfy (p : Char → Bool) : Reader Char
  | c :: cs => if p c then some (c, cs) else none
  | [] => none

def char (c : Char) : Reader Unit := do
  let _ ← satisfy (· = c)

def word (s : String) : Reader Unit :=
  s.toList.forM char

def takeWhile (p : Char → Bool) : Reader (List Char) :=
  fun cs => some (cs.takeWhile p, cs.dropWhile p)

def takeWhile₁ (p : Char → Bool) : Reader (List Char) := do
  let cs ← takeWhile p
  if cs = [] then fail else return cs

-- Exactly `n` characters of a class.
def count (n : Nat) (p : Char → Bool) : Reader (List Char) :=
  match n with
  | 0 => return []
  | n + 1 => do
    let c ← satisfy p
    let cs ← count n p
    return c :: cs

def opt (r : Reader α) : Reader (Option α) :=
  (some <$> r) <|> return none

-- Each round takes something, so that the length of the text bounds their number.
def manyUpTo (r : Reader α) : Nat → Reader (List α)
  | 0 => return []
  | n + 1 => (do
      let a ← r
      let as ← manyUpTo r n
      return a :: as) <|> return []

def many (r : Reader α) : Reader (List α) :=
  fun cs => manyUpTo r cs.length cs

def separated (r : Reader α) (separator : Reader Unit) : Reader (List α) :=
  (do
    let a ← r
    let as ← many (do separator; r)
    return a :: as) <|> return []

def isBlank (c : Char) : Bool :=
  c = ' ' || c = '\t'

-- A character that may stand in a comment or a string: no control except the tab.
def isPlain (c : Char) : Bool :=
  c = '\t' || (32 ≤ c.toNat && c.toNat ≠ 127)

def blanks : Reader Unit := do
  let _ ← takeWhile isBlank

def newline : Reader Unit :=
  char '\n' <|> (do char '\r'; char '\n')

def comment : Reader Unit := do
  char '#'
  let _ ← takeWhile isPlain

-- Blanks, comments and line ends, as they may stand inside an array.
def space : Reader Unit := do
  let _ ← many ((do let _ ← satisfy isBlank) <|> newline <|> (do comment; newline))

def hexValue (cs : List Char) : Nat :=
  cs.foldl (fun n c =>
    16 * n + (if c.isDigit then c.toNat - 48 else if c.isLower then c.toNat - 87 else c.toNat - 55)) 0

def isHex (c : Char) : Bool :=
  c.isDigit || ('a' ≤ c && c ≤ 'f') || ('A' ≤ c && c ≤ 'F')

-- The character of a number, which is no surrogate.
def scalar (digits : Nat) : Reader Char := do
  let n ← hexValue <$> count digits isHex
  if n.isValidChar then return Char.ofNat n else fail

-- What follows a backslash.
def escape : Reader Char := do
  match ← satisfy fun _ => true with
  | 'b' => return Char.ofNat 8
  | 't' => return '\t'
  | 'n' => return '\n'
  | 'f' => return Char.ofNat 12
  | 'r' => return '\r'
  | '\"' => return '\"'
  | '\\' => return '\\'
  | 'u' => scalar 4
  | 'U' => scalar 8
  | _ => fail

def basicString : Reader String := do
  char '\"'
  let cs ← many ((do char '\\'; escape) <|> satisfy fun c => isPlain c && c ≠ '\"' && c ≠ '\\')
  char '\"'
  return String.ofList cs

def apostrophe : Char :=
  Char.ofNat 39

def literalString : Reader String := do
  char apostrophe
  let cs ← takeWhile fun c => isPlain c && c ≠ apostrophe
  char apostrophe
  return String.ofList cs

-- Line ends are read as line feeds; one right after the opening quotes does not count, and neither
-- does one after a backslash, with all blanks and line ends that follow it.
def longPiece (quote : Char) : Reader (List Char) :=
  (do newline; return ['\n'])
    <|> (do
      if quote = '\"' then
        char '\\'
        (do
          blanks
          newline
          let _ ← many ((do let _ ← satisfy isBlank) <|> newline)
          return []) <|> (do return [← escape])
      else fail)
    <|> (do return [← satisfy fun c =>
      isPlain c && c ≠ quote && (c ≠ '\\' || quote ≠ '\"')])
    <|> (do
      let qs ← takeWhile (· = quote)
      if qs.length = 1 ∨ qs.length = 2 then return qs else fail)

-- Up to two quotes may stand right before the closing three.
def longString (quote : Char) : Reader String := do
  char quote
  char quote
  char quote
  let _ ← opt newline
  let cs ← many (longPiece quote)
  let qs ← takeWhile (· = quote)
  if 3 ≤ qs.length ∧ qs.length ≤ 5 then
    return String.ofList (cs.flatten ++ qs.drop 3)
  else fail

def string : Reader String :=
  longString '\"' <|> longString apostrophe <|> basicString <|> literalString

-- How deep values may nest, and how many parts a key may have, plus one.
def depthLimit : Nat :=
  80

def isBare (c : Char) : Bool :=
  c.isAlphanum || c = '_' || c = '-'

def simpleKey : Reader String :=
  basicString <|> literalString <|> String.ofList <$> takeWhile₁ isBare

def key : Reader (List String) := do
  let ks ← separated (do blanks; let k ← simpleKey; blanks; return k) (char '.')
  if ks = [] ∨ depthLimit ≤ ks.length then fail else return ks

-- Digits of a class with single underscores between them, which are left out.
def digits (p : Char → Bool) : Reader (List Char) := do
  let c ← satisfy p
  let cs ← many (satisfy p <|> (do char '_'; satisfy p))
  return c :: cs

def sign : Reader Bool :=
  (do char '+'; return false) <|> (do char '-'; return true) <|> return false

-- Digits without a leading zero.
def whole : Reader (List Char) := do
  let ds ← digits Char.isDigit
  match ds with
  | '0' :: _ :: _ => fail
  | _ => return ds

def decimal (ds : List Char) : Nat :=
  Nat.ofDigitChars 10 ds 0

-- Integers lie below this, and not below its opposite.
def integerLimit : Nat :=
  0x8000000000000000

def radix (base : Nat) (mark : Char) (p : Char → Bool) : Reader Unit := do
  char '0'
  char mark
  let ds ← digits p
  let n := ds.foldl (fun n c => base * n + hexValue [c]) 0
  if n < integerLimit then return () else fail

def integer : Reader Unit :=
  radix 16 'x' isHex <|> radix 8 'o' (fun c => '0' ≤ c && c ≤ '7') <|>
    radix 2 'b' (fun c => c = '0' || c = '1') <|> (do
      let negative ← sign
      let n := decimal (← whole)
      if n < integerLimit ∨ (negative ∧ n = integerLimit) then return () else fail)

-- Whether `m * 10 ^ e` is rounded beyond the largest double.
def isInfinite (m : Nat) (e : Int) : Bool :=
  let top : Int := (Nat.toDigits 10 m).length + e
  let bound := Nat.pow 2 1024 - Nat.pow 2 970
  if m = 0 ∨ top < 309 then false
  else if 309 < top then true
  else if 0 ≤ e then bound ≤ m * Nat.pow 10 e.toNat
  else bound * Nat.pow 10 (-e).toNat ≤ m

def exponent : Reader Int := do
  let _ ← satisfy fun c => c = 'e' || c = 'E'
  let down ← sign
  let n := decimal (← digits Char.isDigit)
  return if down then -n else n

def float : Reader Unit :=
  (do
    let negative ← sign
    let ds ← whole
    let (fs, e) ← (do let e ← exponent; return ([], e)) <|> (do
      char '.'
      let fs ← digits Char.isDigit
      let e ← opt exponent
      return (fs, e.getD 0))
    if !negative ∧ isInfinite (decimal (ds ++ fs)) (e - fs.length) then fail else return ())
  <|> (do
    let _ ← sign
    word "inf" <|> word "nan")

def number (n : Nat) : Reader Nat :=
  decimal <$> count n Char.isDigit

def daysIn (year month : Nat) : Nat :=
  if month = 2 then
    if year % 4 = 0 ∧ (year % 100 ≠ 0 ∨ year % 400 = 0) then 29 else 28
  else if month = 4 ∨ month = 6 ∨ month = 9 ∨ month = 11 then 30
  else 31

def date : Reader Unit := do
  let year ← number 4
  char '-'
  let month ← number 2
  char '-'
  let day ← number 2
  if 1 ≤ month ∧ month ≤ 12 ∧ 1 ≤ day ∧ day ≤ daysIn year month then return () else fail

def time : Reader Unit := do
  let hour ← number 2
  char ':'
  let minute ← number 2
  char ':'
  let second ← number 2
  let _ ← opt (do char '.'; takeWhile₁ Char.isDigit)
  if hour < 24 ∧ minute < 60 ∧ second ≤ 60 then return () else fail

def offset : Reader Unit :=
  (do let _ ← satisfy fun c => c = 'Z' || c = 'z') <|> (do
    let _ ← satisfy fun c => c = '+' || c = '-'
    let hour ← number 2
    char ':'
    let minute ← number 2
    if hour < 24 ∧ minute < 60 then return () else fail)

def dateTime : Reader Unit :=
  (do
    date
    let _ ← opt (do
      let _ ← satisfy fun c => c = 'T' || c = 't' || c = ' '
      time
      let _ ← opt offset)) <|> time

def plainValue : Reader Node :=
  .text <$> string
    <|> (do
      dateTime <|> float <|> integer <|> word "true" <|> word "false"
      return .other)

def arrayOf (item : Reader Node) : Reader Node := do
  char '['
  let items ← separated (do space; let n ← item; space; return n) (char ',')
  if !items.isEmpty then let _ ← opt (char ',')
  space
  char ']'
  return .array items

-- A key with its value: the parts of the key but the last, the last, and the value.
def keyValue (value : Reader Node) : Reader (List String × String × Node) := do
  let ks ← key
  char '='
  blanks
  let n ← value
  match ks.getLast? with
  | none => fail
  | some k => return (ks.dropLast, k, n)

def recordOf (value : Reader Node) : Reader Node := do
  char '{'
  let fields ← separated (do let f ← keyValue value; blanks; return f) (char ',')
  blanks
  char '}'
  match fields.foldlM (fun es (path, k, n) => Entries.put? es path k n) [] with
  | none => fail
  | some es => return .record es

-- A value with at most `depth` containers around any part of it.
def value : Nat → Reader Node
  | 0 => plainValue
  | depth + 1 => plainValue <|> arrayOf (value depth) <|> recordOf (value depth)

end Reader
end Plenum.Toml
