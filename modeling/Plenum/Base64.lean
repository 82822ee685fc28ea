import Plenum.Bytes

namespace Plenum.Base64

-- The sign for a six-bit value.
def sign (v : Nat) : Char :=
  if v < 26 then Char.ofNat (65 + v)
  else if v < 52 then Char.ofNat (71 + v)
  else if v < 62 then Char.ofNat (v - 4)
  else if v = 62 then '-'
  else '_'

-- The six-bit value of a sign.
def value? (c : Char) : Option Nat :=
  if 'A' ≤ c ∧ c ≤ 'Z' then some (c.toNat - 65)
  else if 'a' ≤ c ∧ c ≤ 'z' then some (c.toNat - 71)
  else if '0' ≤ c ∧ c ≤ '9' then some (c.toNat + 4)
  else if c = '-' then some 62
  else if c = '_' then some 63
  else none

-- Three bytes are four signs; one or two bytes at the end are filled up with `=`.
def encodeList : Bytes → List Char
  | [] => []
  | [a] => [sign (a.toNat / 4), sign (a.toNat % 4 * 16), '=', '=']
  | [a, b] =>
    [sign (a.toNat / 4), sign (a.toNat % 4 * 16 + b.toNat / 16), sign (b.toNat % 16 * 4), '=']
  | a :: b :: c :: rest =>
    sign (a.toNat / 4) :: sign (a.toNat % 4 * 16 + b.toNat / 16)
      :: sign (b.toNat % 16 * 4 + c.toNat / 64) :: sign (c.toNat % 64) :: encodeList rest

-- One byte from two signs, if the bits that are left over are zero.
def one? (a b : Char) : Option Bytes := do
  let a ← value? a
  let b ← value? b
  if b % 16 = 0 then some [UInt8.ofNat (a * 4 + b / 16)] else none

-- Two bytes from three signs, if the bits that are left over are zero.
def two? (a b c : Char) : Option Bytes := do
  let a ← value? a
  let b ← value? b
  let c ← value? c
  if c % 4 = 0 then some [UInt8.ofNat (a * 4 + b / 16), UInt8.ofNat (b % 16 * 16 + c / 4)]
  else none

-- Three bytes from four signs.
def three? (a b c d : Char) : Option Bytes := do
  let a ← value? a
  let b ← value? b
  let c ← value? c
  let d ← value? d
  some [UInt8.ofNat (a * 4 + b / 16), UInt8.ofNat (b % 16 * 16 + c / 4),
    UInt8.ofNat (c % 4 * 64 + d)]

-- Filling stands only in the last group of four.
def decodeList? : List Char → Option Bytes
  | [] => some []
  | a :: b :: c :: d :: rest =>
    if rest = [] ∧ c = '=' ∧ d = '=' then one? a b
    else if rest = [] ∧ d = '=' then two? a b c
    else do
      let group ← three? a b c d
      let more ← decodeList? rest
      some (group ++ more)
  | _ => none

def encode (b : Bytes) : String :=
  String.ofList (encodeList b)

-- Reading is strict: only what `encode` writes can be read.
def decode? (s : String) : Option Bytes :=
  decodeList? s.toList

end Plenum.Base64
