import Plenum.Bytes

namespace Plenum.Json

-- What a reader sees of a byte string: characters, and bytes that belong to none. A stray byte does
-- no harm inside a string that nobody reads.
inductive Glyph
  | char (c : Char)
  | stray
  deriving DecidableEq, Repr

namespace Glyph

-- The glyphs so far, last first; then how many bytes the current character still wants, the
-- bounds of the next of them, and the bits so far.
structure Scan where
  out : List Glyph
  owed : Nat
  low : Nat
  high : Nat
  bits : Nat

namespace Scan

def lead (out : List Glyph) (b : Nat) : Scan :=
  if b < 0x80 then ⟨.char (Char.ofNat b) :: out, 0, 0, 0, 0⟩
  else if 0xC2 ≤ b ∧ b ≤ 0xDF then ⟨out, 1, 0x80, 0xBF, b % 32⟩
  else if b = 0xE0 then ⟨out, 2, 0xA0, 0xBF, b % 16⟩
  else if b = 0xED then ⟨out, 2, 0x80, 0x9F, b % 16⟩
  else if 0xE1 ≤ b ∧ b ≤ 0xEF then ⟨out, 2, 0x80, 0xBF, b % 16⟩
  else if b = 0xF0 then ⟨out, 3, 0x90, 0xBF, b % 8⟩
  else if b = 0xF4 then ⟨out, 3, 0x80, 0x8F, b % 8⟩
  else if 0xF1 ≤ b ∧ b ≤ 0xF3 then ⟨out, 3, 0x80, 0xBF, b % 8⟩
  else ⟨.stray :: out, 0, 0, 0, 0⟩

def step (s : Scan) (byte : UInt8) : Scan :=
  let b := byte.toNat
  if s.owed = 0 then lead s.out b
  else if s.low ≤ b ∧ b ≤ s.high then
    let bits := 64 * s.bits + b % 64
    if s.owed = 1 then ⟨.char (Char.ofNat bits) :: s.out, 0, 0, 0, 0⟩
    else ⟨s.out, s.owed - 1, 0x80, 0xBF, bits⟩
  else lead (.stray :: s.out) b

def finish (s : Scan) : List Glyph :=
  (if s.owed = 0 then s.out else .stray :: s.out).reverse

end Scan

def ofText (s : String) : List Glyph :=
  s.toList.map char

def ofBytes (b : Bytes) : List Glyph :=
  match b.text? with
  | some s => ofText s
  | none => (b.foldl Scan.step ⟨[], 0, 0, 0, 0⟩).finish

theorem ofBytes_ofText (s : String) : ofBytes (Bytes.ofText s) = ofText s := by
  simp [ofBytes, Bytes.text?_ofText]

end Glyph
end Plenum.Json
