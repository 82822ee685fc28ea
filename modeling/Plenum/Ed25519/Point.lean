import Plenum.Bytes

namespace Plenum.Ed25519

-- The order of the field.
abbrev fieldOrder : Nat := Nat.pow 2 255 - 19

-- The order of the group that the base point generates.
def groupOrder : Nat := Nat.pow 2 252 + 27742317777372353535851937790883648493

abbrev Coordinate := Fin fieldOrder

namespace Coordinate

def ofNat (n : Nat) : Coordinate :=
  ⟨n % fieldOrder, Nat.mod_lt n (by decide)⟩

def square (x : Coordinate) : Coordinate :=
  x * x

-- Powers by squaring, one step for each of the low `bits` bits of the exponent.
def power (bits : Nat) (x : Coordinate) (n : Nat) : Coordinate :=
  (List.range bits).reverse.foldl
    (fun r i => if n.testBit i then square r * x else square r) (ofNat 1)

def inverse (x : Coordinate) : Coordinate :=
  power 255 x (fieldOrder - 2)

-- A square root of minus one.
def rootOfMinusOne : Coordinate :=
  power 253 (ofNat 2) ((fieldOrder - 1) / 4)

-- A square root of `u / v`, if there is one.
def rootOfRatio? (u v : Coordinate) : Option Coordinate :=
  let v₃ := square v * v
  let v₇ := square v₃ * v
  let x := u * v₃ * power 252 (u * v₇) ((fieldOrder - 5) / 8)
  let check := v * square x
  if check = u then some x
  else if check = -u then some (x * rootOfMinusOne)
  else none

-- The coefficient of the curve, `-121665 / 121666`.
def curve : Coordinate :=
  -(ofNat 121665 * inverse (ofNat 121666))

end Coordinate

-- A point as `(x / z, y / z)`, with `t = x * y / z`.
structure Point where
  x : Coordinate
  y : Coordinate
  z : Coordinate
  t : Coordinate

namespace Point

open Coordinate

def zero : Point :=
  ⟨ofNat 0, ofNat 1, ofNat 1, ofNat 0⟩

def base : Point :=
  let x := ofNat 15112221349535400772501151409588531511454012693041857206046113283949847762202
  let y := ofNat 46316835694926478169428394003475163141307993866256225615783033603165251855960
  ⟨x, y, ofNat 1, x * y⟩

def add (p q : Point) : Point :=
  let a := (p.y - p.x) * (q.y - q.x)
  let b := (p.y + p.x) * (q.y + q.x)
  let c := p.t * (curve + curve) * q.t
  let d := (p.z + p.z) * q.z
  let e := b - a
  let f := d - c
  let g := d + c
  let h := b + a
  ⟨e * f, g * h, f * g, e * h⟩

def neg (p : Point) : Point :=
  ⟨-p.x, p.y, p.z, -p.t⟩

-- The multiple of a point by a number below `2 ^ 256`.
def multiple (n : Nat) (p : Point) : Point :=
  (List.range 256).reverse.foldl
    (fun q i => if n.testBit i then add (add q q) p else add q q) zero

-- The second coordinate, with the parity of the first in the top bit.
def toBytes (p : Point) : Bytes :=
  let i := inverse p.z
  let x := p.x * i
  let y := p.y * i
  Bytes.ofNat 32 (y.val + x.val % 2 * Nat.pow 2 255)

@[simp]
theorem length_toBytes (p : Point) : p.toBytes.length = 32 := by
  simp [toBytes]

-- A second coordinate beyond the field's order stands for its residue, and the top bit is
-- ignored where the first coordinate is zero.
def ofBytes? (b : Bytes) : Option Point := do
  let n := Bytes.toNat b
  let y := ofNat (n % Nat.pow 2 255)
  let x ← rootOfRatio? (square y - ofNat 1) (curve * square y + ofNat 1)
  let x := if x.val % 2 = n / Nat.pow 2 255 % 2 then x else -x
  some ⟨x, y, ofNat 1, x * y⟩

end Point
end Plenum.Ed25519
