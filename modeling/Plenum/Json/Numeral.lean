namespace Plenum.Json

-- A number as written. An empty fraction stands for no point.
structure Numeral where
  negative : Bool
  whole : List Char
  fraction : List Char
  exponent : Option (Bool × List Char)
  deriving DecidableEq, Repr

namespace Numeral

def natural (ds : List Char) : Nat :=
  Nat.ofDigitChars 10 ds 0

-- A whole part of several digits does not start with zero.
def readWhole? (cs : List Char) : Option (List Char × List Char) :=
  let ds := cs.takeWhile Char.isDigit
  match ds with
  | [] => none
  | '0' :: _ :: _ => none
  | _ => some (ds, cs.dropWhile Char.isDigit)

def readFraction? : List Char → Option (List Char × List Char)
  | '.' :: cs =>
    match cs.takeWhile Char.isDigit with
    | [] => none
    | ds => some (ds, cs.dropWhile Char.isDigit)
  | cs => some ([], cs)

def readExponent? : List Char → Option (Option (Bool × List Char))
  | [] => some none
  | e :: cs =>
    if e = 'e' ∨ e = 'E' then
      let (down, ds) := match cs with
        | '-' :: ds => (true, ds)
        | '+' :: ds => (false, ds)
        | ds => (false, ds)
      if ds ≠ [] ∧ ds.all Char.isDigit then some (some (down, ds)) else none
    else none

-- Reads a number that takes up the whole of `cs`.
def read? (cs : List Char) : Option Numeral := do
  let (negative, cs) := match cs with
    | '-' :: cs => (true, cs)
    | cs => (false, cs)
  let (whole, cs) ← readWhole? cs
  let (fraction, cs) ← readFraction? cs
  let exponent ← readExponent? cs
  some ⟨negative, whole, fraction, exponent⟩

def ofInt (n : Int) : Numeral :=
  ⟨n < 0, Nat.toDigits 10 n.natAbs, [], none⟩

def toList (n : Numeral) : List Char :=
  (if n.negative then ['-'] else []) ++ n.whole ++
    (if n.fraction = [] then [] else '.' :: n.fraction) ++
    match n.exponent with
    | none => []
    | some (down, ds) => 'e' :: (if down then '-' :: ds else ds)

-- Minus zero is no integer.
def int? (n : Numeral) : Option Int :=
  if n.fraction = [] ∧ n.exponent = none then
    let v := natural n.whole
    if n.negative then if v = 0 then none else some (-v) else some v
  else none

theorem int?_ofInt (n : Int) : (ofInt n).int? = some n := by
  simp only [int?, ofInt, natural, Nat.ofDigitChars_ten_toDigits, and_self, if_true,
    decide_eq_true_eq]
  split
  · have h : n.natAbs ≠ 0 := by omega
    rw [if_neg h]
    congr 1
    omega
  · congr 1
    omega

-- Appends digits to a number while the result fits 64 bits, and counts them.
def absorb (n : Nat) : List Char → Nat × Nat
  | [] => (n, 0)
  | c :: cs =>
    let m := 10 * n + (c.toNat - 48)
    if m < UInt64.size then
      let (r, k) := absorb m cs
      (r, k + 1)
    else (n, 0)

-- The leading digits that fit 64 bits and the power of ten that goes with them.
def scientific (n : Numeral) : Nat × Int :=
  let (w, i) := absorb 0 n.whole
  let (s, j) := absorb w n.fraction
  let e : Int := match n.exponent with
    | none => 0
    | some (down, ds) => if down then -natural ds else natural ds
  (s, (n.whole.length : Int) - i - j + e)

-- A natural number rounded to 53 binary digits, a half going to the even neighbour.
def round53 (n : Nat) : Nat :=
  let excess := n.log2 + 1 - 53
  if excess = 0 then n
  else
    let q := n >>> excess
    let r := n % Nat.pow 2 excess
    let half := Nat.pow 2 (excess - 1)
    (if half < r ∨ (r = half ∧ q % 2 = 1) then q + 1 else q) <<< excess

-- Whether the number, taken as the product of its leading digits and a power of ten in doubles,
-- is beyond the largest double.
def isHuge (n : Numeral) : Bool :=
  let (s, e) := n.scientific
  if s = 0 then false
  else if 308 < e then true
  else if e < 0 then false
  else Nat.pow 2 1024 - Nat.pow 2 970 ≤ round53 s * round53 (Nat.pow 10 e.toNat)

end Numeral
end Plenum.Json
