import Plenum.Bytes

namespace Plenum

-- The eight chaining words.
structure Sha2.State (ω : Type) where
  a : ω
  b : ω
  c : ω
  d : ω
  e : ω
  f : ω
  g : ω
  h : ω

-- A member of the family: its words, how they mix, and its round constants.
structure Sha2 (ω : Type) where
  wordBytes : Nat
  ofNat : Nat → ω
  toNat : ω → Nat
  add : ω → ω → ω
  choose : ω → ω → ω → ω
  majority : ω → ω → ω → ω
  mixA : ω → ω
  mixE : ω → ω
  stretchFar : ω → ω
  stretchNear : ω → ω
  initial : Sha2.State ω
  constants : List ω

namespace Sha2

-- The largest `r` below `2 ^ bits` with `r ^ k ≤ n`.
def root (k bits n : Nat) : Nat :=
  (List.range bits).reverse.foldl
    (fun r i => if Nat.pow (r + Nat.pow 2 i) k ≤ n then r + Nat.pow 2 i else r) 0

-- The first `count` primes, found by trial division by the primes before.
def primes (count : Nat) : List Nat :=
  (List.range (8 * count)).foldl
    (fun ps n => if n < 2 ∨ ps.length = count ∨ ps.any (n % · = 0) then ps else ps ++ [n]) []

-- The first `width` bits after the point of the `k`-th root of `p`.
def rootBits (k width p : Nat) : Nat :=
  root k (width + 10) (p * Nat.pow 2 (k * width)) % Nat.pow 2 width

variable {ω : Type} (S : Sha2 ω)

-- The message, a one bit, zero bits up to a whole number of blocks, and the length in bits.
def pad (m : Bytes) : Bytes :=
  let block := 16 * S.wordBytes
  let tail := 2 * S.wordBytes
  let zeros := (2 * block - tail - 1 - m.length % block) % block
  m ++ 0x80 :: List.replicate zeros 0 ++ (Bytes.ofNat tail (8 * m.length)).reverse

-- Consecutive groups of `n`, a shorter rest left out.
def groups {α : Type} (n : Nat) (xs : List α) : List (List α) :=
  let step := fun (done, now, k) x =>
    if k + 1 = n then ((x :: now).reverse :: done, [], 0) else (done, x :: now, k + 1)
  (xs.foldl step ([], [], 0)).1.reverse

def words (m : Bytes) : List ω :=
  (groups S.wordBytes m).map fun w => S.ofNat (Bytes.toNat w.reverse)

-- The words of a block, stretched to one word for each round.
def schedule (block : List ω) : List ω :=
  let zero := S.ofNat 0
  let more := (List.range (S.constants.length - 16)).foldl
    (fun (w : Array ω) i =>
      w.push (S.add (S.add (S.stretchNear (w.getD (i + 14) zero)) (w.getD (i + 9) zero))
        (S.add (S.stretchFar (w.getD (i + 1) zero)) (w.getD i zero))))
    block.toArray
  more.toList

def round (s : State ω) (k w : ω) : State ω :=
  let t₁ := S.add (S.add s.h (S.mixE s.e)) (S.add (S.choose s.e s.f s.g) (S.add k w))
  let t₂ := S.add (S.mixA s.a) (S.majority s.a s.b s.c)
  ⟨S.add t₁ t₂, s.a, s.b, s.c, S.add s.d t₁, s.e, s.f, s.g⟩

def compress (s : State ω) (block : List ω) : State ω :=
  let t := (S.constants.zip (S.schedule block)).foldl (fun t (k, w) => S.round t k w) s
  ⟨S.add s.a t.a, S.add s.b t.b, S.add s.c t.c, S.add s.d t.d,
    S.add s.e t.e, S.add s.f t.f, S.add s.g t.g, S.add s.h t.h⟩

def bytes (w : ω) : Bytes :=
  (Bytes.ofNat S.wordBytes (S.toNat w)).reverse

def digest (m : Bytes) : Vector UInt8 (8 * S.wordBytes) :=
  let s := (groups 16 (S.words (S.pad m))).foldl S.compress S.initial
  let out := [s.a, s.b, s.c, s.d, s.e, s.f, s.g, s.h].flatMap S.bytes
  ⟨out.toArray, by simp [out, bytes]; omega⟩

def ofRoots (ofNat : Nat → ω) (width : Nat) : State ω :=
  match (primes 8).map fun p => ofNat (rootBits 2 width p) with
  | [a, b, c, d, e, f, g, h] => ⟨a, b, c, d, e, f, g, h⟩
  | _ => let z := ofNat 0; ⟨z, z, z, z, z, z, z, z⟩

-- SHA-256.
def sha256 : Sha2 UInt32 :=
  let turn := fun (x n : UInt32) => x >>> n ||| x <<< (32 - n)
  { wordBytes := 4
    ofNat := UInt32.ofNat
    toNat := UInt32.toNat
    add := (· + ·)
    choose := fun x y z => x &&& y ^^^ ~~~x &&& z
    majority := fun x y z => x &&& y ^^^ x &&& z ^^^ y &&& z
    mixA := fun x => turn x 2 ^^^ turn x 13 ^^^ turn x 22
    mixE := fun x => turn x 6 ^^^ turn x 11 ^^^ turn x 25
    stretchFar := fun x => turn x 7 ^^^ turn x 18 ^^^ x >>> 3
    stretchNear := fun x => turn x 17 ^^^ turn x 19 ^^^ x >>> 10
    initial := ofRoots UInt32.ofNat 32
    constants := (primes 64).map fun p => UInt32.ofNat (rootBits 3 32 p) }

-- SHA-512.
def sha512 : Sha2 UInt64 :=
  let turn := fun (x n : UInt64) => x >>> n ||| x <<< (64 - n)
  { wordBytes := 8
    ofNat := UInt64.ofNat
    toNat := UInt64.toNat
    add := (· + ·)
    choose := fun x y z => x &&& y ^^^ ~~~x &&& z
    majority := fun x y z => x &&& y ^^^ x &&& z ^^^ y &&& z
    mixA := fun x => turn x 28 ^^^ turn x 34 ^^^ turn x 39
    mixE := fun x => turn x 14 ^^^ turn x 18 ^^^ turn x 41
    stretchFar := fun x => turn x 1 ^^^ turn x 8 ^^^ x >>> 7
    stretchNear := fun x => turn x 19 ^^^ turn x 61 ^^^ x >>> 6
    initial := ofRoots UInt64.ofNat 64
    constants := (primes 80).map fun p => UInt64.ofNat (rootBits 3 64 p) }

end Sha2
end Plenum
