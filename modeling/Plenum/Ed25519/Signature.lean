import Plenum.Ed25519.Point
import Plenum.Sha2

namespace Plenum.Ed25519

-- The digest of a byte string as a number.
def challenge (b : Bytes) : Nat :=
  Bytes.toNat (Sha2.sha512.digest b).toList

-- The two halves of a seed's digest: the signing scalar and the source of the nonces.
def expand (seed : Vector UInt8 32) : Nat × Bytes :=
  let h := (Sha2.sha512.digest seed.toList).toList
  (Bytes.toNat (h.take 32) % Nat.pow 2 254 / 8 * 8 + Nat.pow 2 254, h.drop 32)

-- The public key of a signing scalar.
def keyOf (a : Nat) : Vector UInt8 32 :=
  ⟨(Point.base.multiple a).toBytes.toArray, by simp⟩

def publicKey (seed : Vector UInt8 32) : Vector UInt8 32 :=
  keyOf (expand seed).1

-- Whether 32 bytes are the form of a point.
def isKey (key : Vector UInt8 32) : Bool :=
  (Point.ofBytes? key.toList).isSome

def sign (seed : Vector UInt8 32) (m : Bytes) : Vector UInt8 64 :=
  let (a, nonce) := expand seed
  let r := challenge (nonce ++ m) % groupOrder
  let first := (Point.base.multiple r).toBytes
  let k := challenge (first ++ (keyOf a).toList ++ m) % groupOrder
  ⟨(first ++ Bytes.ofNat 32 ((r + k * a) % groupOrder)).toArray, by simp [first]⟩

-- Compares the form of the recomputed point with the first half of the signature, without clearing
-- the cofactor.
def verify (key : Vector UInt8 32) (m : Bytes) (signature : Vector UInt8 64) : Bool :=
  let first := signature.toList.take 32
  let s := Bytes.toNat (signature.toList.drop 32)
  match Point.ofBytes? key.toList with
  | none => false
  | some a =>
    let k := challenge (first ++ key.toList ++ m) % groupOrder
    s < groupOrder && ((Point.base.multiple s).add (a.neg.multiple k)).toBytes = first

end Plenum.Ed25519
