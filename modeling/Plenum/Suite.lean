import Plenum.Base64
import Plenum.Ed25519.Signature
import Plenum.Fault
import Plenum.Text.Blank

namespace Plenum

abbrev Seed := Vector UInt8 32
abbrev Key := Vector UInt8 32
abbrev Signature := Vector UInt8 64

-- What is admitted, refused or published depends on digests and signatures only through these.
structure Suite where
  digest : Bytes → Vector UInt8 32
  isKey : Key → Bool
  publicKey : Seed → Key
  sign : Seed → Bytes → Signature
  verify : Key → Bytes → Signature → Bool

namespace Suite

-- SHA-256 and Ed25519.
def standard : Suite where
  digest := Sha2.sha256.digest
  isKey := Ed25519.isKey
  publicKey := Ed25519.publicKey
  sign := Ed25519.sign
  verify := Ed25519.verify

-- Each part goes in as its decimal length in bytes followed by its bytes.
def preimage (parts : List String) : Bytes :=
  parts.flatMap fun p => Bytes.ofText (toString (Bytes.ofText p).length) ++ Bytes.ofText p

-- The identifier of a list of texts: the spelling of the digest of their preimage.
def identifier (S : Suite) (parts : List String) : String :=
  Base64.encode (S.digest (preimage parts)).toList

-- Reads the spelling of a public key.
def readKey (S : Suite) (s : String) : Except Fault Key :=
  match Base64.decode? s with
  | none => .error (.signature s!"sender key is not base64url: {Unreadable.base64.text}")
  | some b =>
    match b.exactly? 32 with
    | none => .error (.signature s!"sender key has {b.length} bytes")
    | some k =>
      if S.isKey k then .ok k
      else .error (.signature s!"invalid sender public key: {Unreadable.key.text}")

-- Checks the spelling of a signature by `k` over `m`.
def check (S : Suite) (k : Key) (m : Bytes) (s : String) : Except Fault Unit :=
  match Base64.decode? s with
  | none => .error (.signature s!"signature is not base64url: {Unreadable.base64.text}")
  | some b =>
    match b.exactly? 64 with
    | none => .error (.signature s!"invalid signature format: {Unreadable.signature.text}")
    | some σ =>
      if S.verify k m σ then .ok ()
      else .error (.signature "signature verification failed")

end Suite

-- A hub's own identity: the suite it uses, its seed and the public key of that seed.
structure Host where
  suite : Suite
  seed : Seed
  key : Key
  key_eq : key = suite.publicKey seed

namespace Host

def ofSeed (S : Suite) (seed : Seed) : Host :=
  ⟨S, seed, S.publicKey seed, rfl⟩

-- Reads the spelling of a seed; blanks around it do not count.
def read (S : Suite) (secret : String) : Except Fault Host :=
  match Base64.decode? (Text.trim secret) with
  | none => .error (.signature s!"server secret is not base64url: {Unreadable.base64.text}")
  | some b =>
    match b.exactly? 32 with
    | none => .error (.signature "server secret must be 32 bytes")
    | some seed => .ok (ofSeed S seed)

def secret (h : Host) : String :=
  Base64.encode h.seed.toList

def publicText (h : Host) : String :=
  Base64.encode h.key.toList

def sign (h : Host) (m : Bytes) : Signature :=
  h.suite.sign h.seed m

end Host
end Plenum
