import Plenum.Envelope
import Plenum.Proofs.Identifier
import Plenum.Proofs.Readers

namespace Plenum

-- The signature scheme accepts what it signs.
structure Suite.Sound (S : Suite) : Prop where
  isKey (seed : Seed) : S.isKey (S.publicKey seed)
  verify (seed : Seed) (b : Bytes) : S.verify (S.publicKey seed) b (S.sign seed b)

namespace Suite

variable {S : Suite}

theorem readKey_eq_ok {s : String} {k : Key} :
    S.readKey s = .ok k ↔ s = Base64.encode k.toList ∧ S.isKey k := by
  constructor
  case mp =>
    intro h
    unfold readKey at h
    split at h
    case h_1 => cases h
    case h_2 b hb =>
      split at h
      case h_1 => cases h
      case h_2 k' hk =>
        split at h
        case isTrue hs =>
          cases h
          rw [Bytes.toList_of_exactly? hk, Base64.encode_of_decode? hb]
          exact ⟨rfl, hs⟩
        case isFalse => cases h
  case mpr =>
    rintro ⟨rfl, hk⟩
    simp [readKey, Base64.decode?_encode, Bytes.exactly?_toList, hk]

theorem check_eq_ok {k : Key} {b : Bytes} {s : String} :
    S.check k b s = .ok () ↔ ∃ σ : Signature, s = Base64.encode σ.toList ∧ S.verify k b σ := by
  constructor
  case mp =>
    intro h
    unfold check at h
    split at h
    case h_1 => cases h
    case h_2 c hc =>
      split at h
      case h_1 => cases h
      case h_2 σ hσ =>
        split at h
        case isTrue hv =>
          refine ⟨σ, ?_, hv⟩
          rw [Bytes.toList_of_exactly? hσ, Base64.encode_of_decode? hc]
        case isFalse => cases h
  case mpr =>
    rintro ⟨σ, rfl, hv⟩
    simp [check, Base64.decode?_encode, Bytes.exactly?_toList, hv]

end Suite

namespace Message

variable {S : Suite} {m n : Message}

theorem payload_eq_ok {b : Bytes} : m.payload = .ok b ↔ Base64.decode? m.data = some b := by
  unfold payload
  split <;> simp_all

theorem verify_eq_ok {b : Bytes} {k : Key} :
    m.verify S b = .ok k ↔
      m.expectedId S = m.id ∧ S.readKey m.sender = .ok k ∧ S.check k b m.signature = .ok () := by
  simp only [verify, ne_eq, ite_not, Guards.throw_eq_error, Guards.error_bind, Guards.pure_eq_ok,
    Guards.ite_else_error_eq_ok, Guards.bind_eq_ok, Guards.exists_unit, Except.ok.injEq]
  constructor
  case mp =>
    rintro ⟨hi, k, hk, hc, rfl⟩
    exact ⟨hi, hk, hc⟩
  case mpr =>
    rintro ⟨hi, hk, hc⟩
    exact ⟨hi, k, hk, hc, rfl⟩

theorem unseal_eq_ok {env : Envelope} :
    m.unseal S = .ok env ↔
      m.payload = .ok env.payload ∧ Payload.validate env.payload = .ok () ∧
        m.verify S env.payload = .ok env.sender := by
  simp only [Message.unseal, Guards.pure_eq_ok, Guards.bind_eq_ok, Guards.exists_unit,
    Except.ok.injEq]
  constructor
  case mp =>
    rintro ⟨b, hb, hv, k, hk, rfl⟩
    exact ⟨hb, hv, hk⟩
  case mpr =>
    rintro ⟨hb, hv, hk⟩
    exact ⟨env.payload, hb, hv, env.sender, hk, rfl⟩

theorem id_of_unseal {env : Envelope} (h : m.unseal S = .ok env) : m.id = m.expectedId S :=
  (verify_eq_ok.mp (unseal_eq_ok.mp h).right.right).left.symm

-- What the payload of a message says, if it can be read.
def content? (m : Message) : Option Payload :=
  match m.payload with
  | .error _ => none
  | .ok b => (Payload.decode b).toOption

-- The kind that the header of the payload names.
def kind? (m : Message) : Option Payload.Kind :=
  match m.payload with
  | .error _ => none
  | .ok b =>
    match Header.read b with
    | .error _ => none
    | .ok h => h.kind?

-- A message that passes, with the key it is from.
def IsFrom (S : Suite) (m : Message) (k : Key) : Prop :=
  ∃ env, m.unseal S = .ok env ∧ env.sender = k

-- Different texts under one identifier.
def Collide (S : Suite) (m n : Message) : Prop :=
  m.expectedId S = n.expectedId S ∧
    Suite.preimage [m.data, m.signature] ≠ Suite.preimage [n.data, n.signature]

theorem payload_congr (hd : m.data = n.data) : m.payload = n.payload := by
  rw [payload, payload, hd]

theorem content?_congr (hd : m.data = n.data) : m.content? = n.content? := by
  rw [content?, content?, payload_congr hd]

theorem kind?_congr (hd : m.data = n.data) : m.kind? = n.kind? := by
  rw [kind?, kind?, payload_congr hd]

theorem content?_of_unseal {env : Envelope} (h : m.unseal S = .ok env) :
    m.content? = (Payload.decode env.payload).toOption := by
  rw [content?, (unseal_eq_ok.mp h).left]

theorem kind?_of_content? {p : Payload} (h : m.content? = some p) : m.kind? = some p.kind := by
  unfold content? at h
  split at h
  case h_1 => cases h
  case h_2 b hb =>
    cases hd : Payload.decode b
    case error => rw [hd] at h; cases h
    case ok p' =>
      rw [hd] at h
      cases h
      have ⟨header, hh, hk⟩ := Payload.kind?_of_decode hd
      rw [kind?, hb]
      simp only [hh, hk]

theorem length_signature {env : Envelope} (h : m.unseal S = .ok env) :
    (Bytes.ofText m.signature).length = 88 := by
  have ⟨_, _, hc⟩ := verify_eq_ok.mp (unseal_eq_ok.mp h).right.right
  have ⟨σ, hσ, _⟩ := Suite.check_eq_ok.mp hc
  rw [hσ, Base64.length_ofText_encode, Vector.length_toList]

theorem eq_of_id {e f : Envelope} (hm : m.unseal S = .ok e) (hn : n.unseal S = .ok f)
    (hc : ¬m.Collide S n) (hi : m.id = n.id) : m.data = n.data ∧ m.signature = n.signature := by
  rw [id_of_unseal hm, id_of_unseal hn] at hi
  have hp : Suite.preimage [m.data, m.signature] = Suite.preimage [n.data, n.signature] := by
    by_contra hp
    exact hc ⟨hi, hp⟩
  exact Suite.preimage_pair_injective hp ((length_signature hm).trans (length_signature hn).symm)

variable {h : Host} {b : Bytes}

theorem unseal_sign (hs : h.suite.Sound) (hb : Payload.validate b = .ok ()) :
    (Message.sign h b).unseal h.suite = .ok ⟨b, h.key⟩ := by
  have hp : (Message.sign h b).payload = .ok b := payload_eq_ok.mpr (Base64.decode?_encode b)
  have hk : h.suite.readKey (Message.sign h b).sender = .ok h.key :=
    Suite.readKey_eq_ok.mpr ⟨rfl, by rw [h.key_eq]; exact hs.isKey h.seed⟩
  have hc : h.suite.check h.key b (Message.sign h b).signature = .ok () :=
    Suite.check_eq_ok.mpr ⟨h.sign b, rfl, by rw [h.key_eq]; exact hs.verify h.seed b⟩
  exact unseal_eq_ok.mpr ⟨hp, hb, verify_eq_ok.mpr ⟨rfl, hk, hc⟩⟩

theorem content?_sign {p : Payload} (hp : p.Labelled) :
    (Message.sign h p.encode).content? = some p := by
  have hb : (Message.sign h p.encode).payload = .ok p.encode :=
    payload_eq_ok.mpr (Base64.decode?_encode _)
  rw [content?, hb]
  simp only [Payload.decode_encode hp, Except.toOption]

end Message
end Plenum
