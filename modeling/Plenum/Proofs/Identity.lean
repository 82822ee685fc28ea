import Plenum.Proofs.Broadcast
import Plenum.Proofs.Conduct
import Plenum.Proofs.Framing

namespace Plenum

namespace Message

variable {S : Suite} {m n : Message} {e f : Envelope}

-- The bytes that the identifier has to be the digest of.
def hashed (m : Message) : Bytes :=
  Suite.preimage [m.data, m.signature]

theorem hashed_eq_iff (hm : m.unseal S = .ok e) (hn : n.unseal S = .ok f) :
    m.hashed = n.hashed ↔ m.data = n.data ∧ m.signature = n.signature := by
  constructor
  case mp =>
    intro h
    exact Suite.preimage_pair_injective h ((length_signature hm).trans (length_signature hn).symm)
  case mpr =>
    intro ⟨hd, hs⟩
    rw [hashed, hashed, hd, hs]

theorem id_eq_iff (hm : m.unseal S = .ok e) (hn : n.unseal S = .ok f) :
    m.id = n.id ↔ S.digest m.hashed = S.digest n.hashed := by
  rw [id_of_unseal hm, id_of_unseal hn]
  exact Suite.identifier_eq_iff

-- Each payload has one spelling.
theorem data_of_unseal (hm : m.unseal S = .ok e) : m.data = Base64.encode e.payload :=
  (Base64.encode_of_decode? (payload_eq_ok.mp (unseal_eq_ok.mp hm).left)).symm

theorem data_eq_iff (hm : m.unseal S = .ok e) (hn : n.unseal S = .ok f) :
    m.data = n.data ↔ e.payload = f.payload := by
  constructor
  case mp =>
    intro hd
    have hp := (unseal_eq_ok.mp hm).left
    rw [payload_congr hd, (unseal_eq_ok.mp hn).left] at hp
    exact (Except.ok.inj hp).symm
  case mpr =>
    intro hp
    rw [data_of_unseal hm, data_of_unseal hn, hp]

theorem same_or_collide (hm : m.unseal S = .ok e) (hn : n.unseal S = .ok f) (hi : m.id = n.id) :
    m.data = n.data ∧ m.signature = n.signature ∨ m.Collide S n := by
  by_cases hc : m.Collide S n
  case pos => exact .inr hc
  case neg => exact .inl (eq_of_id hm hn hc hi)

end Message

-- Two messages that pass have the same bytes for their identifiers only where they have the same
-- payload, in the same spelling, and the same signature. All that stands in a log has passed; so
-- nowhere in a hub does the identifier of such a message stand for anything else, but for
-- collisions of the digest.
theorem Hub.one_payload_per_id {h : Host} {m n : Message} {e f : Envelope}
    (hm : m.unseal h.suite = .ok e) (hn : n.unseal h.suite = .ok f) :
    (m.hashed = n.hashed ↔ m.data = n.data ∧ m.signature = n.signature) ∧
    (m.data = n.data ↔ e.payload = f.payload) ∧
    (m.id = n.id ↔ h.suite.digest m.hashed = h.suite.digest n.hashed) ∧
    ∀ hub : Hub, hub.Reachable h → ∀ path, ∀ k ∈ hub.logAt path,
      (∃ env, k.unseal h.suite = .ok env) ∧
        (k.id = m.id → k.data = m.data ∧ k.signature = m.signature ∨ k.Collide h.suite m) := by
  refine ⟨Message.hashed_eq_iff hm hn, Message.data_eq_iff hm hn, Message.id_eq_iff hm hn, ?log⟩
  intro hub hr path k hk
  have ⟨env, hu⟩ : ∃ env, k.unseal h.suite = .ok env := by
    cases he : Table.get? hub.elections path
    case none =>
      rw [logAt, he] at hk
      cases hk
    case some e =>
      rw [logAt_eq he] at hk
      exact (Election.regular hr he).passed k hk
  exact ⟨⟨env, hu⟩, Message.same_or_collide hu hm⟩

open Trial in
theorem Hub.one_payload_per_id_opening :
    let m := message 1 (.opening (opening "A"))
    let n := message 2 (.castVote (vote "A"))
    (∃ e, m.unseal suite = .ok e) ∧ (∃ f, n.unseal suite = .ok f) ∧ m.hashed ≠ n.hashed := by
  intro m n
  have hm := unseal_message 1 (p := .opening (opening "A")) rfl
  have hn := unseal_message 2 (p := .castVote (vote "A")) rfl
  refine ⟨⟨_, hm⟩, ⟨_, hn⟩, fun hh => ?_⟩
  have ⟨hd, _⟩ := (one_payload_per_id (h := host) hm hn).left.mp hh
  have hm' := kind?_message 1 (p := .opening (opening "A")) rfl
  have hn' := kind?_message 2 (p := .castVote (vote "A")) rfl
  cases hm'.symm.trans ((Message.kind?_congr hd).trans hn')

end Plenum
