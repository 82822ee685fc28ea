import Mathlib.Data.List.Induction
import Plenum.Proofs.Ledger

namespace Plenum

namespace View

open Desk

variable {v : View} {c : Call} {slot id : String}

theorem Apart.slot_eq (ha : v.Apart) {s t : String} (hs : Table.get? v.held s = some id)
    (ht : Table.get? v.held t = some id) : s = t := by
  have hs := (Table.get?_eq_some_iff ha.slots).mp hs
  have ht := (Table.get?_eq_some_iff ha.slots).mp ht
  exact congrArg Prod.fst (List.inj_on_of_nodup_map ha.ids hs ht rfl)

theorem apart_after (calls : List Call) : (after step .empty calls).Apart := by
  induction calls using List.reverseRecOn
  case nil => exact apart_empty
  case append_singleton calls c ih => rw [after_concat]; exact ih.step c

theorem identifiers_step (v : View) (c : Call) :
    (v.step c).1.identifiers = v.identifiers ++ (v.gain c).map Message.id := by
  rw [identifiers, (v.step_gain c).left, List.map_append, identifiers]

theorem identifiers_concat (v : View) (m : Message) (held : Table String) (seen : List Message) :
    identifiers ⟨v.messages ++ [m], held, seen⟩ = v.identifiers ++ [m.id] :=
  List.map_append

theorem get?_of_vacate {s : String} (hg : Table.get? (v.vacate s).held slot = some id) :
    s ≠ slot ∧ Table.get? v.held slot = some id := by
  rw [vacate, Table.get?_erase] at hg
  split at hg
  case isTrue => cases hg
  case isFalse hs => exact ⟨hs, hg⟩

-- An id that is both held and stored was stored while it was held: a reservation is not made for
-- an id that is stored, and no other reservation of the id can be committed in the meantime.
theorem exists_store {calls : List Call}
    (hg : Table.get? (after step empty calls).held slot = some id)
    (hm : id ∈ (after step empty calls).identifiers) :
    ∃ pre m mid, calls = pre ++ .store m :: mid ∧ m.id = id ∧
      Table.get? (after step empty pre).held slot = some id := by
  induction calls using List.reverseRecOn
  case nil => cases hm
  case append_singleton calls c ih =>
    have earlier (hg : Table.get? (after step empty calls).held slot = some id)
        (hm : id ∈ (after step empty calls).identifiers) :
        ∃ pre m mid, calls ++ [c] = pre ++ .store m :: mid ∧ m.id = id ∧
          Table.get? (after step empty pre).held slot = some id := by
      have ⟨pre, m, mid, hc, hi, hp⟩ := ih hg hm
      exact ⟨pre, m, mid ++ [c], by simp [hc], hi, hp⟩
    have ha := apart_after calls
    have hs := (after step empty calls).stepped c
    rw [after_concat] at hg hm
    generalize ((after step empty calls).step c).1 = v at hs hg hm
    cases hs
    case kept => exact earlier hg hm
    case vacated => exact earlier (get?_of_vacate hg).right hm
    case stored m _ =>
      rw [identifiers_concat, List.mem_append, List.mem_singleton] at hm
      rcases hm with hm | rfl
      case inl => exact earlier hg hm
      case inr => exact ⟨calls, m, [], rfl, rfl, hg⟩
    case reserved s i hf _ =>
      rw [Table.get?_insert] at hg
      split at hg
      case isTrue => cases hg; exact absurd hm hf
      case isFalse => exact earlier (get?_of_vacate hg).right hm
    case committed s m ho =>
      have ⟨hn, hg⟩ := get?_of_vacate hg
      rw [identifiers_concat, List.mem_append, List.mem_singleton] at hm
      rcases hm with hm | rfl
      case inl => exact earlier hg hm
      case inr => exact absurd (ha.slot_eq ho hg) hn

theorem identifiers_sublist (v : View) (calls : List Call) :
    v.identifiers.Sublist (after step v calls).identifiers :=
  (v.messages_prefix_after calls).sublist.map _

theorem mem_identifiers_store (v : View) (m : Message) :
    m.id ∈ (v.step (.store m)).1.identifiers := by
  rw [identifiers_step, gain]
  split <;> simp [*]

end View

namespace Desk

variable {calls : List Call}

-- The id that is held in a slot after some calls.
def idIn? (calls : List Call) (slot : String) : Option String :=
  (Table.get? (after step empty calls).held slot).map Reservation.id

-- A message was stored while a slot held its id, and later the slot was used to commit it, still
-- held. That this is the same reservation is no condition, for an id that is stored cannot be
-- reserved again.
def Overtaken (calls : List Call) : Prop :=
  ∃ pre m mid slot n post, calls = pre ++ .store m :: mid ++ .commit slot n :: post ∧
    n.id = m.id ∧ idIn? pre slot = some m.id ∧ idIn? (pre ++ .store m :: mid) slot = some m.id

theorem idIn?_eq (calls : List Call) (slot : String) :
    idIn? calls slot = Table.get? (after View.step .empty calls).held slot := by
  have ⟨hs, _⟩ := shows_empty.run View.apart_empty calls
  simp [idIn?, hs.get?_held, Function.comp_def, live]

theorem Overtaken.not_nodup (ho : Overtaken calls) :
    ¬(after View.step .empty calls).identifiers.Nodup := by
  have ⟨pre, m, mid, slot, n, post, hc, hn, _, hg⟩ := ho
  rw [idIn?_eq] at hg
  have hm : m.id ∈ (after View.step .empty (pre ++ .store m :: mid)).identifiers := by
    rw [after_append, after_cons]
    exact (View.identifiers_sublist _ mid).subset (View.mem_identifiers_store ..)
  intro hd
  rw [hc, after_append, after_cons] at hd
  have hl := hd.sublist (View.identifiers_sublist _ post)
  rw [View.identifiers_step, View.gain, hn, if_pos hg, List.map_singleton, hn,
    ← List.concat_eq_append, List.nodup_concat] at hl
  exact hl.left hm

theorem overtaken_of_not_nodup (hd : ¬(after View.step .empty calls).identifiers.Nodup) :
    Overtaken calls := by
  induction calls using List.reverseRecOn
  case nil => exact absurd List.nodup_nil hd
  case append_singleton calls c ih =>
    by_cases hp : (after View.step .empty calls).identifiers.Nodup
    case neg =>
      have ⟨pre, m, mid, slot, n, post, hc, ho⟩ := ih hp
      exact ⟨pre, m, mid, slot, n, post ++ [c], by simp [hc], ho⟩
    case pos =>
      have hs := (after View.step .empty calls).stepped c
      rw [after_concat] at hd
      generalize ((after View.step .empty calls).step c).1 = v at hs hd
      cases hs
      case kept | vacated | reserved => exact absurd hp hd
      case stored m hf =>
        rw [View.identifiers_concat, ← List.concat_eq_append, List.nodup_concat] at hd
        exact absurd ⟨hf, hp⟩ hd
      case committed slot n hg =>
        rw [View.identifiers_concat, ← List.concat_eq_append, List.nodup_concat] at hd
        have hm := not_not.mp fun hf => hd ⟨hf, hp⟩
        have ⟨pre, m, mid, hc, hi, hh⟩ := View.exists_store hg hm
        rw [← idIn?_eq, ← hi] at hg hh
        exact ⟨pre, m, mid, slot, n, [], by rw [hc], hi.symm, hh, hc ▸ hg⟩

-- The messages in a ledger have different ids, unless one was stored while its id was reserved
-- and the reservation was committed all the same.
theorem nodup_ids_iff_not_overtaken (calls : List Call) :
    ((after step empty calls).ledger.messages.map Message.id).Nodup ↔ ¬Overtaken calls := by
  have ⟨hs, _⟩ := shows_empty.run View.apart_empty calls
  rw [hs.messages_eq, iff_not_comm]
  exact ⟨Overtaken.not_nodup, overtaken_of_not_nodup⟩

-- Two messages of one id, of which the first came in directly.
theorem two_messages_of_an_id :
    ¬((after step empty
      [.reserve "slot" "id", .store ⟨"first", "sender", "signature", "id", []⟩,
        .commit "slot" ⟨"second", "sender", "signature", "id", []⟩]).ledger.messages.map
      Message.id).Nodup := by
  decide +kernel

end Desk
end Plenum
