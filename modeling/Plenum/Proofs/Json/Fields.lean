import Plenum.Proofs.Json.Reading
import Plenum.Proofs.Table

namespace Plenum.Json

variable {α : Type} {d : Nat}

-- A reader that takes in sound trees only: it passes over no part of what it reads.
def Thorough (d : Nat) (value? : Tree → Option α) : Prop :=
  ∀ t a, value? t = some a → t.isSound d

namespace Tree

theorem thorough_text? : Thorough d text? := by
  intro t s h
  cases t
  case string => exact Option.isSome_iff_exists.mpr ⟨s, h⟩
  all_goals cases h

theorem thorough_bool? : Thorough d bool? := by
  intro t b h
  cases t
  case bool => rfl
  all_goals cases h

theorem isSound_of_int? {t : Tree} {v : Int} (h : t.int? = some v)
    (hv : v.natAbs < UInt64.size) : t.isSound d := by
  cases t
  case number n => simp [isSound, Numeral.isHuge_of_int? h hv]
  all_goals cases h

theorem thorough_int64? : Thorough d int64? := by
  intro t n h
  simp only [int64?, Option.bind_eq_bind, Option.bind_eq_some_iff, Option.ite_none_right_eq_some]
    at h
  obtain ⟨v, hv, ⟨hl, hu⟩, _⟩ := h
  refine isSound_of_int? hv ?_
  simp only [Int64.toInt_minValue, Int64.toInt_maxValue, UInt64.size] at *
  omega

theorem thorough_uint64? : Thorough d uint64? := by
  intro t n h
  simp only [uint64?, Option.bind_eq_bind, Option.bind_eq_some_iff, Option.ite_none_right_eq_some]
    at h
  obtain ⟨v, hv, ⟨hl, hu⟩, _⟩ := h
  exact isSound_of_int? hv (by omega)

theorem thorough_list? {item? : Tree → Option α} (hi : Thorough d item?) :
    Thorough (d + 1) (list? item?) := by
  intro t as h
  cases t
  case array vs =>
    suffices hs : ∀ v ∈ vs, v.isSound d by simpa [isSound, areSound_iff] using hs
    rw [list?] at h
    induction vs generalizing as
    case nil => exact List.forall_mem_nil _
    case cons v vs ih =>
      simp only [List.mapM_cons, Option.bind_eq_bind, Option.bind_eq_some_iff] at h
      obtain ⟨a, ha, bs, hbs, _⟩ := h
      exact List.forall_mem_cons.mpr ⟨hi v a ha, ih bs hbs⟩
  all_goals cases h

theorem member?_cons (j : Option String) (v : Tree) (ms : List (Option String × Tree))
    (name : String) : (object ((j, v) :: ms)).member? name =
      ((object ms).member? name).or (if j = some name then some v else none) := by
  rw [member?, member?, List.reverse_cons, List.find?_append]
  cases ms.reverse.find? (·.1 = some name)
  case some => rfl
  case none => by_cases hj : j = some name <;> simp [hj]

end Tree

namespace Fields

variable {value? : Tree → Option α} {fs : Fields} {name : String} {a : α}

theorem isSound_of_get? (h : fs.get? name value? = some a) (hv : Thorough d value?) :
    ∀ t, fs.lookup name = some t → t.isSound d := by
  intro t ht
  rw [get?, ht] at h
  exact hv t a h

theorem isSound_of_getD? {default : α} (h : fs.getD? name default value? = some a)
    (hv : Thorough d value?) : ∀ t, fs.lookup name = some t → t.isSound d := by
  intro t ht
  rw [getD?, ht] at h
  exact hv t a h

end Fields

namespace Layout

variable {l : Layout} {ms : List (Option String × Tree)} {fs : Fields} {t : Tree}

-- What is read of an object with one more member.
inductive Takes (l : Layout) (v : Tree) (more : Fields) : String → Fields → Prop
  | known {k : String} : k ∈ l.names → more.lookup k = none → Takes l v more k ((k, v) :: more)
  | unknown {k : String} : k ∉ l.names → l.closed = false → Takes l v more k more

theorem takes_of_fields? {j : Option String} {v : Tree} (h : l.fields? ((j, v) :: ms) = some fs) :
    ∃ k more, j = some k ∧ l.fields? ms = some more ∧ l.Takes v more k fs := by
  cases j
  case none => cases h
  case some k =>
    simp only [fields?, Option.bind_eq_bind, Option.bind_eq_some_iff] at h
    obtain ⟨more, hm, h⟩ := h
    refine ⟨k, more, rfl, hm, ?_⟩
    by_cases hk : k ∈ l.names
    case pos =>
      cases hl : more.lookup k
      case none =>
        simp only [hk, hl, if_true, Option.isSome_none, Bool.false_eq_true, if_false] at h
        cases h
        exact .known hk hl
      case some => simp [hk, hl] at h
    case neg =>
      cases hc : l.closed
      case true => simp [hk, hc] at h
      case false =>
        simp only [hk, hc, if_false, Bool.false_eq_true] at h
        cases h
        exact .unknown hk hc

-- The known names are found where the last member of the name stands.
theorem lookup_of_fields? (h : l.fields? ms = some fs) {name : String} (hn : name ∈ l.names) :
    fs.lookup name = (Tree.object ms).member? name := by
  induction ms generalizing fs
  case nil => cases h; rfl
  case cons m ms ih =>
    have ⟨k, more, hj, hm, ht⟩ := takes_of_fields? h
    rw [Tree.member?_cons, hj, ← ih hm]
    cases ht
    case known hl =>
      by_cases hk : k = name
      case pos => subst hk; simp [hl]
      case neg => simp [hk, List.lookup_cons, beq_false_of_ne (Ne.symm hk)]
    case unknown hk _ =>
      have hk : k ≠ name := fun he => hk (he ▸ hn)
      simp [hk]

theorem nodup_of_fields? (h : l.fields? ms = some fs) :
    (Table.keys fs).Nodup ∧ ∀ name ∈ Table.keys fs, name ∈ l.names := by
  induction ms generalizing fs
  case nil => cases h; exact ⟨.nil, nofun⟩
  case cons m ms ih =>
    have ⟨k, more, _, hm, ht⟩ := takes_of_fields? h
    have ⟨hn, hk⟩ := ih hm
    cases ht
    case unknown => exact ⟨hn, hk⟩
    case known hkn hl =>
      have hf : k ∉ Table.keys more := by
        intro hk
        have ⟨f, hf, he⟩ := List.mem_map.mp hk
        exact absurd he.symm (by simpa using List.lookup_eq_none_iff.mp hl f hf)
      exact ⟨List.nodup_cons.mpr ⟨hf, hn⟩, List.forall_mem_cons.mpr ⟨hkn, hk⟩⟩

theorem membersSound_of_fields? (hc : l.closed) (h : l.fields? ms = some fs)
    (hs : ∀ f ∈ fs, f.2.isSound d) : Tree.membersSound d ms := by
  induction ms generalizing fs
  case nil => rfl
  case cons m ms ih =>
    have ⟨k, more, hj, hm, ht⟩ := takes_of_fields? h
    obtain ⟨j, v⟩ := m
    cases ht
    case unknown hc' => cases hc.symm.trans hc'
    case known =>
      have ⟨hv, hs⟩ := List.forall_mem_cons.mp hs
      have hj : j = some k := hj
      simp [Tree.membersSound, hj, hv, ih hm hs]

theorem nodup_of_read? (hn : l.names.Nodup) (h : l.read? t = some fs) :
    (Table.keys fs).Nodup ∧ ∀ name ∈ Table.keys fs, name ∈ l.names := by
  cases t
  case array vs =>
    simp only [read?, Option.ite_none_right_eq_some] at h
    have ⟨⟨_, hl⟩, h⟩ := h
    cases h
    have hk : Table.keys (l.names.zip vs) = l.names.take vs.length := by
      rw [Table.keys, List.zip_eq_zip_take_min, List.map_fst_zip (by simp), Nat.min_eq_right hl]
    rw [hk]
    exact ⟨hn.sublist (List.take_sublist ..), fun _ => List.mem_of_mem_take⟩
  case object ms => exact nodup_of_fields? h
  all_goals cases h

-- A closed layout looks at every part of the tree.
theorem isSound_of_read? (hc : l.closed) (hn : l.names.Nodup) (h : l.read? t = some fs)
    (hs : ∀ name ∈ l.names, ∀ v, fs.lookup name = some v → v.isSound d) : t.isSound (d + 1) := by
  have ⟨hf, hk⟩ := nodup_of_read? hn h
  have hs : ∀ f ∈ fs, f.2.isSound d := fun f hm =>
    hs f.1 (hk f.1 (List.mem_map_of_mem hm)) f.2 ((Table.get?_eq_some_iff hf).mpr hm)
  cases t
  case array vs =>
    simp only [read?, Option.ite_none_right_eq_some] at h
    have ⟨⟨_, hl⟩, h⟩ := h
    cases h
    have hv : ∀ v ∈ vs, v.isSound d := by
      intro v hv
      rw [← List.map_snd_zip hl] at hv
      have ⟨f, hf, he⟩ := List.mem_map.mp hv
      exact he ▸ hs f hf
    simpa [Tree.isSound, Tree.areSound_iff] using hv
  case object ms =>
    simpa [Tree.isSound] using membersSound_of_fields? hc h hs
  all_goals cases h

end Layout
end Plenum.Json
