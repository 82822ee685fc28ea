import Mathlib.Data.List.Nodup
import Mathlib.Tactic.Common
import Plenum.Table

namespace Plenum.Table

variable {α β : Type}

theorem get?_map (t : Table α) (f : α → β) (k : String) :
    get? (t.map fun (j, a) => (j, f a)) k = (get? t k).map f := by
  induction t
  case nil => rfl
  case cons p t ih =>
    obtain ⟨j, a⟩ := p
    simp only [List.map_cons, get?_cons, ih]
    split <;> rfl

theorem get?_insert (t : Table α) (j k : String) (a : α) :
    get? (t.insert j a) k = if j = k then some a else get? t k := by
  split
  case isTrue hj => exact hj ▸ get?_insert_self ..
  case isFalse hj => exact get?_insert_of_ne hj ..

-- No entry is lost when another is made.
theorem exists_get?_insert {t : Table α} {k : String} {a : α} (h : get? t k = some a) (j : String)
    (b : α) : ∃ c, get? (t.insert j b) k = some c := by
  rw [get?_insert]
  split
  case isTrue => exact ⟨b, rfl⟩
  case isFalse => exact ⟨a, h⟩

-- An entry that is there keeps its place, whatever else is entered.
theorem insert_comm {t : Table α} {j k : String} {c : α} (hn : j ≠ k) (hj : get? t j = some c)
    (a b : α) : (t.insert j a).insert k b = (t.insert k b).insert j a := by
  induction t
  case nil => cases hj
  case cons p t ih =>
    obtain ⟨i, x⟩ := p
    rw [get?_cons] at hj
    by_cases hij : i = j
    case pos =>
      subst hij
      simp only [insert, hn, if_true, if_false]
    case neg =>
      rw [if_neg hij] at hj
      by_cases hik : i = k
      case pos =>
        subst hik
        simp only [insert, hij, if_true, if_false]
      case neg => simp only [insert, hij, hik, if_false, ih hj]

theorem contains_eq_false {t : Table α} {k : String} : contains t k = false ↔ get? t k = none := by
  simp [contains]

theorem mem_keys_insert {t : Table α} {j k : String} {a : α} :
    j ∈ keys (t.insert k a) ↔ j = k ∨ j ∈ keys t := by
  induction t
  case nil => simp [insert, keys]
  case cons p t ih =>
    simp only [insert]
    split
    case isTrue hp => simp [keys, hp]
    case isFalse hp =>
      simp only [keys, List.map_cons, List.mem_cons] at ih ⊢
      rw [ih]
      tauto

theorem mem_keys_iff {t : Table α} {k : String} :
    k ∈ keys t ↔ t.get? k ≠ none := by
  induction t
  case nil => simp [keys]
  case cons p t ih =>
    obtain ⟨j, a⟩ := p
    rw [keys] at ih ⊢
    rw [List.map_cons, List.mem_cons, ih, get?_cons]
    split
    case isTrue hj => simp [hj]
    case isFalse hj => simp [Ne.symm hj]

theorem nodup_keys_insert {t : Table α} (k : String) (a : α) (h : (keys t).Nodup) :
    (keys (t.insert k a)).Nodup := by
  induction t
  case nil => simp [insert, keys]
  case cons p t ih =>
    obtain ⟨hp, ht⟩ := List.nodup_cons.mp h
    simp only [insert]
    split
    case isTrue he => exact List.nodup_cons.mpr ⟨he ▸ hp, ht⟩
    case isFalse he =>
      refine List.nodup_cons.mpr ⟨fun hm => ?_, ih ht⟩
      exact (mem_keys_insert.mp hm).elim he hp

theorem get?_eq_some_iff {t : Table α} (h : (keys t).Nodup) {k : String} {a : α} :
    t.get? k = some a ↔ (k, a) ∈ t := by
  induction t
  case nil => simp
  case cons p t ih =>
    obtain ⟨j, b⟩ := p
    have ⟨hp, ht⟩ := List.nodup_cons.mp h
    rw [get?_cons, List.mem_cons, Prod.mk.injEq]
    split
    case isTrue hj =>
      subst hj
      have hn : (j, a) ∉ t := fun hm => hp (List.mem_map.mpr ⟨(j, a), hm, rfl⟩)
      simp [hn, eq_comm]
    case isFalse hj => simp [ih ht, Ne.symm hj]

-- Of the entries of a table one is of a key, if any.
theorem filter_key {t : Table α} (h : (keys t).Nodup) (k : String) :
    t.filter (·.1 = k) = ((get? t k).map fun a => (k, a)).toList := by
  induction t
  case nil => rfl
  case cons p t ih =>
    obtain ⟨j, b⟩ := p
    have ⟨hp, ht⟩ := List.nodup_cons.mp h
    rw [get?_cons]
    split
    case isTrue hj =>
      subst hj
      have hn : t.filter (·.1 = j) = [] := by
        refine List.filter_eq_nil_iff.mpr fun p hm => ?_
        simpa using fun he : p.1 = j => hp (List.mem_map.mpr ⟨p, hm, he⟩)
      simp [hn]
    case isFalse hj => simp [hj, ih ht]

theorem get?_erase (t : Table α) (j k : String) :
    get? (erase t j) k = if j = k then none else get? t k := by
  induction t
  case nil => simp [erase]
  case cons p t ih =>
    obtain ⟨i, b⟩ := p
    rw [erase] at ih ⊢
    by_cases hi : i = j
    case pos =>
      subst hi
      rw [List.filter_cons_of_neg (by simp), ih, get?_cons]
      split <;> rfl
    case neg =>
      rw [List.filter_cons_of_pos (by simpa using hi), get?_cons, ih, get?_cons]
      split
      case isTrue hk => rw [if_neg fun hj => hi (hk.trans hj.symm)]
      case isFalse => rfl

theorem erase_insert (t : Table α) (k : String) (a : α) : erase (t.insert k a) k = erase t k := by
  induction t
  case nil => simp [insert, erase]
  case cons p t ih =>
    simp only [insert]
    split
    case isTrue hp => simp [erase, hp]
    case isFalse hp =>
      rw [erase, List.filter_cons_of_pos (by simpa using hp), erase,
        List.filter_cons_of_pos (by simpa using hp)]
      exact congrArg _ ih

theorem erase_of_get? {t : Table α} {k : String} (h : get? t k = none) : erase t k = t := by
  induction t
  case nil => rfl
  case cons p t ih =>
    obtain ⟨j, b⟩ := p
    rw [get?_cons] at h
    split at h
    case isTrue => cases h
    case isFalse hj =>
      rw [erase, List.filter_cons_of_pos (by simpa using hj)]
      exact congrArg _ (ih h)

theorem nodup_keys_filter {t : Table α} (h : (keys t).Nodup) (p : String × α → Bool) :
    (keys (t.filter p)).Nodup :=
  h.sublist (List.filter_sublist.map _)

theorem nodup_keys_erase {t : Table α} (k : String) (h : (keys t).Nodup) :
    (keys (erase t k)).Nodup :=
  nodup_keys_filter h _

theorem eq_or_mem_of_mem_insert {t : Table α} {k : String} {a : α} {p : String × α}
    (h : p ∈ t.insert k a) : p = (k, a) ∨ p ∈ t := by
  induction t
  case nil => exact .inl (List.mem_singleton.mp h)
  case cons q t ih =>
    simp only [insert] at h
    split at h
    case isTrue => exact (List.mem_cons.mp h).imp_right (List.mem_cons_of_mem q)
    case isFalse =>
      rcases List.mem_cons.mp h with rfl | h
      case inl => exact .inr List.mem_cons_self
      case inr => exact (ih h).imp_right (List.mem_cons_of_mem q)

theorem mem_keys_filter {t : Table α} (h : (keys t).Nodup) {p : α → Bool} {k : String} :
    k ∈ keys (t.filter (p ·.2)) ↔ (t.get? k).any p := by
  rw [Option.any_eq_true, keys, List.mem_map]
  constructor
  case mp =>
    rintro ⟨⟨_, a⟩, hm, rfl⟩
    have ⟨hm, hp⟩ := List.mem_filter.mp hm
    exact ⟨a, (get?_eq_some_iff h).mpr hm, hp⟩
  case mpr =>
    rintro ⟨a, hk, hp⟩
    exact ⟨(k, a), List.mem_filter.mpr ⟨(get?_eq_some_iff h).mp hk, hp⟩, rfl⟩

-- What is in a table, whatever its key.
def values (t : Table α) : List α :=
  t.map (·.2)

theorem mem_values_of_get? {t : Table α} {k : String} {a : α} (h : t.get? k = some a) :
    a ∈ values t := by
  induction t
  case nil => simp at h
  case cons p t ih =>
    obtain ⟨j, b⟩ := p
    rw [get?_cons] at h
    split at h
    case isTrue => simp [values, Option.some.inj h]
    case isFalse => exact List.mem_cons_of_mem _ (ih h)

theorem insert_of_get?_none {t : Table α} {k : String} (h : t.get? k = none) (a : α) :
    t.insert k a = t ++ [(k, a)] := by
  induction t
  case nil => rfl
  case cons p t ih =>
    obtain ⟨j, b⟩ := p
    rw [get?_cons] at h
    split at h
    case isTrue => cases h
    case isFalse hj => simp [insert, hj, ih h]

-- Where neither a key nor a value stands twice, the key goes together with its value.
theorem values_erase {t : Table α} [DecidableEq α] (hk : (keys t).Nodup) (hv : (values t).Nodup)
    {k : String} {a : α} (h : t.get? k = some a) :
    values (t.erase k) = (values t).filter (· ≠ a) := by
  have hm : (k, a) ∈ t := (get?_eq_some_iff hk).mp h
  have hc : ∀ p ∈ t, decide (p.1 ≠ k) = decide (p.2 ≠ a) := by
    intro p hp
    have hl : p.1 = k → p = (k, a) := List.inj_on_of_nodup_map hk hp hm
    have hr : p.2 = a → p = (k, a) := List.inj_on_of_nodup_map hv hp hm
    exact decide_eq_decide.mpr ⟨fun hn he => hn (hr he ▸ rfl), fun hn he => hn (hl he ▸ rfl)⟩
  rw [values, erase, List.filter_congr hc, values, List.filter_map]
  rfl

theorem map_erase (t : Table α) (f : α → β) (k : String) :
    erase (t.map fun (j, a) => (j, f a)) k = (t.erase k).map fun (j, a) => (j, f a) := by
  simp [erase, List.filter_map, Function.comp_def]

theorem map_insert (t : Table α) (f : α → β) (k : String) (a : α) :
    insert (t.map fun (j, a) => (j, f a)) k (f a) =
      (t.insert k a).map fun (j, a) => (j, f a) := by
  induction t
  case nil => rfl
  case cons p t ih =>
    obtain ⟨j, b⟩ := p
    simp only [List.map_cons, insert]
    split
    case isTrue => rfl
    case isFalse => rw [ih, List.map_cons]

end Plenum.Table
