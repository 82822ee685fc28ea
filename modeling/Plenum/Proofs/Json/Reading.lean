import Plenum.Json.Reading
import Plenum.Proofs.Json.Rendering

namespace Plenum.Json

namespace Tree

variable {α : Type}

theorem text?_text (s : String) : (text s).text? = some s :=
  rfl

theorem int?_int (n : Int) : (int n).int? = some n :=
  Numeral.int?_ofInt n

theorem int64?_int (n : Int64) : (int n.toInt).int64? = some n := by
  have hl : Int64.minValue.toInt ≤ n.toInt := n.minValue_le_toInt
  have hu : n.toInt ≤ Int64.maxValue.toInt := Int64.toInt_le n
  simp only [int64?, int?_int, Option.bind_eq_bind, Option.bind_some, hl, hu, and_self, if_true,
    Int64.ofInt_toInt]

theorem int32?_int (n : Int32) : (int n.toInt).int32? = some n := by
  have hl : Int32.minValue.toInt ≤ n.toInt := n.minValue_le_toInt
  have hu : n.toInt ≤ Int32.maxValue.toInt := Int32.toInt_le n
  simp only [int32?, int?_int, Option.bind_eq_bind, Option.bind_some, hl, hu, and_self, if_true,
    Int32.ofInt_toInt]

theorem uint64?_int (n : UInt64) : (int n.toNat).uint64? = some n := by
  have hl : 0 ≤ (n.toNat : Int) := Int.natCast_nonneg _
  have hu : (n.toNat : Int) < UInt64.size := Int.ofNat_lt.mpr n.toNat_lt_size
  rw [uint64?, int?_int, Option.bind_eq_bind, Option.bind_some, if_pos ⟨hl, hu⟩,
    Int.toNat_natCast, UInt64.ofNat_toNat]

theorem nullable?_of_ne {value? : Tree → Option α} {t : Tree} {a : α} (ht : t ≠ null)
    (h : value? t = some a) : nullable? value? t = some (some a) := by
  cases t
  case null => exact absurd rfl ht
  all_goals exact congrArg (Option.map some) h

theorem nullable?_int64 (n : Int64) : nullable? int64? (int n.toInt) = some (some n) :=
  nullable?_of_ne (fun h => by cases h) (int64?_int n)

theorem list?_map {f : α → Tree} {item? : Tree → Option α} {as : List α}
    (h : ∀ a ∈ as, item? (f a) = some a) : list? item? (array (as.map f)) = some as := by
  rw [list?]
  induction as
  case nil => rfl
  case cons a as ih =>
    have hi := ih fun b hb => h b (List.mem_cons_of_mem _ hb)
    simp [h a List.mem_cons_self, hi]

theorem areSound_iff {depth : Nat} {vs : List Tree} :
    areSound depth vs ↔ ∀ v ∈ vs, v.isSound depth := by
  induction vs <;> simp [areSound, *]

theorem membersSound_iff {depth : Nat} {ms : List (String × Tree)} :
    membersSound depth (ms.map fun m => (some m.1, m.2)) ↔ ∀ m ∈ ms, m.2.isSound depth := by
  induction ms <;> simp [membersSound, *]

theorem isSound_of_plain {depth : Nat} {t : Tree} (h : t.Plain depth) : t.isSound depth := by
  induction h
  case null => rfl
  case bool => rfl
  case int h => simp [int, isSound, Numeral.isHuge_of_int? (Numeral.int?_ofInt _) h]
  case text => rfl
  case array ih => simpa [isSound, areSound_iff] using ih
  case record ih =>
    rw [← membersSound_iff] at ih
    simpa [record, isSound] using ih

theorem plain_int64 {d : Nat} (n : Int64) : (int n.toInt).Plain d := by
  have hl := n.le_toInt
  have hu := n.toInt_lt
  exact .int (by simp only [UInt64.size]; omega)

theorem plain_int32 {d : Nat} (n : Int32) : (int n.toInt).Plain d := by
  have hl := n.le_toInt
  have hu := n.toInt_lt
  exact .int (by simp only [UInt64.size]; omega)

theorem plain_uint64 {d : Nat} (n : UInt64) : (int n.toNat).Plain d :=
  .int (by rw [Int.natAbs_natCast]; exact n.toNat_lt_size)

theorem plain_map {α : Type} {d : Nat} {f : α → Tree} {as : List α} (h : ∀ a, (f a).Plain d) :
    (array (as.map f)).Plain (d + 1) :=
  .array fun v hv => by
    obtain ⟨a, -, rfl⟩ := List.mem_map.mp hv
    exact h a

theorem readWhole?_eq_some {gs : List Glyph} {t : Tree} :
    readWhole? gs = some t ↔ ∃ t', parse gs = some t' ∧ t'.isSound maxDepth ∧ t'.lastWins = t := by
  simp only [readWhole?, Option.bind_eq_bind, Option.bind_eq_some_iff,
    Option.ite_none_right_eq_some, Option.some.injEq]

theorem readWhole?_render {t : Tree} (h : t.Plain maxDepth) :
    readWhole? (Glyph.ofText t.render) = some t.lastWins :=
  readWhole?_eq_some.mpr ⟨t, parse_render h, isSound_of_plain h, rfl⟩

theorem text?_lastWins (t : Tree) : t.lastWins.text? = t.text? := by
  cases t <;> rfl

-- Of the members of one name the last one is found, whether or not the others are still there.
theorem find?_lastWinsMembers (ms : List (Option String × Tree)) (k : Option String) :
    (lastWinsMembers ms).reverse.find? (·.1 = k) =
      (ms.reverse.find? (·.1 = k)).map fun m => (m.1, m.2.lastWins) := by
  induction ms
  case nil => rfl
  case cons m ms ih =>
    obtain ⟨j, v⟩ := m
    simp only [lastWinsMembers]
    split
    case isTrue h =>
      simp only [List.any_eq_true, decide_eq_true_eq] at h
      obtain ⟨n, hn, rfl⟩ := h
      rw [ih, List.reverse_cons, List.find?_append]
      cases hf : ms.reverse.find? (·.1 = k)
      case some => rfl
      case none =>
        have hk : n.1 ≠ k := by simpa using List.find?_eq_none.mp hf n (List.mem_reverse.mpr hn)
        simp [hk]
    case isFalse h =>
      simp only [List.reverse_cons, List.find?_append, ih]
      cases hf : ms.reverse.find? (·.1 = k)
      case some => rfl
      case none => by_cases hj : j = k <;> simp [hj]

theorem member?_lastWins (t : Tree) (name : String) :
    t.lastWins.member? name = (t.member? name).map lastWins := by
  cases t
  case object ms => simp [lastWins, member?, find?_lastWinsMembers, Function.comp_def]
  all_goals rfl

-- Where every name stands once, nothing is dropped.
theorem lastWins_record {ms : List (String × Tree)} (hn : (ms.map (·.1)).Nodup)
    (hm : ∀ m ∈ ms, m.2.lastWins = m.2) : (record ms).lastWins = record ms := by
  suffices h : lastWinsMembers (ms.map fun m => (some m.1, m.2)) =
      ms.map fun m => (some m.1, m.2) from congrArg object h
  induction ms
  case nil => rfl
  case cons m ms ih =>
    have ⟨hf, hn⟩ := List.nodup_cons.mp hn
    have ⟨hm, hms⟩ := List.forall_mem_cons.mp hm
    have ha : (ms.map fun m => (some m.1, m.2)).any (·.1 = some m.1) = false := by
      rw [List.any_eq_false]
      intro n hn hi
      obtain ⟨k, hk, rfl⟩ := List.mem_map.mp hn
      exact hf (List.mem_map.mpr ⟨k, hk, Option.some.inj (of_decide_eq_true hi)⟩)
    rw [List.map_cons, lastWinsMembers, ih hn hms]
    simp only [ha, hm]
    rfl

theorem lastWins_map {f : α → Tree} (as : List α) (hf : ∀ a, (f a).lastWins = f a) :
    (array (as.map f)).lastWins = array (as.map f) := by
  suffices h : lastWinsAll (as.map f) = as.map f from congrArg array h
  induction as
  case nil => rfl
  case cons a as ih => rw [List.map_cons, lastWinsAll, hf, ih]

end Tree

namespace Layout

-- Of the fields that were written those are found that are known.
theorem read?_record {l : Layout} {ms : List (String × Tree)} (hn : (ms.map (·.1)).Nodup)
    (hk : l.closed = true → ∀ m ∈ ms, m.1 ∈ l.names) :
    l.read? (.record ms) = some (ms.filter (·.1 ∈ l.names)) := by
  change l.fields? (ms.map fun m => (some m.1, m.2)) = _
  induction ms
  case nil => rfl
  case cons m ms ih =>
    have ⟨hm, hn⟩ := List.nodup_cons.mp hn
    have hi := ih hn fun hc n hn => hk hc n (List.mem_cons_of_mem _ hn)
    have hl : (ms.filter (·.1 ∈ l.names)).lookup m.1 = none := by
      rw [List.lookup_eq_none_iff]
      intro n hn
      have hne : m.1 ≠ n.1 :=
        fun h => hm (List.mem_map.mpr ⟨n, (List.mem_filter.mp hn).left, h.symm⟩)
      simpa using hne
    by_cases hk' : m.1 ∈ l.names
    case pos => simp [fields?, hi, hk', hl]
    case neg =>
      have hc : l.closed = false := by
        simpa using fun hc => hk' (hk hc m List.mem_cons_self)
      simp [fields?, hi, hk', hc]

theorem read?_of_known {l : Layout} {ms : List (String × Tree)} (hn : (ms.map (·.1)).Nodup)
    (hk : ∀ m ∈ ms, m.1 ∈ l.names) : l.read? (.record ms) = some ms := by
  have hf : ms.filter (·.1 ∈ l.names) = ms :=
    List.filter_eq_self.mpr fun m h => decide_eq_true (hk m h)
  rw [read?_record hn fun _ => hk, hf]

theorem read?_fields {l : Layout} {ms : List (String × Tree)} (h : ms.map (·.1) = l.names)
    (hn : l.names.Nodup) : l.read? (.record ms) = some ms :=
  read?_of_known (h ▸ hn) fun _ hm => h ▸ List.mem_map_of_mem hm

end Layout

namespace Fields

variable {α : Type} {value? : Tree → Option α}

theorem get?_cons (j k : String) (t : Tree) (fs : Fields) :
    get? ((j, t) :: fs) k value? = if k = j then value? t else get? fs k value? := by
  by_cases h : k = j
  case pos => simp [get?, h]
  case neg => simp [get?, List.lookup_cons, h, beq_false_of_ne h]

theorem getD?_nil (k : String) (default : α) : getD? [] k default value? = some default :=
  rfl

theorem getD?_cons (j k : String) (t : Tree) (fs : Fields) (default : α) :
    getD? ((j, t) :: fs) k default value? =
      if k = j then value? t else getD? fs k default value? := by
  by_cases h : k = j
  case pos => simp [getD?, h]
  case neg => simp [getD?, List.lookup_cons, h, beq_false_of_ne h]

end Fields
end Plenum.Json
