import Plenum.Proofs.Base64
import Plenum.Suite

namespace Plenum

namespace Bytes

theorem ofText_ofList (cs : List Char) :
    ofText (.ofList cs) = cs.flatMap String.utf8EncodeChar := by
  simp [ofText, List.utf8Encode]

theorem ofText_injective {s t : String} (h : ofText s = ofText t) : s = t :=
  Option.some.inj <| text?_ofText s ▸ h ▸ text?_ofText t

theorem length_ofText_of_ascii {cs : List Char} (h : ∀ c ∈ cs, c.toNat < 128) :
    (ofText (.ofList cs)).length = cs.length := by
  rw [ofText_ofList]
  induction cs
  case nil => rfl
  case cons c cs ih =>
    have hc : c.utf8Size = 1 := by
      rw [Char.utf8Size_eq_one_iff, UInt32.le_iff_toNat_le]
      exact Nat.le_of_lt_succ (h c List.mem_cons_self)
    have := ih fun d hd => h d (List.mem_cons_of_mem _ hd)
    simp [this, hc]
    omega

end Bytes

namespace Base64

theorem length_encodeList (b : Bytes) : (encodeList b).length = (b.length + 2) / 3 * 4 := by
  fun_induction encodeList b <;> simp only [List.length_nil, List.length_cons]
  case case4 ih => omega

theorem ascii_of_mem_encodeList {b : Bytes} {c : Char} (h : c ∈ encodeList b) : c.toNat < 128 := by
  have hs : ∀ v < 64, (sign v).toNat < 128 := by decide
  have hp : '='.toNat < 128 := by decide
  fun_induction encodeList b <;> simp only [List.mem_cons, List.not_mem_nil, or_false] at h
  case case2 a =>
    have := a.toNat_lt
    rcases h with rfl | rfl | rfl | rfl
    case inr.inr.inl | inr.inr.inr => exact hp
    all_goals exact hs _ (by omega)
  case case3 a b =>
    have := a.toNat_lt
    have := b.toNat_lt
    rcases h with rfl | rfl | rfl | rfl
    case inr.inr.inr => exact hp
    all_goals exact hs _ (by omega)
  case case4 a b c _ ih =>
    have := a.toNat_lt
    have := b.toNat_lt
    have := c.toNat_lt
    rcases h with rfl | rfl | rfl | rfl | h
    case inr.inr.inr.inr => exact ih h
    all_goals exact hs _ (by omega)

theorem length_ofText_encode (b : Bytes) :
    (Bytes.ofText (encode b)).length = (b.length + 2) / 3 * 4 := by
  rw [encode, Bytes.length_ofText_of_ascii fun c => ascii_of_mem_encodeList, length_encodeList]

end Base64

namespace Suite

theorem length_decimal (n : Nat) :
    (Bytes.ofText (toString n)).length = (Nat.toDigits 10 n).length := by
  rw [Nat.toString_eq_ofList_toDigits, Bytes.length_ofText_of_ascii]
  intro c hc
  have hd := Nat.isDigit_of_mem_toDigits (by decide) (by decide) hc
  simp only [Char.isDigit, Bool.and_eq_true, decide_eq_true_eq] at hd
  have : c.toNat ≤ 57 := hd.2
  omega

theorem length_decimal_le {n m : Nat} (h : n ≤ m) :
    (Bytes.ofText (toString n)).length ≤ (Bytes.ofText (toString m)).length := by
  have hm := (Nat.length_toDigits_le_iff (b := 10) (n := m) (by decide)
    Nat.length_toDigits_pos).mp (Nat.le_refl _)
  rw [length_decimal, length_decimal,
    Nat.length_toDigits_le_iff (by decide) Nat.length_toDigits_pos]
  exact Nat.lt_of_le_of_lt h hm

theorem preimage_pair (d s : String) :
    preimage [d, s] = Bytes.ofText (toString (Bytes.ofText d).length) ++ (Bytes.ofText d ++
      (Bytes.ofText (toString (Bytes.ofText s).length) ++ Bytes.ofText s)) := by
  simp [preimage]

-- The length of the whole grows with the length of the first text, so that it determines it.
theorem preimage_pair_injective {d d' s s' : String} (h : preimage [d, s] = preimage [d', s'])
    (hs : (Bytes.ofText s).length = (Bytes.ofText s').length) : d = d' ∧ s = s' := by
  rw [preimage_pair, preimage_pair, hs] at h
  have hd : (Bytes.ofText d).length = (Bytes.ofText d').length := by
    have hl := congrArg List.length h
    simp only [List.length_append, hs] at hl
    rcases Nat.lt_trichotomy (Bytes.ofText d).length (Bytes.ofText d').length with hlt | heq | hgt
    case inl =>
      have := length_decimal_le (Nat.le_of_lt hlt)
      omega
    case inr.inl => exact heq
    case inr.inr =>
      have := length_decimal_le (Nat.le_of_lt hgt)
      omega
  rw [hd] at h
  have ⟨hd', h'⟩ := List.append_inj (List.append_cancel_left h) hd
  exact ⟨Bytes.ofText_injective hd', Bytes.ofText_injective (List.append_cancel_left h')⟩

end Suite
end Plenum
