import Mathlib.Data.List.TakeWhile
import Mathlib.Tactic.Common
import Plenum.Json.Token

namespace Plenum.Json.Numeral

theorem isDigit_of_mem_toDigits {n : Nat} {c : Char} (h : c ∈ Nat.toDigits 10 n) : c.isDigit :=
  Nat.isDigit_of_mem_toDigits (by decide) (by decide) h

theorem toDigits_head_ne_zero {n : Nat} (h : 0 < n) : (Nat.toDigits 10 n).head? ≠ some '0' := by
  induction n using Nat.strongRecOn
  case ind n ih =>
    rw [Nat.toDigits_eq_if (by decide)]
    split
    case isTrue hlt =>
      have hall : ∀ k < 10, 0 < k → [Nat.digitChar k].head? ≠ some '0' := by decide
      exact hall n hlt h
    case isFalse hle =>
      have hi := ih (n / 10) (by omega) (by omega)
      have ⟨c, cs, hc⟩ := List.exists_cons_of_ne_nil (Nat.toDigits_ne_nil (n := n / 10) (b := 10))
      rw [hc] at hi ⊢
      exact hi

theorem readWhole?_toDigits (n : Nat) :
    readWhole? (Nat.toDigits 10 n) = some (Nat.toDigits 10 n, []) := by
  have ht : (Nat.toDigits 10 n).takeWhile Char.isDigit = Nat.toDigits 10 n :=
    List.takeWhile_eq_self_iff.mpr fun _ => isDigit_of_mem_toDigits
  have hd : (Nat.toDigits 10 n).dropWhile Char.isDigit = [] :=
    List.dropWhile_eq_nil_iff.mpr fun _ => isDigit_of_mem_toDigits
  simp only [readWhole?, ht, hd]
  split
  case h_1 h => exact absurd h Nat.toDigits_ne_nil
  case h_2 h =>
    rcases Nat.eq_zero_or_pos n with rfl | hn
    case inl => simp [Nat.toDigits_zero] at h
    case inr => exact absurd (by rw [h]; rfl) (toDigits_head_ne_zero hn)
  case h_3 => rfl

theorem toList_ofInt (n : Int) :
    (ofInt n).toList = (if n < 0 then ['-'] else []) ++ Nat.toDigits 10 n.natAbs := by
  simp [toList, ofInt]

theorem read?_ofInt (n : Int) : read? (ofInt n).toList = some (ofInt n) := by
  rw [toList_ofInt]
  by_cases hn : n < 0
  case pos =>
    simp [hn, read?, readWhole?_toDigits, readFraction?, readExponent?, ofInt]
  case neg =>
    have hd : ∀ cs, Nat.toDigits 10 n.natAbs ≠ '-' :: cs := by
      intro cs h
      have := isDigit_of_mem_toDigits (n := n.natAbs) (h ▸ List.mem_cons_self)
      exact absurd this (by decide)
    simp only [hn, if_false, List.nil_append, read?]
    simp [readWhole?_toDigits, readFraction?, readExponent?, ofInt, hn]

theorem isNumeric_of_mem_toList {n : Int} {c : Char} (h : c ∈ (ofInt n).toList) :
    Lexer.isNumeric c := by
  rw [toList_ofInt, List.mem_append] at h
  rcases h with h | h
  case inl =>
    split at h
    case isTrue => rw [List.mem_singleton.mp h]; rfl
    case isFalse => cases h
  case inr => simp [Lexer.isNumeric, isDigit_of_mem_toDigits h]

theorem toList_ofInt_eq_cons (n : Int) :
    ∃ c cs, (ofInt n).toList = c :: cs ∧ (c = '-' ∨ c.isDigit) := by
  rw [toList_ofInt]
  split
  case isTrue => exact ⟨_, _, rfl, .inl rfl⟩
  case isFalse =>
    have ⟨c, cs, h⟩ := List.exists_cons_of_ne_nil (Nat.toDigits_ne_nil (n := n.natAbs) (b := 10))
    refine ⟨c, cs, h, .inr (isDigit_of_mem_toDigits (n := n.natAbs) ?_)⟩
    rw [h]
    exact List.mem_cons_self

theorem le_ofDigitChars (cs : List Char) (m : Nat) : m ≤ Nat.ofDigitChars 10 cs m := by
  induction cs generalizing m
  case nil => exact Nat.le_refl m
  case cons c cs ih =>
    have := ih (10 * m + (c.toNat - '0'.toNat))
    rw [Nat.ofDigitChars_cons]
    omega

theorem absorb_eq {cs : List Char} {m : Nat} (h : Nat.ofDigitChars 10 cs m < UInt64.size) :
    absorb m cs = (Nat.ofDigitChars 10 cs m, cs.length) := by
  induction cs generalizing m
  case nil => rfl
  case cons c cs ih =>
    rw [Nat.ofDigitChars_cons] at h ⊢
    have hm : 10 * m + (c.toNat - 48) < UInt64.size := Nat.lt_of_le_of_lt (le_ofDigitChars cs _) h
    have hi : absorb (10 * m + (c.toNat - 48)) cs = _ := ih h
    simp only [absorb, hm, if_true, List.length_cons, hi]
    rfl

-- A numeral that is an integer has neither fraction nor exponent.
theorem scientific_of_int? {n : Numeral} {v : Int} (hv : n.int? = some v)
    (h : v.natAbs < UInt64.size) : n.scientific = (v.natAbs, 0) := by
  have ⟨hf, he, hw⟩ : n.fraction = [] ∧ n.exponent = none ∧
      Nat.ofDigitChars 10 n.whole 0 = v.natAbs := by
    rw [int?] at hv
    split at hv
    case isTrue hn =>
      refine ⟨hn.left, hn.right, ?_⟩
      rw [← natural]
      grind
    case isFalse => cases hv
  have ha : absorb 0 n.whole = _ := absorb_eq (hw ▸ h)
  rw [hw] at ha
  simp [scientific, hf, he, ha, absorb]

theorem round53_le (n : Nat) : round53 n ≤ 2 * n := by
  rw [round53]
  split
  case isTrue => omega
  case isFalse he =>
    generalize hx : n.log2 + 1 - 53 = excess at he ⊢
    have hn : n ≠ 0 := by
      rintro rfl
      simp at hx
      omega
    have hp : 2 ^ excess ≤ n :=
      Nat.le_trans (Nat.pow_le_pow_right (by decide) (by omega)) (Nat.log2_self_le hn)
    have hq : n / 2 ^ excess * 2 ^ excess ≤ n := Nat.div_mul_le_self ..
    simp only [Nat.shiftLeft_eq, Nat.shiftRight_eq_div_pow]
    split
    case isTrue => rw [Nat.add_mul]; omega
    case isFalse => omega

theorem isHuge_of_int? {n : Numeral} {v : Int} (hv : n.int? = some v)
    (h : v.natAbs < UInt64.size) : n.isHuge = false := by
  have hr := round53_le v.natAbs
  have hp : Nat.pow 10 (0 : Int).toNat = 1 := rfl
  have h₁ : round53 1 = 1 := rfl
  have hb : 2 * UInt64.size < Nat.pow 2 1024 - Nat.pow 2 970 := by decide +kernel
  simp only [isHuge, scientific_of_int? hv h, hp, h₁, Nat.mul_one]
  split
  case isTrue => rfl
  case isFalse => rw [if_neg (by decide), if_neg (by decide), decide_eq_false_iff_not]; omega

end Plenum.Json.Numeral
