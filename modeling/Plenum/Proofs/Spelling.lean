import Mathlib
import Plenum.Proofs.Identifier
import Plenum.Proofs.Json.Numeral

namespace Plenum.Suite

-- A length as it stands before its text.
def decimal (n : Nat) : Bytes :=
  Bytes.ofText (toString n)

-- The spelling of a time.
def instant (t : Int64) : Bytes :=
  Bytes.ofText (toString t.toInt)

theorem preimage_cons (p : String) (ps : List String) :
    preimage (p :: ps) = decimal (Bytes.ofText p).length ++ (Bytes.ofText p ++ preimage ps) := by
  simp [preimage, decimal]

theorem preimage_singleton_injective {n m : String} (h : preimage [n] = preimage [m]) : n = m := by
  have hp : preimage [n, ""] = preimage [m, ""] := by
    simpa [preimage] using congrArg (· ++ preimage [""]) h
  exact (preimage_pair_injective hp rfl).left

-- Of two lengths up to 20, one stands at the head of the other only as its first digit.
theorem eq_or_div_of_prefix : ∀ a < 21, ∀ b < 21, decimal a <+: decimal b →
    a = b ∨ 0 < a ∧ a = b / 10 := by
  decide +kernel

theorem decimal_teen : ∀ k < 10, decimal (10 + k) = decimal 1 ++ decimal k ∧
    (decimal k).length = 1 := by
  decide +kernel

theorem decimal_twenty : decimal 20 = decimal 2 ++ decimal 0 := by
  decide +kernel

theorem instant_injective {t t' : Int64} (h : instant t = instant t') : t = t' :=
  Int64.toInt_inj.mp (Int.repr_injective (Bytes.ofText_injective h))

theorem instant_eq_decimal {t : Int64} {k : Nat} : instant t = decimal k ↔ t.toInt = k :=
  ⟨fun h => Int.repr_injective (Bytes.ofText_injective h), fun h => by rw [instant, h]; rfl⟩

theorem instant_of_neg {t : Int64} (h : t.toInt < 0) :
    instant t = Bytes.ofText "-" ++ decimal (-t.toInt).toNat := by
  rw [instant, Int.toString_eq_repr, Int.repr_eq_if, if_neg (Int.not_le.mpr h)]
  simp [Bytes.ofText, decimal]

theorem length_instant_lt (t : Int64) : (instant t).length < 21 := by
  have hm : (decimal (2 ^ 63)).length = 19 := by decide +kernel
  have hl := t.le_toInt
  have hu := t.toInt_lt
  by_cases h : t.toInt < 0
  case pos =>
    have := length_decimal_le (n := (-t.toInt).toNat) (m := 2 ^ 63) (by omega)
    have h1 : (Bytes.ofText "-").length = 1 := by decide +kernel
    rw [instant_of_neg h, List.length_append, h1]
    simp only [decimal] at hm ⊢
    omega
  case neg =>
    have := length_decimal_le (n := t.toInt.toNat) (m := 2 ^ 63) (by omega)
    rw [instant_eq_decimal.mpr (Int.toNat_of_nonneg (Int.not_lt.mp h)).symm]
    simp only [decimal] at hm ⊢
    omega

-- A time of two signs does not begin with a zero.
theorem not_zero_at_head {t : Int64} (hl : (instant t).length = 2) :
    ¬decimal 0 <+: instant t := by
  have hz : ∀ n < 100, (decimal n).length = 2 → ¬decimal 0 <+: decimal n := by decide +kernel
  rintro ⟨b, he⟩
  by_cases h : t.toInt < 0
  case pos =>
    rw [instant_of_neg h] at he
    have ⟨hs, _⟩ := List.append_inj he (by decide +kernel)
    exact absurd (Bytes.ofText_injective hs) (by decide)
  case neg =>
    rw [instant_eq_decimal.mpr (Int.toNat_of_nonneg (Int.not_lt.mp h)).symm] at hl he
    have hn := hl.le
    rw [decimal, length_decimal, Nat.length_toDigits_le_iff (by decide) (by decide)] at hn
    exact hz _ hn hl ⟨b, he⟩

-- The two are spelled alike although the times differ: the first is a digit, which is taken for
-- the second digit of the length of the other, and its text with the length in front is what the
-- other has from there on.
def Blurs (t : Int64) (n : String) (t' : Int64) (n' : String) : Prop :=
  ∃ k : Nat, k < 10 ∧ t.toInt = k ∧ (instant t').length = 10 + k ∧
    preimage [n] = instant t' ++ preimage [n']

theorem preimage_instant (t : Int64) (n : String) : preimage [toString t.toInt, n] =
    decimal (instant t).length ++ (instant t ++ preimage [n]) :=
  preimage_cons _ _

variable {t t' : Int64} {n n' : String}

theorem Blurs.preimage_eq (hb : Blurs t n t' n') :
    preimage [toString t.toInt, n] = preimage [toString t'.toInt, n'] := by
  have ⟨k, hk, ht, hl, hn⟩ := hb
  have ⟨hd, hk⟩ := decimal_teen k hk
  rw [preimage_instant, preimage_instant, hl, hd, instant_eq_decimal.mpr ht, hk, hn,
    List.append_assoc]

theorem eq_or_blurs_of_le (h : preimage [toString t.toInt, n] = preimage [toString t'.toInt, n'])
    (hl : (instant t).length ≤ (instant t').length) : t = t' ∧ n = n' ∨ Blurs t n t' n' := by
  rw [preimage_instant, preimage_instant] at h
  have hp : decimal (instant t).length <+: decimal (instant t').length :=
    List.prefix_of_prefix_length_le ⟨_, h⟩ ⟨_, rfl⟩ (length_decimal_le hl)
  have hu := length_instant_lt t'
  rcases eq_or_div_of_prefix _ (length_instant_lt t) _ hu hp with he | ⟨h0, hd⟩
  case inl =>
    rw [he] at h
    have ⟨ht, hn⟩ := List.append_inj (List.append_cancel_left h) he
    exact .inl ⟨instant_injective ht, preimage_singleton_injective hn⟩
  case inr =>
    obtain ⟨h1, k, hk, hl⟩ | ⟨h2, hl⟩ : ((instant t).length = 1 ∧
        ∃ k < 10, (instant t').length = 10 + k) ∨
        (instant t).length = 2 ∧ (instant t').length = 20 := by
      rcases Nat.lt_or_ge (instant t').length 20 with hl | hl
      case inl => exact .inl ⟨by omega, (instant t').length - 10, by omega, by omega⟩
      case inr => exact .inr ⟨by omega, by omega⟩
    case inl =>
      have ⟨hd, hs⟩ := decimal_teen k hk
      rw [h1, hl, hd, List.append_assoc] at h
      have ⟨ht, hn⟩ := List.append_inj (List.append_cancel_left h) (h1.trans hs.symm)
      exact .inr ⟨k, hk, instant_eq_decimal.mp ht, hl, hn⟩
    case inr =>
      rw [h2, hl, decimal_twenty, List.append_assoc] at h
      have h := (List.append_cancel_left h).symm
      have hz : (decimal 0).length = 1 := (decimal_teen 0 (by decide)).right
      exfalso
      apply not_zero_at_head h2
      exact List.prefix_of_prefix_length_le ⟨_, h⟩ ⟨_, rfl⟩ (by omega)

theorem preimage_eq_iff : preimage [toString t.toInt, n] = preimage [toString t'.toInt, n'] ↔
    t = t' ∧ n = n' ∨ Blurs t n t' n' ∨ Blurs t' n' t n := by
  constructor
  case mp =>
    intro h
    rcases Nat.le_total (instant t).length (instant t').length with hl | hl
    case inl => exact (eq_or_blurs_of_le h hl).imp_right .inl
    case inr => exact (eq_or_blurs_of_le h.symm hl).imp (fun ⟨ht, hn⟩ => ⟨ht.symm, hn.symm⟩) .inr
  case mpr =>
    rintro (⟨rfl, rfl⟩ | hb | hb)
    case inl => rfl
    case inr.inl => exact hb.preimage_eq
    case inr.inr => exact hb.preimage_eq.symm

end Plenum.Suite
