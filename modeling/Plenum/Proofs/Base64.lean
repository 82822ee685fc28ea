import Mathlib.Tactic.Common
import Plenum.Base64

namespace Plenum.Base64

theorem value?_sign : ∀ v < 64, value? (sign v) = some v := by
  decide

theorem sign_ne_padding : ∀ v < 64, sign v ≠ '=' := by
  decide

theorem toNat_lt_of_value? {c : Char} {v : Nat} (h : value? c = some v) : c.toNat < 128 := by
  by_contra hc
  have hn (d : Char) (hd : d.toNat < 128) : ¬c ≤ d := by
    intro hle
    have : c.toNat ≤ d.toNat := hle
    omega
  have h₁ : c ≠ '-' := by rintro rfl; exact hc (by decide)
  have h₂ : c ≠ '_' := by rintro rfl; exact hc (by decide)
  simp [value?, hn 'Z' (by decide), hn 'z' (by decide), hn '9' (by decide), h₁, h₂] at h

-- Signs are ASCII, so that it is enough to look at each of those.
theorem sign_of_value? {c : Char} {v : Nat} (h : value? c = some v) : v < 64 ∧ sign v = c := by
  have hall : ∀ n < 128, ∀ v ∈ value? (Char.ofNat n), v < 64 ∧ sign v = Char.ofNat n := by decide
  have h' := hall c.toNat (toNat_lt_of_value? h) v
  rw [Char.ofNat_toNat] at h'
  exact h' h

theorem ofNat_eq {n : Nat} {a : UInt8} (h : n = a.toNat) : UInt8.ofNat n = a := by
  rw [h, UInt8.ofNat_toNat]

theorem decodeList?_encodeList (b : Bytes) : decodeList? (encodeList b) = some b := by
  fun_induction encodeList b
  case case1 => rfl
  case case2 a =>
    have ha := a.toNat_lt
    simp only [decodeList?, one?, and_self, if_true, value?_sign (a.toNat / 4) (by omega),
      value?_sign (a.toNat % 4 * 16) (by omega), Option.bind_eq_bind, Option.bind_some]
    rw [if_pos (by omega), ofNat_eq (a := a) (by omega)]
  case case3 a b =>
    have ha := a.toNat_lt
    have hb := b.toNat_lt
    have hp := sign_ne_padding (b.toNat % 16 * 4) (by omega)
    simp only [decodeList?, two?, hp, and_self, false_and, and_false, if_true, if_false,
      value?_sign (a.toNat / 4) (by omega),
      value?_sign (a.toNat % 4 * 16 + b.toNat / 16) (by omega),
      value?_sign (b.toNat % 16 * 4) (by omega), Option.bind_eq_bind, Option.bind_some]
    rw [if_pos (by omega), ofNat_eq (a := a) (by omega), ofNat_eq (a := b) (by omega)]
  case case4 a b c rest ih =>
    have ha := a.toNat_lt
    have hb := b.toNat_lt
    have hc := c.toNat_lt
    have hp := sign_ne_padding (c.toNat % 64) (by omega)
    simp only [decodeList?, three?, hp, and_false, if_false, ih,
      value?_sign (a.toNat / 4) (by omega),
      value?_sign (a.toNat % 4 * 16 + b.toNat / 16) (by omega),
      value?_sign (b.toNat % 16 * 4 + c.toNat / 64) (by omega),
      value?_sign (c.toNat % 64) (by omega), Option.bind_eq_bind, Option.bind_some]
    rw [ofNat_eq (a := a) (by omega), ofNat_eq (a := b) (by omega), ofNat_eq (a := c) (by omega)]
    rfl

theorem encodeList_of_one? {c d : Char} {b : Bytes} (h : one? c d = some b) :
    encodeList b = [c, d, '=', '='] := by
  simp only [one?, Option.bind_eq_bind, Option.bind_eq_some_iff] at h
  obtain ⟨v, hv, w, hw, h⟩ := h
  obtain ⟨hv, rfl⟩ := sign_of_value? hv
  obtain ⟨hw, rfl⟩ := sign_of_value? hw
  split at h
  case isTrue hz =>
    cases h
    have h₁ : (v * 4 + w / 16) % 2 ^ 8 / 4 = v := by omega
    have h₂ : (v * 4 + w / 16) % 2 ^ 8 % 4 * 16 = w := by omega
    simp only [encodeList, UInt8.toNat_ofNat', h₁, h₂]
  case isFalse => cases h

theorem encodeList_of_two? {c d e : Char} {b : Bytes} (h : two? c d e = some b) :
    encodeList b = [c, d, e, '='] := by
  simp only [two?, Option.bind_eq_bind, Option.bind_eq_some_iff] at h
  obtain ⟨v, hv, w, hw, x, hx, h⟩ := h
  obtain ⟨hv, rfl⟩ := sign_of_value? hv
  obtain ⟨hw, rfl⟩ := sign_of_value? hw
  obtain ⟨hx, rfl⟩ := sign_of_value? hx
  split at h
  case isTrue hz =>
    cases h
    have h₁ : (v * 4 + w / 16) % 2 ^ 8 / 4 = v := by omega
    have h₂ : (v * 4 + w / 16) % 2 ^ 8 % 4 * 16 + (w % 16 * 16 + x / 4) % 2 ^ 8 / 16 = w := by omega
    have h₃ : (w % 16 * 16 + x / 4) % 2 ^ 8 % 16 * 4 = x := by omega
    simp only [encodeList, UInt8.toNat_ofNat', h₁, h₂, h₃]
  case isFalse => cases h

theorem encodeList_of_three? {c d e f : Char} {b more : Bytes} (h : three? c d e f = some b) :
    encodeList (b ++ more) = c :: d :: e :: f :: encodeList more := by
  simp only [three?, Option.bind_eq_bind, Option.bind_eq_some_iff, Option.some.injEq] at h
  obtain ⟨v, hv, w, hw, x, hx, y, hy, rfl⟩ := h
  obtain ⟨hv, rfl⟩ := sign_of_value? hv
  obtain ⟨hw, rfl⟩ := sign_of_value? hw
  obtain ⟨hx, rfl⟩ := sign_of_value? hx
  obtain ⟨hy, rfl⟩ := sign_of_value? hy
  have h₁ : (v * 4 + w / 16) % 2 ^ 8 / 4 = v := by omega
  have h₂ : (v * 4 + w / 16) % 2 ^ 8 % 4 * 16 + (w % 16 * 16 + x / 4) % 2 ^ 8 / 16 = w := by omega
  have h₃ : (w % 16 * 16 + x / 4) % 2 ^ 8 % 16 * 4 + (x % 4 * 64 + y) % 2 ^ 8 / 64 = x := by omega
  have h₄ : (x % 4 * 64 + y) % 2 ^ 8 % 64 = y := by omega
  simp only [encodeList, List.cons_append, List.nil_append, UInt8.toNat_ofNat', h₁, h₂, h₃, h₄]

theorem encodeList_of_decodeList? {cs : List Char} {b : Bytes} (h : decodeList? cs = some b) :
    encodeList b = cs := by
  fun_induction decodeList? cs generalizing b
  case case1 => cases h; rfl
  case case2 c d e f rest hp =>
    obtain ⟨rfl, rfl, rfl⟩ := hp
    exact encodeList_of_one? h
  case case3 c d e f rest _ hp =>
    obtain ⟨rfl, rfl⟩ := hp
    exact encodeList_of_two? h
  case case4 c d e f rest _ _ ih =>
    simp only [Option.bind_eq_bind, Option.bind_eq_some_iff, Option.some.injEq] at h
    obtain ⟨group, hg, more, hm, rfl⟩ := h
    rw [encodeList_of_three? hg, ih hm]
  case case5 => cases h

theorem decode?_encode (b : Bytes) : decode? (encode b) = some b := by
  simp [decode?, encode, decodeList?_encodeList]

theorem encode_of_decode? {s : String} {b : Bytes} (h : decode? s = some b) : encode b = s := by
  rw [encode, encodeList_of_decodeList? h, String.ofList_toList]

end Plenum.Base64
