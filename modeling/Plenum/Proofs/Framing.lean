import Plenum.Proofs.Spelling

namespace Plenum.Suite

variable {ps qs : List String} {p q c : String}

-- How many signs the length of a text takes.
def width (p : String) : Nat :=
  (decimal (Bytes.ofText p).length).length

-- Up to some part the lists are the same. There the length of the one part begins like that of the
-- other and has more signs; these stand at the head of what follows the other length, and the rest
-- of it is what follows the one.
def Blends (ps qs : List String) : Prop :=
  ∃ common p ps' q qs' signs, ps = common ++ p :: ps' ∧ qs = common ++ q :: qs' ∧ signs ≠ [] ∧
    decimal (Bytes.ofText q).length = decimal (Bytes.ofText p).length ++ signs ∧
    Bytes.ofText p ++ preimage ps' = signs ++ (Bytes.ofText q ++ preimage qs')

theorem decimal_injective {n m : Nat} (h : decimal n = decimal m) : n = m :=
  Nat.repr_injective (Bytes.ofText_injective h)

theorem preimage_append (ps qs : List String) :
    preimage (ps ++ qs) = preimage ps ++ preimage qs :=
  List.flatMap_append

theorem Blends.cons (hb : Blends ps qs) (c : String) : Blends (c :: ps) (c :: qs) := by
  obtain ⟨common, p, ps', q, qs', signs, rfl, rfl, hb⟩ := hb
  exact ⟨c :: common, p, ps', q, qs', signs, rfl, rfl, hb⟩

theorem Blends.preimage_eq (hb : Blends ps qs) : preimage ps = preimage qs := by
  obtain ⟨common, p, ps', q, qs', signs, rfl, rfl, -, hd, hr⟩ := hb
  rw [preimage_append, preimage_append, preimage_cons, preimage_cons, hd, hr, List.append_assoc]

-- If the length of one part stands at the head of the other, it is the same length and the same
-- part, or the parts blend.
theorem eq_or_blends_of_prefix (h : preimage (p :: ps) = preimage (q :: qs))
    (hp : decimal (Bytes.ofText p).length <+: decimal (Bytes.ofText q).length) :
    p = q ∧ preimage ps = preimage qs ∨ Blends (p :: ps) (q :: qs) := by
  obtain ⟨signs, hd⟩ := hp
  rw [preimage_cons, preimage_cons, ← hd, List.append_assoc] at h
  have h := List.append_cancel_left h
  by_cases hs : signs = []
  case pos =>
    rw [hs, List.append_nil] at hd
    rw [hs, List.nil_append] at h
    have ⟨hp, hr⟩ := List.append_inj h (decimal_injective hd)
    exact .inl ⟨Bytes.ofText_injective hp, hr⟩
  case neg => exact .inr ⟨[], p, ps, q, qs, signs, rfl, rfl, hs, hd.symm, h⟩

theorem eq_or_blends (hl : ps.length = qs.length) (h : preimage ps = preimage qs) :
    ps = qs ∨ Blends ps qs ∨ Blends qs ps := by
  induction ps generalizing qs
  case nil => exact .inl (List.length_eq_zero_iff.mp hl.symm).symm
  case cons p ps ih =>
    cases qs
    case nil => cases hl
    case cons q qs =>
      have hl' : ps.length = qs.length := Nat.succ.inj hl
      have next (hpq : p = q) (hr : preimage ps = preimage qs) :
          p :: ps = q :: qs ∨ Blends (p :: ps) (q :: qs) ∨ Blends (q :: qs) (p :: ps) := by
        subst hpq
        rcases ih hl' hr with rfl | hb | hb
        case inl => exact .inl rfl
        case inr.inl => exact .inr (.inl (hb.cons p))
        case inr.inr => exact .inr (.inr (hb.cons p))
      have hpq : decimal (Bytes.ofText p).length <+: preimage (q :: qs) :=
        ⟨_, (preimage_cons p ps).symm.trans h⟩
      have hqq : decimal (Bytes.ofText q).length <+: preimage (q :: qs) :=
        ⟨_, (preimage_cons q qs).symm⟩
      rcases List.prefix_or_prefix_of_prefix hpq hqq with hd | hd
      case inl =>
        rcases eq_or_blends_of_prefix h hd with ⟨hpq, hr⟩ | hb
        case inl => exact next hpq hr
        case inr => exact .inr (.inl hb)
      case inr =>
        rcases eq_or_blends_of_prefix h.symm hd with ⟨hpq, hr⟩ | hb
        case inl => exact next hpq.symm hr.symm
        case inr => exact .inr (.inr hb)

theorem width_lt {signs : Bytes}
    (hd : decimal (Bytes.ofText q).length = decimal (Bytes.ofText p).length ++ signs)
    (hs : signs ≠ []) : width p < width q := by
  have hl := congrArg List.length hd
  rw [List.length_append] at hl
  have := List.length_pos_iff.mpr hs
  rw [width, width]
  omega

-- Parts blend only where their lengths differ in width, and never as the last ones: the text with
-- the shorter length would be the longer one.
theorem not_blends_of_width (hl : ps.length = qs.length)
    (hw : ps.dropLast.map width = qs.dropLast.map width) : ¬Blends ps qs := by
  rintro ⟨common, p, ps', q, qs', signs, rfl, rfl, hs, hd, hr⟩
  have hlt := width_lt hd hs
  simp only [List.length_append, List.length_cons, Nat.add_left_cancel_iff,
    Nat.add_right_cancel_iff] at hl
  by_cases hn : ps' = []
  case pos =>
    subst hn
    have hn : qs' = [] := List.length_eq_zero_iff.mp hl.symm
    subst hn
    have hr := congrArg List.length hr
    simp only [preimage, List.flatMap_nil, List.append_nil, List.length_append] at hr
    have : width q ≤ width p := length_decimal_le (by omega)
    omega
  case neg =>
    have hn' : qs' ≠ [] := fun hq => hn (List.length_eq_zero_iff.mp (hl.trans (by rw [hq]; rfl)))
    rw [List.dropLast_append_of_ne_nil (List.cons_ne_nil _ _),
      List.dropLast_append_of_ne_nil (List.cons_ne_nil _ _), List.dropLast_cons_of_ne_nil hn,
      List.dropLast_cons_of_ne_nil hn', List.map_append, List.map_append] at hw
    have hw := (List.cons.inj (List.append_cancel_left hw)).left
    omega

theorem identifier_eq_iff {S : Suite} :
    S.identifier ps = S.identifier qs ↔ S.digest (preimage ps) = S.digest (preimage qs) := by
  constructor
  case mp =>
    intro h
    have hd := congrArg Base64.decode? h
    rw [identifier, identifier, Base64.decode?_encode, Base64.decode?_encode] at hd
    exact Vector.toList_inj.mp (Option.some.inj hd)
  case mpr =>
    intro h
    rw [identifier, identifier, h]

-- Lists of equally many texts are spelled alike if they are the same, or if some part of one
-- blends into the other. They do not blend if the lengths of their parts, but for the last, have
-- the same widths. Otherwise lists that share an identifier are a collision of the digest.
theorem preimage_eq_iff_blends (S : Suite) (ps qs : List String) (hl : ps.length = qs.length) :
    (preimage ps = preimage qs ↔ ps = qs ∨ Blends ps qs ∨ Blends qs ps) ∧
    (ps.dropLast.map width = qs.dropLast.map width → ¬Blends ps qs ∧ ¬Blends qs ps) ∧
    (S.identifier ps = S.identifier qs → ps ≠ qs → Blends ps qs ∨ Blends qs ps ∨
      preimage ps ≠ preimage qs ∧ S.digest (preimage ps) = S.digest (preimage qs)) := by
  have hi : preimage ps = preimage qs ↔ ps = qs ∨ Blends ps qs ∨ Blends qs ps := by
    constructor
    case mp => exact eq_or_blends hl
    case mpr =>
      rintro (rfl | hb | hb)
      case inl => rfl
      case inr.inl => exact hb.preimage_eq
      case inr.inr => exact hb.preimage_eq.symm
  refine ⟨hi, fun hw => ?widths, fun h hn => ?collision⟩
  case widths => exact ⟨not_blends_of_width hl hw, not_blends_of_width hl.symm hw.symm⟩
  case collision =>
    by_cases hb : Blends ps qs ∨ Blends qs ps
    case pos => exact hb.imp_right .inl
    case neg => exact .inr (.inr ⟨fun he => (hi.mp he).elim hn hb, identifier_eq_iff.mp h⟩)

-- Two letters and one are not one letter and two.
theorem preimage_eq_iff_blends_letters :
    ["ab", "c"].length = ["a", "bc"].length ∧ preimage ["ab", "c"] ≠ preimage ["a", "bc"] := by
  have ⟨hi, hb, _⟩ := preimage_eq_iff_blends Suite.standard ["ab", "c"] ["a", "bc"] rfl
  have ⟨h₁, h₂⟩ := hb (by decide +kernel)
  refine ⟨rfl, fun he => ?_⟩
  rcases hi.mp he with h | h | h
  case inl => exact absurd h (by decide)
  case inr.inl => exact h₁ h
  case inr.inr => exact h₂ h

-- A digit, with its length in front, reads as the length of a text of ten bytes.
theorem preimage_of_digit :
    ["0", "aaaaaaaa1b"] ≠ ["10aaaaaaaa", "b"] ∧
      ["0", "aaaaaaaa1b"].length = ["10aaaaaaaa", "b"].length ∧
      preimage ["0", "aaaaaaaa1b"] = preimage ["10aaaaaaaa", "b"] := by
  decide +kernel

end Plenum.Suite
