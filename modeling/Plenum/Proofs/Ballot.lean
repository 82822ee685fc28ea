import Mathlib.Data.List.Nodup
import Plenum.Election.Question
import Plenum.Proofs.Guards

namespace Plenum.Question

variable {q : Question}

-- What makes up a ballot on a question: options of it, none twice, and as many as the method asks
-- for.
structure Allows (q : Question) (choices : List Int64) : Prop where
  inRange : ∀ i ∈ choices, 0 ≤ i.toInt ∧ i.toInt.toNat < q.options.length
  distinct : choices.Nodup
  chosen : q.method = .plurality → choices ≠ []
  single : q.method = .approval → choices.length = 1

-- No position is taken twice, nor one that has been seen.
theorem positions_eq_ok {seen : List Nat} {is : List Int64} {ns : List Nat} :
    q.positions seen is = .ok ns ↔
      (∀ i ∈ is, 0 ≤ i.toInt ∧ i.toInt.toNat < q.options.length) ∧
        ns = is.map (fun i => i.toInt.toNat) ∧ ns.Nodup ∧ ∀ n ∈ ns, n ∉ seen := by
  fun_induction positions q seen is generalizing ns
  case case1 =>
    constructor
    case mp =>
      intro h
      cases h
      simp
    case mpr => exact fun ⟨_, hn, _⟩ => hn ▸ rfl
  case case2 seen i is n hr =>
    refine ⟨nofun, fun ⟨hi, _⟩ => ?_⟩
    have ⟨hl, hu⟩ := hi i List.mem_cons_self
    omega
  case case3 seen i is n hr hs =>
    refine ⟨nofun, fun ⟨_, hn, _, hf⟩ => ?_⟩
    exact (hf n (hn ▸ List.mem_cons_self) hs).elim
  case case4 seen i is n hr hs ih =>
    simp only [Guards.bind_eq_ok, ih, Guards.pure_eq_ok, Except.ok.injEq]
    constructor
    case mp =>
      rintro ⟨ms, ⟨hi, rfl, hn, hf⟩, rfl⟩
      have hr : 0 ≤ i.toInt ∧ n < q.options.length := by omega
      refine ⟨List.forall_mem_cons.mpr ⟨hr, hi⟩, rfl, List.nodup_cons.mpr ⟨fun hm => ?_, hn⟩, ?_⟩
      case refine_1 => exact hf n hm List.mem_cons_self
      case refine_2 =>
        exact List.forall_mem_cons.mpr ⟨hs, fun k hk hk' => hf k hk (List.mem_cons_of_mem n hk')⟩
    case mpr =>
      rintro ⟨hi, rfl, hn, hf⟩
      obtain ⟨-, hi⟩ := List.forall_mem_cons.mp hi
      obtain ⟨hm, hn⟩ := List.nodup_cons.mp hn
      refine ⟨_, ⟨hi, rfl, hn, fun k hk hk' => ?_⟩, rfl⟩
      rcases List.mem_cons.mp hk' with rfl | hk'
      case inl => exact hm hk
      case inr => exact hf k (List.mem_cons_of_mem n hk) hk'

-- Different options of a question have different positions.
theorem nodup_positions {is : List Int64} (hi : ∀ i ∈ is, 0 ≤ i.toInt) :
    (is.map fun i => i.toInt.toNat).Nodup ↔ is.Nodup := by
  refine ⟨List.Nodup.of_map _, fun hn => hn.map_on fun i hi' j hj he => ?_⟩
  have h0 := hi i hi'
  have h1 := hi j hj
  exact Int64.toInt_inj.mp (by omega)

theorem check_eq_ok {is : List Int64} {ns : List Nat} :
    q.check is = .ok ns ↔ q.Allows is ∧ ns = is.map fun i => i.toInt.toNat := by
  simp only [check, Guards.ite_error_eq_ok, positions_eq_ok, not_and, not_not]
  constructor
  case mp =>
    rintro ⟨hp, ha, hi, rfl, hn, -⟩
    exact ⟨⟨hi, (nodup_positions fun i hm => (hi i hm).left).mp hn, hp, ha⟩, rfl⟩
  case mpr =>
    rintro ⟨⟨hi, hn, hp, ha⟩, rfl⟩
    have hn := (nodup_positions fun i hm => (hi i hm).left).mpr hn
    exact ⟨hp, ha, hi, rfl, hn, fun _ _ => List.not_mem_nil⟩

-- The choice is the position of an option.
def Offers (q : Question) (i : Int64) : Prop :=
  0 ≤ i.toInt ∧ i.toInt.toNat < q.options.length

-- The ballot names as many options as the method asks for.
def Numbers (q : Question) (choices : List Int64) : Prop :=
  (q.method = .plurality → choices ≠ []) ∧ (q.method = .approval → choices.length = 1)

-- What is wrong with a ballot, and what is said of it: the number of its choices, or else the first
-- of them that is no option or that stands before it already.
inductive Faults (q : Question) (choices : List Int64) : Ballot.Defect → Fault → Prop
  | noChoice : q.method = .plurality → choices = [] →
    Faults q choices .noChoice
      (.ballot "no ballot option was chosen for plurality voting method")
  | notOneChoice : q.method = .approval → choices.length ≠ 1 →
    Faults q choices .notOneChoice
      (.ballot "approval voting method requires exactly one ballot option")
  | outOfRange {pre post : List Int64} {i : Int64} :
    q.Numbers choices → choices = pre ++ i :: post → (∀ j ∈ pre, q.Offers j) → pre.Nodup →
    ¬q.Offers i →
    Faults q choices (.outOfRange i q.id)
      (.ballot s!"ballot option index {i.toInt} out of range for question {q.id}")
  | repeated {pre post : List Int64} {i : Int64} :
    q.Numbers choices → choices = pre ++ i :: post → (∀ j ∈ pre, q.Offers j) → pre.Nodup →
    q.Offers i → i ∈ pre →
    Faults q choices (.repeated i q.id)
      (.ballot s!"ballot option index {i.toInt} chosen twice for question {q.id}")

theorem offers_iff {i : Int64} :
    q.Offers i ↔ ¬(i.toInt < 0 ∨ q.options.length ≤ i.toInt.toNat) := by
  rw [Offers]
  omega

-- A choice that is not taken after others that are, and what is said of it.
inductive Stops (q : Question) (seen : List Nat) (pre : List Int64) (i : Int64) :
    Ballot.Defect → Prop
  | outOfRange : ¬q.Offers i → Stops q seen pre i (.outOfRange i q.id)
  | repeated : q.Offers i →
    i.toInt.toNat ∈ seen ∨ i.toInt.toNat ∈ pre.map (fun j => j.toInt.toNat) →
    Stops q seen pre i (.repeated i q.id)

theorem positions_cons_eq_ok {seen ns : List Nat} {i : Int64} {is : List Int64} :
    q.positions seen (i :: is) = .ok ns ↔
      q.Offers i ∧ i.toInt.toNat ∉ seen ∧
        ∃ ms, q.positions (i.toInt.toNat :: seen) is = .ok ms ∧ ns = i.toInt.toNat :: ms := by
  simp only [positions, Guards.ite_error_eq_ok, Guards.bind_eq_ok, Guards.pure_eq_ok,
    Except.ok.injEq, offers_iff, eq_comm (b := ns)]

theorem stops_cons {seen : List Nat} {pre : List Int64} {i j : Int64} {d : Ballot.Defect} :
    q.Stops seen (j :: pre) i d ↔ q.Stops (j.toInt.toNat :: seen) pre i d := by
  constructor
  all_goals
    rintro (hi | ⟨hi, hs⟩)
    case outOfRange => exact .outOfRange hi
    case repeated =>
      refine .repeated hi ?_
      simp only [List.map_cons, List.mem_cons] at hs ⊢
      tauto

-- A choice that is not taken ends the check, whatever comes after it.
theorem positions_of_stops {seen ns : List Nat} {pre : List Int64} {i : Int64}
    {d : Ballot.Defect} (hn : q.positions seen pre = .ok ns) (hs : q.Stops seen pre i d)
    (post : List Int64) : q.positions seen (pre ++ i :: post) = .error d := by
  induction pre generalizing seen ns
  case nil =>
    rw [List.nil_append, positions]
    cases hs
    case outOfRange hi => exact if_pos (by rwa [offers_iff, not_not] at hi)
    case repeated hi hs =>
      rw [if_neg (offers_iff.mp hi), if_pos (hs.resolve_right List.not_mem_nil)]
  case cons j pre ih =>
    obtain ⟨hj, hf, ms, hm, -⟩ := positions_cons_eq_ok.mp hn
    rw [List.cons_append, positions, if_neg (offers_iff.mp hj), if_neg hf,
      ih hm (stops_cons.mp hs)]
    rfl

-- What a check is ended by, if it does not come to its end.
theorem exists_stops {seen : List Nat} {is : List Int64} {d : Ballot.Defect}
    (hd : q.positions seen is = .error d) :
    ∃ pre i post, is = pre ++ i :: post ∧ (∃ ns, q.positions seen pre = .ok ns) ∧
      q.Stops seen pre i d := by
  fun_induction positions q seen is
  case case1 => cases hd
  case case2 seen i is n hr =>
    cases hd
    exact ⟨[], i, is, rfl, ⟨[], rfl⟩, .outOfRange fun hi => offers_iff.mp hi hr⟩
  case case3 seen i is n hr hs =>
    cases hd
    exact ⟨[], i, is, rfl, ⟨[], rfl⟩, .repeated (offers_iff.mpr hr) (.inl hs)⟩
  case case4 seen i is n hr hs ih =>
    cases hp : q.positions (n :: seen) is
    case ok ns =>
      rw [hp] at hd
      cases hd
    case error d' =>
      rw [hp] at hd
      cases hd
      obtain ⟨pre, j, post, rfl, ⟨ns, hn⟩, hj⟩ := ih hp
      have hn := positions_cons_eq_ok.mpr ⟨offers_iff.mpr hr, hs, ns, hn, rfl⟩
      exact ⟨i :: pre, j, post, rfl, ⟨_, hn⟩, stops_cons.mpr hj⟩

theorem check_of_numbers {is : List Int64} (hn : q.Numbers is) :
    q.check is = q.positions [] is := by
  have ⟨hp, ha⟩ := hn
  rw [check, if_neg fun ⟨hm, hc⟩ => hp hm hc, if_neg fun ⟨hm, hl⟩ => hl (ha hm)]

-- Options that are taken one after another are different ones.
theorem exists_positions_iff {is : List Int64} :
    (∃ ns, q.positions [] is = .ok ns) ↔ (∀ i ∈ is, q.Offers i) ∧ is.Nodup := by
  constructor
  case mp =>
    rintro ⟨ns, hn⟩
    obtain ⟨ho, rfl, hd, -⟩ := positions_eq_ok.mp hn
    exact ⟨ho, (nodup_positions fun i hi => (ho i hi).left).mp hd⟩
  case mpr =>
    rintro ⟨ho, hd⟩
    have hd := (nodup_positions fun i hi => (ho i hi).left).mpr hd
    exact ⟨_, positions_eq_ok.mpr ⟨ho, rfl, hd, fun _ _ => List.not_mem_nil⟩⟩

theorem mem_of_position_mem {is : List Int64} {i : Int64} (hs : ∀ j ∈ is, q.Offers j)
    (hi : q.Offers i) (hm : i.toInt.toNat ∈ is.map fun j => j.toInt.toNat) : i ∈ is := by
  obtain ⟨j, hj, he⟩ := List.mem_map.mp hm
  have hl := (hs j hj).left
  have hr := hi.left
  have hij : j = i := Int64.toInt_inj.mp (by omega)
  exact hij ▸ hj

theorem Faults.fault_eq {is : List Int64} {d : Ballot.Defect} {f : Fault}
    (hf : q.Faults is d f) : d.fault = f := by
  cases hf <;> rfl

theorem faults_of_check {is : List Int64} {d : Ballot.Defect} (hd : q.check is = .error d) :
    q.Faults is d d.fault := by
  by_cases hp : q.method = .plurality ∧ is = []
  case pos =>
    rw [check, if_pos hp] at hd
    cases hd
    exact .noChoice hp.left hp.right
  case neg =>
    by_cases ha : q.method = .approval ∧ is.length ≠ 1
    case pos =>
      rw [check, if_neg hp, if_pos ha] at hd
      cases hd
      exact .notOneChoice ha.left ha.right
    case neg =>
      have hn : q.Numbers is :=
        ⟨fun hm hc => hp ⟨hm, hc⟩, fun hm => by_contra fun hl => ha ⟨hm, hl⟩⟩
      rw [check_of_numbers hn] at hd
      obtain ⟨pre, i, post, hc, ht, hs⟩ := exists_stops hd
      have ⟨ho, hu⟩ := exists_positions_iff.mp ht
      cases hs
      case outOfRange hi => exact .outOfRange hn hc ho hu hi
      case repeated hi hm =>
        exact .repeated hn hc ho hu hi (mem_of_position_mem ho hi (hm.resolve_left nofun))

theorem Faults.check_eq {is : List Int64} {d : Ballot.Defect} {f : Fault}
    (hf : q.Faults is d f) : q.check is = .error d := by
  cases hf
  case noChoice hm hc => rw [check, if_pos ⟨hm, hc⟩]
  case notOneChoice hm hl =>
    have hp : ¬(q.method = .plurality ∧ is = []) := fun ⟨hp, _⟩ => nomatch hm.symm.trans hp
    rw [check, if_neg hp, if_pos ⟨hm, hl⟩]
  case outOfRange pre post i hn hc ho hd hi =>
    have ⟨_, ht⟩ := exists_positions_iff.mpr ⟨ho, hd⟩
    rw [check_of_numbers hn, hc]
    exact positions_of_stops ht (.outOfRange hi) post
  case repeated pre post i hn hc ho hd hi hm =>
    have ⟨_, ht⟩ := exists_positions_iff.mpr ⟨ho, hd⟩
    rw [check_of_numbers hn, hc]
    exact positions_of_stops ht (.repeated hi (.inr (List.mem_map_of_mem hm))) post

theorem check_eq_error {is : List Int64} {d : Ballot.Defect} {f : Fault} :
    q.check is = .error d ∧ d.fault = f ↔ q.Faults is d f := by
  constructor
  case mp => exact fun ⟨hd, hf⟩ => hf ▸ faults_of_check hd
  case mpr => exact fun hf => ⟨hf.check_eq, hf.fault_eq⟩

-- A ballot is taken exactly if the question allows it, and then as it is. Otherwise it is refused
-- as a bad ballot, with a text about the number of its choices if that is wrong, or else about the
-- first of them that is no option of the question or that stands before it already.
theorem check_finds_first_fault (q : Question) (choices : List Int64) :
    ((∃ ns, q.check choices = .ok ns) ↔ q.Allows choices) ∧
      (∀ ns, q.check choices = .ok ns → ns.map Int.ofNat = choices.map Int64.toInt) ∧
      ∀ d f, q.check choices = .error d ∧ d.fault = f ↔ q.Faults choices d f := by
  refine ⟨?allowed, fun ns hn => ?same, fun d f => check_eq_error⟩
  case allowed =>
    exact ⟨fun ⟨_, hc⟩ => (check_eq_ok.mp hc).left, fun ha => ⟨_, check_eq_ok.mpr ⟨ha, rfl⟩⟩⟩
  case same =>
    have ⟨ha, hn⟩ := check_eq_ok.mp hn
    rw [hn, List.map_map]
    exact List.map_congr_left fun i hi => Int.toNat_of_nonneg (ha.inRange i hi).left

end Plenum.Question
