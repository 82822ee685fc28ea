import Mathlib
import Plenum.Proofs.Report

namespace Plenum

namespace Question

variable {q : Question} {c : Cast} {cs : List Cast}

-- What makes up a vote on a question: options of it, at least one and none twice, and only one
-- where the method is approval.
structure Fits (q : Question) (choices : List Nat) : Prop where
  distinct : choices.Nodup
  inRange : ∀ i ∈ choices, i < q.options.length
  chosen : choices ≠ []
  single : q.method = .approval → choices.length = 1

-- The voters whose vote has an option in it.
def backers (q : Question) (option : Nat) : Finset String :=
  (Table.keys q.votes).toFinset.filter fun voter => (q.voteOf? voter).any (option ∈ ·.choices)

theorem fits_of_check {is : List Int64} {ns : List Nat} (hc : q.check is = .ok ns) :
    q.Fits ns := by
  have hd := nodup_of_check hc
  obtain ⟨ha, rfl⟩ := check_eq_ok.mp hc
  refine ⟨hd, List.forall_mem_map.mpr fun i hi => (ha.inRange i hi).right, ?_, fun hm => ?_⟩
  case refine_1 =>
    rw [ne_eq, List.map_eq_nil_iff]
    intro hn
    cases hm : q.method
    case plurality => exact ha.chosen hm hn
    case approval =>
      have hs := ha.single hm
      rw [hn] at hs
      cases hs
  case refine_2 => rw [List.length_map, ha.single hm]

-- Votes do not change what fits a question.
theorem Fits.hear {choices : List Nat} (hf : q.Fits choices) (c : Cast) :
    (q.hear c).Fits choices := by
  unfold Question.hear update
  split
  case isFalse => exact hf
  case isTrue => split <;> exact ⟨hf.distinct, hf.inRange, hf.chosen, hf.single⟩

def Fair (q : Question) : Prop :=
  ∀ p ∈ q.votes, q.Fits p.2.choices

theorem Fair.hear (hq : q.Fair) (hc : c.question = q.id → q.Fits c.vote.choices) :
    (q.hear c).Fair := by
  intro p hp
  refine Fits.hear ?_ c
  unfold Question.hear update at hp
  split at hp
  case isFalse => exact hq p hp
  case isTrue hi =>
    split at hp
    case isFalse => exact hq p hp
    case isTrue =>
      rcases Table.eq_or_mem_of_mem_insert hp with rfl | hp
      case inl => exact hc hi
      case inr => exact hq p hp

theorem Fair.hearAll (hq : q.Fair) (hc : ∀ c ∈ cs, c.question = q.id → q.Fits c.vote.choices) :
    (q.hearAll cs).Fair := by
  induction cs generalizing q
  case nil => exact hq
  case cons c cs ih =>
    have ⟨hh, ht⟩ := List.forall_mem_cons.mp hc
    refine ih (hq.hear hh) fun d hd hi => ?_
    rw [hear_id] at hi
    exact (ht d hd hi).hear c

theorem Fair.distinct (hq : q.Fair) : ∀ p ∈ q.votes, p.2.choices.Nodup :=
  fun p hp => (hq p hp).distinct

theorem card_backers (hn : (Table.keys q.votes).Nodup) (i : Nat) :
    (q.backers i).card = q.votes.countP (i ∈ ·.2.choices) := by
  refine (countP_eq_card hn (i ∈ ·.choices) fun voter => ?_).symm
  rw [backers, Finset.mem_filter, List.mem_toFinset]
  refine and_iff_right_of_imp fun hi => ?_
  have ⟨v, hv, _⟩ := Option.any_eq_true .. |>.mp hi
  exact List.mem_map.mpr ⟨_, (Table.get?_eq_some_iff hn).mp hv, rfl⟩

theorem Fair.tally_eq (hq : q.Fair) (hn : (Table.keys q.votes).Nodup) :
    q.tally = q.options.mapIdx fun i o => (o, (q.backers i).card) := by
  simp only [tally, count_choices hq.distinct, card_backers hn]

-- Every position in a vote is that of an option, so that none is lost in the count.
theorem Fair.sum_tally (hq : q.Fair) :
    (q.tally.map (·.2)).sum = (q.votes.map fun p => p.2.choices.length).sum := by
  have hr : ∀ i ∈ (q.votes.flatMap fun p => p.2.choices : Multiset Nat),
      i ∈ Finset.range q.options.length := by
    intro i hi
    have ⟨p, hp, hi⟩ := List.mem_flatMap.mp (Multiset.mem_coe.mp hi)
    exact Finset.mem_range.mpr ((hq p hp).inRange i hi)
  calc
    _ = ((List.range q.options.length).map fun i =>
        (q.votes.flatMap fun p => p.2.choices).count i).sum := by
      congr 1
      exact List.ext_getElem (by simp [tally]) fun i _ _ => by simp [tally]
    _ = ∑ i ∈ Finset.range q.options.length,
        (q.votes.flatMap fun p => p.2.choices : Multiset Nat).count i := by
      simp only [Multiset.coe_count]
      rfl
    _ = (q.votes.flatMap fun p => p.2.choices).length := Multiset.sum_count_eq_card hr
    _ = _ := List.length_flatMap

theorem Fair.sum_tally_of_approval (hq : q.Fair) (hm : q.method = .approval) :
    (q.tally.map (·.2)).sum = q.voteCount := by
  have hs : q.votes.map (fun p => p.2.choices.length) = q.votes.map fun _ => 1 :=
    List.map_congr_left fun p hp => (hq p hp).single hm
  rw [hq.sum_tally, hs, List.map_const', List.sum_replicate_nat, Nat.mul_one, voteCount]

end Question

namespace Election

variable {h : Host} {e : Election} {lao : Lao} {m : Message} {t : Turn Election Unit}

def Fair (e : Election) : Prop :=
  ∀ q ∈ e.questions, q.Fair

theorem Admits.fits {env : Envelope} {p : CastVote} {r : Ruling} (hn : e.ids.Nodup)
    (ha : Admits h lao m e env (.castVote p) r) {q : Question} (hq : q ∈ e.questions) :
    ∀ c ∈ m.casts, c.question = q.id → q.Fits c.vote.choices := by
  rw [Message.casts, ha.content?_eq]
  refine List.forall_mem_map.mpr fun b hb hi => ?_
  obtain ⟨r, hr, hb, hc⟩ := ha.check_eq b hb
  cases List.inj_on_of_nodup_map hn hr hq (hb.trans hi)
  exact Question.fits_of_check hc

theorem Processed.fair (ht : Processed h lao m e t) (hc : e.Counted) (hf : e.Fair) :
    t.state.Fair := by
  refine ht.keeps (P := Fair) hf ?phase ?vote ?other ?report
  case phase => exact fun _ hf => hf
  case other => exact fun _ _ => hf
  case report => exact fun _ _ hf => hf
  case vote =>
    intro env p votes ha q hq
    have hq : q ∈ (e.storeVotes m.sender votes).questions := hq
    rw [questions_storeVotes hc.ids ha] at hq
    obtain ⟨q, hm, rfl⟩ := List.mem_map.mp hq
    exact (hf q hm).hearAll (ha.fits hc.ids hm)

theorem fair_setUpElection (path : String) (s : Setup) (m : Message) :
    (Hub.setUpElection path s m).Fair := by
  intro q hq
  obtain ⟨r, -, rfl⟩ := List.mem_map.mp hq
  exact nofun

theorem fair {hub : Hub} (hr : hub.Reachable h) {path : String}
    (he : Table.get? hub.elections path = some e) : e.Counted ∧ e.Fair :=
  hr.election_induction (P := fun _ e => e.Counted ∧ e.Fair)
    (fun hs _ => ⟨counted_of_setsUp hs, fair_setUpElection _ _ _⟩)
    (fun _ ⟨hc, hf⟩ => ⟨⟨hc.ids, hc.counts, hc.known⟩, hf⟩)
    (fun ⟨hc, hf⟩ ht => ⟨ht.counted hc, ht.fair hc hf⟩) he

-- The votes on a question are such as its check lets through, one for each voter. The tally has
-- for each option, in order, the number of voters whose vote has it, and it adds up to all that
-- the votes have chosen; where the method is approval, to the number of votes.
theorem tally_counts_voters (h : Host) (hub : Hub) (hr : hub.Reachable h) (path : String)
    (e : Election) (he : Table.get? hub.elections path = some e) (q : Question)
    (hq : q ∈ e.questions) :
    (Table.keys q.votes).Nodup ∧ (∀ p ∈ q.votes, q.Fits p.2.choices) ∧
      q.tally = (q.options.mapIdx fun i o => (o, (q.backers i).card)) ∧
      (∀ i, (q.backers i).card ≤ q.voteCount) ∧
      (q.tally.map (·.2)).sum = (q.votes.map fun p => p.2.choices.length).sum ∧
      (q.method = .approval → (q.tally.map (·.2)).sum = q.voteCount) := by
  have ⟨hc, hf⟩ := fair hr he
  have ⟨hn, _⟩ := hc.counts q hq
  have hv := hf q hq
  refine ⟨hn, hv, hv.tally_eq hn, fun i => ?_, hv.sum_tally, hv.sum_tally_of_approval⟩
  rw [Question.card_backers hn]
  exact List.countP_le_length

-- In the trial one vote is cast on a question that is put to approval.
theorem tally_counts_voters_votedA :
    let hub := Hub.after Trial.host Trial.voteRun
    hub.Reachable Trial.host ∧ Table.get? hub.elections (Trial.path "A") = some Trial.votedA ∧
      ∃ q ∈ Trial.votedA.questions, q.method = .approval ∧ q.voteCount = 1 ∧
        (∀ p ∈ q.votes, q.Fits p.2.choices) ∧ (q.tally.map (·.2)).sum = 1 := by
  intro hub
  have hr := Hub.reachable_after Trial.host Trial.voteRun
  have he := Trial.reaches_votedA.get?_eq
  obtain ⟨q, hq, hm, hv⟩ : ∃ q ∈ Trial.votedA.questions, q.method = .approval ∧
      q.voteCount = 1 := by
    rw [Trial.votedA, Trial.questions_voted rfl]
    exact ⟨_, List.mem_singleton_self _, rfl, rfl⟩
  obtain ⟨_, hf, _, _, _, hs⟩ := tally_counts_voters Trial.host hub hr (Trial.path "A")
    Trial.votedA he q hq
  exact ⟨hr, he, q, hq, hm, hv, hf, (hs hm).trans hv⟩

end Election
end Plenum
