import Mathlib
import Plenum.Proofs.Report

namespace Plenum

-- What is summed up over the entries of a table can be summed up over its keys.
theorem Table.sum_map {α : Type} {t : Table α} (hn : (keys t).Nodup) (f : α → Nat) :
    (t.map fun p => f p.2).sum = ∑ k ∈ (keys t).toFinset, (t.get? k).elim 0 f := by
  have hp : ∀ p ∈ t, f p.2 = (t.get? p.1).elim 0 f := fun p hm => by
    rw [(get?_eq_some_iff hn).mpr hm, Option.elim_some]
  rw [List.sum_toFinset _ hn, keys, List.map_map, List.map_congr_left hp]
  rfl

-- The votes of one voter among those that are submitted, in order.
def submittedBy (vs : List (String × Vote)) (voter : String) : List Vote :=
  (vs.filter (·.1 = voter)).map Prod.snd

def voters (vs : List (String × Vote)) : Finset String :=
  (vs.map Prod.fst).toFinset

theorem mem_voters {vs : List (String × Vote)} {voter : String} :
    voter ∈ voters vs ↔ submittedBy vs voter ≠ [] := by
  simp [submittedBy, voters]

namespace Question

variable {q : Question} {s : SetupQuestion} {vs : List (String × Vote)} {voter : String}

def updateAll (q : Question) (vs : List (String × Vote)) : Question :=
  vs.foldl (fun q v => q.update v.1 v.2) q

-- A vote on a question as a ballot that is cast on it.
def castOn (question : String) (v : String × Vote) : Cast :=
  ⟨v.1, question, v.2⟩

theorem updateAll_eq_hearAll (q : Question) (vs : List (String × Vote)) :
    q.updateAll vs = q.hearAll (vs.map (castOn q.id)) := by
  induction vs generalizing q
  case nil => rfl
  case cons v vs ih =>
    have hh : q.hear (castOn q.id v) = q.update v.1 v.2 := if_pos rfl
    rw [List.map_cons, hearAll, List.foldl_cons, hh, ← q.update_id v.1 v.2]
    exact ih (q.update v.1 v.2)

theorem recount_castOn (question voter : String) (vs : List (String × Vote)) :
    recount (vs.map (castOn question)) question voter = Vote.earliest (submittedBy vs voter) := by
  rw [recount, submittedBy, List.filter_map, List.map_map]
  simp only [castOn, Function.comp_def, true_and]

theorem counts_updateAll (s : SetupQuestion) (vs : List (String × Vote)) :
    ((ofSetup s).updateAll vs).Counts (vs.map (castOn s.id)) := by
  rw [updateAll_eq_hearAll]
  exact (Election.counts_ofSetup s).hearAll _

theorem voteOf?_updateAll (s : SetupQuestion) (vs : List (String × Vote)) (voter : String) :
    ((ofSetup s).updateAll vs).voteOf? voter = Vote.earliest (submittedBy vs voter) := by
  have hi : ((ofSetup s).updateAll vs).id = s.id := by
    rw [updateAll_eq_hearAll, hearAll_id, ofSetup]
  rw [(counts_updateAll s vs).right, hi, recount_castOn]

theorem voteOf?_updateAll_eq_none :
    ((ofSetup s).updateAll vs).voteOf? voter = none ↔ voter ∉ voters vs := by
  rw [voteOf?_updateAll, mem_voters, not_not]
  refine ⟨Vote.eq_nil_of_earliest, fun hn => ?_⟩
  rw [hn]
  rfl

theorem keys_updateAll (s : SetupQuestion) (vs : List (String × Vote)) :
    (Table.keys ((ofSetup s).updateAll vs).votes).toFinset = voters vs := by
  ext voter
  rw [List.mem_toFinset, Table.mem_keys_iff]
  exact voteOf?_updateAll_eq_none.not_left

theorem voteCount_updateAll (s : SetupQuestion) (vs : List (String × Vote)) :
    ((ofSetup s).updateAll vs).voteCount = (voters vs).card := by
  have ⟨hn, _⟩ := counts_updateAll s vs
  rw [← keys_updateAll s, List.toFinset_card_of_nodup hn, Table.keys, List.length_map, voteCount]

-- The tally counts every position in every vote, also one that a vote names twice.
theorem tally_eq_sum (hn : (Table.keys q.votes).Nodup) :
    q.tally = q.options.mapIdx fun i o =>
      (o, ∑ voter ∈ (Table.keys q.votes).toFinset,
        (q.voteOf? voter).elim 0 (·.choices.count i)) := by
  simp only [tally, List.count_flatMap, voteOf?, ← Table.sum_map hn]
  rfl

theorem update_of_not_replaces {v : Vote} (hr : ¬q.replaces voter v) : q.update voter v = q :=
  if_neg hr

theorem voteOf?_update_of_replaces {v : Vote} (hr : q.replaces voter v) :
    (q.update voter v).voteOf? voter = some v := by
  rw [update, if_pos hr]
  exact Table.get?_insert_self ..

-- A vote that takes a place is not the one that was there, which has another time.
theorem voteOf?_ne_of_replaces {v : Vote} (hr : q.replaces voter v) :
    q.voteOf? voter ≠ some v := by
  intro hv
  rw [replaces, hv] at hr
  exact Int64.lt_irrefl (of_decide_eq_true hr)

theorem replaces_iff {v : Vote} :
    q.replaces voter v ↔
      (q.update voter v).votes ≠ q.votes ∧ (q.update voter v).voteOf? voter = some v := by
  constructor
  case mp =>
    refine fun hr => ⟨fun he => voteOf?_ne_of_replaces hr ?_, voteOf?_update_of_replaces hr⟩
    rw [← voteOf?_update_of_replaces hr, voteOf?, voteOf?, he]
  case mpr =>
    rintro ⟨hn, -⟩
    by_contra hr
    exact hn (congrArg votes (update_of_not_replaces hr))

theorem voteOf?_update_of_ne {other : String} (hn : voter ≠ other) (v : Vote) :
    (q.update voter v).voteOf? other = q.voteOf? other := by
  rw [voteOf?_update, if_neg hn]

-- However votes come in, what stands of each voter is the first of the earliest ones that the voter
-- has submitted. One more vote is said to count exactly if it is stored and was not before, and it
-- leaves other voters alone. There is one vote for each voter, and an option is tallied as often as
-- those votes name it.
theorem submissions_keep_earliest (s : SetupQuestion) (vs : List (String × Vote)) :
    let q := (ofSetup s).updateAll vs
    (∀ voter, q.voteOf? voter = Vote.earliest (submittedBy vs voter) ∧
      (q.voteOf? voter = none ↔ voter ∉ voters vs)) ∧
    (∀ voter v,
      (q.replaces voter v ↔
        (q.update voter v).votes ≠ q.votes ∧ (q.update voter v).voteOf? voter = some v) ∧
      (¬q.replaces voter v → q.update voter v = q) ∧
      ∀ other, voter ≠ other → (q.update voter v).voteOf? other = q.voteOf? other) ∧
    q.voteCount = (voters vs).card ∧
    q.tally = s.options.mapIdx fun i o =>
      (o, ∑ voter ∈ voters vs,
        (Vote.earliest (submittedBy vs voter)).elim 0 (·.choices.count i)) := by
  intro q
  refine ⟨fun voter => ⟨voteOf?_updateAll s vs voter, voteOf?_updateAll_eq_none⟩, fun voter v => ?_,
    voteCount_updateAll s vs, ?tally⟩
  case tally =>
    have ho : q.options = s.options := by
      simp only [q, updateAll_eq_hearAll, hearAll_options, ofSetup]
    have hn : (Table.keys q.votes).Nodup := (counts_updateAll s vs).left
    have hk : (Table.keys q.votes).toFinset = voters vs := keys_updateAll s vs
    simp only [tally_eq_sum hn, ho, hk, q, voteOf?_updateAll]
  exact ⟨replaces_iff, update_of_not_replaces, fun _ hn => voteOf?_update_of_ne hn v⟩

end Question
end Plenum
