import Mathlib.Data.List.Find
import Plenum.Proofs.Ballot
import Plenum.Proofs.Conduct

namespace Plenum

-- One ballot as it stands in a log: who voted, on what, and the record that it makes.
structure Cast where
  voter : String
  question : String
  vote : Vote
  deriving DecidableEq

def Message.cast (m : Message) (castAt : Int64) (b : Ballot) : Cast :=
  ⟨m.sender, b.question, ⟨m.id, b.id, castAt, b.choices.map fun i => i.toInt.toNat⟩⟩

-- The ballots of a message, in order. Other messages have none.
def Message.casts (m : Message) : List Cast :=
  match m.content? with
  | some (.castVote p) => p.votes.map (m.cast p.createdAt)
  | _ => []

theorem Message.casts_eq {m : Message} {p : CastVote} (hm : m.content? = some (.castVote p)) :
    m.casts = p.votes.map (m.cast p.createdAt) := by
  rw [casts, hm]

def Election.casts (e : Election) : List Cast :=
  e.inbox.messages.flatMap Message.casts

namespace Vote

-- No vote of the list is before this one.
def leads (vs : List Vote) (v : Vote) : Bool :=
  vs.all fun w => v.castAt ≤ w.castAt

-- The first of those with the least time.
def earliest (vs : List Vote) : Option Vote :=
  vs.find? (leads vs)

-- What stands after one more vote.
def keep (w? : Option Vote) (v : Vote) : Option Vote :=
  match w? with
  | none => some v
  | some w => if v.castAt < w.castAt then some v else some w

theorem leads_iff {vs : List Vote} {v : Vote} : leads vs v ↔ ∀ w ∈ vs, v.castAt ≤ w.castAt := by
  simp [leads]

theorem exists_leads {vs : List Vote} (h : vs ≠ []) : ∃ v ∈ vs, leads vs v := by
  induction vs
  case nil => exact (h rfl).elim
  case cons v vs ih =>
    by_cases hn : vs = []
    case pos => exact ⟨v, List.mem_cons_self, by simp [hn, leads]⟩
    case neg =>
      have ⟨w, hw, hl⟩ := ih hn
      have hl := leads_iff.mp hl
      rcases Int64.le_total v.castAt w.castAt with hv | hv
      case inl =>
        refine ⟨v, List.mem_cons_self, leads_iff.mpr (List.forall_mem_cons.mpr ?_)⟩
        refine ⟨?_, fun u hu => ?_⟩
        case refine_1 => exact Int64.le_refl _
        case refine_2 => exact Int64.le_trans hv (hl u hu)
      case inr =>
        exact ⟨w, List.mem_cons_of_mem v hw, leads_iff.mpr (List.forall_mem_cons.mpr ⟨hv, hl⟩)⟩

theorem eq_nil_of_earliest {vs : List Vote} (h : earliest vs = none) : vs = [] := by
  by_contra hn
  have ⟨v, hv, hl⟩ := exists_leads hn
  exact List.find?_eq_none.mp h v hv hl

theorem earliest_concat (vs : List Vote) (v : Vote) :
    earliest (vs ++ [v]) = keep (earliest vs) v := by
  have hc (u : Vote) : leads (vs ++ [v]) u ↔ leads vs u ∧ u.castAt ≤ v.castAt := by
    simp [leads]
  cases he : earliest vs
  case none => simp [eq_nil_of_earliest he, earliest, leads, keep]
  case some w =>
    have hw := leads_iff.mp (List.find?_some he)
    have hm : w ∈ vs := List.mem_of_find?_eq_some he
    rw [keep, earliest, List.find?_append]
    by_cases hv : v.castAt < w.castAt
    case pos =>
      have hn : vs.find? (leads (vs ++ [v])) = none := by
        refine List.find?_eq_none.mpr fun u hu hl => ?_
        exact Int64.not_lt.mpr ((hc u).mp hl).right (Int64.lt_of_lt_of_le hv (hw u hu))
      have hl : leads (vs ++ [v]) v := by
        refine (hc v).mpr ⟨leads_iff.mpr fun u hu => ?_, Int64.le_refl _⟩
        exact Int64.le_of_lt (Int64.lt_of_lt_of_le hv (hw u hu))
      rw [hn, if_pos hv, Option.none_or, List.find?_cons_of_pos hl]
    case neg =>
      -- What leads the former votes is not after the first of them, and so not after the new one.
      have hs : vs.find? (leads (vs ++ [v])) = vs.find? (leads vs) := by
        refine List.find?_congr fun u _ => Bool.eq_iff_iff.mpr ((hc u).trans ?_)
        refine and_iff_left_of_imp fun hl => ?_
        exact Int64.le_trans (leads_iff.mp hl w hm) (Int64.not_lt.mp hv)
      have he : vs.find? (leads vs) = some w := he
      rw [hs, he, if_neg hv, Option.some_or]

end Vote

-- Of the ballots of a voter on a question, the first of those with the least time.
def recount (cs : List Cast) (question voter : String) : Option Vote :=
  Vote.earliest ((cs.filter fun c => c.question = question ∧ c.voter = voter).map Cast.vote)

theorem recount_concat (cs : List Cast) (c : Cast) (question voter : String) :
    recount (cs ++ [c]) question voter =
      if c.question = question ∧ c.voter = voter then
        Vote.keep (recount cs question voter) c.vote
      else recount cs question voter := by
  rw [recount, List.filter_append, List.map_append]
  split
  case isTrue h =>
    have hf : [c].filter (fun c => c.question = question ∧ c.voter = voter) = [c] := by simp [h]
    rw [hf, List.map_singleton, Vote.earliest_concat, recount]
  case isFalse h =>
    have hf : [c].filter (fun c => c.question = question ∧ c.voter = voter) = [] := by simp [h]
    rw [hf, List.map_nil, List.append_nil, recount]

namespace Question

-- A question takes in the ballots on it.
def hear (q : Question) (c : Cast) : Question :=
  if c.question = q.id then q.update c.voter c.vote else q

variable {q : Question} {c : Cast}

theorem update_options (q : Question) (voter : String) (v : Vote) :
    (q.update voter v).options = q.options := by
  unfold update
  split <;> rfl

theorem voteOf?_update (q : Question) (voter other : String) (v : Vote) :
    (q.update voter v).voteOf? other =
      if voter = other then Vote.keep (q.voteOf? other) v else q.voteOf? other := by
  by_cases ho : voter = other
  case pos =>
    subst ho
    rw [if_pos rfl]
    have hi : (Table.insert q.votes voter v).get? voter = some v := Table.get?_insert_self ..
    cases hw : q.voteOf? voter
    case none =>
      have hr : q.replaces voter v := by rw [replaces, hw]
      rw [update, if_pos hr]
      exact hi
    case some w =>
      by_cases hv : v.castAt < w.castAt
      case pos =>
        have hr : q.replaces voter v := by simp [replaces, hw, hv]
        rw [update, if_pos hr, Vote.keep, if_pos hv]
        exact hi
      case neg => simp [update, replaces, hw, Vote.keep, hv]
  case neg =>
    rw [if_neg ho, update]
    split
    case isTrue => exact Table.get?_insert_of_ne ho q.votes v
    case isFalse => rfl

theorem nodup_update (voter : String) (v : Vote) (h : (Table.keys q.votes).Nodup) :
    (Table.keys (q.update voter v).votes).Nodup := by
  unfold update
  split
  case isTrue => exact Table.nodup_keys_insert voter v h
  case isFalse => exact h

theorem hear_id (q : Question) (c : Cast) : (q.hear c).id = q.id := by
  unfold hear
  split
  case isTrue => exact update_id ..
  case isFalse => rfl

theorem hear_options (q : Question) (c : Cast) : (q.hear c).options = q.options := by
  unfold hear
  split
  case isTrue => exact update_options ..
  case isFalse => rfl

-- The votes on a question agree with a list of ballots.
def Counts (q : Question) (cs : List Cast) : Prop :=
  (Table.keys q.votes).Nodup ∧ ∀ voter, q.voteOf? voter = recount cs q.id voter

theorem Counts.hear {cs : List Cast} (hq : q.Counts cs) (c : Cast) :
    (q.hear c).Counts (cs ++ [c]) := by
  have ⟨hn, hv⟩ := hq
  refine ⟨?_, fun voter => ?_⟩
  case refine_1 =>
    unfold Question.hear
    split
    case isTrue => exact nodup_update _ _ hn
    case isFalse => exact hn
  case refine_2 =>
    rw [recount_concat, hear_id, ← hv]
    unfold Question.hear
    by_cases hc : c.question = q.id
    case pos => simp only [hc, if_true, voteOf?_update, true_and]
    case neg => simp only [hc, if_false, false_and]

def hearAll (q : Question) (cs : List Cast) : Question :=
  cs.foldl hear q

theorem Counts.hearAll {cs : List Cast} (hq : q.Counts cs) (new : List Cast) :
    (q.hearAll new).Counts (cs ++ new) := by
  induction new generalizing q cs
  case nil => simpa [Question.hearAll] using hq
  case cons c new ih => simpa [Question.hearAll] using ih (hq.hear c)

theorem hearAll_id (q : Question) (cs : List Cast) : (q.hearAll cs).id = q.id := by
  induction cs generalizing q
  case nil => rfl
  case cons c cs ih => exact (ih (q.hear c)).trans (hear_id q c)

theorem hearAll_options (q : Question) (cs : List Cast) :
    (q.hearAll cs).options = q.options := by
  induction cs generalizing q
  case nil => rfl
  case cons c cs ih => exact (ih (q.hear c)).trans (hear_options q c)

end Question

namespace Election

variable {h : Host} {e : Election} {lao : Lao} {m : Message}

def ids (e : Election) : List String :=
  e.questions.map Question.id

-- The ballot is on a question of the election, and names options of it.
def Knows (e : Election) (b : Ballot) : Prop :=
  ∃ q ∈ e.questions, q.id = b.question ∧
    ∀ i ∈ b.choices, 0 ≤ i.toInt ∧ i.toInt.toNat < q.options.length

theorem id_of_position? {id : String} {i : Nat} (hp : e.position? id = some i) {q : Question}
    (hq : e.questions[i]? = some q) : q.id = id := by
  obtain ⟨j, hj, rfl⟩ := Option.map_eq_some_iff.mp hp
  obtain ⟨hl, hi, -⟩ := List.findIdx?_eq_some_iff_getElem.mp hj
  rw [List.getElem_reverse] at hi
  obtain ⟨_, rfl⟩ := List.getElem?_eq_some_iff.mp hq
  simpa using hi

theorem exists_position? {q : Question} (hq : q ∈ e.questions) :
    ∃ i, e.position? q.id = some i ∧ i < e.questions.length := by
  have hf : (e.questions.reverse.findIdx? (·.id = q.id)).isSome := by
    rw [List.findIdx?_isSome, List.any_eq_true]
    exact ⟨q, List.mem_reverse.mpr hq, decide_eq_true rfl⟩
  have ⟨j, hj⟩ := Option.isSome_iff_exists.mp hf
  refine ⟨e.questions.length - 1 - j, by rw [position?, hj]; rfl, ?_⟩
  have hl := List.length_pos_of_mem hq
  omega

-- Where no id stands twice, every question is found by its own.
theorem question?_eq_some (hn : e.ids.Nodup) {id : String} {q : Question} :
    e.question? id = some q ↔ q ∈ e.questions ∧ q.id = id := by
  simp only [question?, Option.bind_eq_bind, Option.bind_eq_some_iff]
  constructor
  case mp =>
    rintro ⟨i, hi, hq⟩
    exact ⟨List.mem_of_getElem? hq, id_of_position? hi hq⟩
  case mpr =>
    rintro ⟨hq, rfl⟩
    have ⟨i, hi, hl⟩ := exists_position? hq
    have hr := List.getElem?_eq_getElem hl
    have he : e.questions[i] = q :=
      List.inj_on_of_nodup_map hn (List.getElem_mem hl) hq (id_of_position? hi hr)
    exact ⟨i, hi, he ▸ hr⟩

-- A ballot is judged by the question of its id.
theorem check_of_judgeBallot {castAt : Int64} {b : Ballot} {i : Nat} {v : Vote}
    (hj : e.judgeBallot m castAt b = .ok (i, v)) :
    ∃ q, e.questions[i]? = some q ∧ q.id = b.question ∧ q.check b.choices = .ok v.choices ∧
      v = (m.cast castAt b).vote := by
  unfold judgeBallot at hj
  split at hj
  case h_1 => cases hj
  case h_2 i' hi =>
    split at hj
    case h_1 => cases hj
    case h_2 q hq =>
      split at hj
      case h_1 => cases hj
      case h_2 ns hn =>
        cases hj
        have ⟨_, hc⟩ := Question.check_eq_ok.mp hn
        exact ⟨q, hq, id_of_position? hi hq, hn, by rw [hc]; rfl⟩

theorem judgeBallot_eq_ok {castAt : Int64} {b : Ballot} {i : Nat} {v : Vote}
    (hj : e.judgeBallot m castAt b = .ok (i, v)) :
    ∃ q, e.questions[i]? = some q ∧ q.id = b.question ∧ v = (m.cast castAt b).vote ∧
        ∀ i ∈ b.choices, 0 ≤ i.toInt ∧ i.toInt.toNat < q.options.length :=
  have ⟨q, hq, hi, hc, hv⟩ := check_of_judgeBallot hj
  ⟨q, hq, hi, hv, (Question.check_eq_ok.mp hc).left.inRange⟩

-- A vote at the position of a question is a vote for the question of that id.
theorem storeVote_eq {qs : List Question} {i : Nat} {q : Question} (hq : qs[i]? = some q)
    (hn : (qs.map Question.id).Nodup) (voter : String) (v : Vote) :
    storeVote voter qs (i, v) = qs.map fun r => r.hear ⟨voter, q.id, v⟩ := by
  refine List.ext_getElem? fun j => ?_
  rw [storeVote, List.getElem?_modify, List.getElem?_map]
  cases hr : qs[j]?
  case none => rfl
  case some r =>
    by_cases hij : i = j
    case pos =>
      subst hij
      cases hq.symm.trans hr
      simp [Question.hear]
    case neg =>
      have hl : i < (qs.map Question.id).length := by
        rw [List.length_map]
        exact (List.getElem?_eq_some_iff.mp hq).1
      have hid : q.id ≠ r.id := fun hid => hij <| (List.getElem?_inj hl hn).mp <| by
        rw [List.getElem?_map, List.getElem?_map, hq, hr, Option.map_some, Option.map_some, hid]
      simp [Question.hear, hij, hid]

-- All ballots of a message, one after the other.
theorem foldl_storeVote {castAt : Int64} {bs : List Ballot} {votes : List (Nat × Vote)}
    {qs : List Question} (hj : bs.mapM (e.judgeBallot m castAt) = .ok votes)
    (hn : e.ids.Nodup) (hq : qs.map Question.id = e.ids) :
    votes.foldl (storeVote m.sender) qs =
      qs.map fun q => q.hearAll (bs.map (m.cast castAt)) := by
  induction bs generalizing votes qs
  case nil =>
    cases hj
    simp [Question.hearAll]
  case cons b bs ih =>
    simp only [List.mapM_cons, Guards.bind_eq_ok, Guards.pure_eq_ok, Except.ok.injEq] at hj
    obtain ⟨⟨i, v⟩, hi, votes, hv, rfl⟩ := hj
    obtain ⟨r, hr, hb, rfl, -⟩ := judgeBallot_eq_ok hi
    have hl : (qs.map Question.id)[i]? = some r.id := by rw [hq, ids, List.getElem?_map, hr]; rfl
    obtain ⟨q, hqi, hqr⟩ := Option.map_eq_some_iff.mp (List.getElem?_map ▸ hl)
    have hs := storeVote_eq hqi (hq ▸ hn) m.sender (m.cast castAt b).vote
    have hq' : (qs.map fun q => q.hear (m.cast castAt b)).map Question.id = e.ids := by
      rw [List.map_map, ← hq]
      exact List.map_congr_left fun q _ => q.hear_id _
    rw [hqr, hb] at hs
    rw [List.foldl_cons, hs]
    exact (ih hv hq').trans (List.map_map ..)

-- What an election keeps up about its votes.
structure Counted (e : Election) : Prop where
  ids : e.ids.Nodup
  counts : ∀ q ∈ e.questions, q.Counts e.casts
  known : ∀ m ∈ e.inbox.messages, m.kind? = some .castVote →
    ∃ p, m.content? = some (.castVote p) ∧ ∀ b ∈ p.votes, e.Knows b

theorem casts_log : (e.log m).casts = e.casts ++ m.casts := by
  simp [casts, log, setInbox]

theorem casts_of_kind {p : Payload} (hm : m.content? = some p) (hk : p.kind ≠ .castVote) :
    m.casts = [] := by
  rw [Message.casts, hm]
  cases p <;> first | rfl | exact absurd rfl hk

-- A message without ballots leaves the count as it is.
theorem Counted.log {p : Payload} (hc : e.Counted) (hm : m.content? = some p)
    (hk : p.kind ≠ .castVote) : (e.log m).Counted where
  ids := hc.ids
  counts q hq := by
    rw [casts_log, casts_of_kind hm hk, List.append_nil]
    exact hc.counts q hq
  known n hn hk' := by
    rcases List.mem_append.mp hn with hn | hn
    case inl => exact hc.known n hn hk'
    case inr =>
      cases List.mem_singleton.mp hn
      rw [Message.kind?_of_content? hm] at hk'
      exact absurd (Option.some.inj hk') hk

-- Every ballot of an admitted vote passes the check of its question, and so it is known.
theorem Admits.check_eq {env : Envelope} {p : CastVote} {r : Ruling}
    (ha : Admits h lao m e env (.castVote p) r) :
    ∀ b ∈ p.votes, ∃ q ∈ e.questions, q.id = b.question ∧
      q.check b.choices = .ok (m.cast p.createdAt b).vote.choices := by
  intro b hb
  have ⟨_, _, _, _, votes, hv, _⟩ := judgeVote_eq_ok.mp ha.judge_eq
  have ⟨⟨i, v⟩, hj⟩ := Guards.exists_mapM_eq_ok.mp ⟨_, hv⟩ b hb
  have ⟨q, hq, hi, hc, he⟩ := check_of_judgeBallot hj
  exact ⟨q, List.mem_of_getElem? hq, hi, he ▸ hc⟩

theorem Admits.knows {env : Envelope} {p : CastVote} {r : Ruling}
    (ha : Admits h lao m e env (.castVote p) r) : ∀ b ∈ p.votes, e.Knows b := by
  intro b hb
  have ⟨q, hq, hi, hc⟩ := ha.check_eq b hb
  exact ⟨q, hq, hi, (Question.check_eq_ok.mp hc).left.inRange⟩

-- A question keeps its id and its options, so that what is known of the ballots stays known.
theorem Knows.of_hearAll {e' : Election} {b : Ballot} {cs : List Cast} (hb : e.Knows b)
    (hq : e'.questions = e.questions.map fun q => q.hearAll cs) : e'.Knows b := by
  obtain ⟨q, hm, hi, hr⟩ := hb
  refine ⟨q.hearAll cs, hq ▸ List.mem_map_of_mem hm, ?_, ?_⟩
  case refine_1 => rw [Question.hearAll_id, hi]
  case refine_2 => rwa [Question.hearAll_options]

-- The votes of an admitted message are stored as ballots are heard, by all questions alike.
theorem questions_storeVotes {env : Envelope} {p : CastVote} {votes : List (Nat × Vote)}
    (hn : e.ids.Nodup) (ha : Admits h lao m e env (.castVote p) (.vote votes)) :
    (e.storeVotes m.sender votes).questions = e.questions.map fun q => q.hearAll m.casts := by
  obtain ⟨-, -, -, -, _, hj, hv⟩ := judgeVote_eq_ok.mp ha.judge_eq
  cases hv
  rw [Message.casts_eq ha.content?_eq]
  exact foldl_storeVote hj hn rfl

theorem Counted.vote {env : Envelope} {p : CastVote} {votes : List (Nat × Vote)} (hc : e.Counted)
    (ha : Admits h lao m e env (.castVote p) (.vote votes)) :
    ((e.storeVotes m.sender votes).log m).Counted := by
  have hq := questions_storeVotes hc.ids ha
  have hk {b : Ballot} (hb : e.Knows b) : (e.storeVotes m.sender votes).Knows b :=
    hb.of_hearAll hq
  have hi : ((e.storeVotes m.sender votes).log m).ids = e.ids :=
    e.storeVotes_ids m.sender votes
  refine ⟨hi ▸ hc.ids, fun q' hq' => ?_, fun n hn hk' => ?_⟩
  case refine_1 =>
    rw [casts_log]
    have hq' : q' ∈ (e.storeVotes m.sender votes).questions := hq'
    rw [hq] at hq'
    obtain ⟨q, hqe, rfl⟩ := List.mem_map.mp hq'
    exact (hc.counts q hqe).hearAll m.casts
  case refine_2 =>
    rcases List.mem_append.mp hn with hn | hn
    case inl =>
      obtain ⟨p', hp', hb⟩ := hc.known n hn hk'
      exact ⟨p', hp', fun b hb' => hk (hb b hb')⟩
    case inr =>
      cases List.mem_singleton.mp hn
      exact ⟨p, ha.content?_eq, fun b hb' => hk (ha.knows b hb')⟩

theorem Processed.counted {t : Turn Election Unit} (ht : Processed h lao m e t)
    (hc : e.Counted) : t.state.Counted := by
  refine ht.keeps (P := Counted) hc ?phase ?vote ?other ?report
  case phase => exact fun _ hc => ⟨hc.ids, hc.counts, hc.known⟩
  case vote => exact fun ha => hc.vote ha
  case other => exact fun ha hk => hc.log ha.content?_eq hk
  case report => exact fun _ _ hc => hc.log (content?_outcomeMessage h e) nofun

-- Before any vote there is nothing to count.
theorem counts_ofSetup (q : SetupQuestion) : (Question.ofSetup q).Counts [] :=
  ⟨List.nodup_nil, fun _ => rfl⟩

theorem counted_ofSetup {S : Suite} {s : Setup} {path : String} {seen : List String}
    (hc : Setup.checkQuestions S s.id seen s.questions = .ok ()) : (ofSetup path s).Counted where
  ids := by
    have hi : (ofSetup path s).ids = s.questions.map SetupQuestion.id := by
      rw [ids, ofSetup, List.map_map]
      rfl
    exact hi ▸ (Setup.checkQuestions_eq_ok.mp hc).right.left
  counts q hq := by
    obtain ⟨r, -, rfl⟩ := List.mem_map.mp hq
    exact counts_ofSetup r
  known _ hm := (List.not_mem_nil hm).elim

theorem counted_of_setsUp {hub : Hub} {path place id : String} {m : Message} {s : Setup}
    {lao : Lao} (hs : Hub.SetsUp h hub place m s id lao) :
    (Hub.setUpElection path s m).Counted :=
  have ⟨_, _, _, _, hc⟩ := Setup.check_eq_ok.mp hs.check_eq
  (counted_ofSetup hc).log hs.content?_eq nofun

theorem counted {hub : Hub} (hr : hub.Reachable h) {path : String}
    (he : Table.get? hub.elections path = some e) : e.Counted :=
  hr.election_induction (P := fun _ e => e.Counted) (fun hs _ => counted_of_setsUp hs)
    (fun _ hc => ⟨hc.ids, hc.counts, hc.known⟩) (fun hc ht => ht.counted hc) he

-- The stored votes are exactly a recount of the log: each voter has at most one record on a
-- question, it is the one that the recount finds, and every ballot in the log is on a question of
-- the election and so takes part in its recount.
theorem votes_eq_recount (h : Host) (hub : Hub) (hr : hub.Reachable h) (path : String)
    (e : Election) (he : Table.get? hub.elections path = some e) :
    (∀ q ∈ e.questions, (Table.keys q.votes).Nodup ∧
      ∀ voter v, (voter, v) ∈ q.votes ↔ recount e.casts q.id voter = some v) ∧
    (e.questions.map Question.id).Nodup ∧
    ∀ m ∈ e.inbox.messages, m.kind? = some .castVote →
      ∃ p, m.content? = some (.castVote p) ∧ ∀ b ∈ p.votes, m.cast p.createdAt b ∈ e.casts ∧
        ∃ q ∈ e.questions, q.id = b.question ∧
          ∀ i ∈ b.choices, 0 ≤ i.toInt ∧ i.toInt.toNat < q.options.length := by
  have hc := counted hr he
  refine ⟨fun q hq => ?_, hc.ids, fun m hm hk => ?_⟩
  case refine_1 =>
    have ⟨hn, hv⟩ := hc.counts q hq
    refine ⟨hn, fun voter v => ?_⟩
    rw [← hv voter, Question.voteOf?, Table.get?_eq_some_iff hn]
  case refine_2 =>
    have ⟨p, hp, hb⟩ := hc.known m hm hk
    refine ⟨p, hp, fun b hb' => ⟨?_, hb b hb'⟩⟩
    refine List.mem_flatMap.mpr ⟨m, hm, ?_⟩
    rw [Message.casts, hp]
    exact List.mem_map_of_mem hb'

theorem votes_eq_recount_votedA :
    let hub := Hub.after Trial.host Trial.voteRun
    hub.Reachable Trial.host ∧ Table.get? hub.elections (Trial.path "A") = some Trial.votedA ∧
      ∀ q ∈ Trial.votedA.questions, ∃ voter v, (voter, v) ∈ q.votes ∧
        recount Trial.votedA.casts q.id voter = some v := by
  intro hub
  have hr := Hub.reachable_after Trial.host Trial.voteRun
  have he := Trial.reaches_votedA.get?_eq
  have ⟨hv, _⟩ := votes_eq_recount Trial.host hub hr (Trial.path "A") Trial.votedA he
  refine ⟨hr, he, fun q hq => ?_⟩
  have hm : ∃ voter v, (voter, v) ∈ q.votes := by
    rw [Trial.votedA, Trial.questions_voted rfl] at hq
    rw [List.mem_singleton.mp hq]
    exact ⟨_, _, List.mem_cons_self⟩
  have ⟨voter, v, hm⟩ := hm
  exact ⟨voter, v, hm, ((hv q hq).right voter v).mp hm⟩

end Election
end Plenum
