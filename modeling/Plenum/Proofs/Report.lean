import Mathlib.Data.Finset.Card
import Plenum.Proofs.Recount

namespace Plenum

theorem exists_cast_of_recount {cs : List Cast} {question voter : String} {v : Vote}
    (hv : recount cs question voter = some v) :
    ∃ c ∈ cs, c.question = question ∧ c.voter = voter ∧ c.vote = v := by
  obtain ⟨c, hc, hv⟩ := List.mem_map.mp (List.mem_of_find?_eq_some hv)
  have ⟨hm, hqv⟩ := List.mem_filter.mp hc
  have ⟨hq, hv'⟩ := of_decide_eq_true hqv
  exact ⟨c, hm, hq, hv', hv⟩

-- How many voters have an option in the one vote of theirs that counts.
def supporters (cs : List Cast) (question : String) (option : Nat) : Nat :=
  ((cs.map Cast.voter).toFinset.filter fun voter =>
    (recount cs question voter).any (option ∈ ·.choices)).card

-- What a report has to say of a question: for each option in order the number of its supporters.
-- Numbers in a report are machine words.
def QuestionOutcome.due (cs : List Cast) (question : String) (options : List String) :
    QuestionOutcome :=
  ⟨question, options.mapIdx fun i o => ⟨o, .ofNat (supporters cs question i)⟩⟩

-- The report that is due after a setup and some ballots, on the questions that are put to
-- plurality, in order.
def Outcome.due (s : Setup) (cs : List Cast) : Outcome where
  object := Payload.object
  action := Payload.Kind.outcome.action
  questions := (s.questions.filter (·.method = .plurality)).map fun q => .due cs q.id q.options

namespace Question

variable {q : Question} {cs : List Cast}

-- A question without the votes on it.
def blank (q : Question) : Question :=
  { q with votes := [] }

theorem update_blank (q : Question) (voter : String) (v : Vote) :
    (q.update voter v).blank = q.blank := by
  unfold update
  split <;> rfl

theorem nodup_of_check {is : List Int64} {ns : List Nat} (h : q.check is = .ok ns) : ns.Nodup := by
  have ⟨ha, hn⟩ := check_eq_ok.mp h
  exact hn ▸ (nodup_positions fun i hi => (ha.inRange i hi).left).mpr ha.distinct

-- Where no vote names an option twice, an option is named as often as there are votes for it.
theorem count_choices {votes : Table Vote} (hd : ∀ v ∈ votes, v.2.choices.Nodup) (i : Nat) :
    (votes.flatMap fun v => v.2.choices).count i = votes.countP (i ∈ ·.2.choices) := by
  induction votes
  case nil => rfl
  case cons v votes ih =>
    have ⟨hv, hd⟩ := List.forall_mem_cons.mp hd
    rw [List.flatMap_cons, List.count_append, ih hd, hv.count, List.countP_cons, Nat.add_comm]
    simp

-- Each voter has one vote, so that there are as many votes as there are voters with such a vote.
theorem countP_eq_card (hn : (Table.keys q.votes).Nodup) (p : Vote → Bool) {voters : Finset String}
    (hv : ∀ voter, voter ∈ voters ↔ (q.voteOf? voter).any p) :
    q.votes.countP (p ·.2) = voters.card := by
  have hf : voters = (Table.keys (q.votes.filter (p ·.2))).toFinset := by
    ext voter
    rw [hv, List.mem_toFinset, Table.mem_keys_filter hn, voteOf?]
  rw [hf, List.toFinset_card_of_nodup (Table.nodup_keys_filter hn _), Table.keys, List.length_map,
    List.countP_eq_length_filter]

-- Every vote that is stored was cast.
theorem Counts.exists_cast {voter : String} {v : Vote} (hq : q.Counts cs)
    (hv : (voter, v) ∈ q.votes) : ∃ c ∈ cs, c.question = q.id ∧ c.voter = voter ∧ c.vote = v := by
  have hw := (Table.get?_eq_some_iff hq.left).mpr hv
  exact exists_cast_of_recount ((hq.right voter).symm.trans hw)

theorem Counts.countP_eq (hq : q.Counts cs) (i : Nat) :
    q.votes.countP (i ∈ ·.2.choices) = supporters cs q.id i := by
  have ⟨hn, hv⟩ := hq
  refine countP_eq_card hn (i ∈ ·.choices) fun voter => ?_
  rw [Finset.mem_filter, List.mem_toFinset, List.mem_map, ← hv]
  refine and_iff_right_of_imp fun hi => ?_
  have ⟨v, hw, _⟩ := Option.any_eq_true .. |>.mp hi
  have ⟨c, hc, _, hv', _⟩ := exists_cast_of_recount ((hv _).symm.trans hw)
  exact ⟨c, hc, hv'⟩

theorem Counts.due_eq (hq : q.Counts cs) (hd : ∀ c ∈ cs, c.vote.choices.Nodup) :
    ⟨q.id, q.tally.map fun (o, n) => ⟨o, .ofNat n⟩⟩ = QuestionOutcome.due cs q.id q.options := by
  have hd' : ∀ v ∈ q.votes, v.2.choices.Nodup := by
    intro v hv
    have ⟨c, hc, _, _, he⟩ := hq.exists_cast hv
    exact he ▸ hd c hc
  simp only [tally, count_choices hd', hq.countP_eq, List.mapIdx_eq_zipIdx_map, List.map_map,
    QuestionOutcome.due, Function.comp_def]

end Question

namespace Election

variable {h : Host} {e : Election} {lao : Lao} {m : Message} {t : Turn Election Unit} {s : Setup}
  {path : String}

-- An election that a setup has made: that is its first message, and gives it its questions. No
-- ballot after it names an option twice.
structure StemsFrom (s : Setup) (e : Election) : Prop where
  first : ∃ m rest, e.inbox.messages = m :: rest ∧ m.content? = some (.setup s)
  questions : e.questions.map Question.blank = s.questions.map .ofSetup
  distinct : ∀ c ∈ e.casts, c.vote.choices.Nodup

-- A ballot that is admitted names no option twice.
theorem Admits.distinct {env : Envelope} {p : Payload} {r : Ruling}
    (ha : Admits h lao m e env p r) : ∀ c ∈ m.casts, c.vote.choices.Nodup := by
  by_cases hk : p.kind = .castVote
  case pos =>
    cases p
    case castVote p =>
      rw [Message.casts_eq ha.content?_eq]
      refine List.forall_mem_map.mpr fun b hb => ?_
      obtain ⟨_, _, _, hc⟩ := ha.check_eq b hb
      exact Question.nodup_of_check hc
    all_goals cases hk
  case neg =>
    rw [casts_of_kind ha.content?_eq hk]
    exact List.forall_mem_nil _

theorem StemsFrom.log (hs : e.StemsFrom s) (hm : ∀ c ∈ m.casts, c.vote.choices.Nodup) :
    (e.log m).StemsFrom s where
  first := by
    have ⟨n, rest, he, hc⟩ := hs.first
    refine ⟨n, rest ++ [m], ?_, hc⟩
    rw [← List.cons_append, ← he]
    rfl
  questions := hs.questions
  distinct := by
    rw [casts_log]
    exact List.forall_mem_append.mpr ⟨hs.distinct, hm⟩

theorem StemsFrom.storeVotes (hs : e.StemsFrom s) (voter : String) (votes : List (Nat × Vote)) :
    (e.storeVotes voter votes).StemsFrom s where
  first := hs.first
  questions := (storeVotes_map Question.update_blank e voter votes).trans hs.questions
  distinct := hs.distinct

theorem Processed.stemsFrom (ht : Processed h lao m e t) (hs : e.StemsFrom s) :
    t.state.StemsFrom s := by
  refine ht.keeps (P := StemsFrom s) hs ?phase ?vote ?other ?report
  case phase => exact fun _ hs => ⟨hs.first, hs.questions, hs.distinct⟩
  case vote => exact fun ha => (hs.storeVotes m.sender _).log ha.distinct
  case other => exact fun ha _ => hs.log ha.distinct
  case report =>
    refine fun _ _ hs => hs.log ?_
    rw [casts_of_kind (content?_outcomeMessage h e) nofun]
    exact nofun

theorem stemsFrom_of_setsUp {hub : Hub} {place id : String}
    (hs : Hub.SetsUp h hub place m s id lao) : (Hub.setUpElection path s m).StemsFrom s where
  first := ⟨m, [], rfl, hs.content?_eq⟩
  questions := by
    have hq : (Hub.setUpElection path s m).questions = s.questions.map .ofSetup := rfl
    rw [hq, List.map_map]
    rfl
  distinct := by
    have hc : (Hub.setUpElection path s m).casts = m.casts := casts_log
    rw [hc, casts_of_kind hs.content?_eq nofun]
    exact nofun

theorem exists_stemsFrom {hub : Hub} (hr : hub.Reachable h)
    (he : Table.get? hub.elections path = some e) : ∃ s, e.StemsFrom s :=
  hr.election_induction (P := fun _ e => ∃ s, e.StemsFrom s)
    (fun hs _ => ⟨_, stemsFrom_of_setsUp hs⟩)
    (fun _ ⟨s, hs⟩ => ⟨s, hs.first, hs.questions, hs.distinct⟩)
    (fun ⟨s, hs⟩ ht => ⟨s, ht.stemsFrom hs⟩) he

-- What the host makes of the votes is what is due.
theorem StemsFrom.gather_eq (hs : e.StemsFrom s) (hc : e.Counted) :
    Outcome.gather e.questions = .due s e.casts := by
  have hq : (e.questions.filter (·.method = .plurality)).map
      (fun q => ⟨q.id, q.tally.map fun (o, n) => ⟨o, .ofNat n⟩⟩) =
      (s.questions.filter (·.method = .plurality)).map fun q =>
        QuestionOutcome.due e.casts q.id q.options :=
    calc
      _ = (e.questions.filter (·.method = .plurality)).map fun q =>
          QuestionOutcome.due e.casts q.id q.options :=
        List.map_congr_left fun q hq => (hc.counts q (List.mem_of_mem_filter hq)).due_eq hs.distinct
      _ = ((e.questions.map Question.blank).filter (·.method = .plurality)).map fun q =>
          QuestionOutcome.due e.casts q.id q.options := by
        rw [List.filter_map, List.map_map]
        rfl
      _ = _ := by
        rw [hs.questions, List.filter_map, List.map_map]
        rfl
  rw [Outcome.gather, hq, Outcome.due]

-- An end that is answered without an error is logged, and after it the report.
theorem closed_of_outcome (hk : m.kind? = some .closing)
    (hok : (e.process h lao m).outcome = .ok ()) :
    (e.process h lao m).state =
      { (e.log m).log (e.outcomeMessage h) with phase := .terminated } := by
  have ht := processed h lao m e
  generalize e.process h lao m = t at ht hok
  cases ht
  case refused => cases hok
  case opened ha => cases hk.symm.trans ha.kind?_eq
  case voted ha => cases hk.symm.trans ha.kind?_eq
  case closed => rfl
  case unreported => cases hok
  case noted ha => cases hk.symm.trans ha.kind?_eq

end Election

-- An end that is answered without an error leaves the report as the last message of the log. It is
-- the host's, without witnesses, and it says what is due by the setup at the head of the log and
-- by the ballots in it. From then on the votes make the same report.
theorem Election.report_is_recount (h : Host) (calls : List Hub.Call) (path : String)
    (e : Election) (lao : Lao) (m : Message)
    (he : Table.get? (Hub.after h calls).elections path = some e)
    (hl : Table.get? (Hub.after h calls).laos e.lao = some lao) (hk : m.kind? = some .closing)
    (hok : (e.process h lao m).outcome = .ok ()) :
    ∃ s first rest o,
      (e.process h lao m).state.inbox.messages = first :: rest ++ [o] ∧
      first.content? = some (.setup s) ∧
      o.content? = some (.outcome (.due s (e.process h lao m).state.casts)) ∧
      o.sender = h.publicText ∧ o.id = h.suite.identifier [o.data, o.signature] ∧
      o.witnesses = [] ∧
      ∀ c post, c.Says path m →
        ∃ e', Table.get? (Hub.after h (calls ++ c :: post)).elections path = some e' ∧
          Outcome.gather e'.questions = .due s (e.process h lao m).state.casts := by
  have ht := processed h lao m e
  have hcl := closed_of_outcome hk hok
  have hq : (e.process h lao m).state.questions = e.questions := by rw [hcl]; rfl
  have hr := Hub.reachable_after h calls
  have ⟨s, hs⟩ := exists_stemsFrom hr he
  have hg := (ht.stemsFrom hs).gather_eq (ht.counted (counted hr he))
  rw [hq] at hg
  have ⟨first, rest, hm, hf⟩ := hs.first
  refine ⟨s, first, rest ++ [m], e.outcomeMessage h, ?log, hf, ?content, ?sender, ?id, ?witnesses,
    fun c post hc => ?later⟩
  case log =>
    rw [hcl, ← List.cons_append, ← hm]
    rfl
  case content => rw [content?_outcomeMessage, hg]
  case sender => rw [← sign_gather, Message.sign]
  case id => rw [← sign_gather, Message.sign]
  case witnesses => rw [← sign_gather, Message.sign]
  case later =>
    have hn := Hub.get?_step_of_said (h := h) he hl hc
    rw [← Hub.after_concat] at hn
    have ⟨e', he', hgr⟩ := Hub.grows_after hn post
    rw [List.append_assoc] at he'
    refine ⟨e', he', ?_⟩
    rw [hgr.questions (by rw [hcl]), hq, hg]

-- In the trial there is one vote, for the first of the two options.
theorem Election.report_is_recount_castA :
    let e := Trial.castA .plurality
    let m := Trial.message 3 (.closing (Trial.closing "A"))
    Table.get? (Hub.after Trial.host (Trial.castRun .plurality)).elections (Trial.path "A") =
        some e ∧
      Table.get? (Hub.after Trial.host (Trial.castRun .plurality)).laos e.lao = some Trial.lao ∧
      m.kind? = some .closing ∧ (e.process Trial.host Trial.lao m).outcome = .ok () ∧
      ∃ o ∈ (e.process Trial.host Trial.lao m).state.inbox.messages,
        o.content? = some (.outcome ⟨Payload.object, Payload.Kind.outcome.action,
          [⟨Trial.questionId "A", [⟨"x", 1⟩, ⟨"y", 0⟩]⟩]⟩) := by
  intro e m
  have hr := Trial.reaches_castA .plurality
  have hc := Trial.conducted_castA .plurality
  have he := hr.get?_eq
  have hl : Table.get? (Hub.after Trial.host (Trial.castRun .plurality)).laos e.lao =
      some Trial.lao := by
    rw [hr.after_eq]
    rfl
  have hk := Trial.kind?_message 3 (p := .closing (Trial.closing "A")) rfl
  have ha := hc.admits (n := 3) (p := .closing (Trial.closing "A")) rfl (by decide) (by decide)
    (hc.judge_closing 3)
  have ht := hc.carryOut_terminate (n := 3) (by decide) (by decide)
  rw [← ha.process_eq] at ht
  have hok : (e.process Trial.host Trial.lao m).outcome = .ok () := by rw [ht]
  obtain ⟨s, first, rest, o, hm, -, ho, -, -, -, hp⟩ := report_is_recount Trial.host
    (Trial.castRun .plurality) (Trial.path "A") e Trial.lao m he hl hk hok
  obtain ⟨e', he', hg⟩ := hp _ [] (Trial.Reaches.says_publish _ _)
  have hr' := hr.ended (n := 3) (Trial.get?_path ..) hc (by decide) (by decide) (by decide)
  rw [Trial.insert_path] at hr'
  cases hr'.get?_eq.symm.trans he'
  have hq : Outcome.gather (Trial.ended "A" 3 e).questions = _ := Trial.gather_castA
  refine ⟨he, hl, hk, hok, o, by rw [hm]; simp, ?_⟩
  rw [ho, ← hg, hq]

end Plenum
