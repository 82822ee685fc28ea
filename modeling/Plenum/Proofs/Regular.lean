import Plenum.Proofs.Hub

namespace Plenum

theorem Suite.decode?_questionId (S : Suite) (election question : String) :
    Base64.decode? (S.questionId election question) ≠ none := by
  rw [questionId, identifier, Base64.decode?_encode]
  nofun

theorem Question.update_id (q : Question) (voter : String) (v : Vote) :
    (q.update voter v).id = q.id := by
  unfold update
  split <;> rfl

namespace Election

variable {h : Host} {e : Election} {lao : Lao} {m : Message} {t : Turn Election Unit}

-- A result that may stand in a log: the host has signed it, and it can be read.
def IsOutcome (h : Host) (m : Message) : Prop :=
  m.IsFrom h.suite h.key ∧
    ∃ p, m.content? = some (.outcome p) ∧ ∀ q ∈ p.questions, Base64.decode? q.id ≠ none

structure Regular (h : Host) (path : String) (e : Election) : Prop where
  path_eq : e.path = path
  pending_eq : e.inbox.pending = []
  readable : ∀ q ∈ e.questions, Base64.decode? q.id ≠ none
  passed : ∀ m ∈ e.inbox.messages, ∃ env, m.unseal h.suite = .ok env
  outcomes : ∀ m ∈ e.inbox.messages, m.kind? = some .outcome → IsOutcome h m

variable {path : String}

theorem Regular.listen (hr : e.Regular h path) (sockets : Sockets) :
    Regular h path { e with sockets } :=
  ⟨hr.path_eq, hr.pending_eq, hr.readable, hr.passed, hr.outcomes⟩

theorem Regular.log {env : Envelope} (hr : e.Regular h path) (hu : m.unseal h.suite = .ok env)
    (ho : m.kind? = some .outcome → IsOutcome h m) : (e.log m).Regular h path where
  path_eq := hr.path_eq
  pending_eq := hr.pending_eq
  readable := hr.readable
  passed n hn := by
    rcases List.mem_append.mp hn with hn | hn
    case inl => exact hr.passed n hn
    case inr =>
      cases List.mem_singleton.mp hn
      exact ⟨env, hu⟩
  outcomes n hn hk := by
    rcases List.mem_append.mp hn with hn | hn
    case inl => exact hr.outcomes n hn hk
    case inr =>
      cases List.mem_singleton.mp hn
      exact ho hk

-- What a vote leaves alone in its question stays the same in all questions.
theorem storeVote_map {α : Type} {f : Question → α}
    (hf : ∀ q voter v, f (q.update voter v) = f q) (voter : String) (qs : List Question)
    (v : Nat × Vote) : (storeVote voter qs v).map f = qs.map f := by
  refine List.ext_getElem? fun j => ?_
  rw [storeVote, List.getElem?_map, List.getElem?_modify, List.getElem?_map]
  cases qs[j]?
  case none => rfl
  case some q => by_cases hj : v.1 = j <;> simp [hj, hf]

theorem storeVotes_map {α : Type} {f : Question → α}
    (hf : ∀ q voter v, f (q.update voter v) = f q) (e : Election) (voter : String)
    (votes : List (Nat × Vote)) :
    (e.storeVotes voter votes).questions.map f = e.questions.map f := by
  rw [storeVotes]
  generalize e.questions = qs
  induction votes generalizing qs
  case nil => rfl
  case cons v votes ih => exact (ih _).trans (storeVote_map hf voter qs v)

theorem storeVotes_ids (e : Election) (voter : String) (votes : List (Nat × Vote)) :
    (e.storeVotes voter votes).questions.map Question.id = e.questions.map Question.id :=
  storeVotes_map Question.update_id e voter votes

theorem Regular.storeVotes (hr : e.Regular h path) (voter : String) (votes : List (Nat × Vote)) :
    (e.storeVotes voter votes).Regular h path where
  path_eq := hr.path_eq
  pending_eq := hr.pending_eq
  readable q hq := by
    have hi := List.mem_map_of_mem (f := Question.id) hq
    rw [storeVotes_ids] at hi
    obtain ⟨r, hr', he⟩ := List.mem_map.mp hi
    exact he ▸ hr.readable r hr'
  passed := hr.passed
  outcomes := hr.outcomes

theorem readable_gather {qs : List Question} (hq : ∀ q ∈ qs, Base64.decode? q.id ≠ none) :
    ∀ q ∈ (Outcome.gather qs).questions, Base64.decode? q.id ≠ none := by
  intro q hg
  obtain ⟨r, hr, rfl⟩ := List.mem_map.mp hg
  exact hq r (List.mem_filter.mp hr).left

-- Where all ids can be read, the host takes its own report.
theorem judgeOutcome_gather {qs : List Question} (hq : ∀ q ∈ qs, Base64.decode? q.id ≠ none) :
    judgeOutcome h h.key (.gather qs) = .ok .note :=
  judgeOutcome_eq_ok.mpr ⟨rfl, readable_gather hq, rfl⟩

theorem publishOutcome_of_readable (hs : h.suite.Sound)
    (hq : ∀ q ∈ e.questions, Base64.decode? q.id ≠ none)
    (hn : ¬e.inbox.has (e.outcomeMessage h).id) (hp : (e.outcomeMessage h).id ∉ e.inbox.pending) :
    publishOutcome h e = ⟨e.log (e.outcomeMessage h), e.announce (e.outcomeMessage h), .ok ()⟩ := by
  rw [publishOutcome_of_received (receive_eq_ok.mpr ⟨unseal_outcomeMessage hs e, hn, hp, rfl⟩)]
  simp only [judgeOutcome_gather hq]

theorem Regular.isOutcome_outcomeMessage (hr : e.Regular h path)
    (hf : (e.outcomeMessage h).IsFrom h.suite h.key) : IsOutcome h (e.outcomeMessage h) :=
  ⟨hf, _, content?_outcomeMessage h e, readable_gather hr.readable⟩

-- A result that is admitted may stand in a log.
theorem Admits.isOutcome {env : Envelope} {p : Payload} {r : Ruling}
    (ha : Admits h lao m e env p r) (hk : m.kind? = some .outcome) : IsOutcome h m := by
  have hk : p.kind = .outcome := Option.some.inj (ha.kind?_eq.symm.trans hk)
  cases p
  case outcome p =>
    have ⟨ho, hq, _⟩ := judgeOutcome_eq_ok.mp ha.judge_eq
    exact ⟨⟨env, ha.unseal_eq, ho⟩, p, ha.content?_eq, hq⟩
  all_goals cases hk

theorem Admits.not_outcome {env : Envelope} {p : Payload} {r : Ruling}
    (ha : Admits h lao m e env p r) (hp : p.kind ≠ .outcome) : m.kind? ≠ some .outcome :=
  fun hk => hp (Option.some.inj (ha.kind?_eq.symm.trans hk))

theorem Processed.regular (ht : Processed h lao m e t) (hr : e.Regular h path) :
    t.state.Regular h path := by
  refine ht.keeps (P := Regular h path) hr ?phase ?vote ?other ?report
  case phase => exact fun _ hr => ⟨hr.path_eq, hr.pending_eq, hr.readable, hr.passed, hr.outcomes⟩
  case vote => exact fun ha => (hr.storeVotes m.sender _).log ha.unseal_eq ha.isOutcome
  case other => exact fun ha _ => hr.log ha.unseal_eq ha.isOutcome
  case report =>
    intro hf _ hl
    have ⟨_, hu, _⟩ := hf
    exact hl.log hu fun _ => hr.isOutcome_outcomeMessage hf

-- The questions of a setup that passes are known by identifiers, which are base 64.
theorem decode?_of_checkQuestions {S : Suite} {election : String} {seen : List String}
    {qs : List SetupQuestion} (hc : Setup.checkQuestions S election seen qs = .ok ()) :
    ∀ q ∈ qs, Base64.decode? q.id ≠ none := by
  intro q hq
  have ⟨hi, _⟩ := (Setup.checkQuestions_eq_ok.mp hc).left q hq
  exact hi ▸ S.decode?_questionId _ _

theorem regular_of_setsUp {hub : Hub} {place id : String} {s : Setup}
    (hs : Hub.SetsUp h hub place m s id lao) : (Hub.setUpElection path s m).Regular h path := by
  have ⟨_, _, _, _, hc⟩ := Setup.check_eq_ok.mp hs.check_eq
  have hr : (ofSetup path s).Regular h path := by
    refine ⟨rfl, rfl, fun q hq => ?_, nofun, nofun⟩
    obtain ⟨r, hr, rfl⟩ := List.mem_map.mp hq
    exact decode?_of_checkQuestions hc r hr
  have ⟨_, hu, _⟩ := hs.unseal_eq
  exact hr.log hu fun hk => nomatch hs.kind?_eq.symm.trans hk

theorem regular {hub : Hub} (hr : hub.Reachable h)
    (he : Table.get? hub.elections path = some e) : e.Regular h path :=
  hr.election_induction (fun hs _ => regular_of_setsUp hs)
    (fun sockets hr => hr.listen sockets)
    (fun hr ht => ht.regular hr) he

-- An election at a later time: its log has only grown, and from its end on its votes stand.
structure Grows (e e' : Election) : Prop where
  messages : e.inbox.messages <+: e'.inbox.messages
  terminated : e.phase = .terminated → e'.phase = .terminated
  questions : e.phase = .terminated → e'.questions = e.questions

theorem Grows.refl (e : Election) : Grows e e :=
  ⟨List.prefix_rfl, fun hp => hp, fun _ => rfl⟩

theorem Grows.trans {e₁ e₂ e₃ : Election} (h₁ : Grows e₁ e₂) (h₂ : Grows e₂ e₃) : Grows e₁ e₃ where
  messages := h₁.messages.trans h₂.messages
  terminated hp := h₂.terminated (h₁.terminated hp)
  questions hp := (h₂.questions (h₁.terminated hp)).trans (h₁.questions hp)

theorem Processed.grows (ht : Processed h lao m e t) : e.Grows t.state := by
  cases ht
  case refused => exact .refl e
  case opened ha =>
    have hp := ha.phase_of_opening
    exact ⟨List.prefix_append .., (nomatch hp.symm.trans ·), (nomatch hp.symm.trans ·)⟩
  case voted ha =>
    have hp := ha.phase_of_vote
    exact ⟨List.prefix_append .., (nomatch hp.symm.trans ·), (nomatch hp.symm.trans ·)⟩
  case closed =>
    exact ⟨(List.prefix_append ..).trans (List.prefix_append ..), fun _ => rfl, fun _ => rfl⟩
  case unreported => exact ⟨List.prefix_append .., fun _ => rfl, fun _ => rfl⟩
  case noted => exact ⟨List.prefix_append .., fun hp => hp, fun _ => rfl⟩

end Election

namespace Hub

variable {h : Host} {hub : Hub} {path : String} {e : Election}

theorem grows_step (he : Table.get? hub.elections path = some e) (c : Call) :
    ∃ e', Table.get? (hub.step h c).elections path = some e' ∧ e.Grows e' :=
  exists_step_of he (fun _ => ⟨List.prefix_rfl, id, fun _ => rfl⟩)
    fun _ => (Election.processed ..).grows

theorem grows_after {pre : List Call} (he : Table.get? (after h pre).elections path = some e)
    (post : List Call) :
    ∃ e', Table.get? (after h (pre ++ post)).elections path = some e' ∧ e.Grows e' := by
  induction post using List.reverseRecOn
  case nil => exact ⟨e, by rwa [List.append_nil], .refl e⟩
  case append_singleton post c ih =>
    obtain ⟨e₁, he₁, hg₁⟩ := ih
    have ⟨e₂, he₂, hg₂⟩ := grows_step (h := h) he₁ c
    exact ⟨e₂, by rwa [← List.append_assoc, after_concat], hg₁.trans hg₂⟩

theorem laos_query (hub : Hub) (q : Query) (s : Socket) :
    (hub.step h (.query q s)).laos = hub.laos := by
  simp only [step, handle_hub]
  cases hq : q.message?
  case none =>
    rcases (run_of_no_message (h := h) (s := s) hq).right with hr | ⟨e, sockets, _, hr⟩ <;> rw [hr]
    rfl
  case some m =>
    rw [(run_of_message hq).left]
    rcases say_eq h hub q.channel m with ⟨f, hs⟩ | ⟨p, id, lao, _, hs⟩ | ⟨e, lao, _, _, hs⟩ <;>
      rw [hs] <;> rfl

-- No LAO is ever forgotten.
theorem exists_lao_step {id : String} {lao : Lao} (hl : Table.get? hub.laos id = some lao)
    (c : Call) : ∃ lao', Table.get? (hub.step h c).laos id = some lao' := by
  cases c
  case register => exact Table.exists_get?_insert hl ..
  case addAttendees j keys =>
    simp only [step, addAttendees]
    split
    case h_1 => exact ⟨lao, hl⟩
    case h_2 => exact Table.exists_get?_insert hl ..
  case query q s => exact ⟨lao, by rw [laos_query, hl]⟩
  case removeSocket => exact ⟨lao, hl⟩

theorem lao_of_process {lao : Lao} {m : Message} :
    (e.process h lao m).state.lao = e.lao := by
  have ht := Election.processed h lao m e
  generalize e.process h lao m = t at ht
  cases ht <;> rfl

-- The LAO of an election is known.
theorem Reachable.exists_lao (hr : hub.Reachable h)
    (he : Table.get? hub.elections path = some e) :
    ∃ lao, Table.get? hub.laos e.lao = some lao := by
  induction hr generalizing path e
  case empty => cases he
  case step c _ ih =>
    cases origin he
    case kept hk =>
      have ⟨lao, hl⟩ := ih hk
      exact exists_lao_step hl c
    case spoken e m lao hk _ _ =>
      have ⟨lao, hl⟩ := ih hk
      rw [lao_of_process]
      exact exists_lao_step hl c
    case created id lao _ _ hs _ _ =>
      have ⟨hi, _⟩ := Setup.check_eq_ok.mp hs.check_eq
      have ⟨_, hl⟩ := laoAt?_eq_some.mp hs.laoAt_eq
      exact exists_lao_step (hi ▸ hl) c
  case setUp hs ih =>
    have ⟨_, _, _, hs', ha⟩ := setUp_eq_ok.mp hs
    rcases get?_setUp hs he with he' | ⟨s, id, lao, hs, -, rfl⟩
    case inl =>
      rw [ha]
      exact ih he'
    case inr =>
      obtain ⟨rfl, -⟩ := Setup.check_eq_ok.mp hs.check_eq
      have ⟨_, hl⟩ := laoAt?_eq_some.mp hs.laoAt_eq
      rw [ha]
      exact ⟨lao, hl⟩

end Hub
end Plenum
