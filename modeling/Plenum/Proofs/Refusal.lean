import Plenum.Proofs.Recount

namespace Plenum

namespace Election

variable {h : Host} {e : Election} {lao : Lao} {m : Message} {t : Turn Election Unit}
  {path : String}

-- The ballot is on a question of the election and passes the check there.
def Takes (e : Election) (b : Ballot) : Prop :=
  ∃ q ∈ e.questions, q.id = b.question ∧ ∃ ns, q.check b.choices = .ok ns

-- A vote is admitted as a whole or not at all.
theorem Admits.takes {env : Envelope} {p : CastVote} {r : Ruling}
    (ha : Admits h lao m e env (.castVote p) r) : ∀ b ∈ p.votes, e.Takes b := by
  intro b hb
  have ⟨q, hq, hi, hc⟩ := ha.check_eq b hb
  exact ⟨q, hq, hi, _, hc⟩

theorem not_admits_of_not_takes {p : CastVote} {b : Ballot} (hm : m.content? = some (.castVote p))
    (hb : b ∈ p.votes) (hn : ¬e.Takes b) {env : Envelope} {p' : Payload} {r : Ruling} :
    ¬Admits h lao m e env p' r := by
  intro ha
  cases Option.some.inj (ha.content?_eq.symm.trans hm)
  exact hn (ha.takes b hb)

-- Only an end can fail after something has changed.
theorem Processed.refused_or_ok (ht : Processed h lao m e t)
    (hm : ∀ p, m.content? ≠ some (.closing p)) : (∃ f, t = .refuse e f) ∨ t.outcome = .ok () := by
  cases ht
  case refused f => exact .inl ⟨f, rfl⟩
  case unreported p _ ha _ => exact (hm p ha.content?_eq).elim
  all_goals exact .inr rfl

-- Between two calls every identifier is free that is not in the log.
theorem Regular.exists_reserve (hr : e.Regular h path) {id : String} (hf : ¬e.inbox.has id) :
    ∃ i, e.inbox.reserve id = .ok i :=
  ⟨_, Inbox.reserve_eq_ok.mpr ⟨hf, hr.pending_eq ▸ List.not_mem_nil, rfl⟩⟩

end Election

namespace Hub

variable {h : Host} {hub : Hub} {path : String} {e : Election} {m : Message} {q : Query}
  {s : Socket} {f : Fault}

theorem setElection_self (he : Table.get? hub.elections path = some e) :
    hub.setElection path e = hub := by
  rw [setElection, Table.insert_of_get? he]

theorem say_of_not_admits (he : Table.get? hub.elections path = some e)
    (hn : ∀ {lao env p r}, ¬Election.Admits h lao m e env p r) :
    ∃ f, hub.say h path m = .refuse hub f := by
  simp only [say, he, process]
  cases Table.get? hub.laos e.lao
  case none => exact ⟨_, rfl⟩
  case some lao =>
    obtain ⟨f, hf⟩ : ∃ f, e.process h lao m = .refuse e f :=
      Election.process_eq_refuse fun _ _ _ => hn
    exact ⟨f, by simp only [hf, Turn.within, Turn.refuse, setElection_self he]⟩

theorem say_refused_or_ok (hm : ∀ p, m.content? ≠ some (.closing p)) :
    (∃ f, hub.say h path m = .refuse hub f) ∨ (hub.say h path m).outcome = .ok () := by
  rcases say_eq h hub path m with hf | ⟨_, _, _, _, hs⟩ | ⟨e, lao, he, _, hs⟩
  case inl => exact .inl hf
  case inr.inl => exact .inr (by rw [hs]; rfl)
  case inr.inr =>
    rcases (Election.processed h lao m e).refused_or_ok hm with ⟨f, hf⟩ | ho
    case inl => exact .inl ⟨f, by simp only [hs, hf, Turn.within, Turn.refuse, setElection_self he]⟩
    case inr => exact .inr (by rw [hs]; exact ho)

theorem handle_of_refuse (hr : hub.run h q s = .refuse hub f) :
    hub.handle h q s = ⟨hub, [], some (.fault q.id? f)⟩ := by
  rw [handle, hr]
  rfl

-- What a path refuses is answered with an error, and that is all.
theorem handle_of_say (hq : q.message? = some m) (hs : hub.say h q.channel m = .refuse hub f) :
    hub.handle h q s = ⟨hub, [], some (.fault q.id? f)⟩ := by
  refine handle_of_refuse ?_
  rw [run_eq_andThen hq, hs]
  rfl

theorem run_refused_or_ok (hm : ∀ m, q.message? = some m → ∀ p, m.content? ≠ some (.closing p)) :
    (∃ f, hub.run h q s = .refuse hub f) ∨
      ∃ a, (hub.run h q s).outcome = .ok a ∧ ¬a.isError := by
  cases hq : q.message?
  case none =>
    have ha := asked h hub s hq
    generalize hub.run h q s = t at ha
    cases ha
    case refused f => exact .inl ⟨f, rfl⟩
    case heard => exact .inr ⟨_, rfl, nofun⟩
    case told => exact .inr ⟨_, rfl, nofun⟩
  case some m =>
    rw [run_eq_andThen hq]
    rcases say_refused_or_ok (hm m hq) with ⟨f, hf⟩ | ho
    case inl => exact .inl ⟨f, by rw [hf]; rfl⟩
    case inr => exact .inr ⟨.ok q.id?, by simp only [Turn.andThen, ho, Turn.done], nofun⟩

-- What a request that did not fail is answered with, if anything.
theorem answer_of_ok {a b : Answer} (hr : (hub.run h q s).outcome = .ok a)
    (hb : (hub.handle h q s).answer = some b) : b = a := by
  rw [handle, hr] at hb
  simp only at hb
  split at hb
  case isTrue => cases hb
  case isFalse => exact (Option.some.inj hb).symm

end Hub

-- A request that fails leaves the hub as it was and sends nothing, and every identifier is free
-- that is not in the log. The one exception is an end, which can fail after it has closed its
-- election. A vote with a single ballot that the election cannot take in is such a failure.
theorem Hub.failed_request_leaves_no_trace (h : Host) (hub : Hub) (hr : hub.Reachable h) (q : Query)
    (s : Socket) (hm : ∀ m, q.message? = some m → ∀ p, m.content? ≠ some (.closing p)) :
    (∀ a, (hub.handle h q s).answer = some a → a.isError →
      (hub.handle h q s).hub = hub ∧ (hub.handle h q s).sent = [] ∧
        ∀ path e, Table.get? (hub.handle h q s).hub.elections path = some e →
          ∀ id, ¬e.inbox.has id → ∃ i, e.inbox.reserve id = .ok i) ∧
    ∀ m e p b, q.message? = some m → Table.get? hub.elections q.channel = some e →
      m.content? = some (.castVote p) → b ∈ p.votes → ¬e.Takes b →
      ∃ f, hub.handle h q s = ⟨hub, [], some (.fault q.id? f)⟩ := by
  refine ⟨fun a ha he => ?_, fun m e p b hq he hc hb hn => ?_⟩
  case refine_1 =>
    rcases run_refused_or_ok hm with ⟨f, hf⟩ | ⟨b, hb, hn⟩
    case inl =>
      rw [handle_of_refuse hf]
      exact ⟨rfl, rfl, fun path e hp id => (Election.regular hr hp).exists_reserve⟩
    case inr => exact (hn (answer_of_ok hb ha ▸ he)).elim
  case refine_2 =>
    have ⟨f, hf⟩ := say_of_not_admits (h := h) he (Election.not_admits_of_not_takes hc hb hn)
    exact ⟨f, handle_of_say hq hf⟩

-- Two ballots, of which the second names no option.
def Trial.halfVote (name : String) : CastVote :=
  { vote name with votes := [⟨"v", questionId name, [0]⟩, ⟨"w", questionId name, []⟩] }

def Trial.halfQuery (name : String) : Query :=
  .publish protocolVersion 0 (path name) (message 3 (.castVote (halfVote name)))

theorem Hub.failed_request_halfVote :
    let hub := after Trial.host Trial.voteRun
    hub.Reachable Trial.host ∧
      (∀ m, (Trial.halfQuery "A").message? = some m → ∀ p, m.content? ≠ some (.closing p)) ∧
      (∃ f, hub.handle Trial.host (Trial.halfQuery "A") ⟨"s", "q"⟩ =
        ⟨hub, [], some (.fault (some 0) f)⟩) ∧
      ∃ i, Trial.votedA.inbox.reserve (Trial.mark 4) = .ok i := by
  intro hub
  have hr := reachable_after Trial.host Trial.voteRun
  have hq : (Trial.halfQuery "A").message? =
      some (Trial.message 3 (.castVote (Trial.halfVote "A"))) := rfl
  have hc := Trial.content?_message 3 (p := .castVote (Trial.halfVote "A")) rfl
  have hm : ∀ m, (Trial.halfQuery "A").message? = some m → ∀ p, m.content? ≠ some (.closing p) := by
    intro m hm p hp
    rw [← Option.some.inj (hq.symm.trans hm), hc] at hp
    cases hp
  have he := Trial.reaches_votedA.get?_eq
  have hn : ¬Trial.votedA.Takes ⟨"w", Trial.questionId "A", []⟩ := by
    rintro ⟨r, hr, -, ns, hk⟩
    simp [Question.check, (Trial.conducted_votedA.asked r hr).right] at hk
  obtain ⟨hfail, hbad⟩ :=
    failed_request_leaves_no_trace Trial.host hub hr (Trial.halfQuery "A") ⟨"s", "q"⟩ hm
  obtain ⟨f, hf⟩ := hbad _ Trial.votedA (Trial.halfVote "A") _ hq he hc
    (List.mem_cons_of_mem _ List.mem_cons_self) hn
  obtain ⟨hhub, -, hfree⟩ := hfail (.fault (some 0) f) (by rw [hf]; rfl) rfl
  have hnew := Trial.conducted_votedA.marked.not_has (n := 4) (by decide) (by decide)
  exact ⟨hr, hm, ⟨f, hf⟩, hfree (Trial.path "A") Trial.votedA (by rw [hhub]; exact he) _ hnew⟩

end Plenum
