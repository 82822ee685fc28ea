import Plenum.Proofs.Conduct

namespace Plenum

namespace Election

variable {h : Host} {e : Election} {lao : Lao} {m n : Message} {path : String}

-- The election has the message, by payload and signature.
def Holds (e : Election) (o : Message) : Prop :=
  ∃ n ∈ e.inbox.messages, n.data = o.data ∧ n.signature = o.signature

-- An end that is in order: it passes, is new, comes from the organizer and names this election; it
-- is not before the start, and what it says of the votes is base 64.
def MayClose (h : Host) (lao : Lao) (m : Message) (e : Election) : Prop :=
  ∃ env p, m.unseal h.suite = .ok env ∧ Payload.decode env.payload = .ok (.closing p) ∧
    ¬e.inbox.has m.id ∧ env.sender = lao.organizer ∧ p.lao = e.lao ∧ p.election = e.id ∧
    e.startTime ≤ p.createdAt ∧ Base64.decode? p.registeredVotes ≠ none

-- All that can come between the end and the report is a message of the same identifier.
theorem Regular.publishOutcome_eq (hs : h.suite.Sound) (hr : e.Regular h path) :
    publishOutcome h e =
      if e.inbox.has (e.outcomeMessage h).id then
        .refuse e (.duplicate (e.outcomeMessage h).id)
      else ⟨e.log (e.outcomeMessage h), e.announce (e.outcomeMessage h), .ok ()⟩ := by
  have hp : (e.outcomeMessage h).id ∉ e.inbox.pending := hr.pending_eq ▸ List.not_mem_nil
  split
  case isTrue hh =>
    refine publishOutcome_of_refused ?_
    rw [receive, unseal_outcomeMessage hs e, Guards.ok_bind, Inbox.reserve, if_pos (.inl hh),
      Guards.error_bind]
  case isFalse hh => exact publishOutcome_of_readable hs hr.readable hh hp

-- An end is admitted exactly if it is in order and the election is open.
theorem mayClose_of_admits {env : Envelope} {p : Payload} {r : Ruling}
    (ha : Admits h lao m e env p r) (hk : m.kind? = some .closing) :
    e.phase = .started ∧ e.MayClose h lao m := by
  have hk' : p.kind = .closing := Option.some.inj (ha.kind?_eq.symm.trans hk)
  cases p
  case closing p =>
    have ⟨ho, hl, hi, ht, hv, hs, _⟩ := judgeClosing_eq_ok.mp ha.judge_eq
    exact ⟨hs, env, p, ha.unseal_eq, ha.decode_eq, ha.fresh, ho, hl, hi, ht, hv⟩
  all_goals cases hk'

theorem MayClose.admits (hm : e.MayClose h lao m) (hs : e.phase = .started)
    (hp : e.inbox.pending = []) : ∃ env p, Admits h lao m e env (.closing p) .terminate := by
  have ⟨env, p, hu, hd, hf, ho, hl, hi, ht, hv⟩ := hm
  refine ⟨env, p, hu, hf, hp ▸ List.not_mem_nil, hd, ?_⟩
  exact judgeClosing_eq_ok.mpr ⟨ho, hl, hi, ht, hv, hs, rfl⟩

-- Where identifiers do not collide, the identifier of a report stands for the report.
theorem Regular.has_outcomeMessage_iff (hs : h.suite.Sound) (hr : e.Regular h path)
    (hc : ∀ n ∈ e.inbox.messages, ¬n.Collide h.suite (e.outcomeMessage h)) :
    e.inbox.has (e.outcomeMessage h).id ↔ e.Holds (e.outcomeMessage h) := by
  have hu := unseal_outcomeMessage hs e
  rw [Inbox.has_iff]
  constructor
  case mp =>
    rintro ⟨n, hn, hi⟩
    have ⟨env, hn'⟩ := hr.passed n hn
    exact ⟨n, hn, Message.eq_of_id hn' hu (hc n hn) hi⟩
  case mpr =>
    rintro ⟨n, hn, hd, hg⟩
    have ⟨env, hn'⟩ := hr.passed n hn
    refine ⟨n, hn, ?_⟩
    rw [Message.id_of_unseal hn', Message.id_of_unseal hu, Message.expectedId, Message.expectedId,
      hd, hg]

theorem holds_log_iff {o : Message} (hm : m.content? ≠ o.content?) :
    (e.log m).Holds o ↔ e.Holds o := by
  simp only [Holds, log, setInbox, List.mem_append, List.mem_singleton]
  constructor
  case mp =>
    rintro ⟨n, hn | rfl, hd, hg⟩
    case inl => exact ⟨n, hn, hd, hg⟩
    case inr => exact (hm (Message.content?_congr hd)).elim
  case mpr =>
    rintro ⟨n, hn, hd⟩
    exact ⟨n, .inl hn, hd⟩

-- What an admitted end does.
theorem Admits.process_closing {env : Envelope} {p : Closing} {r : Ruling} (hs : h.suite.Sound)
    (hr : e.Regular h path) (ha : Admits h lao m e env (.closing p) r)
    (hc : ∀ n ∈ m :: e.inbox.messages, ¬n.Collide h.suite (e.outcomeMessage h)) :
    (¬e.Holds (e.outcomeMessage h) → e.process h lao m =
      ⟨{ (e.log m).log (e.outcomeMessage h) with phase := .terminated },
        e.announce m ++ e.announce (e.outcomeMessage h), .ok ()⟩) ∧
    (e.Holds (e.outcomeMessage h) → e.process h lao m =
      ⟨{ e.log m with phase := .terminated }, e.announce m,
        .error (.duplicate (e.outcomeMessage h).id)⟩) := by
  obtain ⟨-, -, -, -, -, -, rfl⟩ := judgeClosing_eq_ok.mp ha.judge_eq
  have ⟨hp, hi, hq, hu, ho⟩ := hr.log ha.unseal_eq (absurd · (ha.not_outcome nofun))
  have hr' : Regular h path { e.log m with phase := .terminated } := ⟨hp, hi, hq, hu, ho⟩
  have he : outcomeMessage h { e.log m with phase := .terminated } = e.outcomeMessage h :=
    outcomeMessage_congr rfl
  have hn : m.content? ≠ (e.outcomeMessage h).content? := by
    rw [ha.content?_eq, content?_outcomeMessage]
    nofun
  have hh : (e.log m).inbox.has (e.outcomeMessage h).id ↔ e.Holds (e.outcomeMessage h) := by
    refine .trans (he ▸ hr'.has_outcomeMessage_iff hs fun n hn => ?_) (holds_log_iff hn)
    have hn : n ∈ e.inbox.messages ++ [m] := hn
    rw [he]
    exact hc n (by simpa [or_comm] using hn)
  rw [ha.process_eq, carryOut, hr'.publishOutcome_eq hs, he]
  refine ⟨fun hn => ?_, fun hn => ?_⟩
  case refine_1 =>
    rw [if_neg (hh.not.mpr hn)]
    rfl
  case refine_2 =>
    rw [if_pos (hh.mpr hn)]
    simp [Turn.refuse]

end Election

namespace Hub

variable {h : Host} {calls : List Call} {path : String} {e : Election}

-- A report that comes before the end is the report of another election that has ended and says
-- the same.
theorem exists_ended_of_holds (hr : Replays h calls)
    (he : Table.get? (after h calls).elections path = some e) (hp : e.phase = .started)
    (hh : e.Holds (e.outcomeMessage h)) :
    ∃ path' e', path' ≠ path ∧ Table.get? (after h calls).elections path' = some e' ∧
      e'.phase = .terminated ∧ Outcome.gather e'.questions = Outcome.gather e.questions := by
  have ⟨n, hn, hd, _⟩ := hh
  have hc : n.content? = some (.outcome (.gather e.questions)) :=
    (Message.content?_congr hd).trans (Election.content?_outcomeMessage h e)
  have hg := Election.regular (reachable_after h calls) he
  have ⟨hf, _⟩ := hg.outcomes n hn (Message.kind?_of_content? hc)
  have ⟨path', e', he', hp', hd', _⟩ := traced hr n ⟨path, e, he, hn⟩ hf
  refine ⟨path', e', fun hpath => ?_, he', hp', ?_⟩
  case refine_1 =>
    subst hpath
    cases he.symm.trans he'
    cases hp.symm.trans hp'
  case refine_2 =>
    have hc' := (Message.content?_congr hd').trans (Election.content?_outcomeMessage h e')
    exact Payload.outcome.inj (Option.some.inj (hc'.symm.trans hc))

end Hub

-- In the trial all ends are in order.
theorem Trial.Conducted.mayClose {name : String} {method : Method} {phase : Phase} {ns : List Nat}
    {e : Election} {n : Nat} (hc : Conducted name method phase ns e) (hn : n < 7)
    (hf : n + 1 ∉ ns) :
    e.MayClose host lao (message n (.closing (closing name))) := by
  have hi : ¬e.inbox.has (message n (.closing (closing name))).id := by
    rw [id_message]
    exact hc.marked.not_has (by omega) hf
  have ht : e.startTime ≤ (closing name).createdAt := hc.start_eq ▸ Int64.le_refl _
  have hv : Base64.decode? "" ≠ none := by decide
  exact ⟨_, closing name, unseal_message n rfl, Payload.decode_encode rfl, hi, rfl, hc.lao_eq.symm,
    hc.id_eq.symm, ht, hv⟩

-- An end that is in order closes an open election, and the report of the host follows it, unless
-- the election has that report already; then the election is closed with the end as its last
-- message, and the end is answered with an error. That happens only if another election has ended
-- with the same report. An end that is not in order changes nothing.
theorem Election.end_closes_unless_reported (h : Host) (hs : h.suite.Sound)
    (calls : List Hub.Call) (hr : Hub.Replays h calls) (path : String) (e : Election)
    (he : Table.get? (Hub.after h calls).elections path = some e) (m : Message)
    (hk : m.kind? = some .closing)
    (hc : ∀ n ∈ m :: e.inbox.messages, ¬n.Collide h.suite (e.outcomeMessage h)) :
    ∃ lao, Table.get? (Hub.after h calls).laos e.lao = some lao ∧
      (e.phase = .started → e.MayClose h lao m → ¬e.Holds (e.outcomeMessage h) →
        e.process h lao m =
            ⟨{ (e.log m).log (e.outcomeMessage h) with phase := .terminated },
              e.announce m ++ e.announce (e.outcomeMessage h), .ok ()⟩ ∧
          (e.outcomeMessage h).IsFrom h.suite h.key ∧
          (e.outcomeMessage h).kind? = some .outcome) ∧
      (e.phase = .started → e.MayClose h lao m → e.Holds (e.outcomeMessage h) →
        e.process h lao m =
            ⟨{ e.log m with phase := .terminated }, e.announce m,
              .error (.duplicate (e.outcomeMessage h).id)⟩ ∧
          ∃ path' e', path' ≠ path ∧
            Table.get? (Hub.after h calls).elections path' = some e' ∧ e'.phase = .terminated ∧
            Outcome.gather e'.questions = Outcome.gather e.questions) ∧
      (¬(e.phase = .started ∧ e.MayClose h lao m) → ∃ f, e.process h lao m = .refuse e f) := by
  have hreach := Hub.reachable_after h calls
  have hreg := regular hreach he
  have ⟨lao, hl⟩ := hreach.exists_lao he
  refine ⟨lao, hl, fun hp hm hh => ?_, fun hp hm hh => ?_, fun hn => ?_⟩
  case refine_1 =>
    have ⟨env, p, ha⟩ := hm.admits hp hreg.pending_eq
    exact ⟨(ha.process_closing hs hreg hc).left hh, ⟨_, unseal_outcomeMessage hs e, rfl⟩,
      kind?_outcomeMessage h e⟩
  case refine_2 =>
    have ⟨env, p, ha⟩ := hm.admits hp hreg.pending_eq
    exact ⟨(ha.process_closing hs hreg hc).right hh, Hub.exists_ended_of_holds hr he hp hh⟩
  case refine_3 => exact process_eq_refuse fun env p r ha => hn (mayClose_of_admits ha hk)

theorem Election.end_closes_votedA :
    Trial.host.suite.Sound ∧ Hub.Replays Trial.host Trial.voteRun ∧
      Table.get? (Hub.after Trial.host Trial.voteRun).elections (Trial.path "A") =
        some Trial.votedA ∧
      Trial.votedA.MayClose Trial.host Trial.lao (Trial.message 3 (.closing (Trial.closing "A"))) ∧
      Trial.votedA.process Trial.host Trial.lao (Trial.message 3 (.closing (Trial.closing "A"))) =
        ⟨Trial.endedA,
          Trial.votedA.announce (Trial.message 3 (.closing (Trial.closing "A"))) ++
            Trial.votedA.announce (Trial.votedA.outcomeMessage Trial.host), .ok ()⟩ := by
  have hr := Trial.reaches_votedA
  have hc := Trial.conducted_votedA
  have hk := Trial.kind?_message 3 (p := .closing (Trial.closing "A")) rfl
  have hn : ∀ n ∈ Trial.message 3 (.closing (Trial.closing "A")) :: Trial.votedA.inbox.messages,
      ¬n.Collide Trial.host.suite (Trial.votedA.outcomeMessage Trial.host) := by
    refine fun n hn => (Trial.spoken_logA n ?_).not_collide _
    rw [Trial.messages_votedA] at hn
    rcases List.mem_cons.mp hn with rfl | hn
    case inl => simp [Trial.logA]
    case inr => exact List.mem_of_mem_take hn
  have hh : ¬Trial.votedA.Holds (Trial.votedA.outcomeMessage Trial.host) := by
    have hreach := Hub.reachable_after Trial.host Trial.voteRun
    rw [← (regular hreach hr.get?_eq).has_outcomeMessage_iff Trial.sound
      fun n hn' => hn n (List.mem_cons_of_mem _ hn'), Trial.id_outcomeMessage]
    exact hc.marked.not_has (by decide) (by decide)
  obtain ⟨lao, hl, ho, -⟩ := end_closes_unless_reported Trial.host Trial.sound Trial.voteRun
    hr.replays (Trial.path "A") Trial.votedA hr.get?_eq _ hk hn
  have hl' : Table.get? (Hub.after Trial.host Trial.voteRun).laos "L" = some Trial.lao := by
    rw [hr.after_eq]
    rfl
  cases hl'.symm.trans hl
  have hm := hc.mayClose (n := 3) (by decide) (by decide)
  exact ⟨Trial.sound, hr.replays, hr.get?_eq, hm, (ho rfl hm hh).left⟩

-- An end that is in order, and is answered with an error all the same: the second election of the
-- trial has been sent the result of the first, which is also its own.
theorem Election.end_refused_openB :
    Trial.host.suite.Sound ∧ Hub.Replays Trial.host Trial.openRun ∧
      Table.get? (Hub.after Trial.host Trial.openRun).elections (Trial.path "B") =
        some Trial.openB ∧
      Trial.openB.phase = .started ∧
      Trial.openB.MayClose Trial.host Trial.lao (Trial.message 6 (.closing (Trial.closing "B"))) ∧
      Trial.openB.process Trial.host Trial.lao (Trial.message 6 (.closing (Trial.closing "B"))) =
        ⟨{ Trial.openB.log (Trial.message 6 (.closing (Trial.closing "B"))) with
            phase := .terminated },
          Trial.openB.announce (Trial.message 6 (.closing (Trial.closing "B"))),
          .error (.duplicate (Trial.openB.outcomeMessage Trial.host).id)⟩ := by
  have hr := Trial.reaches_openB
  have hc := Trial.conducted_openB
  have he := Trial.get?_B hr
  have ho : Trial.openB.outcomeMessage Trial.host = Trial.votedA.outcomeMessage Trial.host :=
    hc.outcomeMessage_eq Trial.conducted_votedA
  have hn : ∀ n ∈ Trial.message 6 (.closing (Trial.closing "B")) :: Trial.openB.inbox.messages,
      ¬n.Collide Trial.host.suite (Trial.openB.outcomeMessage Trial.host) := by
    intro n hn
    have hn : n ∈ Trial.logB := by
      rw [Trial.messages_openB] at hn
      rcases List.mem_cons.mp hn with rfl | hn
      case inl => simp [Trial.logB]
      case inr => exact List.mem_of_mem_take hn
    rcases Trial.spoken_logB n hn with hs | rfl
    case inl => exact hs.not_collide _
    case inr => exact fun hc => hc.right (by rw [ho])
  have hh : Trial.openB.Holds (Trial.openB.outcomeMessage Trial.host) := by
    rw [ho]
    refine ⟨Trial.votedA.outcomeMessage Trial.host, ?_, rfl, rfl⟩
    simp [Trial.messages_openB, Trial.logB]
  have hm := hc.mayClose (n := 6) (by decide) (by decide)
  obtain ⟨env, p, ha⟩ := hm.admits rfl hc.pending_eq
  have hreg := regular (Hub.reachable_after Trial.host Trial.openRun) he
  exact ⟨Trial.sound, hr.replays, he, rfl, hm, (ha.process_closing Trial.sound hreg hn).right hh⟩

end Plenum
