import Plenum.Proofs.Ending
import Plenum.Proofs.Stages

namespace Plenum

-- No result before the end, and at most one in all.
structure ResultsInPlace (ms : List Message) : Prop where
  after_end : ∀ pre m post, ms = pre ++ m :: post → m.kind? = some .outcome →
    ∃ n ∈ pre, n.kind? = some .closing
  one : ms.countP (·.kind? = some .outcome) ≤ 1

namespace ResultsInPlace

variable {ms : List Message} {m : Message}

theorem of_none (hn : ∀ m ∈ ms, m.kind? ≠ some .outcome) : ResultsInPlace ms where
  after_end pre m post he hk := (hn m (by simp [he]) hk).elim
  one := by
    have hc : ms.countP (·.kind? = some .outcome) = 0 := by simpa [List.countP_eq_zero] using hn
    omega

theorem of_append {ms' : List Message} (hi : ResultsInPlace (ms ++ ms')) : ResultsInPlace ms where
  after_end pre m post he hk :=
    hi.after_end pre m (post ++ ms') (by rw [he, List.append_assoc, List.cons_append]) hk
  one := by
    have ho := hi.one
    rw [List.countP_append] at ho
    omega

-- A message can be put at the end if it is no result, or the first result after the end.
theorem append (hi : ResultsInPlace ms)
    (hm : m.kind? = some .outcome →
      (∀ n ∈ ms, n.kind? ≠ some .outcome) ∧ ∃ n ∈ ms, n.kind? = some .closing) :
    ResultsInPlace (ms ++ [m]) where
  after_end pre n post he hk := by
    rcases List.eq_nil_or_concat post with rfl | ⟨post, n', rfl⟩
    case inl =>
      have ⟨hp, hn⟩ := List.append_inj' he rfl
      cases hn
      exact hp ▸ (hm hk).right
    case inr =>
      rw [List.concat_eq_append, ← List.cons_append, ← List.append_assoc] at he
      exact hi.after_end pre n post (List.append_inj' he rfl).left hk
  one := by
    rw [List.countP_append]
    by_cases hk : m.kind? = some .outcome
    case pos =>
      have hc : ms.countP (·.kind? = some .outcome) = 0 := by
        simpa [List.countP_eq_zero] using (hm hk).left
      simp [hc, hk]
    case neg => simpa [hk] using hi.one

end ResultsInPlace

namespace Election

variable {h : Host} {e : Election} {lao : Lao} {m : Message} {t : Turn Election Unit}
  {path : String}

-- Results are in place, and there is none before the end.
structure Calm (e : Election) : Prop where
  inPlace : ResultsInPlace e.inbox.messages
  none : e.phase ≠ .terminated → ¬e.Logged .outcome

-- A result of the host, sent by a client, that would get into the log.
def Intrudes (h : Host) (e : Election) (m : Message) : Prop :=
  m.IsFrom h.suite h.key ∧ m.kind? = some .outcome ∧ ¬e.inbox.has m.id

theorem not_logged_log {k : Payload.Kind} (hn : ¬e.Logged k) (hm : m.kind? ≠ some k) :
    ¬(e.log m).Logged k := by
  rintro ⟨n, hn', hk⟩
  rcases List.mem_append.mp hn' with hn' | hn'
  case inl => exact hn ⟨n, hn', hk⟩
  case inr =>
    cases List.mem_singleton.mp hn'
    exact hm hk

theorem Processed.calm (ht : Processed h lao m e t) (hc : e.Calm) (hm : ¬e.Intrudes h m) :
    t.state.Calm := by
  have hl (hk : m.kind? ≠ some .outcome) : ResultsInPlace (e.log m).inbox.messages :=
    hc.inPlace.append (absurd · hk)
  cases ht
  case refused => exact hc
  case opened ha =>
    have hp := ha.phase_of_opening
    have hk := ha.not_outcome nofun
    exact ⟨hl hk, fun _ => not_logged_log (hc.none (hp ▸ nofun)) hk⟩
  case voted ha =>
    have hp := ha.phase_of_vote
    have hk := ha.not_outcome nofun
    exact ⟨hl hk, fun _ => not_logged_log (hc.none (hp ▸ nofun)) hk⟩
  case closed ha _ _ =>
    have hp := ha.phase_of_closing
    have hk := ha.not_outcome nofun
    have hn := not_logged_log (hc.none (hp ▸ nofun)) hk
    have hi : ResultsInPlace ((e.log m).log (e.outcomeMessage h)).inbox.messages :=
      (hl hk).append fun _ => ⟨fun n hn' hk' => hn ⟨n, hn', hk'⟩,
        m, List.mem_append_right _ List.mem_cons_self, ha.kind?_eq⟩
    exact ⟨hi, fun hp => (hp rfl).elim⟩
  case unreported ha _ => exact ⟨hl (ha.not_outcome nofun), fun hp => (hp rfl).elim⟩
  case noted ha => exact (hm ⟨(ha.isOutcome ha.kind?_eq).left, ha.kind?_eq, ha.fresh⟩).elim

theorem calm_of_setsUp {hub : Hub} {place id : String} {s : Setup}
    (hs : Hub.SetsUp h hub place m s id lao) : (Hub.setUpElection path s m).Calm := by
  have hn : ∀ n ∈ (Hub.setUpElection path s m).inbox.messages, n.kind? ≠ some .outcome := by
    have hl : (Hub.setUpElection path s m).inbox.messages = [m] := rfl
    rw [hl]
    intro n hn
    rw [List.mem_singleton.mp hn, hs.kind?_eq]
    nofun
  exact ⟨.of_none hn, fun _ ⟨n, hn', hk⟩ => hn n hn' hk⟩

theorem Logged.log {k : Payload.Kind} (hl : e.Logged k) (m : Message) : (e.log m).Logged k :=
  have ⟨n, hn, hk⟩ := hl
  ⟨n, List.mem_append_left _ hn, hk⟩

-- After the end there is a result in the log: the report, or what stood in its way.
theorem Processed.logged_outcome (hs : h.suite.Sound) (hr : e.Regular h path)
    (ht : Processed h lao m e t)
    (he : (∀ n ∈ e.inbox.messages, ¬n.Collide h.suite (e.outcomeMessage h)) →
      e.phase = .terminated → e.Logged .outcome)
    (hc : ∀ n ∈ t.state.inbox.messages, ¬n.Collide h.suite (t.state.outcomeMessage h))
    (hp : t.state.phase = .terminated) : t.state.Logged .outcome := by
  have hr' := ht.regular hr
  cases ht
  case refused => exact he hc hp
  case opened => cases hp
  case voted ha =>
    have hp' := ha.phase_of_vote
    cases hp'.symm.trans hp
  case closed =>
    exact ⟨e.outcomeMessage h, List.mem_append_right _ List.mem_cons_self,
      kind?_outcomeMessage h e⟩
  case unreported f ha hf =>
    have hh : (e.log m).inbox.has
        (outcomeMessage h { e.log m with phase := .terminated }).id := by
      by_contra hh
      rw [hr'.publishOutcome_eq hs, if_neg hh] at hf
      cases congrArg Turn.outcome hf
    have ⟨n, hn, hd, _⟩ := (hr'.has_outcomeMessage_iff hs hc).mp hh
    exact ⟨n, hn, Message.kind?_of_content?
      ((Message.content?_congr hd).trans (content?_outcomeMessage h _))⟩
  case noted ha =>
    have ho : (e.log m).outcomeMessage h = e.outcomeMessage h := outcomeMessage_congr rfl
    exact (he (fun n hn => ho ▸ hc n (List.mem_append_left _ hn)) hp).log m

theorem logged_outcome (hs : h.suite.Sound) {hub : Hub} (hr : hub.Reachable h)
    (he : Table.get? hub.elections path = some e)
    (hc : ∀ n ∈ e.inbox.messages, ¬n.Collide h.suite (e.outcomeMessage h))
    (hp : e.phase = .terminated) : e.Logged .outcome := by
  have hi : e.Regular h path ∧
      ((∀ n ∈ e.inbox.messages, ¬n.Collide h.suite (e.outcomeMessage h)) →
        e.phase = .terminated → e.Logged .outcome) := by
    refine hr.election_induction (P := fun path e => e.Regular h path ∧
      ((∀ n ∈ e.inbox.messages, ¬n.Collide h.suite (e.outcomeMessage h)) →
        e.phase = .terminated → e.Logged .outcome)) ?_ ?_ ?_ he
    case refine_1 => exact fun hs _ => ⟨regular_of_setsUp hs, fun _ hp => nomatch hp⟩
    case refine_2 =>
      intro path e sockets hi
      have ho : outcomeMessage h { e with sockets } = e.outcomeMessage h := outcomeMessage_congr rfl
      exact ⟨hi.left.listen sockets, fun hc => hi.right (ho ▸ hc)⟩
    case refine_3 => exact fun hi ht => ⟨ht.regular hi.left, ht.logged_outcome hs hi.left hi.right⟩
  exact hi.right hc hp

end Election

namespace Hub

variable {h : Host} {calls : List Call} {path : String} {e : Election}

-- A call that brings a result of the host to an election that has not got it.
def Call.Intrudes (h : Host) (hub : Hub) (path : String) (c : Call) : Prop :=
  ∃ m e, c.Says path m ∧ Table.get? hub.elections path = some e ∧ e.Intrudes h m

-- Some call of the run has done so.
def Intruded (h : Host) (calls : List Call) (path : String) : Prop :=
  ∃ pre c post, calls = pre ++ c :: post ∧ c.Intrudes h (after h pre) path

theorem intruded_concat {c : Call}
    (hi : Intruded h calls path ∨ c.Intrudes h (after h calls) path) :
    Intruded h (calls ++ [c]) path := by
  rcases hi with ⟨pre, d, post, rfl, hd⟩ | hc
  case inl => exact ⟨pre, d, post ++ [c], by simp, hd⟩
  case inr => exact ⟨calls, c, [], rfl, hc⟩

-- Without such a call the host's own report is the only result.
theorem calm_of_not_intruded (hn : ¬Intruded h calls path)
    (he : Table.get? (after h calls).elections path = some e) : e.Calm := by
  induction calls using List.reverseRecOn generalizing e
  case nil => cases he
  case append_singleton calls c ih =>
    have ih {e : Election} := ih (e := e) fun hi => hn (intruded_concat (.inl hi))
    rw [after_concat] at he
    cases origin he
    case kept hk => exact ⟨(ih hk).inPlace, (ih hk).none⟩
    case spoken e lao m hk _ hs =>
      exact (Election.processed h lao m e).calm (ih hk)
        fun hm => hn (intruded_concat (.inr ⟨m, e, hs, hk, hm⟩))
    case created hs _ _ => exact Election.calm_of_setsUp hs

-- A result of the host that is sent again is admitted, whatever the election makes of its phase.
theorem admits_of_intrudes {hub : Hub} {c : Call} {m : Message} {e : Election}
    (hreg : ∀ path e, Table.get? hub.elections path = some e → e.Regular h path)
    (he : Table.get? hub.elections path = some e) (hh : c.Held h hub) (hc : c.Says path m)
    (hi : e.Intrudes h m) (lao : Lao) :
    ∃ env p, Election.Admits h lao m e env (.outcome p) .note := by
  obtain ⟨hf, hk, hn⟩ := hi
  obtain ⟨n, ⟨path', e', he', hn'⟩, _, hd, _⟩ := hh path m hc hf
  have hk' : n.kind? = some .outcome := Message.kind?_congr hd ▸ hk
  obtain ⟨_, p, hp, hq⟩ := (hreg path' e' he').outcomes n hn' hk'
  obtain ⟨env, hu, hs⟩ := hf
  have hm : m.content? = some (.outcome p) := (Message.content?_congr hd).trans hp
  rw [Message.content?_of_unseal hu] at hm
  have hd' : Payload.decode env.payload = .ok (.outcome p) := by
    cases hx : Payload.decode env.payload <;> rw [hx] at hm <;> cases hm
    rfl
  have hpend : m.id ∉ e.inbox.pending := (hreg path e he).pending_eq ▸ List.not_mem_nil
  exact ⟨env, p, hu, hn, hpend, hd', Election.judgeOutcome_eq_ok.mpr ⟨hs, hq, rfl⟩⟩

theorem not_inPlace_of_intruded (hs : h.suite.Sound) (hr : Replays h calls)
    (he : Table.get? (after h calls).elections path = some e)
    (hc : ∀ n ∈ e.inbox.messages, ¬n.Collide h.suite (e.outcomeMessage h))
    (hi : Intruded h calls path) : ¬ResultsInPlace e.inbox.messages := by
  intro hp
  obtain ⟨pre, c, post, rfl, m, e₁, hsays, he₁, hm⟩ := hi
  have hreach := reachable_after h pre
  have hreg (path : String) (e : Election)
      (he : Table.get? (after h pre).elections path = some e) := Election.regular hreach he
  have ⟨lao, hl⟩ := hreach.exists_lao he₁
  have ⟨env, p, ha⟩ := admits_of_intrudes hreg he₁ (hr pre c post rfl) hsays hm lao
  -- From then on the message is in the log, in place of what was there before.
  have he₂ : Table.get? (after h (pre ++ [c])).elections path = some (e₁.log m) := by
    rw [after_concat, get?_step_of_said he₁ hl hsays, ha.process_eq]
    rfl
  have ⟨e', he', hg⟩ := grows_after he₂ post
  rw [List.append_assoc, List.singleton_append] at he'
  cases he.symm.trans he'
  have ⟨rest, hrest⟩ := hg.messages
  have hp : ResultsInPlace (e₁.log m).inbox.messages := (hrest ▸ hp).of_append
  have hend : e₁.phase = .terminated := by
    rw [(Election.stage hreach he₁).terminated_iff, ← Election.logged_iff (k := .closing) nofun]
    exact hp.after_end e₁.inbox.messages m [] rfl ha.kind?_eq
  have ho : e.outcomeMessage h = e₁.outcomeMessage h :=
    Election.outcomeMessage_congr (hg.questions hend)
  have ⟨n, hn, hk⟩ := Election.logged_outcome hs hreach he₁ (fun n hn =>
    ho ▸ hc n (hrest ▸ List.mem_append_left _ (List.mem_append_left _ hn))) hend
  have hone := hp.one
  have hpos : 0 < e₁.inbox.messages.countP (·.kind? = some .outcome) :=
    List.countP_pos_iff.mpr ⟨n, hn, by simp [hk]⟩
  have hcount : (e₁.log m).inbox.messages.countP (·.kind? = some .outcome) =
      e₁.inbox.messages.countP (·.kind? = some .outcome) + 1 := by
    simp [Election.log, Election.setInbox, ha.kind?_eq, Payload.kind]
  omega

end Hub

namespace Election

variable {h : Host} {e : Election} {lao : Lao} {m : Message} {t : Turn Election Unit}

-- Whatever is sent on the way announces a message that is in the log.
theorem Processed.line_eq (ht : Processed h lao m e t) {d : Delivery} (hd : d ∈ t.sent) :
    ∃ n ∈ t.state.inbox.messages, d.line = t.state.announcement n := by
  have hl {e : Election} {m : Message} (hd : d ∈ e.announce m) : d.line = e.announcement m := by
    obtain ⟨s, _, rfl⟩ := List.mem_map.mp hd
    rfl
  have hm : m ∈ (e.log m).inbox.messages := List.mem_append_right _ List.mem_cons_self
  cases ht
  case refused => cases hd
  case opened => exact ⟨m, hm, hl hd⟩
  case voted => exact ⟨m, hm, hl hd⟩
  case closed =>
    rcases List.mem_append.mp hd with hd | hd
    case inl => exact ⟨m, List.mem_append_left _ hm, hl hd⟩
    case inr => exact ⟨_, List.mem_append_right _ List.mem_cons_self, hl hd⟩
  case unreported => exact ⟨m, hm, hl hd⟩
  case noted => exact ⟨m, hm, hl hd⟩

end Election

namespace Hub

variable {h : Host} {calls : List Call} {q : Query} {s : Socket}

theorem line_eq {hub : Hub} {d : Delivery} (hd : d ∈ (hub.handle h q s).sent) :
    ∃ e n, Table.get? (hub.step h (.query q s)).elections q.channel = some e ∧
      n ∈ e.inbox.messages ∧ d.line = e.announcement n := by
  rw [handle_sent] at hd
  cases hq : q.message?
  case none =>
    rw [(run_of_no_message hq).left] at hd
    cases hd
  case some m =>
    have hr : (hub.run h q s).sent = (hub.say h q.channel m).sent := (run_of_message hq).right
    rw [hr] at hd
    rcases say_eq h hub q.channel m with ⟨f, hs⟩ | ⟨p, id, lao, _, hs⟩ | ⟨e, lao, he, hl, hs⟩
    case inl =>
      rw [hs] at hd
      cases hd
    case inr.inl =>
      rw [hs] at hd
      cases hd
    case inr.inr =>
      rw [hs] at hd
      have ⟨n, hn, hd⟩ := (Election.processed h lao m e).line_eq hd
      exact ⟨_, n, get?_step_of_said he hl ⟨q, s, rfl, rfl, hq⟩, hn, hd⟩

end Hub

-- Results are where they belong, after the end and at most one, exactly if no client ever brought
-- a result of the host to an election that had not got it. Then there is no result before the end;
-- and what goes out to subscribers is always about a message of the log.
theorem Election.results_inPlace_iff_not_intruded (h : Host) (hs : h.suite.Sound)
    (calls : List Hub.Call) (hr : Hub.Replays h calls) (path : String) (e : Election)
    (he : Table.get? (Hub.after h calls).elections path = some e)
    (hc : ∀ n ∈ e.inbox.messages, ¬n.Collide h.suite (e.outcomeMessage h)) :
    (ResultsInPlace e.inbox.messages ↔ ¬Hub.Intruded h calls path) ∧
      (¬Hub.Intruded h calls path → e.phase ≠ .terminated → ¬e.Logged .outcome) ∧
      ∀ q s, ∀ d ∈ ((Hub.after h calls).handle h q s).sent, ∃ e' n,
        Table.get? (Hub.after h (calls ++ [.query q s])).elections q.channel = some e' ∧
          n ∈ e'.inbox.messages ∧ d.line = e'.announcement n := by
  refine ⟨⟨fun hp hi => ?_, fun hn => ?_⟩, fun hn => ?_, fun q s d hd => ?_⟩
  case refine_1 => exact Hub.not_inPlace_of_intruded hs hr he hc hi hp
  case refine_2 => exact (Hub.calm_of_not_intruded hn he).inPlace
  case refine_3 => exact (Hub.calm_of_not_intruded hn he).none
  case refine_4 =>
    rw [Hub.after_concat]
    exact Hub.line_eq hd

theorem Election.results_inPlace_endedA :
    Trial.host.suite.Sound ∧ Hub.Replays Trial.host Trial.endRun ∧
      Table.get? (Hub.after Trial.host Trial.endRun).elections (Trial.path "A") =
        some Trial.endedA ∧
      ResultsInPlace Trial.endedA.inbox.messages ∧ Trial.endedA.Logged .outcome ∧
        ¬Hub.Intruded Trial.host Trial.endRun (Trial.path "A") := by
  have hr := Trial.reaches_endedA
  have hk := kind?_outcomeMessage Trial.host Trial.votedA
  have ho : Trial.endedA.outcomeMessage Trial.host = Trial.votedA.outcomeMessage Trial.host :=
    outcomeMessage_congr rfl
  have hc : ∀ n ∈ Trial.endedA.inbox.messages,
      ¬n.Collide Trial.host.suite (Trial.endedA.outcomeMessage Trial.host) := by
    intro n hn
    rw [Trial.messages_endedA] at hn
    rcases List.mem_append.mp hn with hn | hn
    case inl => exact (Trial.spoken_logA n hn).not_collide _
    case inr => exact fun hc => hc.right (by rw [List.mem_singleton.mp hn, ho])
  have hn : ∀ n ∈ Trial.logA, n.kind? ≠ some .outcome :=
    fun n hn => (Trial.spoken_logA n hn).not_outcome
  have hend : ∃ n ∈ Trial.logA, n.kind? = some .closing :=
    ⟨Trial.message 3 (.closing (Trial.closing "A")), by simp [Trial.logA],
      Trial.kind?_message 3 (p := .closing (Trial.closing "A")) rfl⟩
  have hp : ResultsInPlace Trial.endedA.inbox.messages := by
    rw [Trial.messages_endedA]
    exact (ResultsInPlace.of_none hn).append fun _ => ⟨hn, hend⟩
  have hl : Trial.endedA.Logged .outcome :=
    ⟨Trial.votedA.outcomeMessage Trial.host, by simp [Trial.messages_endedA], hk⟩
  obtain ⟨hi, _⟩ := results_inPlace_iff_not_intruded Trial.host Trial.sound Trial.endRun hr.replays
    (Trial.path "A") Trial.endedA hr.get?_eq hc
  exact ⟨Trial.sound, hr.replays, hr.get?_eq, hp, hl, hi.mp hp⟩

-- A result before any opening: the second election of the trial, after it was sent the result of
-- the first.
theorem Election.result_misplaced_toldB :
    Trial.host.suite.Sound ∧ Hub.Replays Trial.host Trial.replayRun ∧
      Table.get? (Hub.after Trial.host Trial.replayRun).elections (Trial.path "B") =
        some Trial.toldB ∧
      Trial.toldB.phase = .created ∧ Trial.toldB.Logged .outcome ∧
      ¬ResultsInPlace Trial.toldB.inbox.messages := by
  have hr := Trial.reaches_toldB
  have hk := kind?_outcomeMessage Trial.host Trial.votedA
  have hl : Trial.toldB.Logged .outcome :=
    ⟨Trial.votedA.outcomeMessage Trial.host, by simp [Trial.messages_toldB, Trial.logB], hk⟩
  refine ⟨Trial.sound, hr.replays, Trial.get?_B hr, rfl, hl, fun hp => ?_⟩
  obtain ⟨n, hn, hk'⟩ := hp.after_end [Trial.message 4 (.setup (Trial.setup "B"))] _ []
    Trial.messages_toldB hk
  rw [List.mem_singleton.mp hn, Trial.kind?_message 4 (p := .setup (Trial.setup "B")) rfl] at hk'
  cases hk'

end Plenum
