import Mathlib.Data.List.Induction
import Plenum.Hub
import Plenum.Proofs.Election
import Plenum.Proofs.Table

namespace Plenum

namespace Setup

variable {S : Suite}

theorem checkQuestions_cons_eq_ok {election : String} {seen : List String} {q : SetupQuestion}
    {qs : List SetupQuestion} :
    checkQuestions S election seen (q :: qs) = .ok () ↔
      q.id = S.questionId election q.question ∧ q.id ∉ seen ∧ q.options ≠ [] ∧
        checkQuestions S election (q.id :: seen) qs = .ok () := by
  simp [checkQuestions]

-- The questions pass if each passes for itself and no id stands twice.
theorem checkQuestions_eq_ok {election : String} {seen : List String} {qs : List SetupQuestion} :
    checkQuestions S election seen qs = .ok () ↔
      (∀ q ∈ qs, q.id = S.questionId election q.question ∧ q.options ≠ []) ∧
        (qs.map SetupQuestion.id).Nodup ∧ ∀ q ∈ qs, q.id ∉ seen := by
  induction qs generalizing seen
  case nil => simp [checkQuestions]
  case cons q qs ih =>
    have hs : (∀ r ∈ qs, r.id ∉ q.id :: seen) ↔
        q.id ∉ qs.map SetupQuestion.id ∧ ∀ r ∈ qs, r.id ∉ seen := by
      simp only [List.mem_cons, not_or, List.mem_map, not_exists, not_and, forall_and]
    rw [checkQuestions_cons_eq_ok, ih, hs, List.forall_mem_cons, List.forall_mem_cons,
      List.map_cons, List.nodup_cons]
    tauto

theorem check_eq_ok {s : Setup} {lao : String} :
    s.check S lao = .ok () ↔
      s.lao = lao ∧ s.id = S.electionId lao s.createdAt s.name ∧ s.startTime ≤ s.endTime ∧
        s.questions ≠ [] ∧ checkQuestions S s.id [] s.questions = .ok () := by
  simp [check]

end Setup

namespace Hub

-- The election that a message sets up at a path, with the message in its log.
def setUpElection (path : String) (s : Setup) (m : Message) : Election :=
  (Election.ofSetup path s).log m

-- A message that is accepted at a LAO, and what it sets up.
structure SetsUp (h : Host) (hub : Hub) (path : String) (m : Message) (s : Setup) (id : String)
    (lao : Lao) : Prop where
  laoAt_eq : hub.laoAt? path = some (id, lao)
  unseal_eq : ∃ env, m.unseal h.suite = .ok env ∧ env.sender = lao.organizer ∧
    Payload.decode env.payload = .ok (.setup s)
  check_eq : s.check h.suite id = .ok ()
  fresh : Table.get? hub.elections (Path.election id s.id) = none

variable {h : Host} {hub : Hub} {path : String} {m : Message}

theorem laoAt?_eq_some {id : String} {lao : Lao} :
    hub.laoAt? path = some (id, lao) ↔
      Path.lao? path = some id ∧ Table.get? hub.laos id = some lao := by
  simp only [laoAt?, Option.bind_eq_bind, Option.bind_eq_some_iff, Option.pure_def,
    Option.some.injEq, Prod.mk.injEq]
  constructor
  case mp =>
    rintro ⟨_, hi, _, hl, rfl, rfl⟩
    exact ⟨hi, hl⟩
  case mpr => exact fun ⟨hi, hl⟩ => ⟨id, hi, lao, hl, rfl, rfl⟩

theorem SetsUp.content?_eq {s : Setup} {id : String} {lao : Lao}
    (hs : SetsUp h hub path m s id lao) : m.content? = some (.setup s) := by
  have ⟨env, hu, _, hd⟩ := hs.unseal_eq
  rw [Message.content?_of_unseal hu, hd]
  rfl

theorem SetsUp.kind?_eq {s : Setup} {id : String} {lao : Lao}
    (hs : SetsUp h hub path m s id lao) : m.kind? = some .setup :=
  Message.kind?_of_content? hs.content?_eq

theorem store_empty (path : String) (s : Setup) (m : Message) :
    (Election.ofSetup path s).setInbox ((Election.ofSetup path s).inbox.store m) =
      setUpElection path s m := by
  simp [setUpElection, Election.log, Election.ofSetup, Election.setInbox, Channel.empty,
    Inbox.empty, Inbox.store, Inbox.has]

theorem setUp_eq_ok {a : Hub × Election} :
    hub.setUp h path m = .ok a ↔
      ∃ s id lao, SetsUp h hub path m s id lao ∧
        a = (hub.setElection (Path.election id s.id) (setUpElection (Path.election id s.id) s m),
          setUpElection (Path.election id s.id) s m) := by
  constructor
  case mp =>
    intro hs
    simp only [setUp, Guards.bind_eq_ok] at hs
    obtain ⟨env, hu, p, hp, hs⟩ := hs
    split at hs
    case h_2 => cases hs
    case h_1 s =>
      split at hs
      case h_2 => cases hs
      case h_1 id lao hl =>
        simp only [ne_eq, ite_not, Guards.throw_eq_error, Guards.error_bind,
          Guards.ite_else_error_eq_ok] at hs
        obtain ⟨ho, hs⟩ := hs
        split at hs
        case h_1 => cases hs
        case h_2 hc =>
          simp only [Guards.ite_error_eq_ok, store_empty] at hs
          obtain ⟨hf, hs⟩ := hs
          cases hs
          have hf := Table.contains_eq_false.mp (Bool.eq_false_iff.mpr hf)
          exact ⟨s, id, lao, ⟨hl, ⟨env, hu, ho, hp⟩, hc, hf⟩, rfl⟩
  case mpr =>
    rintro ⟨s, id, lao, ⟨hl, ⟨env, hu, ho, hp⟩, hc, hf⟩, rfl⟩
    have hf := Bool.eq_false_iff.mp (Table.contains_eq_false.mpr hf)
    simp [setUp, hu, hp, hl, ho, hc, hf, store_empty]

-- What can be asked of a hub.
inductive Call
  | register (id : String) (organizer : Key) (attendees : List String)
  | addAttendees (id : String) (keys : List String)
  | query (q : Query) (s : Socket)
  | removeSocket (id : String)

-- The message that a call sends to a path.
def Call.Says (c : Call) (path : String) (m : Message) : Prop :=
  ∃ q s, c = .query q s ∧ q.channel = path ∧ q.message? = some m

def step (h : Host) (hub : Hub) : Call → Hub
  | .register id organizer attendees => hub.register id organizer attendees
  | .addAttendees id keys => (hub.addAttendees id keys).toOption.getD hub
  | .query q s => (hub.handle h q s).hub
  | .removeSocket id => hub.removeSocket id

-- The hub after a run.
def after (h : Host) (calls : List Call) : Hub :=
  calls.foldl (step h) empty

theorem after_concat (h : Host) (calls : List Call) (c : Call) :
    after h (calls ++ [c]) = (after h calls).step h c := by
  simp [after]

-- Where an election comes from that is there after a call.
inductive Origin (h : Host) (hub : Hub) (c : Call) (path : String) : Election → Prop
  | kept {e : Election} (sockets : Sockets) :
    Table.get? hub.elections path = some e → Origin h hub c path { e with sockets }
  | spoken {e : Election} {lao : Lao} {m : Message} :
    Table.get? hub.elections path = some e → Table.get? hub.laos e.lao = some lao →
    c.Says path m → Origin h hub c path (e.process h lao m).state
  | created {s : Setup} {id : String} {lao : Lao} {place : String} {m : Message} :
    SetsUp h hub place m s id lao → c.Says place m → path = Path.election id s.id →
    Origin h hub c path (setUpElection path s m)

section Step

variable {c : Call} {e : Election} {q : Query} {s : Socket}

theorem handle_hub (h : Host) (hub : Hub) (q : Query) (s : Socket) :
    (hub.handle h q s).hub = (hub.run h q s).state := by
  rw [handle]
  split <;> rfl

theorem handle_sent (h : Host) (hub : Hub) (q : Query) (s : Socket) :
    (hub.handle h q s).sent = (hub.run h q s).sent := by
  rw [handle]
  split <;> rfl

theorem andThen_done {σ α β : Type} (t : Turn σ α) (f : α → β) :
    (t.andThen fun s a => .done s (f a)).state = t.state ∧
      (t.andThen fun s a => .done s (f a)).sent = t.sent := by
  unfold Turn.andThen
  split <;> simp [Turn.done]

-- A message to a path goes to the election there, or else to the LAO.
def say (h : Host) (hub : Hub) (path : String) (m : Message) : Turn Hub Unit :=
  match Table.get? hub.elections path with
  | none => hub.processAtLao h path m
  | some e => hub.process h path e m

theorem run_eq_andThen (hq : q.message? = some m) :
    hub.run h q s = (hub.say h q.channel m).andThen fun hub _ => .done hub (.ok q.id?) := by
  cases q
  case publish v id path m' =>
    cases hq
    cases he : Table.get? hub.elections path <;> simp only [run, say, Query.channel, he] <;> rfl
  case broadcast v id path m' =>
    cases hq
    cases he : Table.get? hub.elections path <;> simp only [run, say, Query.channel, he] <;> rfl
  all_goals cases hq

theorem run_of_message (hq : q.message? = some m) :
    (hub.run h q s).state = (hub.say h q.channel m).state ∧
      (hub.run h q s).sent = (hub.say h q.channel m).sent := by
  rw [run_eq_andThen hq]
  exact andThen_done ..

-- What comes of a request without a message: it fails, it changes who listens, or it is told the
-- log.
inductive Asked (hub : Hub) (q : Query) : Turn Hub Answer → Prop
  | refused (f : Fault) : Asked hub q (.refuse hub f)
  | heard {e : Election} (sockets : Sockets) :
    Table.get? hub.elections q.channel = some e →
    Asked hub q (.done (hub.setElection q.channel { e with sockets }) (.ok q.id?))
  | told {e : Election} :
    Table.get? hub.elections q.channel = some e →
    Asked hub q (.done hub (.log q.id? e.inbox.messages))

theorem asked (h : Host) (hub : Hub) (s : Socket) (hq : q.message? = none) :
    Asked hub q (hub.run h q s) := by
  cases he : Table.get? hub.elections q.channel
  case none =>
    cases q <;> try cases hq
    all_goals
      simp only [run, he]
      exact .refused _
  case some e =>
    cases q
    case subscribe v id path =>
      simp only [run, he]
      exact .heard (e.sockets.add s) he
    case unsubscribe v id path =>
      simp only [run, he]
      cases hu : e.unsubscribe s.id
      case error f => exact .refused f
      case ok c =>
        unfold Channel.unsubscribe at hu
        split at hu
        case isTrue =>
          cases hu
          exact .heard _ he
        case isFalse => cases hu
    case catchup v id path =>
      simp only [run, he]
      exact .told he
    all_goals cases hq

theorem run_of_no_message (hq : q.message? = none) :
    (hub.run h q s).sent = [] ∧
      ((hub.run h q s).state = hub ∨
        ∃ e sockets, Table.get? hub.elections q.channel = some e ∧
          (hub.run h q s).state = hub.setElection q.channel { e with sockets }) := by
  have ha := asked h hub s hq
  generalize hub.run h q s = t at ha
  cases ha
  case refused => exact ⟨rfl, .inl rfl⟩
  case heard e sockets he => exact ⟨rfl, .inr ⟨e, sockets, he, rfl⟩⟩
  case told => exact ⟨rfl, .inl rfl⟩

theorem processAtLao_of_setsUp {s : Setup} {id : String} {lao : Lao}
    (hs : SetsUp h hub path m s id lao) :
    hub.processAtLao h path m =
      .done (hub.setElection (Path.election id s.id)
        (setUpElection (Path.election id s.id) s m)) () := by
  have ⟨env, hu, _, hd⟩ := hs.unseal_eq
  have hp : m.payload = .ok env.payload := (Message.unseal_eq_ok.mp hu).left
  have ⟨header, hr, hk⟩ := Payload.kind?_of_decode hd
  have he := setUp_eq_ok.mpr ⟨s, id, lao, hs, rfl⟩
  have hk : header.kind? = some .setup := hk
  simp [processAtLao, hs.laoAt_eq, hp, hr, hk, he]

theorem processAtLao_eq_refuse (hs : ∀ s id lao, ¬SetsUp h hub path m s id lao) :
    ∃ f, hub.processAtLao h path m = .refuse hub f := by
  cases hu : hub.setUp h path m
  case error f =>
    simp only [processAtLao]
    split
    case h_1 f _ => exact ⟨f, rfl⟩
    case h_2 hc => simp [hu] at hc
  case ok a =>
    have ⟨s, id, lao, hs', _⟩ := setUp_eq_ok.mp hu
    exact (hs s id lao hs').elim

theorem process_of_lao {lao : Lao} (hl : Table.get? hub.laos e.lao = some lao) :
    hub.process h path e m = (e.process h lao m).within (hub.setElection path) := by
  rw [process, hl]

theorem say_of_get? {lao : Lao} (he : Table.get? hub.elections path = some e)
    (hl : Table.get? hub.laos e.lao = some lao) :
    hub.say h path m = (e.process h lao m).within (hub.setElection path) := by
  rw [say, he]
  exact process_of_lao hl

-- What comes of a message: nothing, a new election, or what the election at the path makes of it.
theorem say_eq (h : Host) (hub : Hub) (path : String) (m : Message) :
    (∃ f, hub.say h path m = .refuse hub f) ∨
      (∃ s id lao, SetsUp h hub path m s id lao ∧
        hub.say h path m = .done (hub.setElection (Path.election id s.id)
          (setUpElection (Path.election id s.id) s m)) ()) ∨
      ∃ e lao, Table.get? hub.elections path = some e ∧ Table.get? hub.laos e.lao = some lao ∧
        hub.say h path m = (e.process h lao m).within (hub.setElection path) := by
  cases he : Table.get? hub.elections path
  case none =>
    rw [say, he]
    by_cases hs : ∃ s id lao, SetsUp h hub path m s id lao
    case pos =>
      obtain ⟨s, id, lao, hs⟩ := hs
      exact .inr (.inl ⟨s, id, lao, hs, processAtLao_of_setsUp hs⟩)
    case neg => exact .inl (processAtLao_eq_refuse fun s id lao h => hs ⟨s, id, lao, h⟩)
  case some e =>
    cases hl : Table.get? hub.laos e.lao
    case none => exact .inl ⟨.unknownChannel path, by simp only [say, he, process, hl]⟩
    case some lao => exact .inr (.inr ⟨e, lao, rfl, hl, say_of_get? he hl⟩)

-- The election without a socket.
def silence (id : String) (e : Election) : Election :=
  { e with toChannel := e.removeSocket id }

theorem get?_removeSocket (hub : Hub) (id path : String) :
    Table.get? (hub.removeSocket id).elections path =
      (Table.get? hub.elections path).map (silence id) :=
  Table.get?_map hub.elections (silence id) path

-- A call writes at most one election, but a socket is taken out of all of them.
theorem elections_step (h : Host) (hub : Hub) (c : Call) :
    (hub.step h c).elections = hub.elections ∨
      (∃ id, hub.step h c = hub.removeSocket id) ∨
      ∃ path e, (hub.step h c).elections = Table.insert hub.elections path e ∧
        Origin h hub c path e := by
  cases c
  case register => exact .inl rfl
  case addAttendees id keys =>
    refine .inl ?_
    simp only [step, addAttendees]
    split <;> rfl
  case removeSocket id => exact .inr (.inl ⟨id, rfl⟩)
  case query q s =>
    simp only [step, handle_hub]
    cases hq : q.message?
    case none =>
      rcases (run_of_no_message hq).right with hr | ⟨e, sockets, he, hr⟩
      case inl => exact .inl (by rw [hr])
      case inr => exact .inr (.inr ⟨q.channel, _, by rw [hr]; rfl, .kept sockets he⟩)
    case some m =>
      have hc : Call.Says (.query q s) q.channel m := ⟨q, s, rfl, rfl, hq⟩
      rw [(run_of_message hq).left]
      rcases say_eq h hub q.channel m with ⟨f, hs⟩ | ⟨p, id, lao, hp, hs⟩ | ⟨e, lao, he, hl, hs⟩
      case inl => exact .inl (by rw [hs]; rfl)
      case inr.inl => exact .inr (.inr ⟨_, _, by rw [hs]; rfl, .created hp hc rfl⟩)
      case inr.inr => exact .inr (.inr ⟨q.channel, _, by rw [hs]; rfl, .spoken he hl hc⟩)

theorem origin (he : Table.get? (hub.step h c).elections path = some e) :
    Origin h hub c path e := by
  rcases elections_step h hub c with hs | ⟨id, hs⟩ | ⟨place, e', hs, ho⟩
  case inl => exact .kept e.sockets (hs ▸ he)
  case inr.inl =>
    rw [hs, get?_removeSocket] at he
    obtain ⟨e', he', rfl⟩ := Option.map_eq_some_iff.mp he
    exact .kept _ he'
  case inr.inr =>
    rw [hs, Table.get?_insert] at he
    split at he
    case isTrue hp =>
      cases he
      exact hp ▸ ho
    case isFalse => exact .kept e.sockets he

-- What is said to an election is what the election makes of it.
theorem get?_step_of_said {lao : Lao} (he : Table.get? hub.elections path = some e)
    (hl : Table.get? hub.laos e.lao = some lao) (hc : c.Says path m) :
    Table.get? (hub.step h c).elections path = some (e.process h lao m).state := by
  obtain ⟨q, s, rfl, rfl, hq⟩ := hc
  rw [step, handle_hub, (run_of_message hq).left, say_of_get? he hl]
  exact Table.get?_insert_self ..

-- No election is ever taken away.
theorem exists_get?_step (he : Table.get? hub.elections path = some e) :
    ∃ e', Table.get? (hub.step h c).elections path = some e' := by
  rcases elections_step h hub c with hs | ⟨id, hs⟩ | ⟨place, e', hs, ho⟩
  case inl => exact ⟨e, hs ▸ he⟩
  case inr.inl => exact ⟨_, by rw [hs, get?_removeSocket, he]; rfl⟩
  case inr.inr =>
    rw [hs]
    exact Table.exists_get?_insert he ..

-- What one call does to an election that is there.
theorem exists_step_of {P : Election → Prop} (he : Table.get? hub.elections path = some e)
    (kept : ∀ sockets, P { e with sockets })
    (spoken : ∀ {lao m}, c.Says path m → P (e.process h lao m).state) :
    ∃ e', Table.get? (hub.step h c).elections path = some e' ∧ P e' := by
  have ⟨e', he'⟩ := exists_get?_step (h := h) (c := c) he
  refine ⟨e', he', ?_⟩
  cases origin he'
  case kept sockets hk =>
    cases he.symm.trans hk
    exact kept sockets
  case spoken hk _ hc =>
    cases he.symm.trans hk
    exact spoken hc
  case created hs _ hp => cases he.symm.trans (hp ▸ hs.fresh)

end Step

-- The hubs that there can be: those of runs in which setups may also be made at a LAO directly,
-- without a request.
inductive Reachable (h : Host) : Hub → Prop
  | empty : Reachable h empty
  | step {hub : Hub} (c : Call) : Reachable h hub → Reachable h (hub.step h c)
  | setUp {hub : Hub} {path : String} {m : Message} {a : Hub × Election} :
    Reachable h hub → hub.setUp h path m = .ok a → Reachable h a.1

theorem reachable_after (h : Host) (calls : List Call) : Reachable h (after h calls) := by
  induction calls using List.reverseRecOn
  case nil => exact .empty
  case append_singleton calls c ih => exact after_concat h calls c ▸ ih.step c

-- A setup adds its election, and no other.
theorem get?_setUp {a : Hub × Election} {place : String} {e : Election}
    (hs : hub.setUp h path m = .ok a) (he : Table.get? a.1.elections place = some e) :
    Table.get? hub.elections place = some e ∨
      ∃ s id lao, SetsUp h hub path m s id lao ∧ place = Path.election id s.id ∧
        e = setUpElection place s m := by
  obtain ⟨s, id, lao, hs', rfl⟩ := setUp_eq_ok.mp hs
  simp only [setElection, Table.get?_insert] at he
  split at he
  case isTrue hp =>
    cases he
    exact .inr ⟨s, id, lao, hs', hp.symm, hp ▸ rfl⟩
  case isFalse => exact .inl he

section Induction

variable {P : String → Election → Prop}

-- What holds of every election that is set up, and is kept up whoever listens and whatever is
-- said, holds of every election that there can be.
theorem Reachable.election_induction (hr : hub.Reachable h)
    (created : ∀ {hub : Hub} {path place id m s lao}, SetsUp h hub place m s id lao →
      path = Path.election id s.id → P path (setUpElection path s m))
    (kept : ∀ {path e} (sockets : Sockets), P path e → P path { e with sockets })
    (spoken : ∀ {path e lao m t}, P path e → Election.Processed h lao m e t → P path t.state)
    {path : String} {e : Election} (he : Table.get? hub.elections path = some e) : P path e := by
  induction hr generalizing path e
  case empty => cases he
  case step c _ ih =>
    cases origin he
    case kept he' => exact kept _ (ih he')
    case spoken he' _ _ => exact spoken (ih he') (Election.processed ..)
    case created hs _ hp => exact created hs hp
  case setUp hs ih =>
    rcases get?_setUp hs he with he' | ⟨s, id, lao, hs, hp, rfl⟩
    case inl => exact ih he'
    case inr => exact created hs hp

end Induction

end Hub
end Plenum
