import Plenum.Election
import Plenum.Proofs.Envelope

namespace Plenum

namespace Inbox

variable {i j : Inbox} {id : String}

theorem has_iff : i.has id ↔ ∃ m ∈ i.messages, m.id = id := by
  simp [has]

theorem reserve_eq_ok :
    i.reserve id = .ok j ↔
      ¬i.has id ∧ id ∉ i.pending ∧ j = { i with pending := id :: i.pending } := by
  rw [reserve, Guards.ite_error_eq_ok, not_or, and_assoc, Except.ok.injEq, eq_comm (b := j)]

theorem release_reserved (h : id ∉ i.pending) :
    release { i with pending := id :: i.pending } id = i := by
  have hf : i.pending.filter (· ≠ id) = i.pending :=
    List.filter_eq_self.mpr fun k hk => decide_eq_true fun hi => h (hi ▸ hk)
  rw [release, List.filter_cons_of_neg (by simp), hf]

end Inbox

namespace Election

variable {h : Host} {e : Election} {lao : Lao} {m : Message}

-- The election with the message at the end of its log.
def log (e : Election) (m : Message) : Election :=
  e.setInbox { e.inbox with messages := e.inbox.messages ++ [m] }

-- The line about a message, to everyone who listens.
def announce (e : Election) (m : Message) : List Delivery :=
  e.sockets.fanOut (e.announcement m)

def reserve (e : Election) (m : Message) : Election :=
  e.setInbox { e.inbox with pending := m.id :: e.inbox.pending }

-- The report that the host makes of the votes.
def outcomeMessage (h : Host) (e : Election) : Message :=
  .sign h (Payload.outcome (.gather e.questions)).encode

theorem sign_gather (h : Host) (e : Election) :
    Message.sign h (Payload.outcome (.gather e.questions)).encode = e.outcomeMessage h :=
  rfl

theorem outcomeMessage_congr {e' : Election} (hq : e.questions = e'.questions) :
    e.outcomeMessage h = e'.outcomeMessage h := by
  rw [← sign_gather, ← sign_gather, hq]

-- Whoever looks into a report would see all of its text.
attribute [irreducible] outcomeMessage

theorem receive_eq_ok {S : Suite} {e' : Election} {env : Envelope} :
    e.receive S m = .ok (e', env) ↔
      m.unseal S = .ok env ∧ ¬e.inbox.has m.id ∧ m.id ∉ e.inbox.pending ∧ e' = e.reserve m := by
  simp only [receive, Guards.bind_eq_ok, Guards.pure_eq_ok, Inbox.reserve_eq_ok, Except.ok.injEq,
    Prod.mk.injEq]
  constructor
  case mp =>
    rintro ⟨_, hu, _, ⟨hf, hp, rfl⟩, rfl, rfl⟩
    exact ⟨hu, hf, hp, rfl⟩
  case mpr =>
    rintro ⟨hu, hf, hp, he⟩
    exact ⟨env, hu, _, ⟨hf, hp, rfl⟩, he.symm, rfl⟩

theorem release_reserve (hp : m.id ∉ e.inbox.pending) : (e.reserve m).release m.id = e := by
  simp only [release, reserve, setInbox, Channel.release, Inbox.release_reserved hp]

theorem commit_reserve (hp : m.id ∉ e.inbox.pending) :
    (e.reserve m).commit m = ⟨e.log m, e.announce m, .ok ()⟩ := by
  have hr := Inbox.release_reserved hp
  simp only [commit, reserve, setInbox, Channel.commit, Inbox.commit, if_true, hr]
  rfl

theorem checkIds_eq_ok {l i : String} : e.checkIds l i = .ok () ↔ l = e.lao ∧ i = e.id := by
  simp [checkIds]

theorem judgeOpening_eq_ok {k : Key} {p : Opening} {r : Ruling} :
    e.judgeOpening lao m k p = .ok r ↔
      k = lao.organizer ∧ p.lao = e.lao ∧ p.election = e.id ∧ e.startTime ≤ p.openedAt ∧
        p.openedAt ≤ e.endTime ∧ e.phase = .created ∧ r = .start := by
  simp [judgeOpening, checkIds_eq_ok, and_assoc, eq_comm (a := r)]

theorem judgeVote_eq_ok {k : Key} {p : CastVote} {r : Ruling} :
    e.judgeVote lao m k p = .ok r ↔
      (m.sender ∈ lao.attendees ∨ k = lao.organizer) ∧ p.lao = e.lao ∧ p.election = e.id ∧
        e.phase = .started ∧
        ∃ votes, p.votes.mapM (e.judgeBallot m p.createdAt) = .ok votes ∧ r = .vote votes := by
  cases hp : e.phase <;>
    simp [judgeVote, checkIds_eq_ok, hp, and_assoc, or_iff_not_imp_left, eq_comm (a := r)]

theorem judgeClosing_eq_ok {k : Key} {p : Closing} {r : Ruling} :
    e.judgeClosing lao m k p = .ok r ↔
      k = lao.organizer ∧ p.lao = e.lao ∧ p.election = e.id ∧ e.startTime ≤ p.createdAt ∧
        Base64.decode? p.registeredVotes ≠ none ∧ e.phase = .started ∧ r = .terminate := by
  cases hp : e.phase <;> simp [judgeClosing, checkIds_eq_ok, hp, and_assoc, eq_comm (a := r)]

theorem unreadableQuestion?_eq_none {i : Nat} {qs : List QuestionOutcome} :
    unreadableQuestion? i qs = none ↔ ∀ q ∈ qs, Base64.decode? q.id ≠ none := by
  fun_induction unreadableQuestion? i qs <;> simp_all

theorem judgeOutcome_eq_ok {k : Key} {p : Outcome} {r : Ruling} :
    judgeOutcome h k p = .ok r ↔
      k = h.key ∧ (∀ q ∈ p.questions, Base64.decode? q.id ≠ none) ∧ r = .note := by
  rw [← unreadableQuestion?_eq_none]
  cases hq : unreadableQuestion? 0 p.questions <;> simp [judgeOutcome, hq, eq_comm (a := r)]

theorem judge_reserve (k : Key) (p : Payload) :
    (e.reserve m).judge h lao m k p = e.judge h lao m k p := by
  cases p <;> rfl

-- A message that passes, that is new, and that is judged to do something.
structure Admits (h : Host) (lao : Lao) (m : Message) (e : Election) (env : Envelope) (p : Payload)
    (r : Ruling) : Prop where
  unseal_eq : m.unseal h.suite = .ok env
  fresh : ¬e.inbox.has m.id
  free : m.id ∉ e.inbox.pending
  decode_eq : Payload.decode env.payload = .ok p
  judge_eq : e.judge h lao m env.sender p = .ok r

theorem Admits.content?_eq {env : Envelope} {p : Payload} {r : Ruling}
    (ha : Admits h lao m e env p r) : m.content? = some p := by
  rw [Message.content?_of_unseal ha.unseal_eq, ha.decode_eq]
  rfl

theorem Admits.kind?_eq {env : Envelope} {p : Payload} {r : Ruling}
    (ha : Admits h lao m e env p r) : m.kind? = some p.kind :=
  Message.kind?_of_content? ha.content?_eq

-- Setups are for LAOs.
theorem Admits.not_setup {env : Envelope} {p : Payload} {r : Ruling}
    (ha : Admits h lao m e env p r) : p.kind ≠ .setup := by
  cases p
  case setup => cases ha.judge_eq
  all_goals nofun

-- An election is opened once, and voted in and ended only after that.
theorem Admits.phase_of_opening {env : Envelope} {p : Opening} {r : Ruling}
    (ha : Admits h lao m e env (.opening p) r) : e.phase = .created :=
  have ⟨_, _, _, _, _, hp, _⟩ := judgeOpening_eq_ok.mp ha.judge_eq
  hp

theorem Admits.phase_of_vote {env : Envelope} {p : CastVote} {r : Ruling}
    (ha : Admits h lao m e env (.castVote p) r) : e.phase = .started :=
  have ⟨_, _, _, hp, _⟩ := judgeVote_eq_ok.mp ha.judge_eq
  hp

theorem Admits.phase_of_closing {env : Envelope} {p : Closing} {r : Ruling}
    (ha : Admits h lao m e env (.closing p) r) : e.phase = .started :=
  have ⟨_, _, _, _, _, hp, _⟩ := judgeClosing_eq_ok.mp ha.judge_eq
  hp

theorem content?_outcomeMessage (h : Host) (e : Election) :
    (e.outcomeMessage h).content? = some (.outcome (.gather e.questions)) :=
  sign_gather h e ▸ Message.content?_sign rfl

theorem kind?_outcomeMessage (h : Host) (e : Election) :
    (e.outcomeMessage h).kind? = some .outcome :=
  Message.kind?_of_content? (content?_outcomeMessage h e)

theorem unseal_outcomeMessage (hs : h.suite.Sound) (e : Election) :
    (e.outcomeMessage h).unseal h.suite =
      .ok ⟨(Payload.outcome (.gather e.questions)).encode, h.key⟩ :=
  sign_gather h e ▸ Message.unseal_sign hs (Payload.validate_encode rfl)

-- What an admitted message does.
def carryOut (h : Host) (e : Election) (m : Message) : Ruling → Turn Election Unit
  | .start => ⟨{ e.log m with phase := .started }, e.announce m, .ok ()⟩
  | .vote votes => ⟨(e.storeVotes m.sender votes).log m, e.announce m, .ok ()⟩
  | .terminate =>
    let t := publishOutcome h { e.log m with phase := .terminated }
    ⟨t.state, e.announce m ++ t.sent, t.outcome⟩
  | .note => ⟨e.log m, e.announce m, .ok ()⟩

theorem enact_reserve (hp : m.id ∉ e.inbox.pending) (r : Ruling) :
    (e.reserve m).enact h m r = e.carryOut h m r := by
  cases r
  case start => rw [enact, commit_reserve hp]; simp [Turn.andThen, Turn.done, carryOut]
  case vote votes => exact commit_reserve (e := e.storeVotes m.sender votes) hp
  case terminate => rw [enact, commit_reserve hp]; rfl
  case note => rw [enact, commit_reserve hp]; rfl

theorem Admits.process_eq {env : Envelope} {p : Payload} {r : Ruling}
    (ha : Admits h lao m e env p r) : e.process h lao m = e.carryOut h m r := by
  have hr : e.receive h.suite m = .ok (e.reserve m, env) :=
    receive_eq_ok.mpr ⟨ha.unseal_eq, ha.fresh, ha.free, rfl⟩
  simp only [process, hr, ha.decode_eq, judge_reserve, ha.judge_eq]
  exact enact_reserve ha.free r

-- A message that is not admitted changes nothing.
theorem process_eq_refuse (ha : ∀ env p r, ¬Admits h lao m e env p r) :
    ∃ f, e.process h lao m = .refuse e f := by
  unfold process
  split
  case h_1 f _ => exact ⟨f, rfl⟩
  case h_2 e' env hr =>
    have ⟨hu, hf, hp, he⟩ := receive_eq_ok.mp hr
    subst he
    rw [release_reserve hp]
    split
    case h_1 f _ => exact ⟨f, rfl⟩
    case h_2 p hd =>
      rw [judge_reserve]
      split
      case h_1 r _ => exact ⟨r.fault, rfl⟩
      case h_2 r hj => exact (ha env p r ⟨hu, hf, hp, hd, hj⟩).elim

theorem admits_or_refuse (h : Host) (lao : Lao) (m : Message) (e : Election) :
    (∃ env p r, Admits h lao m e env p r) ∨ ∃ f, e.process h lao m = .refuse e f := by
  by_cases ha : ∃ env p r, Admits h lao m e env p r
  case pos => exact .inl ha
  case neg => exact .inr (process_eq_refuse fun env p r ha' => ha ⟨env, p, r, ha'⟩)

theorem publishOutcome_of_refused {f : Fault}
    (hr : e.receive h.suite (e.outcomeMessage h) = .error f) :
    publishOutcome h e = .refuse e f := by
  delta publishOutcome
  dsimp only
  rw [sign_gather h e, hr]

theorem publishOutcome_of_received {e' : Election} {env : Envelope}
    (hr : e.receive h.suite (e.outcomeMessage h) = .ok (e', env)) :
    publishOutcome h e =
      match judgeOutcome h env.sender (.gather e.questions) with
      | .error r => .refuse e r.fault
      | .ok _ => ⟨e.log (e.outcomeMessage h), e.announce (e.outcomeMessage h), .ok ()⟩ := by
  obtain ⟨-, -, hp, rfl⟩ := receive_eq_ok.mp hr
  delta publishOutcome
  dsimp only
  rw [sign_gather h e, hr]
  cases hj : judgeOutcome h env.sender (.gather e.questions)
  case error r => simp only [hj, release_reserve hp]
  case ok => simp only [hj, commit_reserve hp]

-- The host's own report takes the way of any other message.
theorem publishOutcome_of_admits {env : Envelope} {r : Ruling}
    (ha : Admits h lao (e.outcomeMessage h) e env (.outcome (.gather e.questions)) r) :
    publishOutcome h e = ⟨e.log (e.outcomeMessage h), e.announce (e.outcomeMessage h), .ok ()⟩ := by
  have hj : judgeOutcome h env.sender (.gather e.questions) = .ok r := ha.judge_eq
  rw [publishOutcome_of_received (receive_eq_ok.mpr ⟨ha.unseal_eq, ha.fresh, ha.free, rfl⟩)]
  simp only [hj]

-- The report goes into the log and out to the subscribers, or it does not.
theorem publishOutcome_eq (h : Host) (e : Election) :
    (∃ f, publishOutcome h e = .refuse e f) ∨
      (e.outcomeMessage h).IsFrom h.suite h.key ∧ ¬e.inbox.has (e.outcomeMessage h).id ∧
        publishOutcome h e =
          ⟨e.log (e.outcomeMessage h), e.announce (e.outcomeMessage h), .ok ()⟩ := by
  cases hr : e.receive h.suite (e.outcomeMessage h)
  case error f => exact .inl ⟨f, publishOutcome_of_refused hr⟩
  case ok a =>
    have ⟨hu, hf, _⟩ := receive_eq_ok.mp hr
    rw [publishOutcome_of_received hr]
    cases hj : judgeOutcome h a.2.sender (.gather e.questions)
    case error r => exact .inl ⟨r.fault, rfl⟩
    case ok => exact .inr ⟨⟨a.2, hu, (judgeOutcome_eq_ok.mp hj).left⟩, hf, rfl⟩

-- The ways in which a message is processed.
inductive Processed (h : Host) (lao : Lao) (m : Message) (e : Election) :
    Turn Election Unit → Prop
  | refused (f : Fault) : Processed h lao m e (.refuse e f)
  | opened {env : Envelope} {p : Opening} :
    Admits h lao m e env (.opening p) .start →
    Processed h lao m e ⟨{ e.log m with phase := .started }, e.announce m, .ok ()⟩
  | voted {env : Envelope} {p : CastVote} {votes : List (Nat × Vote)} :
    Admits h lao m e env (.castVote p) (.vote votes) →
    Processed h lao m e ⟨(e.storeVotes m.sender votes).log m, e.announce m, .ok ()⟩
  | closed {env : Envelope} {p : Closing} :
    Admits h lao m e env (.closing p) .terminate →
    (e.outcomeMessage h).IsFrom h.suite h.key →
    ¬(e.log m).inbox.has (e.outcomeMessage h).id →
    Processed h lao m e
      ⟨{ (e.log m).log (e.outcomeMessage h) with phase := .terminated },
        e.announce m ++ e.announce (e.outcomeMessage h), .ok ()⟩
  | unreported {env : Envelope} {p : Closing} {f : Fault} :
    Admits h lao m e env (.closing p) .terminate →
    publishOutcome h { e.log m with phase := .terminated } =
      .refuse { e.log m with phase := .terminated } f →
    Processed h lao m e ⟨{ e.log m with phase := .terminated }, e.announce m, .error f⟩
  | noted {env : Envelope} {p : Outcome} :
    Admits h lao m e env (.outcome p) .note →
    Processed h lao m e ⟨e.log m, e.announce m, .ok ()⟩

theorem Admits.processed {env : Envelope} {p : Payload} {r : Ruling}
    (ha : Admits h lao m e env p r) : Processed h lao m e (e.carryOut h m r) := by
  have hj := ha.judge_eq
  cases p
  case setup => cases hj
  case opening p =>
    obtain ⟨-, -, -, -, -, -, rfl⟩ := judgeOpening_eq_ok.mp hj
    exact .opened ha
  case castVote p =>
    obtain ⟨-, -, -, -, votes, -, rfl⟩ := judgeVote_eq_ok.mp hj
    exact .voted ha
  case closing p =>
    obtain ⟨-, -, -, -, -, -, rfl⟩ := judgeClosing_eq_ok.mp hj
    have he : outcomeMessage h { e.log m with phase := .terminated } = e.outcomeMessage h :=
      outcomeMessage_congr rfl
    rcases publishOutcome_eq h { e.log m with phase := .terminated } with ⟨f, hf⟩ | ⟨ho, hn, hr⟩
    case inl =>
      have hc : e.carryOut h m .terminate =
          ⟨{ e.log m with phase := .terminated }, e.announce m, .error f⟩ := by
        simp [carryOut, hf, Turn.refuse]
      exact hc ▸ .unreported ha hf
    case inr =>
      rw [he] at ho hn hr
      have hc : e.carryOut h m .terminate =
          ⟨{ (e.log m).log (e.outcomeMessage h) with phase := .terminated },
            e.announce m ++ e.announce (e.outcomeMessage h), .ok ()⟩ := by
        simp only [carryOut, hr]
        rfl
      exact hc ▸ .closed ha ho hn
  case outcome p =>
    obtain ⟨-, -, rfl⟩ := judgeOutcome_eq_ok.mp hj
    exact .noted ha

theorem processed (h : Host) (lao : Lao) (m : Message) (e : Election) :
    Processed h lao m e (e.process h lao m) := by
  rcases admits_or_refuse h lao m e with ⟨env, p, r, ha⟩ | ⟨f, hf⟩
  case inl => exact ha.process_eq ▸ ha.processed
  case inr => exact hf ▸ .refused f

-- What does not depend on the phase is kept up by every message if it is kept up as votes are
-- stored and as messages are logged.
theorem Processed.keeps {P : Election → Prop} {t : Turn Election Unit}
    (ht : Processed h lao m e t) (he : P e)
    (phase : ∀ {e : Election} (p : Phase), P e → P { e with phase := p })
    (vote : ∀ {env p votes}, Admits h lao m e env (.castVote p) (.vote votes) →
      P ((e.storeVotes m.sender votes).log m))
    (other : ∀ {env p r}, Admits h lao m e env p r → p.kind ≠ .castVote → P (e.log m))
    (report : (e.outcomeMessage h).IsFrom h.suite h.key →
      ¬(e.log m).inbox.has (e.outcomeMessage h).id → P (e.log m) →
      P ((e.log m).log (e.outcomeMessage h))) : P t.state := by
  cases ht
  case refused => exact he
  case opened ha => exact phase _ (other ha nofun)
  case voted ha => exact vote ha
  case closed ha hf hn => exact phase _ (report hf hn (other ha nofun))
  case unreported ha _ => exact phase _ (other ha nofun)
  case noted ha => exact other ha nofun

end Election
end Plenum
