import Plenum.Proofs.Hub

namespace Plenum

namespace Guards

variable {ε α β : Type} {P : ε → Prop}

-- Whatever the check fails with is of a kind.
def FailsAs (P : ε → Prop) (x : Except ε α) : Prop :=
  ∀ e, x = .error e → P e

@[simp]
theorem failsAs_ok (a : α) : FailsAs P (.ok a : Except ε α) :=
  nofun

@[simp]
theorem failsAs_error {e : ε} : FailsAs P (.error e : Except ε α) ↔ P e := by
  simp [FailsAs]

theorem failsAs_bind {x : Except ε α} {f : α → Except ε β} (hx : FailsAs P x)
    (hf : ∀ a, FailsAs P (f a)) : FailsAs P (x >>= f) := by
  cases x
  case error e => exact failsAs_error.mpr (hx e rfl)
  case ok a => exact hf a

end Guards

open Guards

namespace Fault

-- The fault lies with the request and not with the hub.
def OfRequest (f : Fault) : Prop :=
  f.code ≠ -6

@[simp]
theorem ofRequest_iff {f : Fault} : f.OfRequest ↔ ∀ text, f ≠ .internal text := by
  cases f <;> simp [OfRequest, code]

end Fault

namespace Suite

variable {S : Suite}

theorem readKey_ofRequest (s : String) : FailsAs Fault.OfRequest (S.readKey s) := by
  unfold readKey
  repeat' split
  all_goals simp

theorem check_ofRequest (k : Key) (b : Bytes) (s : String) :
    FailsAs Fault.OfRequest (S.check k b s) := by
  unfold check
  repeat' split
  all_goals simp

end Suite

theorem Header.read_ofRequest (b : Bytes) : FailsAs Fault.OfRequest (read b) := by
  unfold read
  split <;> simp

namespace Payload

theorem decode_ofRequest (b : Bytes) : FailsAs Fault.OfRequest (decode b) := by
  refine failsAs_bind (Header.read_ofRequest b) fun header => ?_
  repeat' split
  all_goals simp

theorem tag_ofRequest (t : Json.Tree) (name : String) : FailsAs Fault.OfRequest (tag t name) := by
  unfold tag
  repeat' split
  all_goals simp

theorem validate_ofRequest (b : Bytes) : FailsAs Fault.OfRequest (validate b) := by
  unfold validate
  split
  case h_2 ms _ =>
    refine failsAs_bind (tag_ofRequest _ _) fun object => ?_
    refine failsAs_bind (tag_ofRequest _ _) fun action => ?_
    repeat' split
    all_goals simp
  all_goals simp

end Payload

namespace Message

variable {S : Suite} {m : Message}

theorem payload_ofRequest (m : Message) : FailsAs Fault.OfRequest m.payload := by
  unfold payload
  split <;> simp

theorem verify_ofRequest (S : Suite) (m : Message) (b : Bytes) :
    FailsAs Fault.OfRequest (m.verify S b) := by
  unfold verify
  split
  case isTrue => simp
  case isFalse =>
    exact failsAs_bind (Suite.readKey_ofRequest m.sender) fun k =>
      failsAs_bind (Suite.check_ofRequest k b m.signature) fun _ => failsAs_ok _

theorem unseal_ofRequest (S : Suite) (m : Message) : FailsAs Fault.OfRequest (m.unseal S) := by
  refine failsAs_bind m.payload_ofRequest fun b => ?_
  refine failsAs_bind (Payload.validate_ofRequest b) fun _ => ?_
  exact failsAs_bind (m.verify_ofRequest S b) fun _ => failsAs_ok _

end Message

theorem Inbox.reserve_ofRequest (i : Inbox) (id : String) :
    FailsAs Fault.OfRequest (i.reserve id) := by
  unfold reserve
  split <;> simp

theorem Query.parse_ofRequest (line : String) : FailsAs Fault.OfRequest (parse line) := by
  unfold parse
  repeat' split
  all_goals simp

theorem Setup.Defect.fault_ofRequest (d : Setup.Defect) : d.fault.OfRequest := by
  cases d <;> simp [fault]

theorem Turn.andThen_ofRequest {σ α β : Type} {t : Turn σ α} {next : σ → α → Turn σ β}
    (ht : FailsAs Fault.OfRequest t.outcome)
    (hn : ∀ s a, FailsAs Fault.OfRequest (next s a).outcome) :
    FailsAs Fault.OfRequest (t.andThen next).outcome := by
  unfold andThen
  split
  case h_1 f hf => exact failsAs_error.mpr (ht f hf)
  case h_2 a _ => exact hn t.state a

theorem Channel.unsubscribe_ofRequest (c : Channel) (id : String) :
    FailsAs Fault.OfRequest (c.unsubscribe id) := by
  unfold unsubscribe
  split <;> simp

namespace Election

variable {h : Host} {e : Election} {lao : Lao} {m : Message}

theorem Refusal.fault_ofRequest (r : Refusal) : r.fault.OfRequest := by
  cases r
  case ballot d => cases d <;> simp [fault, Ballot.Defect.fault]
  all_goals simp [fault]

theorem receive_ofRequest (S : Suite) (e : Election) (m : Message) :
    FailsAs Fault.OfRequest (e.receive S m) := by
  refine failsAs_bind (m.unseal_ofRequest S) fun _ => ?_
  exact failsAs_bind (e.inbox.reserve_ofRequest m.id) fun _ => failsAs_ok _

-- A message is committed under the identifier that was reserved for it, which is its own.
theorem outcome_commit (e : Election) (m : Message) : (e.commit m).outcome = .ok () := by
  simp only [commit, Channel.commit, Inbox.commit, if_true]
  rfl

theorem publishOutcome_ofRequest (h : Host) (e : Election) :
    FailsAs Fault.OfRequest (publishOutcome h e).outcome := by
  have hr := receive_ofRequest h.suite e (e.outcomeMessage h)
  cases he : e.receive h.suite (e.outcomeMessage h)
  case error f =>
    rw [publishOutcome_of_refused he]
    exact failsAs_error.mpr (hr f he)
  case ok a =>
    rw [publishOutcome_of_received he]
    split
    case h_1 r _ => exact failsAs_error.mpr r.fault_ofRequest
    case h_2 => exact failsAs_ok _

theorem enact_ofRequest (h : Host) (e : Election) (m : Message) (r : Ruling) :
    FailsAs Fault.OfRequest (e.enact h m r).outcome := by
  have hc (e : Election) : FailsAs Fault.OfRequest (e.commit m).outcome :=
    outcome_commit e m ▸ failsAs_ok ()
  cases r
  case start => exact Turn.andThen_ofRequest (hc e) fun _ _ => failsAs_ok _
  case vote votes => exact hc (e.storeVotes m.sender votes)
  case terminate =>
    rw [enact]
    exact Turn.andThen_ofRequest (hc e) fun e _ => publishOutcome_ofRequest h _
  case note => exact hc e

theorem process_ofRequest (h : Host) (e : Election) (lao : Lao) (m : Message) :
    FailsAs Fault.OfRequest (e.process h lao m).outcome := by
  unfold process
  split
  case h_1 f hf => exact failsAs_error.mpr (receive_ofRequest h.suite e m f hf)
  case h_2 e env _ =>
    split
    case h_1 f hf => exact failsAs_error.mpr (Payload.decode_ofRequest env.payload f hf)
    case h_2 p _ =>
      split
      case h_1 r _ => exact failsAs_error.mpr r.fault_ofRequest
      case h_2 r _ => exact enact_ofRequest h e m r

end Election

namespace Hub

variable {h : Host} {hub : Hub} {path : String} {m : Message} {q : Query} {s : Socket}

theorem setUp_ofRequest (h : Host) (hub : Hub) (path : String) (m : Message) :
    FailsAs Fault.OfRequest (hub.setUp h path m) := by
  refine failsAs_bind (m.unseal_ofRequest h.suite) fun env => ?_
  refine failsAs_bind (Payload.decode_ofRequest env.payload) fun p => ?_
  split
  case h_2 => simp
  case h_1 s =>
    split
    case h_2 => simp
    case h_1 =>
      simp only [throw_eq_error, error_bind, pure_eq_ok]
      split
      case isTrue => simp
      case isFalse =>
        split
        case h_1 d _ => exact failsAs_error.mpr d.fault_ofRequest
        case h_2 => split <;> simp

-- What is checked before anything is changed fails as the check does.
theorem outcome_ofRequest {x : Except Fault Hub} (hx : FailsAs Fault.OfRequest x) :
    FailsAs Fault.OfRequest
      (match x with
        | .error f => Turn.refuse hub f
        | .ok hub => .done hub ()).outcome := by
  cases x
  case error f => exact failsAs_error.mpr (hx f rfl)
  case ok => exact failsAs_ok _

theorem processAtLao_ofRequest (h : Host) (hub : Hub) (path : String) (m : Message) :
    FailsAs Fault.OfRequest (hub.processAtLao h path m).outcome := by
  refine outcome_ofRequest ?_
  split
  case isTrue => simp
  case isFalse =>
    refine failsAs_bind m.payload_ofRequest fun b => ?_
    refine failsAs_bind (Header.read_ofRequest b) fun header => ?_
    split
    case isTrue => simp
    case isFalse => exact failsAs_bind (hub.setUp_ofRequest h path m) fun _ => failsAs_ok _

theorem say_ofRequest (h : Host) (hub : Hub) (path : String) (m : Message) :
    FailsAs Fault.OfRequest (hub.say h path m).outcome := by
  unfold say
  split
  case h_1 => exact hub.processAtLao_ofRequest h path m
  case h_2 e _ =>
    unfold process
    split
    case h_1 => simp [Turn.refuse]
    case h_2 lao _ => exact e.process_ofRequest h lao m

theorem run_ofRequest (h : Host) (hub : Hub) (q : Query) (s : Socket) :
    FailsAs Fault.OfRequest (hub.run h q s).outcome := by
  cases hq : q.message?
  case some m =>
    rw [run_eq_andThen hq]
    exact Turn.andThen_ofRequest (hub.say_ofRequest h q.channel m) fun _ _ => failsAs_ok _
  case none =>
    cases he : Table.get? hub.elections q.channel
    case none =>
      cases q <;> try cases hq
      all_goals
        simp only [run, he]
        exact failsAs_error.mpr (by simp)
    case some e =>
      cases q <;> try cases hq
      case unsubscribe v id path =>
        simp only [run, he]
        split
        case h_1 f hf => exact failsAs_error.mpr (e.unsubscribe_ofRequest s.id f hf)
        case h_2 => exact failsAs_ok _
      all_goals
        simp only [run, he]
        exact failsAs_ok _

end Hub
end Plenum
