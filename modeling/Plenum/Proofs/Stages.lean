import Plenum.Proofs.Conduct

namespace Plenum

-- One phase after the other, or no change.
inductive Phase.Leads : Phase → Phase → Prop
  | refl (p : Phase) : Leads p p
  | start : Leads created started
  | terminate : Leads started terminated

namespace Election

variable {h : Host} {e : Election} {lao : Lao} {m : Message} {t : Turn Election Unit}

-- The kinds of the messages in the log, results left out.
def history (e : Election) : List (Option Payload.Kind) :=
  (e.inbox.messages.map Message.kind?).filter (· ≠ some .outcome)

-- Whether there is a message of a kind in the log.
def Logged (e : Election) (k : Payload.Kind) : Prop :=
  ∃ m ∈ e.inbox.messages, m.kind? = some k

-- How far an election has come, by its phase and by its history.
inductive Stage : Phase → List (Option Payload.Kind) → Prop
  | created : Stage .created [some .setup]
  | started (n : Nat) :
    Stage .started (some .setup :: some .opening :: .replicate n (some .castVote))
  | terminated (n : Nat) :
    Stage .terminated
      (some .setup :: some .opening :: (.replicate n (some .castVote) ++ [some .closing]))

theorem history_log {k : Payload.Kind} (hk : m.kind? = some k) (hn : k ≠ .outcome) :
    (e.log m).history = e.history ++ [some k] := by
  simp [history, log, setInbox, hk, hn]

theorem history_log_outcome (hk : m.kind? = some .outcome) : (e.log m).history = e.history := by
  simp [history, log, setInbox, hk]

theorem logged_iff {k : Payload.Kind} (hn : k ≠ .outcome) :
    e.Logged k ↔ some k ∈ e.history := by
  simp [history, Logged, hn]

namespace Stage

variable {p : Phase} {l : List (Option Payload.Kind)}

theorem opened (hs : Stage .created l) : Stage .started (l ++ [some .opening]) := by
  cases hs
  exact .started 0

theorem voted (hs : Stage .started l) : Stage .started (l ++ [some .castVote]) := by
  cases hs
  case started n =>
    rw [List.cons_append, List.cons_append, ← List.replicate_succ']
    exact .started (n + 1)

theorem closed (hs : Stage .started l) : Stage .terminated (l ++ [some .closing]) := by
  cases hs
  case started n => exact .terminated n

theorem created_iff (hs : Stage p l) : p = .created ↔ some .opening ∉ l := by
  cases hs <;> simp

theorem started_iff (hs : Stage p l) : p = .started ↔ some .opening ∈ l ∧ some .closing ∉ l := by
  cases hs <;> simp

theorem terminated_iff (hs : Stage p l) : p = .terminated ↔ some .closing ∈ l := by
  cases hs <;> simp

end Stage

theorem Processed.stage (ht : Processed h lao m e t) (hs : Stage e.phase e.history) :
    Stage t.state.phase t.state.history := by
  cases ht
  case refused => exact hs
  case opened ha =>
    have hp := ha.phase_of_opening
    exact history_log ha.kind?_eq nofun ▸ (hp ▸ hs).opened
  case voted votes ha =>
    have hp := ha.phase_of_vote
    have hl : ((e.storeVotes m.sender votes).log m).history = e.history ++ [some .castVote] :=
      history_log ha.kind?_eq nofun
    have hp' : ((e.storeVotes m.sender votes).log m).phase = .started := hp
    rw [hl, hp']
    exact (hp ▸ hs).voted
  case closed ha _ _ =>
    have hp := ha.phase_of_closing
    have hl : ((e.log m).log (e.outcomeMessage h)).history = e.history ++ [some .closing] := by
      rw [history_log_outcome (kind?_outcomeMessage h e), history_log ha.kind?_eq nofun]
      rfl
    exact hl ▸ (hp ▸ hs).closed
  case unreported ha _ =>
    have hp := ha.phase_of_closing
    exact history_log ha.kind?_eq nofun ▸ (hp ▸ hs).closed
  case noted ha =>
    have hl : (e.log m).history = e.history := history_log_outcome ha.kind?_eq
    exact hl.symm ▸ hs

theorem stage_of_setsUp {hub : Hub} {path place id : String} {s : Setup}
    (hs : Hub.SetsUp h hub place m s id lao) :
    Stage (Hub.setUpElection path s m).phase (Hub.setUpElection path s m).history := by
  have hl : (Hub.setUpElection path s m).history = [some .setup] :=
    history_log (k := .setup) hs.kind?_eq nofun
  exact hl ▸ .created

theorem stage {hub : Hub} (hr : hub.Reachable h) {path : String}
    (he : Table.get? hub.elections path = some e) : Stage e.phase e.history :=
  hr.election_induction (P := fun _ e => Stage e.phase e.history) (fun hs _ => stage_of_setsUp hs)
    (fun _ hs => hs) (fun hs ht => ht.stage hs) he

-- What one message adds to the log, and what it does to the phase. A vote only ever comes in
-- while the election is open.
theorem Processed.leads (ht : Processed h lao m e t) :
    e.phase.Leads t.state.phase ∧
      ∃ new, t.state.inbox.messages = e.inbox.messages ++ new ∧
        ∀ n ∈ new, n.kind? = some .castVote → e.phase = .started ∧ t.state.phase = .started := by
  cases ht
  case refused => exact ⟨.refl _, [], (List.append_nil _).symm, nofun⟩
  case opened ha =>
    have hp := ha.phase_of_opening
    refine ⟨hp ▸ .start, [m], rfl, ?_⟩
    simp [ha.kind?_eq, Payload.kind]
  case voted ha =>
    have hp := ha.phase_of_vote
    exact ⟨.refl _, [m], rfl, fun _ _ _ => ⟨hp, hp⟩⟩
  case closed ha _ _ =>
    have hp := ha.phase_of_closing
    refine ⟨hp ▸ .terminate, [m, e.outcomeMessage h], by simp [log, setInbox], ?_⟩
    simp [ha.kind?_eq, kind?_outcomeMessage, Payload.kind]
  case unreported ha _ =>
    have hp := ha.phase_of_closing
    refine ⟨hp ▸ .terminate, [m], rfl, ?_⟩
    simp [ha.kind?_eq, Payload.kind]
  case noted ha =>
    refine ⟨.refl _, [m], rfl, ?_⟩
    simp [ha.kind?_eq, Payload.kind]

end Election

namespace Hub

variable {h : Host} {hub : Hub} {path : String} {e : Election}

-- What one call does to an election that is there.
theorem leads_step (he : Table.get? hub.elections path = some e) (c : Call) :
    ∃ e', Table.get? (hub.step h c).elections path = some e' ∧ e.phase.Leads e'.phase ∧
      ∃ new, e'.inbox.messages = e.inbox.messages ++ new ∧
        ∀ n ∈ new, n.kind? = some .castVote → e.phase = .started ∧ e'.phase = .started :=
  exists_step_of he (fun _ => ⟨.refl _, [], (List.append_nil _).symm, nofun⟩)
    fun _ => (Election.processed ..).leads

end Hub

-- An election's phase is what its log says: leaving out results, there is one setup, then an
-- opening and votes, then an end as the last. Phases come in this order, and votes are logged only
-- while the election is open.
theorem Election.log_follows_phase (h : Host) (calls : List Hub.Call) (path : String)
    (e : Election) (he : Table.get? (Hub.after h calls).elections path = some e) :
    Stage e.phase e.history ∧ (e.phase = .created ↔ ¬e.Logged .opening) ∧
      (e.phase = .started ↔ e.Logged .opening ∧ ¬e.Logged .closing) ∧
      (e.phase = .terminated ↔ e.Logged .closing) ∧
      ∀ c, ∃ e', Table.get? (Hub.after h (calls ++ [c])).elections path = some e' ∧
        e.phase.Leads e'.phase ∧
        ∃ new, e'.inbox.messages = e.inbox.messages ++ new ∧
          ∀ n ∈ new, n.kind? = some .castVote → e.phase = .started ∧ e'.phase = .started := by
  have hs := stage (Hub.reachable_after h calls) he
  rw [logged_iff (k := .opening) nofun, logged_iff (k := .closing) nofun]
  refine ⟨hs, hs.created_iff, hs.started_iff, hs.terminated_iff, fun c => ?_⟩
  rw [Hub.after_concat]
  exact Hub.leads_step he c

theorem Election.log_follows_phase_votedA :
    Table.get? (Hub.after Trial.host Trial.voteRun).elections (Trial.path "A") =
        some Trial.votedA ∧
      Stage .started Trial.votedA.history ∧ Trial.votedA.Logged .opening ∧
        ¬Trial.votedA.Logged .closing := by
  have ⟨hs, _, ho, _⟩ := log_follows_phase Trial.host Trial.voteRun (Trial.path "A") Trial.votedA
    Trial.reaches_votedA.get?_eq
  have ⟨ho, hc⟩ := ho.mp rfl
  exact ⟨Trial.reaches_votedA.get?_eq, hs, ho, hc⟩

end Plenum
