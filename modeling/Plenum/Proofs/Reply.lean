import Plenum.Proofs.Blame
import Plenum.Proofs.Conversation

namespace Plenum

-- What a request that succeeds has for a result. A catchup gets the whole log of the election at
-- its path.
inductive Hub.Yields (hub : Hub) (q : Query) : Answer.Result → Prop
  | log {e : Election} : q.method = .catchup → Table.get? hub.elections q.channel = some e →
    Yields hub q (.messages e.inbox.messages)
  | zero : q.method ≠ .catchup → Yields hub q (.number 0)

-- An answer that a hub may give to a line, which is a request or is none.
structure Answer.Meets (hub : Hub) (q? : Option Query) (a : Answer) : Prop where
  id_eq : a.id = q?.bind Query.id?
  one : a.result = none ↔ a.error ≠ none
  result : ∀ r, a.result = some r → ∃ q, q? = some q ∧ hub.Yields q r
  error : ∀ x, a.error = some x → x.code ≠ -6

theorem Answer.meets_fault {hub : Hub} {q? : Option Query} {f : Fault} (hf : f.OfRequest) :
    (Answer.fault (q?.bind Query.id?) f).Meets hub q? where
  id_eq := rfl
  one := by simp [fault]
  result := nofun
  error := fun _ hx => Option.some.inj hx ▸ hf

theorem Answer.meets_of_yields {hub : Hub} {q : Query} {a : Answer} {r : Answer.Result}
    (hy : hub.Yields q r) (hi : a.id = q.id?) (hr : a.result = some r) (he : a.error = none) :
    a.Meets hub (some q) where
  id_eq := hi
  one := by simp [hr, he]
  result := fun _ hs => ⟨q, rfl, Option.some.inj (hr.symm.trans hs) ▸ hy⟩
  error := by simp [he]

namespace Hub

variable {h : Host} {hub : Hub} {q : Query} {s : Socket} {a : Answer}

theorem method_of_message {m : Message} (hq : q.message? = some m) : q.method ≠ .catchup := by
  cases q
  case catchup => cases hq
  all_goals simp [Query.method]

-- A request that succeeds has a result and no error.
theorem yields_of_run (hr : (hub.run h q s).outcome = .ok a) :
    ∃ r, hub.Yields q r ∧ a.result = some r ∧ a.error = none := by
  cases hq : q.message?
  case some m =>
    rw [run_eq_andThen hq, Turn.andThen] at hr
    split at hr
    case h_1 => cases hr
    case h_2 =>
      cases hr
      exact ⟨_, .zero (method_of_message hq), rfl, rfl⟩
  case none =>
    cases he : Table.get? hub.elections q.channel
    case none =>
      cases q <;> try cases hq
      all_goals
        simp only [run, he] at hr
        cases hr
    case some e =>
      cases q <;> try cases hq
      case subscribe v id path =>
        simp only [run, he] at hr
        cases hr
        exact ⟨_, .zero (by simp [Query.method]), rfl, rfl⟩
      case unsubscribe v id path =>
        simp only [run, he] at hr
        split at hr
        case h_1 => cases hr
        case h_2 =>
          cases hr
          exact ⟨_, .zero (by simp [Query.method]), rfl, rfl⟩
      case catchup v id path =>
        simp only [run, he] at hr
        cases hr
        exact ⟨_, .log rfl he, rfl, rfl⟩

theorem handle_meets (ha : (hub.handle h q s).answer = some a) : a.Meets hub (some q) := by
  cases hr : (hub.run h q s).outcome
  case error f =>
    simp only [handle, hr] at ha
    exact Option.some.inj ha ▸ Answer.meets_fault (hub.run_ofRequest h q s f hr)
  case ok b =>
    cases answer_of_ok hr ha
    obtain ⟨r, hy, hs, he⟩ := yields_of_run hr
    exact Answer.meets_of_yields hy (id_of_run hr) hs he

theorem result_of_handle (ha : (hub.handle h q s).answer = some a) :
    a.result ≠ none ↔ ∃ b, (hub.run h q s).outcome = .ok b := by
  cases hr : (hub.run h q s).outcome
  case error f =>
    simp only [handle, hr] at ha
    simp [← Option.some.inj ha, Answer.fault]
  case ok b =>
    cases answer_of_ok hr ha
    obtain ⟨r, -, hs, -⟩ := yields_of_run hr
    simp [hs]

-- A line goes without an answer only if it is a notification that is carried out. Any other line
-- has one answer, under the id that the line has. It is a result if the line is a request that
-- succeeds and an error otherwise, and it never says that the hub is at fault.
theorem line_answered_once (h : Host) (hub : Hub) (line : String) (s : Socket) :
    ((hub.handleLine h line s).answer = none ↔
      ∃ q b, Query.parse line = .ok q ∧ q.method = .broadcast ∧ q.id? = none ∧
        (hub.run h q s).outcome = .ok b) ∧
    ∀ a, (hub.handleLine h line s).answer = some a →
      a.Meets hub (Query.parse line).toOption ∧
        (a.result ≠ none ↔
          ∃ q b, Query.parse line = .ok q ∧ (hub.run h q s).outcome = .ok b) := by
  cases hq : Query.parse line
  case error f =>
    refine ⟨by simp [handleLine, hq], fun a ha => ?_⟩
    simp only [handleLine, hq] at ha
    have hm : (Answer.fault none f).Meets hub none :=
      Answer.meets_fault (Query.parse_ofRequest line f hq)
    cases ha
    exact ⟨hm, by simp [Answer.fault]⟩
  case ok q =>
    refine ⟨by simp [handleLine, hq, answer_handle_eq_none], fun a ha => ?_⟩
    simp only [handleLine, hq] at ha
    exact ⟨handle_meets ha, by simpa using result_of_handle ha⟩

-- A message is taken in for its path and its text. The frame that it comes in decides on the answer
-- alone.
def acknowledge (id? : Option Int64) : Except Fault Unit → Option Answer
  | .error f => some (.fault id? f)
  | .ok () => id?.map fun id => .ok (some id)

theorem handle_of_message {m : Message} (hq : q.message? = some m) :
    hub.handle h q s =
      ⟨(hub.say h q.channel m).state, (hub.say h q.channel m).sent,
        acknowledge q.id? (hub.say h q.channel m).outcome⟩ := by
  rw [handle, run_eq_andThen hq, Turn.andThen]
  cases (hub.say h q.channel m).outcome
  case error f => rfl
  case ok => cases hi : q.id? <;> simp [Turn.done, acknowledge]

-- A broadcast under an id is a publish. Without one it does the same to the hub and sends the same
-- lines, and it is answered only if it fails.
theorem publish_is_broadcast (h : Host) (hub : Hub) (path : String) (m : Message) (s : Socket)
    (id : Int64) (v w : String) :
    let p := hub.handle h (.publish v id path m) s
    let n := hub.handle h (.broadcast w none path m) s
    hub.handle h (.broadcast w (some id) path m) s = p ∧ n.hub = p.hub ∧ n.sent = p.sent ∧
      (p.answer = some (.ok (some id)) ∧ n.answer = none ∨
        ∃ f, p.answer = some (.fault (some id) f) ∧ n.answer = some (.fault none f)) := by
  have hp : hub.handle h (.publish v id path m) s = _ := handle_of_message rfl
  have hb : hub.handle h (.broadcast w (some id) path m) s = _ := handle_of_message rfl
  have hn : hub.handle h (.broadcast w none path m) s = _ := handle_of_message rfl
  rw [hp, hb, hn]
  refine ⟨rfl, rfl, rfl, ?_⟩
  simp only [Query.channel, Query.id?]
  cases (hub.say h path m).outcome
  case error f => exact .inr ⟨f, rfl, rfl⟩
  case ok => exact .inl ⟨rfl, rfl⟩

end Hub
end Plenum
