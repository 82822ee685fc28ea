import Plenum.Proofs.Lines
import Plenum.Proofs.Reception

namespace Plenum

-- The answers among some lines: they cannot be read as requests, and broadcasts can.
def answersIn (lines : List String) : List String :=
  lines.filter fun l => (Query.parse l).toOption.isNone

theorem answersIn_append (ls ls' : List String) :
    answersIn (ls ++ ls') = answersIn ls ++ answersIn ls' :=
  List.filter_append ..

theorem Incoming.ofBytes_of_text {limit : Nat} {l : Bytes} {t : String} (ht : l.text? = some t) :
    ofBytes limit l =
      if limit < l.length then .tooLong
      else if Text.trim t = "" then .blank
      else .request (Text.trim t) := by
  rw [ofBytes, ht]

namespace Hub

variable {h : Host} {limit : Nat} {hub : Hub} {s : Socket} {l : Bytes} {t : String}

-- What comes of a line, if it can be read.
def replyTo? (h : Host) (limit : Nat) (hub : Hub) (s : Socket) (l : Bytes) : Option Reply :=
  match Incoming.ofBytes limit l with
  | .unreadable => none
  | .blank => some ⟨hub, [], none⟩
  | .tooLong => some ⟨hub, [], some (.fault none (Service.overlong limit))⟩
  | .request line => some (hub.handleLine h line s)

def answerTo? (h : Host) (limit : Nat) (hub : Hub) (s : Socket) (l : Bytes) : Option Answer :=
  (hub.replyTo? h limit s l).bind Reply.answer

-- What a line puts before those who listen, and then the answer.
def noticesOf (h : Host) (limit : Nat) (hub : Hub) (s : Socket) (l : Bytes) : List Offer :=
  match Incoming.ofBytes limit l with
  | .request line =>
    match Query.parse line with
    | .ok q => hub.broadcasts h (.query q s)
    | .error _ => []
  | _ => []

def offersOf (h : Host) (limit : Nat) (hub : Hub) (s : Socket) (l : Bytes) : List Offer :=
  hub.noticesOf h limit s l ++ ((hub.answerTo? h limit s l).map fun a => ⟨s, a.render⟩).toList

theorem delivery_offersOf {r : Reply} (hr : hub.replyTo? h limit s l = some r) :
    (hub.offersOf h limit s l).map Offer.delivery = r.deliveries s := by
  rw [offersOf, answerTo?, hr, Option.bind_some, noticesOf]
  rw [replyTo?] at hr
  split at hr
  case h_1 => cases hr
  case h_2 he => cases hr; simp only [he]; rfl
  case h_3 he => cases hr; simp only [he]; rfl
  case h_4 line he =>
    cases hr
    simp only [he]
    cases hq : Query.parse line
    case error f =>
      rw [handleLine, hq]
      rfl
    case ok q =>
      rw [handleLine, hq]
      exact hub.delivery_offers h q s

end Hub

theorem Service.hear_eq (h : Host) (limit : Nat) (v : Service) (s : Socket) (l : Bytes) :
    v.hear h limit s l = (v.hub.replyTo? h limit s l).map fun r =>
      ⟨r.hub, v.queues.offerAll (v.hub.offersOf h limit s l)⟩ := by
  have hd (r : Reply) (hr : v.hub.replyTo? h limit s l = some r) :
      v.take r s = ⟨r.hub, v.queues.offerAll (v.hub.offersOf h limit s l)⟩ := by
    rw [take, Queues.offerAll, Hub.delivery_offersOf hr]
  have ht : v.hear h limit s l = (v.hub.replyTo? h limit s l).map (v.take · s) := by
    simp only [hear, Hub.replyTo?]
    cases Incoming.ofBytes limit l <;> rfl
  rw [ht]
  cases hr : v.hub.replyTo? h limit s l
  case none => rfl
  case some r => rw [Option.map_some, Option.map_some, hd r hr]

namespace Hub

variable {h : Host} {limit : Nat} {hub : Hub} {s : Socket} {l : Bytes} {t k : String}

theorem isNone_parse_of_mem_broadcasts {c : Call} {o : Offer} (ho : o ∈ hub.broadcasts h c) :
    (Query.parse o.line).toOption.isNone = false := by
  obtain ⟨_, _, _, _, -, -, -, -, hn⟩ := notice?_of_mem_broadcasts ho
  rw [Offer.notice?] at hn
  split at hn
  case h_1 hp => rw [hp]; rfl
  case h_2 => cases hn

theorem answersIn_linesTo_eq_nil {os : List Offer}
    (ho : ∀ o ∈ os, o.socket.queue = k → (Query.parse o.line).toOption.isNone = false) :
    answersIn (Offer.linesTo k os) = [] := by
  refine List.filter_eq_nil_iff.mpr fun line hl => ?_
  obtain ⟨o, ho', rfl⟩ := List.mem_map.mp hl
  have ⟨hm, hk⟩ := List.mem_filter.mp ho'
  rw [ho o hm (of_decide_eq_true hk)]
  exact Bool.false_ne_true

theorem replyTo?_of_text (ht : l.text? = some t) :
    hub.replyTo? h limit s l = some
      (if limit < l.length then ⟨hub, [], some (.fault none (Service.overlong limit))⟩
      else if Text.trim t = "" then ⟨hub, [], none⟩
      else hub.handleLine h (Text.trim t) s) := by
  rw [replyTo?, Incoming.ofBytes_of_text ht]
  by_cases hl : limit < l.length
  case pos => simp [hl]
  case neg => by_cases hb : Text.trim t = "" <;> simp [hl, hb]

theorem isSome_replyTo? (h : Host) (limit : Nat) (hub : Hub) (s : Socket) (l : Bytes) :
    (hub.replyTo? h limit s l).isSome = l.text?.isSome := by
  cases ht : l.text?
  case none => simp only [replyTo?, Incoming.ofBytes, ht]; rfl
  case some t => rw [replyTo?_of_text ht]; rfl

theorem answerTo?_eq_none (hl : ¬l.text?.isSome) : hub.answerTo? h limit s l = none := by
  rw [← isSome_replyTo? h limit hub s, Option.not_isSome_iff_eq_none] at hl
  rw [answerTo?, hl]
  rfl

theorem offersOf_eq_nil (hr : hub.replyTo? h limit s l = none) :
    hub.offersOf h limit s l = [] := by
  rw [offersOf, answerTo?, hr, noticesOf]
  rw [replyTo?] at hr
  cases hi : Incoming.ofBytes limit l
  case unreadable => rfl
  all_goals rw [hi] at hr; cases hr

-- Of what a line puts before its sender one is an answer, if it has one.
theorem answersIn_offersOf (h : Host) (limit : Nat) (hub : Hub) (s : Socket) (l : Bytes) :
    answersIn (Offer.linesTo s.queue (hub.offersOf h limit s l)) =
      ((hub.answerTo? h limit s l).map Answer.render).toList := by
  have hn : answersIn (Offer.linesTo s.queue (hub.noticesOf h limit s l)) = [] := by
    refine answersIn_linesTo_eq_nil fun o ho _ => ?_
    rw [noticesOf] at ho
    split at ho
    case h_1 =>
      split at ho
      case h_1 => exact isNone_parse_of_mem_broadcasts ho
      case h_2 => cases ho
    case h_2 => cases ho
  rw [offersOf, Offer.linesTo_append, answersIn_append, hn, List.nil_append]
  cases hub.answerTo? h limit s l
  case none => rfl
  case some a => simp [Offer.linesTo, answersIn, Answer.parse_render, Except.toOption]

end Hub

-- What happens while a client is connected: it sends a line, or something happens elsewhere.
inductive Moment
  | line (l : Bytes)
  | event (x : Service.Event)

namespace Moment

def line? : Moment → Option Bytes
  | line l => some l
  | event _ => none

theorem filterMap_line (ls : List Bytes) : (ls.map line).filterMap line? = ls := by
  rw [List.filterMap_map]
  exact List.filterMap_some

-- Nobody else makes a request with this queue.
def Apart (k : String) : Moment → Prop
  | event (.call (.query _ s)) => s.queue ≠ k
  | _ => True

end Moment

-- A service with a connection, which may have ended.
structure Talk where
  service : Service
  alive : Bool

namespace Talk

variable {h : Host} {limit : Nat} {s : Socket} {k : String} {t : Talk} {m : Moment}
  {ms : List Moment}

def step (h : Host) (limit : Nat) (s : Socket) (t : Talk) : Moment → Talk
  | .event x => { t with service := t.service.step h x }
  | .line l =>
    if t.alive then
      match t.service.hear h limit s l with
      | some v => ⟨v, true⟩
      | none => ⟨t.service.hangUp s, false⟩
    else t

-- What the hub offers at a moment, and what the client takes in.
def sends (h : Host) (limit : Nat) (s : Socket) (t : Talk) : Moment → List Offer
  | .event x => t.service.sends h x
  | .line l => if t.alive then t.service.hub.offersOf h limit s l else []

def taken (t : Talk) (k : String) : Moment → List String
  | .event x => t.service.taken k x
  | .line _ => []

-- The line that is heard, with the hub that hears it. A line that is not text is not heard.
def hears (t : Talk) : Moment → List (Hub × Bytes)
  | .event _ => []
  | .line l => if t.alive ∧ l.text?.isSome then [(t.service.hub, l)] else []

def heard (h : Host) (limit : Nat) (s : Socket) : Talk → List Moment → List (Hub × Bytes)
  | _, [] => []
  | t, m :: ms => t.hears m ++ heard h limit s (t.step h limit s m) ms

-- The lines that the client has got by the end: those it took in and those that wait for it.
def received (h : Host) (limit : Nat) (s : Socket) : Talk → List Moment → List String
  | t, [] => t.service.queues.waiting s.queue
  | t, m :: ms => t.taken s.queue m ++ received h limit s (t.step h limit s m) ms

-- What the hub offers in a conversation.
def offered (h : Host) (limit : Nat) (s : Socket) : Talk → List Moment → List Offer
  | _, [] => []
  | t, m :: ms => t.sends h limit s m ++ offered h limit s (t.step h limit s m) ms

-- At no point is the queue of the client full or closed.
def NeverFull (h : Host) (limit : Nat) (s : Socket) : Talk → List Moment → Prop
  | t, [] => t.service.queues.hasRoom s.queue
  | t, m :: ms => t.service.queues.Roomy s.queue (t.sends h limit s m) ∧
      NeverFull h limit s (t.step h limit s m) ms

theorem NeverFull.hasRoom (hn : NeverFull h limit s t ms) :
    t.service.queues.hasRoom s.queue := by
  cases ms
  case nil => exact hn
  case cons => exact hn.left.hasRoom

theorem queues_step_line (h : Host) (limit : Nat) (s : Socket) (t : Talk) (l : Bytes) :
    (t.step h limit s (.line l)).service.queues =
      t.service.queues.offerAll (t.sends h limit s (.line l)) := by
  cases ha : t.alive
  case false => simp only [step, sends, ha]; rfl
  case true =>
    simp only [step, sends, ha, if_true, Service.hear_eq]
    cases ho : t.service.hub.replyTo? h limit s l
    case none => rw [Hub.offersOf_eq_nil ho]; rfl
    case some r => rfl

-- What the client takes in at a moment and what waits for it after that.
theorem taken_append_waiting (hr : t.service.queues.Roomy s.queue (t.sends h limit s m))
    (hs : (t.step h limit s m).service.queues.hasRoom s.queue) :
    t.taken s.queue m ++ (t.step h limit s m).service.queues.waiting s.queue =
      t.service.queues.waiting s.queue ++ Offer.linesTo s.queue (t.sends h limit s m) := by
  cases m
  case event x => exact Service.taken_append_waiting hr hs
  case line l => rw [queues_step_line, hr.waiting_offerAll, taken, List.nil_append]

-- Of the lines for the client those are answers that answer a line of its own.
theorem answersIn_sends (ha : m.Apart s.queue) :
    answersIn (Offer.linesTo s.queue (t.sends h limit s m)) =
      ((t.hears m).filterMap fun p => p.1.answerTo? h limit s p.2).map Answer.render := by
  cases m
  case line l =>
    cases hl : t.alive
    case false => simp [sends, hears, hl, Offer.linesTo, answersIn]
    case true =>
      simp only [sends, hears, hl, if_true, true_and, Hub.answersIn_offersOf]
      split
      case isTrue => cases ht : t.service.hub.answerTo? h limit s l <;> simp [ht]
      case isFalse hn => simp [Hub.answerTo?_eq_none hn]
  case event x =>
    refine Hub.answersIn_linesTo_eq_nil fun o ho hk => ?_
    cases x
    case call c =>
      rcases List.mem_append.mp ho with ho | ho
      case inl => exact Hub.isNone_parse_of_mem_broadcasts ho
      case inr =>
        cases c
        case query q s' =>
          obtain ⟨a, -, rfl⟩ := Option.map_eq_some_iff.mp (Option.mem_toList.mp ho)
          exact absurd hk ha
        all_goals cases ho
    all_goals cases ho

theorem alive_step (t : Talk) (l : Bytes) :
    (t.step h limit s (.line l)).alive = (t.alive && l.text?.isSome) := by
  rw [← Hub.isSome_replyTo? h limit t.service.hub s, step, Service.hear_eq]
  cases ha : t.alive
  case false => exact ha
  case true => cases t.service.hub.replyTo? h limit s l <;> rfl

-- The lines that are heard are those before the first that is not text.
theorem lines_heard (h : Host) (limit : Nat) (s : Socket) (t : Talk) (ms : List Moment) :
    (heard h limit s t ms).map Prod.snd =
      if t.alive then (ms.filterMap Moment.line?).takeWhile (·.text?.isSome) else [] := by
  induction ms generalizing t
  case nil => simp [heard]
  case cons m ms ih =>
    rw [heard, List.map_append, ih]
    cases m
    case event x => rfl
    case line l =>
      have hl : (Moment.line l :: ms).filterMap Moment.line? = l :: ms.filterMap Moment.line? := rfl
      rw [alive_step, hl, List.takeWhile_cons]
      cases ha : t.alive <;> cases ht : l.text?.isSome <;> simp [hears, ha, ht]

-- A client that takes nothing in finds in its queue what a whole connection leaves there.
theorem received_lines (h : Host) (limit : Nat) (v : Service) (s : Socket) (stream : Bytes) :
    received h limit s ⟨v, true⟩ (stream.lines.map .line) =
      (v.converse h limit s stream).queues.waiting s.queue := by
  have hd (v : Service) (ls : List Bytes) :
      received h limit s ⟨v, false⟩ (ls.map .line) = v.queues.waiting s.queue := by
    induction ls
    case nil => rfl
    case cons l ls ih => exact ih
  have hl (v : Service) (ls : List Bytes) :
      received h limit s ⟨v, true⟩ (ls.map .line) =
        (v.hearAll h limit s ls).1.queues.waiting s.queue := by
    induction ls generalizing v
    case nil => rfl
    case cons l ls ih =>
      rw [Service.hearAll]
      cases hv : v.hear h limit s l
      case none =>
        have hs : step h limit s ⟨v, true⟩ (.line l) = ⟨v.hangUp s, false⟩ := by simp [step, hv]
        rw [List.map_cons, received, hs, hd]
        rfl
      case some v' =>
        have hs : step h limit s ⟨v, true⟩ (.line l) = ⟨v', true⟩ := by simp [step, hv]
        rw [List.map_cons, received, hs, ih]
        rfl
  exact hl v stream.lines

-- A queue with more room than there are lines is never full.
theorem neverFull_of_capacity {q : Queue} {ls : List Bytes}
    (hq : Table.get? t.service.queues s.queue = some q) (ho : q.closed = false)
    (hl : q.lines.length + (offered h limit s t (ls.map .line)).length < q.capacity) :
    NeverFull h limit s t (ls.map .line) := by
  induction ls generalizing t q
  case nil => exact Queues.roomy_of_length hq ho hl [] List.nil_prefix
  case cons l ls ih =>
    rw [List.map_cons, offered, List.length_append] at hl
    obtain ⟨q', hq', hc', hcap, hl'⟩ := Queues.exists_offerAll hq ho (t.sends h limit s (.line l))
    rw [← queues_step_line] at hq'
    exact ⟨Queues.roomy_of_length hq ho (by omega), ih hq' hc' (by omega)⟩

-- The client gets what waited for it and what is offered to it.
theorem NeverFull.received_eq (hn : NeverFull h limit s t ms) :
    received h limit s t ms =
      t.service.queues.waiting s.queue ++ Offer.linesTo s.queue (offered h limit s t ms) := by
  induction ms generalizing t
  case nil => exact (List.append_nil _).symm
  case cons m ms ih =>
    have ⟨hr, hn⟩ := hn
    rw [received, ih hn, ← List.append_assoc, taken_append_waiting hr hn.hasRoom, offered,
      Offer.linesTo_append, List.append_assoc]

theorem answersIn_offered (ha : ∀ m ∈ ms, m.Apart s.queue) :
    answersIn (Offer.linesTo s.queue (offered h limit s t ms)) =
      ((heard h limit s t ms).filterMap fun p =>
        p.1.answerTo? h limit s p.2).map Answer.render := by
  induction ms generalizing t
  case nil => rfl
  case cons m ms ih =>
    have ⟨hm, ha⟩ := List.forall_mem_cons.mp ha
    rw [offered, heard, Offer.linesTo_append, answersIn_append, answersIn_sends hm, ih ha,
      List.filterMap_append, List.map_append]

theorem NeverFull.answersIn_received (hn : NeverFull h limit s t ms)
    (ha : ∀ m ∈ ms, m.Apart s.queue) :
    answersIn (received h limit s t ms) = answersIn (t.service.queues.waiting s.queue) ++
      ((heard h limit s t ms).filterMap fun p =>
        p.1.answerTo? h limit s p.2).map Answer.render := by
  rw [hn.received_eq, answersIn_append, answersIn_offered ha]

end Talk

namespace Hub

variable {h : Host} {limit : Nat} {hub : Hub} {q : Query} {s : Socket} {a : Answer} {l : Bytes}
  {t : String}

-- An answer has the id of its request.
theorem id_of_run (hr : (hub.run h q s).outcome = .ok a) : a.id = q.id? := by
  cases hq : q.message?
  case none =>
    have hs := asked h hub s hq
    generalize hub.run h q s = t at hs hr
    cases hs
    case refused => cases hr
    case heard => cases hr; rfl
    case told => cases hr; rfl
  case some m =>
    rw [run_eq_andThen hq, Turn.andThen] at hr
    split at hr
    case h_1 => cases hr
    case h_2 => cases hr; rfl

theorem id_of_handle (ha : (hub.handle h q s).answer = some a) : a.id = q.id? := by
  cases hr : (hub.run h q s).outcome
  case error f =>
    simp only [handle, hr] at ha
    cases ha
    rfl
  case ok b => exact answer_of_ok hr ha ▸ id_of_run hr

-- Requests that are not answered are notifications that have been carried out.
theorem answer_handle_eq_none : (hub.handle h q s).answer = none ↔
    q.method = .broadcast ∧ q.id? = none ∧ ∃ a, (hub.run h q s).outcome = .ok a := by
  have hm (hi : q.id? = none) : q.method = .broadcast := by
    cases q <;> first | rfl | cases hi
  cases hr : (hub.run h q s).outcome
  case error f => simp [handle, hr]
  case ok a =>
    by_cases hi : q.id? = none
    case pos => simp [handle, hr, hi, hm hi]
    case neg => simp [handle, hr, hi]

theorem answerTo?_of_text (ht : l.text? = some t) :
    hub.answerTo? h limit s l =
      if limit < l.length then some (.fault none (Service.overlong limit))
      else if Text.trim t = "" then none
      else (hub.handleLine h (Text.trim t) s).answer := by
  rw [answerTo?, replyTo?_of_text ht, Option.bind_some, apply_ite Reply.answer,
    apply_ite Reply.answer]

theorem answerTo?_eq_none_iff (ht : l.text? = some t) :
    hub.answerTo? h limit s l = none ↔ l.length ≤ limit ∧ (Text.trim t = "" ∨
      ∃ q a, Query.parse (Text.trim t) = .ok q ∧ q.method = .broadcast ∧ q.id? = none ∧
        (hub.run h q s).outcome = .ok a) := by
  rw [answerTo?_of_text ht]
  by_cases hl : limit < l.length
  case pos => simp [hl, Nat.not_le.mpr hl]
  case neg =>
    by_cases hb : Text.trim t = ""
    case pos => simp [hl, hb, Nat.not_lt.mp hl]
    case neg =>
      cases hq : Query.parse (Text.trim t)
      case error f => simp [hl, hb, handleLine, hq]
      case ok q => simp [hl, hb, handleLine, hq, answer_handle_eq_none, Nat.not_lt.mp hl]

-- The answer to a line has the id of the request that it is, if it is one.
theorem id_of_answerTo? (ht : l.text? = some t) (ha : hub.answerTo? h limit s l = some a) :
    a.id =
      if limit < l.length then none else (Query.parse (Text.trim t)).toOption.bind Query.id? := by
  rw [answerTo?_of_text ht] at ha
  by_cases hl : limit < l.length
  case pos =>
    rw [if_pos hl] at ha ⊢
    cases ha
    rfl
  case neg =>
    rw [if_neg hl] at ha ⊢
    split at ha
    case isTrue => cases ha
    case isFalse =>
      rw [handleLine] at ha
      split at ha
      case h_1 f hq =>
        rw [hq]
        cases ha
        rfl
      case h_2 q hq =>
        rw [hq]
        exact id_of_handle ha

end Hub

-- A client sends the lines of a stream, and its queue is never full. Up to the first line that is
-- not text every line is heard, and the answers among what the client gets are, after those that
-- were there before, the answers to these lines, in order. A line has one answer at most, with the
-- id of the request that it is, or none if it is too long or no request. It goes without only if
-- it is blank or a notification that is carried out.
theorem Service.lines_are_answered_in_order (h : Host) (limit : Nat) (v : Service) (s : Socket)
    (stream : Bytes) (ms : List Moment) (hs : ms.filterMap Moment.line? = stream.lines)
    (ha : ∀ m ∈ ms, m.Apart s.queue) (hn : Talk.NeverFull h limit s ⟨v, true⟩ ms) :
    stream.lines.flatten = stream ∧ Bytes.AreLines stream.lines ∧
    (Talk.heard h limit s ⟨v, true⟩ ms).map Prod.snd =
      stream.lines.takeWhile (·.text?.isSome) ∧
    answersIn (Talk.received h limit s ⟨v, true⟩ ms) = answersIn (v.queues.waiting s.queue) ++
      ((Talk.heard h limit s ⟨v, true⟩ ms).filterMap fun p =>
        p.1.answerTo? h limit s p.2).map Answer.render ∧
    ∀ (hub : Hub) l t, Bytes.text? l = some t →
      (hub.answerTo? h limit s l = none ↔ l.length ≤ limit ∧ (Text.trim t = "" ∨
        ∃ q a, Query.parse (Text.trim t) = .ok q ∧ q.method = .broadcast ∧ q.id? = none ∧
          (hub.run h q s).outcome = .ok a)) ∧
      ∀ a, hub.answerTo? h limit s l = some a → a.id =
        if limit < l.length then none
        else (Query.parse (Text.trim t)).toOption.bind Query.id? := by
  refine ⟨Bytes.flatten_lines stream, Bytes.areLines_lines stream, ?lines,
    hn.answersIn_received ha,
    fun hub l t ht => ⟨Hub.answerTo?_eq_none_iff ht, fun a => Hub.id_of_answerTo? ht⟩⟩
  case lines => rw [Talk.lines_heard, if_pos rfl, hs]

namespace Trial

-- A line that is no request, a blank one, and a request that fails.
def babble : Bytes :=
  Bytes.ofText
    "x\n\n\x7b\"method\":\"catchup\",\"id\":6,\"params\":\x7b\"channel\":\"/\"\x7d\x7d"

def lounge : Service :=
  ⟨.empty, [("q", .empty 8)]⟩

end Trial

open Trial in
theorem Service.lines_are_answered_babble :
    Talk.NeverFull host 100 listener ⟨lounge, true⟩ (babble.lines.map .line) ∧
      ∃ f g, answersIn ((lounge.converse host 100 listener babble).queues.waiting "q") =
        [(Answer.fault none f).render, (Answer.fault (some 6) g).render] := by
  have hq : Table.get? lounge.queues listener.queue = some (.empty 8) := rfl
  have hn : Talk.NeverFull host 100 listener ⟨lounge, true⟩ (babble.lines.map .line) :=
    Talk.neverFull_of_capacity hq rfl (by decide +kernel)
  have hm := Moment.filterMap_line babble.lines
  have ha : ∀ m ∈ babble.lines.map Moment.line, m.Apart listener.queue :=
    List.forall_mem_map.mpr fun _ _ => trivial
  have ⟨_, _, _, hr, _⟩ := lines_are_answered_in_order host 100 lounge listener babble _ hm ha hn
  rw [Talk.received_lines] at hr
  have he : ((Talk.heard host 100 listener ⟨lounge, true⟩ (babble.lines.map .line)).filterMap
      fun p => p.1.answerTo? host 100 listener p.2).map Answer.render =
      [(Answer.fault none (.decode s!"invalid JSON-RPC request: {Unreadable.json.text}")).render,
        (Answer.fault (some 6) (.unknownChannel "/")).render] := by
    decide +kernel
  exact ⟨hn, _, _, hr.trans he⟩

-- A line that is not text, and one that is no request.
def Trial.garbled : Bytes :=
  [255, 10, 120, 10]

-- A line that is not text is not answered, and neither is any line after it.
open Trial in
theorem Service.line_that_is_not_text_ends_it :
    Talk.NeverFull host 100 listener ⟨lounge, true⟩ (garbled.lines.map .line) ∧
      garbled.lines = [[255, 10], [120, 10]] ∧
      (∀ l ∈ garbled.lines, Incoming.ofBytes 100 l ≠ .blank) ∧
      (lounge.converse host 100 listener garbled).queues.waiting "q" = [] := by
  have hq : Table.get? lounge.queues listener.queue = some (.empty 8) := rfl
  exact ⟨Talk.neverFull_of_capacity hq rfl (by decide +kernel), by decide +kernel,
    by decide +kernel, by decide +kernel⟩

end Plenum
