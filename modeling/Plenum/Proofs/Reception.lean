import Plenum.Proofs.Broadcast

namespace Plenum

-- The lines for one queue.
def Offer.linesTo (k : String) (os : List Offer) : List String :=
  (os.filter (·.socket.queue = k)).map Offer.line

namespace Offer

variable {k : String}

theorem linesTo_append (os os' : List Offer) :
    linesTo k (os ++ os') = linesTo k os ++ linesTo k os' := by
  rw [linesTo, List.filter_append, List.map_append]
  rfl

theorem linesTo_cons (o : Offer) (os : List Offer) :
    linesTo k (o :: os) = (if o.socket.queue = k then [o.line] else []) ++ linesTo k os := by
  by_cases ho : o.socket.queue = k <;> simp [linesTo, ho]

theorem mem_linesTo {o : Offer} {os : List Offer} (ho : o ∈ os) (hk : o.socket.queue = k) :
    o.line ∈ linesTo k os :=
  List.mem_map_of_mem (List.mem_filter.mpr ⟨ho, decide_eq_true hk⟩)

end Offer

namespace Queues

variable {qs : Queues} {k : String} {q : Queue} {o : Offer} {os : List Offer}

-- Changes a queue, if it is there.
def change (qs : Queues) (k : String) (f : Queue → Queue) : Queues :=
  match Table.get? qs k with
  | some q => Table.insert qs k (f q)
  | none => qs

theorem get?_change (qs : Queues) (j k : String) (f : Queue → Queue) :
    Table.get? (qs.change j f) k =
      if j = k then (Table.get? qs k).map f else Table.get? qs k := by
  rw [change]
  split
  case h_1 q hq =>
    rw [Table.get?_insert]
    split
    case isTrue hj => rw [← hj, hq, Option.map_some]
    case isFalse => rfl
  case h_2 hq =>
    split
    case isTrue hj => rw [← hj, hq, Option.map_none]
    case isFalse => rfl

-- The lines that wait in a queue.
def waiting (qs : Queues) (k : String) : List String :=
  (Table.get? qs k).elim [] Queue.lines

theorem waiting_change (qs : Queues) (j k : String) (f : Queue → Queue) :
    (qs.change j f).waiting k =
      if j = k then (Table.get? qs k).elim [] fun q => (f q).lines else qs.waiting k := by
  rw [waiting, get?_change]
  split
  case isTrue => cases Table.get? qs k <;> rfl
  case isFalse => rfl

def offerAll (qs : Queues) (os : List Offer) : Queues :=
  qs.deliverAll (os.map Offer.delivery)

theorem offerAll_cons (qs : Queues) (o : Offer) (os : List Offer) :
    qs.offerAll (o :: os) = (qs.deliver o.delivery).offerAll os :=
  rfl

theorem get?_deliver (qs : Queues) (d : Delivery) (k : String) :
    Table.get? (qs.deliver d) k =
      if d.queue = k then (Table.get? qs k).map (·.offer d.line) else Table.get? qs k :=
  get?_change qs d.queue k (·.offer d.line)

-- A line that is offered waits at the end, if there is room.
theorem waiting_deliver (qs : Queues) (o : Offer) (k : String) :
    (qs.deliver o.delivery).waiting k =
      qs.waiting k ++ if o.socket.queue = k ∧ qs.hasRoom k then [o.line] else [] := by
  simp only [waiting, get?_deliver, hasRoom, Offer.delivery]
  by_cases ho : o.socket.queue = k
  case pos =>
    rcases Option.eq_none_or_eq_some (Table.get? qs k) with hq | ⟨q, hq⟩
    case inl => simp [ho, hq]
    case inr => by_cases hr : q.hasRoom <;> simp [ho, hq, hr, Queue.offer]
  case neg => simp [ho]

theorem waiting_offerAll_sublist (qs : Queues) (os : List Offer) (k : String) :
    ((qs.offerAll os).waiting k).Sublist (qs.waiting k ++ Offer.linesTo k os) := by
  induction os generalizing qs
  case nil => exact List.sublist_append_left ..
  case cons o os ih =>
    refine (ih (qs.deliver o.delivery)).trans ?_
    rw [waiting_deliver, Offer.linesTo_cons, List.append_assoc]
    refine .append_left (.append_right ?_ _) _
    split
    case isTrue ho => rw [if_pos ho.left]
    case isFalse => exact List.nil_sublist _

-- The queue has room before, while and after it is offered some lines.
def Roomy (qs : Queues) (k : String) (os : List Offer) : Prop :=
  ∀ pre, pre <+: os → (qs.offerAll pre).hasRoom k

theorem Roomy.hasRoom (hr : qs.Roomy k os) : qs.hasRoom k :=
  hr [] List.nil_prefix

theorem Roomy.tail (hr : qs.Roomy k (o :: os)) : (qs.deliver o.delivery).Roomy k os :=
  fun pre hp => hr (o :: pre) (List.prefix_cons_iff.mpr (.inr ⟨pre, rfl, hp⟩))

theorem Roomy.waiting_offerAll (hr : qs.Roomy k os) :
    (qs.offerAll os).waiting k = qs.waiting k ++ Offer.linesTo k os := by
  induction os generalizing qs
  case nil => exact (List.append_nil _).symm
  case cons o os ih =>
    rw [offerAll_cons, ih hr.tail, waiting_deliver, Offer.linesTo_cons, List.append_assoc]
    simp only [hr.hasRoom, and_true]

-- A queue that nobody closes takes in at most what it is offered.
theorem exists_offerAll (hq : Table.get? qs k = some q) (ho : q.closed = false)
    (os : List Offer) :
    ∃ q', Table.get? (qs.offerAll os) k = some q' ∧ q'.closed = false ∧
      q'.capacity = q.capacity ∧ q'.lines.length ≤ q.lines.length + os.length := by
  induction os generalizing qs q
  case nil => exact ⟨q, hq, ho, rfl, Nat.le_refl _⟩
  case cons o os ih =>
    have hd := get?_deliver qs o.delivery k
    simp only [hq, Option.map_some] at hd
    split at hd
    case isTrue =>
      have hc : (q.offer o.delivery.line).closed = false ∧
          (q.offer o.delivery.line).capacity = q.capacity ∧
          (q.offer o.delivery.line).lines.length ≤ q.lines.length + 1 := by
        unfold Queue.offer
        split <;> simp [ho]
      obtain ⟨q', hq', hc', hcap, hl⟩ := ih hd hc.left
      refine ⟨q', hq', hc', hcap.trans hc.right.left, ?_⟩
      have := hc.right.right
      rw [List.length_cons]
      omega
    case isFalse =>
      obtain ⟨q', hq', hc', hcap, hl⟩ := ih hd ho
      exact ⟨q', hq', hc', hcap, by rw [List.length_cons]; omega⟩

theorem roomy_of_length (hq : Table.get? qs k = some q) (ho : q.closed = false)
    (hl : q.lines.length + os.length < q.capacity) : qs.Roomy k os := by
  intro pre hp
  obtain ⟨q', hq', hc', hcap, hl'⟩ := exists_offerAll hq ho pre
  have := hp.length_le
  have hr : q'.lines.length < q'.capacity := by omega
  simp only [hasRoom, hq', Queue.hasRoom, hc', hr]
  decide

end Queues

namespace Service

variable {h : Host} {v : Service} {k : String}

-- What happens around a hub: a call, a client that takes in some of the lines that wait for it,
-- and one that is gone.
inductive Event
  | call (c : Hub.Call)
  | receive (queue : String) (n : Nat)
  | close (queue : String)

def Event.call? : Event → Option Hub.Call
  | .call c => some c
  | _ => none

-- What the hub offers at an event.
def sends (h : Host) (v : Service) : Event → List Offer
  | .call c => v.hub.offers h c
  | _ => []

def step (h : Host) (v : Service) : Event → Service
  | .call (.query q s) => v.take (v.hub.handle h q s) s
  | .call c => { v with hub := v.hub.step h c }
  | .receive k n =>
    { v with queues := v.queues.change k fun q => { q with lines := q.lines.drop n } }
  | .close k => { v with queues := v.queues.change k Queue.close }

def run (h : Host) (v : Service) (events : List Event) : Service :=
  events.foldl (step h) v

theorem step_call (h : Host) (v : Service) (c : Hub.Call) :
    v.step h (.call c) = ⟨v.hub.step h c, v.queues.offerAll (v.hub.offers h c)⟩ := by
  cases c
  case query q s =>
    rw [Queues.offerAll, Hub.delivery_offers]
    rfl
  all_goals rfl

theorem waiting_close (h : Host) (v : Service) (j k : String) :
    (v.step h (.close j)).queues.waiting k = if j = k then [] else v.queues.waiting k := by
  rw [step, Queues.waiting_change]
  cases Table.get? v.queues k <;> rfl

theorem ne_of_hasRoom_close {j : String} (hs : (v.step h (.close j)).queues.hasRoom k) :
    j ≠ k := by
  rintro rfl
  simp only [step, Queues.hasRoom, Queues.get?_change, if_true] at hs
  cases hq : Table.get? v.queues j <;> simp [hq, Queue.close, Queue.hasRoom] at hs

-- The lines that a client takes in at an event, and those that it has got by the end of a run: the
-- lines it took in and those that still wait for it.
def taken (v : Service) (k : String) : Event → List String
  | .receive j n => if j = k then (v.queues.waiting k).take n else []
  | _ => []

def received (h : Host) (k : String) : Service → List Event → List String
  | v, [] => v.queues.waiting k
  | v, x :: events => v.taken k x ++ received h k (v.step h x) events

-- At no point of a run is the queue full or closed.
def NeverFull (h : Host) (k : String) : Service → List Event → Prop
  | v, [] => v.queues.hasRoom k
  | v, x :: events => v.queues.Roomy k (v.sends h x) ∧ NeverFull h k (v.step h x) events

theorem NeverFull.hasRoom {events : List Event} (hn : NeverFull h k v events) :
    v.queues.hasRoom k := by
  cases events
  case nil => exact hn
  case cons => exact hn.left.hasRoom

-- What the hub offers in a run, whatever becomes of it.
def offers (h : Host) (hub : Hub) (events : List Event) : List Offer :=
  Hub.offered h hub (events.filterMap Event.call?)

theorem offers_cons (h : Host) (v : Service) (x : Event) (events : List Event) :
    offers h v.hub (x :: events) = v.sends h x ++ offers h (v.step h x).hub events := by
  cases x
  case call c => rw [step_call]; rfl
  all_goals rfl

theorem taken_receive (h : Host) (v : Service) (j k : String) (n : Nat) :
    v.taken k (.receive j n) ++ (v.step h (.receive j n)).queues.waiting k =
      v.queues.waiting k := by
  simp only [taken, step, Queues.waiting_change]
  split
  case isTrue => cases hq : Table.get? v.queues k <;> simp [Queues.waiting, hq]
  case isFalse => rfl

-- What a client takes in at an event and what waits for it after that.
theorem taken_append_waiting_sublist (h : Host) (v : Service) (k : String) (x : Event) :
    (v.taken k x ++ (v.step h x).queues.waiting k).Sublist
      (v.queues.waiting k ++ Offer.linesTo k (v.sends h x)) := by
  cases x
  case call c =>
    rw [step_call]
    exact v.queues.waiting_offerAll_sublist _ k
  case receive =>
    rw [taken_receive]
    exact List.sublist_append_left ..
  case close =>
    rw [waiting_close]
    split
    case isTrue => exact List.nil_sublist _
    case isFalse => exact List.sublist_append_left ..

theorem taken_append_waiting {x : Event} (hr : v.queues.Roomy k (v.sends h x))
    (hs : (v.step h x).queues.hasRoom k) :
    v.taken k x ++ (v.step h x).queues.waiting k =
      v.queues.waiting k ++ Offer.linesTo k (v.sends h x) := by
  cases x
  case call c =>
    rw [step_call]
    exact hr.waiting_offerAll
  case receive =>
    rw [taken_receive]
    exact (List.append_nil _).symm
  case close =>
    rw [waiting_close, if_neg (ne_of_hasRoom_close hs)]
    exact (List.append_nil _).symm

theorem received_sublist (h : Host) (k : String) (v : Service) (events : List Event) :
    (received h k v events).Sublist
      (v.queues.waiting k ++ Offer.linesTo k (offers h v.hub events)) := by
  induction events generalizing v
  case nil => exact List.sublist_append_left ..
  case cons x events ih =>
    rw [received, offers_cons, Offer.linesTo_append, ← List.append_assoc]
    have hx := (v.taken_append_waiting_sublist h k x).append_right
      (Offer.linesTo k (offers h (v.step h x).hub events))
    refine .trans ?_ hx
    rw [List.append_assoc]
    exact (ih (v.step h x)).append_left _

theorem NeverFull.received_eq {events : List Event} (hn : NeverFull h k v events) :
    received h k v events =
      v.queues.waiting k ++ Offer.linesTo k (offers h v.hub events) := by
  induction events generalizing v
  case nil => exact (List.append_nil _).symm
  case cons x events ih =>
    have ⟨hr, hn⟩ := hn
    rw [received, ih hn, ← List.append_assoc, taken_append_waiting hr hn.hasRoom, offers_cons,
      Offer.linesTo_append, List.append_assoc]

theorem hub_run (h : Host) (v : Service) (events : List Event) :
    (v.run h events).hub = (events.filterMap Event.call?).foldl (Hub.step h) v.hub := by
  induction events generalizing v
  case nil => rfl
  case cons x events ih =>
    refine (ih (v.step h x)).trans ?_
    cases x
    case call c => rw [step_call]; rfl
    all_goals rfl

-- A queue with more room than there are lines is never full.
theorem neverFull_of_capacity {q : Queue} {calls : List Hub.Call} {hub : Hub} {qs : Queues}
    (hq : Table.get? qs k = some q) (ho : q.closed = false)
    (hl : q.lines.length + (Hub.offered h hub calls).length < q.capacity) :
    NeverFull h k ⟨hub, qs⟩ (calls.map .call) := by
  induction calls generalizing hub qs q
  case nil => exact Queues.roomy_of_length hq ho hl [] List.nil_prefix
  case cons c calls ih =>
    rw [Hub.offered, List.length_append] at hl
    obtain ⟨q', hq', hc', hcap, hl'⟩ := Queues.exists_offerAll hq ho (hub.offers h c)
    have hr : qs.Roomy k (hub.offers h c) := Queues.roomy_of_length hq ho (by omega)
    have hn : q'.lines.length + (Hub.offered h (hub.step h c) calls).length < q'.capacity := by
      omega
    exact ⟨hr, step_call h ⟨hub, qs⟩ c ▸ ih hq' hc' hn⟩

end Service

-- What the hub offers at a request goes to the queues as it is, the answer after the broadcasts.
-- What it offers of a channel to the sockets of a name is, line by line, what came into the log
-- while the name listened, and that stands in the log once and in the same order. No offer is
-- about a setup. Whatever the clients do, the hub goes its way, and a queue that is empty at first
-- hands out a part of what it is offered, in order, and all of it if it is never full or closed.
theorem Hub.broadcasts_follow_log (h : Host) (calls : List Call) :
    (∀ hub : Hub, ∀ q s,
      (hub.offers h (.query q s)).map Offer.delivery = (hub.handle h q s).deliveries s ∧
        ∃ bs, (∀ o ∈ bs, o.notice?.isSome) ∧ hub.offers h (.query q s) =
          bs ++ ((hub.handle h q s).answer.map fun a => ⟨s, a.render⟩).toList) ∧
    (∀ path id,
      (offered h empty calls).filter (Offer.IsFor path id) =
          (heard h path id empty none calls).map (Offer.ofMessage path id) ∧
        ((heard h path id empty none calls).map Prod.snd).Sublist ((after h calls).logAt path) ∧
        (((after h calls).logAt path).map Message.id).Nodup) ∧
    (∀ o ∈ offered h empty calls, ∀ path m, o.notice? = some (path, m) →
      m.kind? ≠ some .setup) ∧
    ∀ qs k capacity events, Table.get? qs k = some (.empty capacity) →
      events.filterMap Service.Event.call? = calls →
      (Service.run h ⟨empty, qs⟩ events).hub = after h calls ∧
        (Service.received h k ⟨empty, qs⟩ events).Sublist
          (Offer.linesTo k (offered h empty calls)) ∧
        (Service.NeverFull h k ⟨empty, qs⟩ events →
          Service.received h k ⟨empty, qs⟩ events = Offer.linesTo k (offered h empty calls)) := by
  refine ⟨fun hub q s => ⟨hub.delivery_offers h q s, ?_⟩, fun path id => ?_,
    fun o ho path m => not_setup_of_mem_offered ho, fun qs k capacity events hq hc => ?_⟩
  case refine_1 =>
    refine ⟨hub.broadcasts h (.query q s), fun o ho => ?_, rfl⟩
    obtain ⟨_, _, _, _, -, -, -, -, hn⟩ := notice?_of_mem_broadcasts ho
    rw [hn]
    rfl
  case refine_2 =>
    have ht : Tuned (after h []) path id none := rfl
    obtain ⟨new, hn, hs⟩ := heard_sublist h path id [] calls none
    have hn : (after h calls).logAt path = new := hn
    exact ⟨filter_offered ht calls, hn ▸ hs, nodup_logAt h calls path⟩
  case refine_3 =>
    subst hc
    have hw : Queues.waiting qs k = [] := by rw [Queues.waiting, hq]; rfl
    have hs := Service.received_sublist h k ⟨empty, qs⟩ events
    rw [hw] at hs
    refine ⟨Service.hub_run h ⟨empty, qs⟩ events, hs, fun hn => ?_⟩
    rw [hn.received_eq, hw]
    rfl

namespace Trial

def listener : Socket :=
  ⟨"s", "q"⟩

-- A request to listen at an election.
def listen (name : String) : Hub.Call :=
  .query (.subscribe protocolVersion 1 (path name)) listener

theorem step_listen {hub : Hub} {name : String} {e : Election}
    (he : Table.get? hub.elections (path name) = some e) :
    hub.step host (listen name) =
      hub.setElection (path name) { e with sockets := e.sockets.add listener } := by
  rw [listen, Hub.step, Hub.handle_hub, Hub.state_run_of_no_message rfl]
  simp only [Query.channel, he, Hub.Call.listen, if_true]

-- An election is set up, listened to and opened.
def subscribe : Hub.Call :=
  .query (.subscribe protocolVersion 1 (path "A")) ⟨"s", "q"⟩

def setUpA : Hub.Call :=
  publish (Path.lao "L") (message 0 (.setup (ask "A" .plurality)))

def listenRun : List Hub.Call :=
  [register, setUpA, subscribe, publish (path "A") (message 1 (.opening (opening "A")))]

def listened : Election :=
  { founded "A" .plurality 0 with sockets := [("s", "q")] }

theorem conducted_listened : Conducted "A" .plurality .created [1] listened :=
  have hc := conducted_founded "A" .plurality (n := 0) (by decide)
  ⟨hc.lao_eq, hc.id_eq, hc.start_eq, hc.end_eq, hc.pending_eq, hc.asked, hc.phase_eq, hc.marked⟩

theorem step_subscribe :
    Hub.step host ⟨[("L", lao)], [(path "A", founded "A" .plurality 0)]⟩ subscribe =
      ⟨[("L", lao)], [(path "A", listened)]⟩ := by
  have he : Table.get? [(path "A", founded "A" .plurality 0)] (path "A") =
      some (founded "A" .plurality 0) := get?_path ..
  have hs : subscribe = listen "A" := rfl
  rw [hs, step_listen he, Hub.setElection, insert_path]
  rfl

theorem added_opening :
    Hub.added host ⟨[("L", lao)], [(path "A", listened)]⟩
      (publish (path "A") (message 1 (.opening (opening "A")))) (path "A") =
        [message 1 (.opening (opening "A"))] := by
  have he : Table.get? (Hub.mk [("L", lao)] [(path "A", listened)]).elections (path "A") =
      some listened := get?_path ..
  have ha := conducted_listened.admits (n := 1) (p := .opening (opening "A")) rfl (by decide)
    (by decide) (conducted_listened.judge_opening 1)
  have hs := Hub.get?_step_of_said (h := host) he rfl
    (Reaches.says_publish _ (message 1 (.opening (opening "A"))))
  rw [ha.process_eq] at hs
  rw [Hub.added, Hub.logAt_eq hs, Hub.logAt_eq he]
  exact List.drop_left

theorem step_register : Hub.step host Hub.empty register = ⟨[("L", lao)], []⟩ :=
  Reaches.nil.after_eq

theorem step_setUpA :
    Hub.step host ⟨[("L", lao)], []⟩ setUpA =
      ⟨[("L", lao)], [(path "A", founded "A" .plurality 0)]⟩ := by
  have hr : Reaches ([register] ++ [setUpA]) [(path "A", founded "A" .plurality 0)] :=
    Reaches.nil.founded .plurality rfl rfl
  rw [← hr.after_eq, Hub.after_concat, Reaches.nil.after_eq]

theorem heard_listenRun :
    Hub.heard host (path "A") "s" Hub.empty none listenRun =
      [("q", message 1 (.opening (opening "A")))] := by
  have hn : Table.get? Hub.empty.elections (path "A") = none := rfl
  have ht : Hub.Call.tune (path "A") "s" none subscribe = some "q" := by
    simp [subscribe, Hub.Call.tune]
  simp [listenRun, Hub.heard, step_register, step_setUpA, step_subscribe, added_opening, get?_path,
    hn, ht]

-- The opening as a request, and the calls before it.
def openingOfA : Query :=
  .publish protocolVersion 0 (path "A") (message 1 (.opening (opening "A")))

def listening : List Hub.Call :=
  [register, setUpA, subscribe]

theorem after_listening :
    Hub.after host listening = ⟨[("L", lao)], [(path "A", listened)]⟩ := by
  simp only [listening, Hub.after, List.foldl_cons, List.foldl_nil, step_register, step_setUpA,
    step_subscribe]

end Trial

open Trial in
theorem Hub.broadcasts_follow_log_listenRun :
    ∃ o : Offer, o.notice? = some (path "A", message 1 (.opening (opening "A"))) ∧
      (offered host empty listenRun).filter (Offer.IsFor (path "A") "s") = [o] ∧
      ∃ qs, Service.NeverFull host "q" ⟨empty, qs⟩ (listenRun.map .call) ∧
        o.line ∈ Service.received host "q" ⟨empty, qs⟩ (listenRun.map .call) := by
  have ⟨_, hf, _, hr⟩ := broadcasts_follow_log host listenRun
  have hf := (hf (path "A") "s").left
  rw [heard_listenRun, List.map_singleton] at hf
  have ⟨capacity, hl⟩ : ∃ n, (offered host empty listenRun).length < n := ⟨_, Nat.lt_succ_self _⟩
  have hn : Service.NeverFull host "q" ⟨empty, [("q", .empty capacity)]⟩ (listenRun.map .call) :=
    Service.neverFull_of_capacity rfl rfl (by simpa [Queue.empty] using hl)
  have hc : (listenRun.map Service.Event.call).filterMap Service.Event.call? = listenRun := rfl
  have hm := List.mem_singleton_self
    (Offer.ofMessage (path "A") "s" ("q", message 1 (.opening (opening "A"))))
  rw [← hf] at hm
  have hl := Offer.mem_linesTo (k := "q") (List.mem_of_mem_filter hm) rfl
  rw [← (hr _ "q" _ _ rfl hc).right.right hn] at hl
  exact ⟨_, Offer.notice?_ofMessage (path "A") "s" ("q", _), hf, _, hn, hl⟩

-- Requests, messages and answers are read back from their lines as they were, whatever their texts
-- are. So each line that a hub sends because of a request goes to someone who listens at its
-- channel, and is read there as a broadcast of a message that stands in the log.
theorem Hub.lines_read_back (h : Host) (calls : List Call) :
    (∀ q : Query, Query.parse q.render = .ok q) ∧
    (∀ m : Message, Message.read? m.render = some m) ∧
    (∀ a : Answer, Answer.read? a.render = some a) ∧
    ∀ q s, ∀ d ∈ ((after h calls).handle h q s).sent, ∃ e m,
      Table.get? ((after h calls).handle h q s).hub.elections q.channel = some e ∧
        m ∈ e.inbox.messages ∧ (∃ id, (id, d.queue) ∈ e.sockets) ∧
        Query.parse d.line = .ok (.broadcast protocolVersion none q.channel m) := by
  refine ⟨Query.parse_render, Message.read?_render, Answer.read?_render, fun q s d hd => ?_⟩
  have ⟨e, m, he, hm, hs, hl⟩ := notification_of_mem_sent hd
  exact ⟨e, m, he, hm, hs, hl ▸ Query.parse_render _⟩

open Trial in
theorem Hub.lines_read_back_opening :
    ∃ line, ((after host listening).handle host openingOfA listener).sent = [⟨"q", line⟩] ∧
      ∃ m, Query.parse line = .ok (.broadcast protocolVersion none (path "A") m) := by
  have he : Table.get? (after host listening).elections openingOfA.channel = some listened := by
    rw [after_listening]
    exact get?_path ..
  have ha := added_opening
  rw [← after_listening] at ha
  have hs : ((after host listening).handle host openingOfA listener).sent =
      [⟨"q", listened.announcement (message 1 (.opening (opening "A")))⟩] :=
    (handle_announces host listener he).left.trans (congrArg (List.flatMap listened.announce) ha)
  have ⟨_, _, _, hl⟩ := lines_read_back host listening
  have ⟨_, m, _, _, _, hp⟩ := hl openingOfA listener _ (hs ▸ List.mem_singleton_self _)
  exact ⟨_, hs, m, hp⟩

end Plenum
