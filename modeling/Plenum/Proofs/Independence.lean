import Plenum.Proofs.Reception

namespace Plenum

-- What a turn ends with does not depend on what its state is a part of.
theorem Turn.within_andThen {σ τ α β : Type} (t : Turn σ α) (put : σ → τ) (b : β) :
    ((t.within put).andThen fun s _ => .done s b) =
      (t.andThen fun s _ => .done s b).within put := by
  cases ho : t.outcome <;> simp only [andThen, within, done, ho]

namespace Queue

-- How many more lines are taken in.
def room (q : Queue) : Nat :=
  if q.closed then 0 else q.capacity - q.lines.length

-- Of the lines that are offered, the first are taken in.
def fill (q : Queue) (lines : List String) : Queue :=
  { q with lines := q.lines ++ lines.take q.room }

theorem hasRoom_eq (q : Queue) : q.hasRoom = decide (0 < q.room) := by
  rw [hasRoom, room]
  cases q.closed
  case true => rfl
  case false => exact decide_eq_decide.mpr Nat.sub_pos_iff_lt.symm

theorem fill_offer (q : Queue) (l : String) (ls : List String) :
    (q.offer l).fill ls = q.fill (l :: ls) := by
  rw [offer, hasRoom_eq]
  cases hr : q.room
  case zero => simp [fill, hr]
  case succ n =>
    have hn : room { q with lines := q.lines ++ [l] } = n := by
      unfold room at hr ⊢
      split at hr
      case isTrue => cases hr
      case isFalse hc =>
        simp only [if_neg hc, List.length_append, List.length_singleton]
        omega
    simp [fill, hr, hn]

theorem fill_fill (q : Queue) (ls ls' : List String) :
    (q.fill ls).fill ls' = q.fill (ls ++ ls') := by
  induction ls generalizing q
  case nil => simp [fill, room]
  case cons l ls ih => rw [← fill_offer, ih, fill_offer, List.cons_append]

theorem fill_empty (capacity : Nat) (lines : List String) :
    (empty capacity).fill lines = ⟨capacity, lines.take capacity, false⟩ :=
  rfl

theorem perm_lines_of_room {q : Queue} {ls ls' : List String} (hl : (ls ++ ls').length ≤ q.room) :
    (q.fill (ls ++ ls')).lines.Perm (q.fill (ls' ++ ls)).lines := by
  have hp : (ls ++ ls').Perm (ls' ++ ls) := List.perm_append_comm
  simp only [fill, List.take_of_length_le hl, List.take_of_length_le (hp.length_eq ▸ hl)]
  exact hp.append_left _

end Queue

-- The lines for one queue.
def Delivery.linesTo (k : String) (ds : List Delivery) : List String :=
  (ds.filter (·.queue = k)).map Delivery.line

theorem Queues.get?_deliverAll (qs : Queues) (ds : List Delivery) (k : String) :
    Table.get? (qs.deliverAll ds) k = (Table.get? qs k).map (·.fill (Delivery.linesTo k ds)) := by
  induction ds generalizing qs
  case nil =>
    change Table.get? qs k = (Table.get? qs k).map (·.fill [])
    cases Table.get? qs k <;> simp [Queue.fill]
  case cons d ds ih =>
    refine (ih (qs.deliver d)).trans ?_
    rw [get?_deliver]
    by_cases hd : d.queue = k
    case pos => cases Table.get? qs k <;> simp [hd, Delivery.linesTo, Queue.fill_offer]
    case neg => simp [hd, Delivery.linesTo]

namespace Hub

variable {h : Host} {hub hub' : Hub} {q : Query} {s : Socket} {e : Election} {path : String}

-- What comes of a request at an election.
theorem exists_run_eq (h : Host) (laos : Table Lao) (e : Election) (q : Query) (s : Socket) :
    ∃ t : Turn Election Answer, ∀ hub : Hub, hub.laos = laos →
      Table.get? hub.elections q.channel = some e →
      hub.run h q s = t.within (hub.setElection q.channel) := by
  cases hq : q.message?
  case some m =>
    let t : Turn Election Unit :=
      (Table.get? laos e.lao).elim (.refuse e (.unknownChannel q.channel)) (e.process h · m)
    refine ⟨t.andThen fun e _ => .done e (.ok q.id?), fun hub hl he => ?_⟩
    have hs : hub.say h q.channel m = t.within (hub.setElection q.channel) := by
      simp only [say, he, process, hl, t]
      cases Table.get? laos e.lao
      case none => simp only [Option.elim_none, Turn.refuse, Turn.within, setElection_self he]
      case some => rfl
    rw [run_eq_andThen hq, hs, Turn.within_andThen]
  case none =>
    cases q
    case subscribe v id channel =>
      refine ⟨.done { e with toChannel := e.subscribe s } (.ok (some id)), fun hub _ he => ?_⟩
      simp only [run, he]
      rfl
    case unsubscribe v id channel =>
      cases hu : e.unsubscribe s.id
      case error f =>
        refine ⟨.refuse e f, fun hub _ he => ?_⟩
        simp only [run, he, hu, Turn.refuse, Turn.within, setElection_self he]
      case ok c =>
        refine ⟨.done { e with toChannel := c } (.ok (some id)), fun hub _ he => ?_⟩
        simp only [run, he, hu]
        rfl
    case catchup v id channel =>
      refine ⟨.done e (.log (some id) e.inbox.messages), fun hub _ he => ?_⟩
      simp only [run, he, Turn.done, Turn.within, setElection_self he]
    all_goals cases hq

theorem answer_congr (ho : (hub.run h q s).outcome = (hub'.run h q s).outcome) :
    (hub.handle h q s).answer = (hub'.handle h q s).answer := by
  simp only [handle, ho]
  split <;> rfl

-- A request comes to the same in two hubs: the same is answered and sent.
structure Alike (h : Host) (q : Query) (s : Socket) (hub hub' : Hub) : Prop where
  answer_eq : (hub'.handle h q s).answer = (hub.handle h q s).answer
  sent_eq : (hub'.handle h q s).sent = (hub.handle h q s).sent

-- A request makes the same of the election that it comes to, whatever becomes of the others.
theorem exists_election (h : Host) (s : Socket)
    (he : Table.get? hub.elections q.channel = some e) :
    ∃ e', (hub.handle h q s).hub = hub.setElection q.channel e' ∧
      ∀ path o, path ≠ q.channel →
        ((hub.setElection path o).handle h q s).hub =
          (hub.setElection path o).setElection q.channel e' ∧
        Alike h q s hub (hub.setElection path o) := by
  obtain ⟨t, ht⟩ := exists_run_eq h hub.laos e q s
  have hr := ht hub rfl he
  refine ⟨t.state, by rw [handle_hub, hr]; rfl, fun path o hp => ?_⟩
  have he' : Table.get? (hub.setElection path o).elections q.channel = some e := by
    rw [get?_setElection, if_neg hp, he]
  have hr' := ht (hub.setElection path o) rfl he'
  refine ⟨by rw [handle_hub, hr']; rfl, answer_congr ?_, ?_⟩
  case refine_1 => rw [hr, hr']; rfl
  case refine_2 => rw [handle_sent, handle_sent, hr, hr']; rfl

theorem setElection_comm {path place : String} {c : Election} (hn : path ≠ place)
    (hp : Table.get? hub.elections path = some c) (e e' : Election) :
    (hub.setElection path e).setElection place e' =
      (hub.setElection place e').setElection path e :=
  congrArg (Hub.mk hub.laos) (Table.insert_comm hn hp e e')

-- The reply to a request that comes after another one.
def handleAfter (h : Host) (hub : Hub) (q₁ : Query) (s₁ : Socket) (q₂ : Query) (s₂ : Socket) :
    Reply :=
  (hub.handle h q₁ s₁).hub.handle h q₂ s₂

-- What the queues hold after two requests.
def queuesAfter (h : Host) (hub : Hub) (q₁ : Query) (s₁ : Socket) (q₂ : Query) (s₂ : Socket)
    (qs : Queues) : Queues :=
  (qs.deliverAll (hub.handle h q₁ s₁).sent).deliverAll (hub.handleAfter h q₁ s₁ q₂ s₂).sent

section Pair

variable {q₁ q₂ : Query} {e₁ e₂ : Election}

theorem alike_after (h : Host) (s₁ s₂ : Socket)
    (h₁ : Table.get? hub.elections q₁.channel = some e₁)
    (h₂ : Table.get? hub.elections q₂.channel = some e₂) (hn : q₁.channel ≠ q₂.channel) :
    Alike h q₂ s₂ hub (hub.handle h q₁ s₁).hub := by
  obtain ⟨e₁', hs, -⟩ := exists_election h s₁ h₁
  obtain ⟨_, -, ha⟩ := exists_election h s₂ h₂
  rw [hs]
  exact (ha q₁.channel e₁' hn).right

theorem handle_comm (h : Host) (s₁ s₂ : Socket)
    (h₁ : Table.get? hub.elections q₁.channel = some e₁)
    (h₂ : Table.get? hub.elections q₂.channel = some e₂) (hn : q₁.channel ≠ q₂.channel) :
    (hub.handleAfter h q₁ s₁ q₂ s₂).hub = (hub.handleAfter h q₂ s₂ q₁ s₁).hub := by
  obtain ⟨e₁', hs₁, ha₁⟩ := exists_election h s₁ h₁
  obtain ⟨e₂', hs₂, ha₂⟩ := exists_election h s₂ h₂
  rw [handleAfter, handleAfter, hs₁, hs₂, (ha₁ q₂.channel e₂' hn.symm).left,
    (ha₂ q₁.channel e₁' hn).left]
  exact setElection_comm hn h₁ e₁' e₂'

theorem get?_queuesAfter {qs : Queues} {k : String} {q : Queue} (h : Host) (s₁ s₂ : Socket)
    (h₁ : Table.get? hub.elections q₁.channel = some e₁)
    (h₂ : Table.get? hub.elections q₂.channel = some e₂) (hn : q₁.channel ≠ q₂.channel)
    (hq : Table.get? qs k = some q) :
    Table.get? (hub.queuesAfter h q₁ s₁ q₂ s₂ qs) k =
      some (q.fill (Delivery.linesTo k (hub.handle h q₁ s₁).sent ++
        Delivery.linesTo k (hub.handle h q₂ s₂).sent)) := by
  rw [queuesAfter, handleAfter, (alike_after h s₁ s₂ h₁ h₂ hn).sent_eq, Queues.get?_deliverAll,
    Queues.get?_deliverAll, hq, Option.map_some, Option.map_some, Queue.fill_fill]

end Pair

-- What is sent at an election goes to those who listen there.
theorem linesTo_sent (h : Host) (s : Socket) {k : String}
    (he : Table.get? hub.elections q.channel = some e) (hk : k ∉ Table.values e.sockets) :
    Delivery.linesTo k (hub.handle h q s).sent = [] := by
  rw [(handle_announces h s he).left, Delivery.linesTo, List.map_eq_nil_iff,
    List.filter_eq_nil_iff]
  intro d hd hq
  obtain ⟨m, -, hd⟩ := List.mem_flatMap.mp hd
  obtain ⟨t, ht, rfl⟩ := List.mem_map.mp hd
  exact hk (of_decide_eq_true hq ▸ List.mem_map_of_mem ht)

end Hub

-- A request at an election changes no LAO and no other election. Two requests at different
-- elections are answered alike and send the same in either order, and they leave the same hub. A
-- queue takes in, as far as it has room, the lines of the first and then those of the second; it is
-- the same in either order unless it listens at both, and then it holds the same lines if it has
-- room for all of them.
theorem Hub.channels_are_independent (h : Host) (hub : Hub) :
    (∀ q s e, Table.get? hub.elections q.channel = some e →
      (hub.handle h q s).hub.laos = hub.laos ∧
        ∀ path, path ≠ q.channel → Table.get? (hub.handle h q s).hub.elections path =
          Table.get? hub.elections path) ∧
    ∀ q₁ q₂ s₁ s₂ e₁ e₂, Table.get? hub.elections q₁.channel = some e₁ →
      Table.get? hub.elections q₂.channel = some e₂ → q₁.channel ≠ q₂.channel →
      (hub.handleAfter h q₁ s₁ q₂ s₂).hub = (hub.handleAfter h q₂ s₂ q₁ s₁).hub ∧
      Alike h q₁ s₁ hub (hub.handle h q₂ s₂).hub ∧
      Alike h q₂ s₂ hub (hub.handle h q₁ s₁).hub ∧
      ∀ qs k q, Table.get? qs k = some q → ∃ first second,
        first = Delivery.linesTo k (hub.handle h q₁ s₁).sent ∧
        second = Delivery.linesTo k (hub.handle h q₂ s₂).sent ∧
        Table.get? (hub.queuesAfter h q₁ s₁ q₂ s₂ qs) k = some (q.fill (first ++ second)) ∧
        Table.get? (hub.queuesAfter h q₂ s₂ q₁ s₁ qs) k = some (q.fill (second ++ first)) ∧
        (k ∉ Table.values e₁.sockets ∨ k ∉ Table.values e₂.sockets →
          q.fill (first ++ second) = q.fill (second ++ first)) ∧
        ((first ++ second).length ≤ q.room →
          (q.fill (first ++ second)).lines.Perm (q.fill (second ++ first)).lines) := by
  refine ⟨fun q s e he => ?elsewhere, fun q₁ q₂ s₁ s₂ e₁ e₂ h₁ h₂ hn => ?comm⟩
  case elsewhere =>
    obtain ⟨e', hs, -⟩ := exists_election h s he
    rw [hs]
    exact ⟨rfl, fun path hp => by rw [get?_setElection, if_neg hp.symm]⟩
  case comm =>
    refine ⟨handle_comm h s₁ s₂ h₁ h₂ hn, alike_after h s₂ s₁ h₂ h₁ hn.symm,
      alike_after h s₁ s₂ h₁ h₂ hn, fun qs k q hq => ⟨_, _, rfl, rfl,
        get?_queuesAfter h s₁ s₂ h₁ h₂ hn hq, get?_queuesAfter h s₂ s₁ h₂ h₁ hn.symm hq,
        fun hk => ?_, Queue.perm_lines_of_room⟩⟩
    rcases hk with hk | hk
    case inl => rw [linesTo_sent h s₁ h₁ hk, List.nil_append, List.append_nil]
    case inr => rw [linesTo_sent h s₂ h₂ hk, List.nil_append, List.append_nil]

namespace Trial

-- Two elections, and one who listens at both.
def duetRun : List Hub.Call :=
  [register, setUp "A" 0, setUp "B" 4, listen "A", listen "B"]

def listenedTo (name : String) (n : Nat) : Election :=
  { created name n with sockets := [("s", "q")] }

def opens (name : String) (n : Nat) : Query :=
  .publish protocolVersion 0 (path name) (message n (.opening (opening name)))

-- The line about an opening.
def openLine (name : String) (n : Nat) : String :=
  (Query.notification (path name) (message n (.opening (opening name)))).render

theorem after_duetRun : Hub.after host duetRun =
    ⟨[("L", lao)], [(path "A", listenedTo "A" 0), (path "B", listenedTo "B" 4)]⟩ := by
  have hA : Reaches ([register] ++ [setUp "A" 0]) [(path "A", created "A" 0)] :=
    Reaches.nil.setUp rfl rfl
  have hB : Reaches ([register] ++ [setUp "A" 0] ++ [setUp "B" 4])
      (Table.insert [(path "A", created "A" 0)] (path "B") (created "B" 4)) := hA.setUp
    (by rw [Table.get?_cons, if_neg path_ne, Table.get?_nil])
    (by rw [Table.get?_cons, if_neg path_ne_lao, Table.get?_nil])
  rw [Table.insert, if_neg path_ne] at hB
  have hA' : Hub.step host
      ⟨[("L", lao)], [(path "A", created "A" 0), (path "B", created "B" 4)]⟩ (listen "A") =
      ⟨[("L", lao)], [(path "A", listenedTo "A" 0), (path "B", created "B" 4)]⟩ := by
    have he : Table.get? [(path "A", created "A" 0), (path "B", created "B" 4)] (path "A") =
        some (created "A" 0) := get?_path ..
    rw [step_listen he, Hub.setElection, Table.insert, if_pos rfl]
    rfl
  have hB' : Hub.step host
      ⟨[("L", lao)], [(path "A", listenedTo "A" 0), (path "B", created "B" 4)]⟩ (listen "B") =
      ⟨[("L", lao)], [(path "A", listenedTo "A" 0), (path "B", listenedTo "B" 4)]⟩ := by
    have he : Table.get? [(path "A", listenedTo "A" 0), (path "B", created "B" 4)] (path "B") =
        some (created "B" 4) := by
      rw [Table.get?_cons, if_neg path_ne, get?_path]
    rw [step_listen he, Hub.setElection, Table.insert, if_neg path_ne, insert_path]
    rfl
  have hd : duetRun =
      [register] ++ [setUp "A" 0] ++ [setUp "B" 4] ++ [listen "A"] ++ [listen "B"] := rfl
  rw [hd, Hub.after_concat, Hub.after_concat, hB.after_eq]
  exact (congrArg (Hub.step host · (listen "B")) hA').trans hB'

theorem conducted_listenedTo (name : String) {n : Nat} (hn : n < 7) :
    Conducted name .approval .created [n + 1] (listenedTo name n) :=
  have hc := conducted_created name hn
  ⟨hc.lao_eq, hc.id_eq, hc.start_eq, hc.end_eq, hc.pending_eq, hc.asked, hc.phase_eq, hc.marked⟩

theorem sent_opens {hub : Hub} {name : String} {method : Method} {ns : List Nat} {e : Election}
    {n : Nat} (s : Socket) (hl : hub.laos = [("L", lao)])
    (he : Table.get? hub.elections (path name) = some e)
    (hc : Conducted name method .created ns e) (hn : n < 7) (hf : n + 1 ∉ ns) :
    (hub.handle host (opens name n) s).sent =
      e.announce (message n (.opening (opening name))) := by
  have ha := hc.admits (p := .opening (opening name)) rfl hn hf (hc.judge_opening n)
  have hl : Table.get? hub.laos e.lao = some lao := by
    rw [hl, hc.lao_eq]
    rfl
  have hq : (opens name n).message? = some (message n (.opening (opening name))) := rfl
  have he : Table.get? hub.elections (opens name n).channel = some e := he
  rw [Hub.handle_sent, (Hub.run_of_message hq).right, Hub.say_of_get? he hl, ha.process_eq]
  rfl

theorem linesTo_announce (name : String) (n : Nat) (m : Message) :
    Delivery.linesTo "q" ((listenedTo name n).announce m) =
      [(Query.notification (path name) m).render] := by
  have ha : (listenedTo name n).announce m =
      [⟨"q", (Query.notification (path name) m).render⟩] := rfl
  simp [ha, Delivery.linesTo]

theorem openLine_ne : openLine "A" 1 ≠ openLine "B" 5 := by
  intro he
  have he := congrArg Query.parse he
  rw [openLine, openLine, Query.parse_render, Query.parse_render, Query.notification,
    Query.notification] at he
  injection he with he
  injection he with _ _ he
  exact path_ne he

theorem get?_duetRun :
    Table.get? (Hub.after host duetRun).elections (opens "A" 1).channel =
        some (listenedTo "A" 0) ∧
      Table.get? (Hub.after host duetRun).elections (opens "B" 5).channel =
        some (listenedTo "B" 4) := by
  have hB : Table.get? [(path "A", listenedTo "A" 0), (path "B", listenedTo "B" 4)] (path "B") =
      some (listenedTo "B" 4) := by
    rw [Table.get?_cons, if_neg path_ne, get?_path]
  rw [after_duetRun]
  exact ⟨get?_path .., hB⟩

-- Both elections can be opened, and the listener is told of each.
theorem linesTo_opens (s : Socket) :
    Delivery.linesTo "q" ((Hub.after host duetRun).handle host (opens "A" 1) s).sent =
        [openLine "A" 1] ∧
      Delivery.linesTo "q" ((Hub.after host duetRun).handle host (opens "B" 5) s).sent =
        [openLine "B" 5] := by
  have ⟨hA, hB⟩ := get?_duetRun
  have hl : (Hub.after host duetRun).laos = [("L", lao)] := by rw [after_duetRun]
  rw [sent_opens s hl hA (conducted_listenedTo "A" (by decide)) (by decide) (by decide),
    sent_opens s hl hB (conducted_listenedTo "B" (by decide)) (by decide) (by decide)]
  exact ⟨linesTo_announce .., linesTo_announce ..⟩

theorem channel_ne : (opens "A" 1).channel ≠ (opens "B" 5).channel :=
  path_ne

end Trial

open Trial in
theorem Hub.channels_are_independent_duetRun :
    Table.get? (after host duetRun).elections (opens "A" 1).channel = some (listenedTo "A" 0) ∧
      Table.get? (after host duetRun).elections (opens "B" 5).channel = some (listenedTo "B" 4) ∧
      (opens "A" 1).channel ≠ (opens "B" 5).channel ∧
      ((after host duetRun).handleAfter host (opens "A" 1) listener (opens "B" 5) listener).hub =
        ((after host duetRun).handleAfter host (opens "B" 5) listener (opens "A" 1) listener).hub ∧
      Table.get? ((after host duetRun).queuesAfter host (opens "A" 1) listener
        (opens "B" 5) listener [("q", .empty 2)]) "q" =
          some ⟨2, [openLine "A" 1, openLine "B" 5], false⟩ ∧
      Table.get? ((after host duetRun).queuesAfter host (opens "B" 5) listener
        (opens "A" 1) listener [("q", .empty 2)]) "q" =
          some ⟨2, [openLine "B" 5, openLine "A" 1], false⟩ := by
  have ⟨hA, hB⟩ := get?_duetRun
  have ⟨hlA, hlB⟩ := linesTo_opens listener
  have ⟨_, hc⟩ := channels_are_independent host (after host duetRun)
  obtain ⟨hs, -, -, hq⟩ := hc _ _ listener listener _ _ hA hB channel_ne
  obtain ⟨_, _, hf, hf', h₁, h₂, -⟩ := hq [("q", .empty 2)] "q" (.empty 2) rfl
  rw [hf, hf', hlA, hlB, Queue.fill_empty] at h₁ h₂
  exact ⟨hA, hB, channel_ne, hs, h₁, h₂⟩

-- Where there is room for one line, it is the order that decides which of the two is lost.
open Trial in
theorem Hub.order_decides_what_is_lost :
    Table.get? (after host duetRun).elections (opens "A" 1).channel = some (listenedTo "A" 0) ∧
      Table.get? (after host duetRun).elections (opens "B" 5).channel = some (listenedTo "B" 4) ∧
      (opens "A" 1).channel ≠ (opens "B" 5).channel ∧
      ¬(((after host duetRun).queuesAfter host (opens "A" 1) listener (opens "B" 5) listener
          [("q", .empty 1)]).waiting "q").Perm
        (((after host duetRun).queuesAfter host (opens "B" 5) listener (opens "A" 1) listener
          [("q", .empty 1)]).waiting "q") := by
  have ⟨hA, hB⟩ := get?_duetRun
  have ⟨hlA, hlB⟩ := linesTo_opens listener
  have hq : Table.get? [("q", Queue.empty 1)] "q" = some (.empty 1) := rfl
  have h₁ := get?_queuesAfter host listener listener hA hB channel_ne hq
  have h₂ := get?_queuesAfter host listener listener hB hA channel_ne.symm hq
  rw [hlA, hlB, Queue.fill_empty] at h₁ h₂
  refine ⟨hA, hB, channel_ne, fun hp => ?_⟩
  simp only [Queues.waiting, h₁, h₂, Option.elim_some, List.cons_append, List.take_succ_cons,
    List.take_zero, List.singleton_perm_singleton] at hp
  exact openLine_ne hp

end Plenum
