import Plenum.Proofs.Log
import Plenum.Proofs.Query
import Plenum.Service

namespace Plenum

-- A line that the hub puts before a socket.
structure Offer where
  socket : Socket
  line : String
  deriving DecidableEq

namespace Offer

-- The offer as the queue of the socket sees it.
def delivery (o : Offer) : Delivery :=
  ⟨o.socket.queue, o.line⟩

-- The channel and the message that the line is about, if it announces one.
def notice? (o : Offer) : Option (String × Message) :=
  match Query.parse o.line with
  | .ok (.broadcast _ none channel m) => some (channel, m)
  | _ => none

-- Whether the line is about a channel and put before a socket of a name.
def IsFor (path id : String) (o : Offer) : Prop :=
  o.socket.id = id ∧ o.notice?.map Prod.fst = some path

instance (path id : String) : DecidablePred (IsFor path id) :=
  fun _ => inferInstanceAs (Decidable (_ ∧ _))

-- The line about a message, put before a socket that listens with a queue.
def ofMessage (path id : String) (heard : String × Message) : Offer :=
  ⟨⟨id, heard.1⟩, (Query.notification path heard.2).render⟩

theorem notice?_ofMessage (path id : String) (heard : String × Message) :
    (ofMessage path id heard).notice? = some (path, heard.2) := by
  simp only [notice?, ofMessage, Query.parse_render, Query.notification]

theorem notice?_answer (s : Socket) (a : Answer) : notice? ⟨s, a.render⟩ = none := by
  simp only [notice?, Answer.parse_render]

theorem isFor_ofMessage {path place id name : String} {heard : String × Message} :
    IsFor path id (ofMessage place name heard) ↔ name = id ∧ place = path := by
  rw [IsFor, notice?_ofMessage, Option.map_some, Option.some.injEq]
  rfl

end Offer

namespace Election

variable {h : Host} {e : Election} {lao : Lao} {m : Message} {t : Turn Election Unit}
  {path id : String}

-- A message is put before everyone who listens.
def offers (e : Election) (m : Message) : List Offer :=
  e.sockets.map fun s => .ofMessage e.path s.1 (s.2, m)

theorem delivery_offers (e : Election) (m : Message) :
    (e.offers m).map Offer.delivery = e.announce m := by
  rw [offers, announce, Sockets.fanOut, List.map_map]
  rfl

theorem filter_offers (hn : (Table.keys e.sockets).Nodup) (m : Message) :
    (e.offers m).filter (Offer.IsFor e.path id) =
      ((Table.get? e.sockets id).map fun queue => .ofMessage e.path id (queue, m)).toList := by
  have hf : ((decide <| Offer.IsFor e.path id ·) ∘ fun s : String × String =>
      Offer.ofMessage e.path s.1 (s.2, m)) = fun s => decide (s.1 = id) := by
    funext s
    simp [Offer.isFor_ofMessage]
  rw [offers, List.filter_map, hf, Table.filter_key hn]
  cases Table.get? e.sockets id <;> rfl

-- What comes into the log is announced, and never is it a setup.
theorem Processed.announces (ht : Processed h lao m e t) :
    ∃ new, t.state.inbox.messages = e.inbox.messages ++ new ∧
      t.sent = new.flatMap e.announce ∧ ∀ n ∈ new, n.kind? ≠ some .setup := by
  have hk {env : Envelope} {p : Payload} {r : Ruling} (ha : Admits h lao m e env p r) :
      m.kind? ≠ some .setup :=
    ha.kind?_eq ▸ fun hk => ha.not_setup (Option.some.inj hk)
  cases ht
  case refused => exact ⟨[], (List.append_nil _).symm, rfl, nofun⟩
  case opened ha => exact ⟨[m], rfl, by simp, by simpa using hk ha⟩
  case voted ha => exact ⟨[m], rfl, by simp, by simpa using hk ha⟩
  case closed ha _ _ =>
    refine ⟨[m, e.outcomeMessage h], List.append_assoc .., by simp, ?_⟩
    simpa [kind?_outcomeMessage] using hk ha
  case unreported ha _ => exact ⟨[m], rfl, by simp, by simpa using hk ha⟩
  case noted ha => exact ⟨[m], rfl, by simp, by simpa using hk ha⟩

theorem sockets_process (h : Host) (e : Election) (lao : Lao) (m : Message) :
    (e.process h lao m).state.sockets = e.sockets := by
  have ht := processed h lao m e
  generalize e.process h lao m = t at ht
  cases ht <;> rfl

end Election

namespace Hub

variable {h : Host} {hub : Hub} {path id : String} {e e' : Election} {c : Call} {m : Message}
  {q : Query} {s : Socket} {queue? : Option String}

-- The log at a path, where there is one.
def logAt (hub : Hub) (path : String) : List Message :=
  (Table.get? hub.elections path).elim [] (·.inbox.messages)

-- What a call brings into the log at a path.
def added (h : Host) (hub : Hub) (c : Call) (path : String) : List Message :=
  ((hub.step h c).logAt path).drop (hub.logAt path).length

-- What a request puts before those who listen, and then the answer.
def broadcasts (h : Host) (hub : Hub) : Call → List Offer
  | .query q s =>
    match Table.get? hub.elections q.channel with
    | none => []
    | some e => (hub.added h (.query q s) q.channel).flatMap e.offers
  | _ => []

def answers (h : Host) (hub : Hub) : Call → List Offer
  | .query q s => ((hub.handle h q s).answer.map fun a => ⟨s, a.render⟩).toList
  | _ => []

def offers (h : Host) (hub : Hub) (c : Call) : List Offer :=
  hub.broadcasts h c ++ hub.answers h c

-- All offers of a run.
def offered (h : Host) : Hub → List Call → List Offer
  | _, [] => []
  | hub, c :: calls => hub.offers h c ++ offered h (hub.step h c) calls

-- With which queue a name listens at a path after a call, if it does. The path is a channel.
def Call.tune (path id : String) (queue? : Option String) : Call → Option String
  | .query (.subscribe _ _ channel) s =>
    if channel = path ∧ s.id = id then some s.queue else queue?
  | .query (.unsubscribe _ _ channel) s =>
    if channel = path ∧ s.id = id then none else queue?
  | .removeSocket j => if j = id then none else queue?
  | _ => queue?

-- What comes into the log at a path while a name listens there, with the queue it listens with.
def heard (h : Host) (path id : String) : Hub → Option String → List Call → List (String × Message)
  | _, _, [] => []
  | hub, queue?, c :: calls =>
    let next? := if (Table.get? hub.elections path).isSome then c.tune path id queue? else none
    (queue?.toList.flatMap fun queue => (hub.added h c path).map (queue, ·)) ++
      heard h path id (hub.step h c) next? calls

-- Who listens at a path after a call.
def Call.listen (path : String) (ss : Sockets) : Call → Sockets
  | .query (.subscribe _ _ channel) s => if channel = path then ss.add s else ss
  | .query (.unsubscribe _ _ channel) s => if channel = path then Table.erase ss s.id else ss
  | .removeSocket id => Table.erase ss id
  | _ => ss

theorem get?_listen (path id : String) (ss : Sockets) (c : Call) :
    Table.get? (c.listen path ss) id = c.tune path id (Table.get? ss id) := by
  cases c
  case query q s =>
    cases q
    case subscribe v i channel =>
      simp only [Call.listen, Call.tune, Sockets.add]
      by_cases hc : channel = path <;> by_cases hs : s.id = id <;>
        simp [hc, hs, Table.get?_insert_of_ne]
    case unsubscribe v i channel =>
      simp only [Call.listen, Call.tune]
      by_cases hc : channel = path <;> simp [hc, Table.get?_erase]
    all_goals rfl
  case removeSocket j => exact Table.get?_erase ..
  all_goals rfl

theorem nodup_listen {ss : Sockets} (hn : (Table.keys ss).Nodup) (path : String) (c : Call) :
    (Table.keys (c.listen path ss)).Nodup := by
  cases c
  case query q s =>
    cases q
    case subscribe =>
      simp only [Call.listen]
      split
      case isTrue => exact Table.nodup_keys_insert _ _ hn
      case isFalse => exact hn
    case unsubscribe =>
      simp only [Call.listen]
      split
      case isTrue => exact Table.nodup_keys_erase _ hn
      case isFalse => exact hn
    all_goals exact hn
  case removeSocket => exact Table.nodup_keys_erase _ hn
  all_goals exact hn

theorem get?_setElection (hub : Hub) (place path : String) (e : Election) :
    Table.get? (hub.setElection place e).elections path =
      if place = path then some e else Table.get? hub.elections path :=
  Table.get?_insert ..

-- Requests without a message change who listens at their channel, and nothing else.
theorem state_run_of_no_message (hq : q.message? = none) :
    (hub.run h q s).state =
      match Table.get? hub.elections q.channel with
      | none => hub
      | some e =>
        hub.setElection q.channel
          { e with sockets := Call.listen q.channel e.sockets (.query q s) } := by
  cases he : Table.get? hub.elections q.channel
  case none =>
    cases q <;> try cases hq
    all_goals
      simp only [run, he]
      rfl
  case some e =>
    cases q
    case subscribe v i channel =>
      have he : Table.get? hub.elections channel = some e := he
      simp only [run, he, Call.listen, Query.channel, if_true]
      rfl
    case unsubscribe v i channel =>
      have he : Table.get? hub.elections channel = some e := he
      simp only [run, he, Call.listen, Query.channel, if_true, Channel.unsubscribe]
      cases hc : Table.contains e.sockets s.id
      case true => rfl
      case false =>
        rw [Table.erase_of_get? (Table.contains_eq_false.mp hc)]
        exact (setElection_self he).symm
    case catchup v i channel =>
      have he : Table.get? hub.elections channel = some e := he
      simp only [run, he, Query.channel]
      exact (setElection_self he).symm
    all_goals cases hq

theorem listen_of_message (hq : q.message? = some m) (path : String) (ss : Sockets) :
    Call.listen path ss (.query q s) = ss := by
  cases q <;> first | rfl | cases hq

theorem listen_of_ne (hp : q.channel ≠ path) (ss : Sockets) :
    Call.listen path ss (.query q s) = ss := by
  cases q
  case subscribe => exact if_neg hp
  case unsubscribe => exact if_neg hp
  all_goals rfl

-- Those who listen after a call are those before it with what the call says, and none where the
-- channel is new.
theorem sockets_step (he' : Table.get? (hub.step h c).elections path = some e') :
    (∃ e, Table.get? hub.elections path = some e ∧ e'.sockets = c.listen path e.sockets) ∨
      Table.get? hub.elections path = none ∧ e'.sockets = [] := by
  cases c
  case register => exact .inl ⟨e', he', rfl⟩
  case addAttendees j keys =>
    refine .inl ⟨e', ?_, rfl⟩
    simp only [step, addAttendees] at he'
    split at he' <;> exact he'
  case removeSocket j =>
    rw [step, get?_removeSocket] at he'
    obtain ⟨e, he, rfl⟩ := Option.map_eq_some_iff.mp he'
    exact .inl ⟨e, he, rfl⟩
  case query q s =>
    rw [step, handle_hub] at he'
    cases hq : q.message?
    case none =>
      rw [state_run_of_no_message hq] at he'
      cases he : Table.get? hub.elections q.channel
      case none =>
        rw [he] at he'
        have hp : q.channel ≠ path := by
          rintro rfl
          cases he.symm.trans he'
        exact .inl ⟨e', he', (listen_of_ne hp _).symm⟩
      case some e =>
        simp only [he, get?_setElection] at he'
        split at he'
        case isTrue hp =>
          cases he'
          exact .inl ⟨e, hp ▸ he, by rw [hp]⟩
        case isFalse hp => exact .inl ⟨e', he', (listen_of_ne hp _).symm⟩
    case some m =>
      rw [(run_of_message hq).left] at he'
      rcases say_eq h hub q.channel m with ⟨f, hs⟩ | ⟨p, i, lao, hp, hs⟩ | ⟨e, lao, he, -, hs⟩
      case inl =>
        rw [hs] at he'
        exact .inl ⟨e', he', (listen_of_message hq ..).symm⟩
      case inr.inl =>
        rw [hs, Turn.done, get?_setElection] at he'
        split at he'
        case isTrue hp' =>
          cases he'
          exact .inr ⟨hp' ▸ hp.fresh, rfl⟩
        case isFalse => exact .inl ⟨e', he', (listen_of_message hq ..).symm⟩
      case inr.inr =>
        rw [hs, Turn.within, get?_setElection] at he'
        split at he'
        case isTrue hp =>
          cases he'
          refine .inl ⟨e, hp ▸ he, ?_⟩
          rw [listen_of_message hq, Election.sockets_process]
        case isFalse => exact .inl ⟨e', he', (listen_of_message hq ..).symm⟩

theorem nodup_sockets (h : Host) (calls : List Call)
    (he : Table.get? (after h calls).elections path = some e) : (Table.keys e.sockets).Nodup := by
  induction calls using List.reverseRecOn generalizing e
  case nil => cases he
  case append_singleton calls c ih =>
    rw [after_concat] at he
    rcases sockets_step he with ⟨e₀, he₀, hs⟩ | ⟨-, hs⟩
    case inl => exact hs ▸ nodup_listen (ih he₀) path c
    case inr => exact hs ▸ List.nodup_nil

-- The name listens with this queue, or there is nothing to listen to.
def Tuned (hub : Hub) (path id : String) (queue? : Option String) : Prop :=
  queue? = (Table.get? hub.elections path).bind fun e => Table.get? e.sockets id

theorem Tuned.step (ht : hub.Tuned path id queue?) (c : Call) :
    (hub.step h c).Tuned path id
      (if (Table.get? hub.elections path).isSome then c.tune path id queue? else none) := by
  rw [Tuned]
  cases he' : Table.get? (hub.step h c).elections path
  case none =>
    have hn : Table.get? hub.elections path = none := by
      by_contra hn
      have ⟨e, he⟩ := Option.ne_none_iff_exists'.mp hn
      have ⟨e', he''⟩ := exists_get?_step (h := h) (c := c) he
      cases he'.symm.trans he''
    rw [hn]
    rfl
  case some e' =>
    rw [Option.bind_some]
    rcases sockets_step he' with ⟨e, he, hs⟩ | ⟨he, hs⟩
    case inl =>
      rw [Tuned, he, Option.bind_some] at ht
      rw [he, hs, get?_listen, ht]
      rfl
    case inr =>
      rw [he, hs]
      rfl

theorem logAt_eq (he : Table.get? hub.elections path = some e) :
    hub.logAt path = e.inbox.messages := by
  rw [logAt, he]
  rfl

theorem logAt_step (h : Host) (hub : Hub) (c : Call) (path : String) :
    (hub.step h c).logAt path = hub.logAt path ++ hub.added h c path := by
  have hp : hub.logAt path <+: (hub.step h c).logAt path := by
    cases he : Table.get? hub.elections path
    case none =>
      rw [logAt, he]
      exact List.nil_prefix
    case some e =>
      have ⟨e', he', hg⟩ := grows_step (h := h) he c
      rw [logAt_eq he, logAt_eq he']
      exact hg.messages
  exact (List.prefix_iff_eq_append.mp hp).symm

theorem added_eq_nil (he : Table.get? hub.elections path = some e) (hc : ∀ m, ¬c.Says path m) :
    hub.added h c path = [] := by
  have ⟨e', he', hm⟩ := exists_step_of (h := h)
    (P := fun e' => e'.inbox.messages = e.inbox.messages) he (fun _ => rfl)
    fun hs => (hc _ hs).elim
  rw [added, logAt_eq he, logAt_eq he', hm, List.drop_length]

-- At a channel, what a request brings into the log is what it announces.
theorem handle_announces (h : Host) (s : Socket)
    (he : Table.get? hub.elections q.channel = some e) :
    (hub.handle h q s).sent = (hub.added h (.query q s) q.channel).flatMap e.announce ∧
      ∀ m ∈ hub.added h (.query q s) q.channel, m.kind? ≠ some .setup := by
  rw [handle_sent, added, logAt_eq he, step, handle_hub]
  cases hq : q.message?
  case none =>
    have hl : (hub.run h q s).state.logAt q.channel = e.inbox.messages := by
      rw [state_run_of_no_message hq]
      simp only [he]
      rw [logAt, get?_setElection, if_pos rfl]
      rfl
    rw [(run_of_no_message hq).left, hl, List.drop_length]
    exact ⟨rfl, List.forall_mem_nil _⟩
  case some m =>
    rw [(run_of_message hq).left, (run_of_message hq).right]
    simp only [say, he, process]
    cases hl : Table.get? hub.laos e.lao
    case none =>
      simp only [Turn.refuse, logAt_eq he, List.drop_length]
      exact ⟨rfl, List.forall_mem_nil _⟩
    case some lao =>
      obtain ⟨new, hm, hs, hk⟩ := (Election.processed h lao m e).announces
      have hnew : (hub.setElection q.channel (e.process h lao m).state).logAt q.channel =
          e.inbox.messages ++ new := by
        rw [logAt, get?_setElection, if_pos rfl]
        exact hm
      simp only [Turn.within, hnew, List.drop_left]
      exact ⟨hs, hk⟩

-- Where there is no channel, nothing is announced.
theorem sent_eq_nil (he : Table.get? hub.elections q.channel = none) :
    (hub.handle h q s).sent = [] := by
  rw [handle_sent]
  cases hq : q.message?
  case none => exact (run_of_no_message hq).left
  case some m =>
    rw [(run_of_message hq).right]
    rcases say_eq h hub q.channel m with ⟨f, hs⟩ | ⟨_, _, _, _, hs⟩ | ⟨e, _, he', _⟩
    case inl => rw [hs]; rfl
    case inr.inl => rw [hs]; rfl
    case inr.inr => cases he.symm.trans he'

theorem sockets_handle (hq : q.message? = some m) (he : Table.get? hub.elections q.channel = some e)
    (he' : Table.get? (hub.handle h q s).hub.elections q.channel = some e') :
    e'.sockets = e.sockets := by
  rcases sockets_step (h := h) (c := .query q s) he' with ⟨e₀, he₀, hs⟩ | ⟨hn, -⟩
  case inl =>
    cases he.symm.trans he₀
    rw [hs, listen_of_message hq]
  case inr => cases he.symm.trans hn

-- The offers of a request are what goes to the queues because of it.
theorem delivery_offers (h : Host) (hub : Hub) (q : Query) (s : Socket) :
    (hub.offers h (.query q s)).map Offer.delivery = (hub.handle h q s).deliveries s := by
  have hs : (hub.broadcasts h (.query q s)).map Offer.delivery = (hub.handle h q s).sent := by
    rw [broadcasts]
    cases he : Table.get? hub.elections q.channel
    case none => exact (sent_eq_nil he).symm
    case some e =>
      rw [(handle_announces h s he).left, List.map_flatMap]
      exact List.flatMap_congr fun m _ => e.delivery_offers m
  rw [offers, List.map_append, hs, Reply.deliveries, answers]
  cases (hub.handle h q s).answer <;> rfl

theorem notice?_of_mem_answers {o : Offer} (ho : o ∈ hub.answers h c) : o.notice? = none := by
  cases c
  case query q s =>
    obtain ⟨a, -, rfl⟩ := Option.map_eq_some_iff.mp (Option.mem_toList.mp ho)
    exact Offer.notice?_answer s a
  all_goals cases ho

-- A broadcast is about a message that has just come into the log of its channel, and that is no
-- setup.
theorem notice?_of_mem_broadcasts {o : Offer} (ho : o ∈ hub.broadcasts h c) :
    ∃ q s e m, c = .query q s ∧ Table.get? hub.elections q.channel = some e ∧
      m ∈ hub.added h c q.channel ∧ m.kind? ≠ some .setup ∧ o.notice? = some (e.path, m) := by
  cases c
  case query q s =>
    rw [broadcasts] at ho
    cases he : Table.get? hub.elections q.channel
    case none => rw [he] at ho; cases ho
    case some e =>
      rw [he] at ho
      obtain ⟨m, hm, ho⟩ := List.mem_flatMap.mp ho
      obtain ⟨t, -, rfl⟩ := List.mem_map.mp ho
      exact ⟨q, s, e, m, rfl, he, hm, (handle_announces h s he).right m hm,
        Offer.notice?_ofMessage ..⟩
  all_goals cases ho

section Run

variable {pre calls : List Call}

-- Broadcasts about a channel come of requests there.
theorem filter_broadcasts_eq_nil (hc : ∀ q s, c = .query q s → q.channel = path →
    Table.get? (after h pre).elections path = none) :
    ((after h pre).broadcasts h c).filter (Offer.IsFor path id) = [] := by
  refine List.filter_eq_nil_iff.mpr fun o ho hf => ?_
  obtain ⟨q, s, e, m, hq, he, -, -, hn⟩ := notice?_of_mem_broadcasts ho
  have hp := (of_decide_eq_true hf).right
  rw [hn, Option.map_some, (Election.regular (reachable_after h pre) he).path_eq] at hp
  have hp : q.channel = path := Option.some.inj hp
  cases (hc q s hq hp).symm.trans (hp ▸ he)

-- What is sent because of a request goes to those who listen at its channel, and it announces
-- what then stands in the log there.
theorem notification_of_mem_sent {d : Delivery} (hd : d ∈ ((after h pre).handle h q s).sent) :
    ∃ e m, Table.get? ((after h pre).handle h q s).hub.elections q.channel = some e ∧
      m ∈ e.inbox.messages ∧ (∃ id, (id, d.queue) ∈ e.sockets) ∧
      d.line = (Query.notification q.channel m).render := by
  cases hq : q.message?
  case none =>
    rw [handle_sent, (run_of_no_message hq).left] at hd
    cases hd
  case some =>
    cases he : Table.get? (after h pre).elections q.channel
    case none =>
      rw [sent_eq_nil he] at hd
      cases hd
    case some e =>
      rw [(handle_announces h s he).left] at hd
      have ⟨m, hm, hd⟩ := List.mem_flatMap.mp hd
      have ⟨l, hl, hd⟩ := List.mem_map.mp hd
      have ⟨e', he', _⟩ := grows_step (h := h) he (.query q s)
      have hm : m ∈ e'.inbox.messages := by
        rw [← logAt_eq he', logAt_step]
        exact List.mem_append_right _ hm
      have hl : l ∈ e'.sockets := sockets_handle hq he he' ▸ hl
      have hp := (Election.regular (reachable_after h pre) he).path_eq
      cases hd
      exact ⟨e', m, he', hm, ⟨l.1, hl⟩, by rw [← hp]; rfl⟩

-- What a socket is offered about a channel by one call.
theorem filter_offers (ht : (after h pre).Tuned path id queue?) (c : Call) :
    ((after h pre).offers h c).filter (Offer.IsFor path id) =
      (queue?.toList.flatMap fun queue => ((after h pre).added h c path).map (queue, ·)).map
        (Offer.ofMessage path id) := by
  have ha : ((after h pre).answers h c).filter (Offer.IsFor path id) = [] := by
    refine List.filter_eq_nil_iff.mpr fun o ho => ?_
    simp [Offer.IsFor, notice?_of_mem_answers ho]
  rw [offers, List.filter_append, ha, List.append_nil]
  cases he : Table.get? (after h pre).elections path
  case none =>
    have hq : queue? = none := by rw [ht, he]; rfl
    rw [filter_broadcasts_eq_nil fun _ _ _ _ => he, hq]
    rfl
  case some e =>
    by_cases hc : ∃ q s, c = .query q s ∧ q.channel = path
    case pos =>
      obtain ⟨q, s, rfl, rfl⟩ := hc
      have hp := (Election.regular (reachable_after h pre) he).path_eq
      have hq : queue? = Table.get? e.sockets id := by rw [ht, he]; rfl
      have hf (m : Message) : (e.offers m).filter (Offer.IsFor q.channel id) =
          (queue?.map fun queue => .ofMessage q.channel id (queue, m)).toList := by
        rw [hq, ← hp]
        exact e.filter_offers (nodup_sockets h pre he) m
      simp only [broadcasts, he, List.filter_flatMap, hf]
      cases queue?
      case none => simp
      case some queue =>
        simp only [Option.map_some, Option.toList_some, List.flatMap_cons, List.flatMap_nil,
          List.append_nil, List.map_map]
        exact List.map_eq_flatMap.symm
    case neg =>
      have hn : (after h pre).added h c path = [] := by
        refine added_eq_nil he fun m => ?_
        rintro ⟨q, s, hq, hp, -⟩
        exact hc ⟨q, s, hq, hp⟩
      rw [filter_broadcasts_eq_nil fun q s hq hp => (hc ⟨q, s, hq, hp⟩).elim, hn]
      cases queue? <;> rfl

-- What a socket is offered about a channel by a run.
theorem filter_offered (ht : (after h pre).Tuned path id queue?) (calls : List Call) :
    (offered h (after h pre) calls).filter (Offer.IsFor path id) =
      (heard h path id (after h pre) queue? calls).map (Offer.ofMessage path id) := by
  induction calls generalizing pre queue?
  case nil => rfl
  case cons c calls ih =>
    have hs := ht.step (h := h) c
    rw [← after_concat] at hs
    have hi := ih hs
    rw [after_concat] at hi
    rw [offered, heard, List.filter_append, filter_offers ht c, List.map_append, hi]

-- What is heard stands in the log, in this order, and came into it during the run.
theorem heard_sublist (h : Host) (path id : String) (pre calls : List Call)
    (queue? : Option String) :
    ∃ new, (after h (pre ++ calls)).logAt path = (after h pre).logAt path ++ new ∧
      ((heard h path id (after h pre) queue? calls).map Prod.snd).Sublist new := by
  induction calls generalizing pre queue?
  case nil => exact ⟨[], by simp, .slnil⟩
  case cons c calls ih =>
    obtain ⟨new, hn, hs⟩ := ih (pre ++ [c])
      (if (Table.get? (after h pre).elections path).isSome then c.tune path id queue? else none)
    rw [List.append_assoc, List.singleton_append, after_concat, logAt_step] at hn
    rw [after_concat] at hs
    refine ⟨(after h pre).added h c path ++ new, by rw [hn, List.append_assoc], ?_⟩
    rw [heard, List.map_append]
    refine .append ?_ hs
    cases queue?
    case none => exact List.nil_sublist _
    case some queue => simp [Function.comp_def]

theorem nodup_logAt (h : Host) (calls : List Call) (path : String) :
    (((after h calls).logAt path).map Message.id).Nodup := by
  cases he : Table.get? (after h calls).elections path
  case none =>
    rw [logAt, he]
    exact List.nodup_nil
  case some e =>
    rw [logAt_eq he]
    exact Election.nodup_identifiers (reachable_after h calls) he

theorem not_setup_of_mem_offered {o : Offer} {hub : Hub} (ho : o ∈ offered h hub calls)
    (hn : o.notice? = some (path, m)) : m.kind? ≠ some .setup := by
  induction calls generalizing hub
  case nil => cases ho
  case cons c calls ih =>
    rcases List.mem_append.mp ho with ho | ho
    case inr => exact ih ho
    case inl =>
      rcases List.mem_append.mp ho with ho | ho
      case inl =>
        obtain ⟨_, _, _, _, -, -, -, hk, hn'⟩ := notice?_of_mem_broadcasts ho
        cases hn'.symm.trans hn
        exact hk
      case inr => cases (notice?_of_mem_answers ho).symm.trans hn

end Run

end Hub
end Plenum
