import Mathlib.Data.List.Nodup
import Plenum.Proofs.Refusal

namespace Plenum

namespace Message

variable {S : Suite} {m n : Message}

-- The two carry the same payload and the same signature, as bytes.
def Repeats (n m : Message) : Prop :=
  Base64.decode? n.data = Base64.decode? m.data ∧
    Base64.decode? n.signature = Base64.decode? m.signature

-- The bytes of a message that passes have one spelling.
theorem Repeats.spelled_alike {env : Envelope} (hn : n.Repeats m) (hu : m.unseal S = .ok env) :
    n.data = m.data ∧ n.signature = m.signature := by
  have ⟨hp, _, hv⟩ := unseal_eq_ok.mp hu
  have ⟨_, _, hc⟩ := verify_eq_ok.mp hv
  have ⟨σ, hσ, _⟩ := Suite.check_eq_ok.mp hc
  have hd : Base64.decode? m.data = some env.payload := payload_eq_ok.mp hp
  have hs : Base64.decode? m.signature = some σ.toList := hσ ▸ Base64.decode?_encode _
  constructor
  case left =>
    rw [← Base64.encode_of_decode? hd, ← Base64.encode_of_decode? (hn.left.trans hd)]
  case right =>
    rw [← Base64.encode_of_decode? hs, ← Base64.encode_of_decode? (hn.right.trans hs)]

-- Of two messages that pass, one repeats the other only under the same identifier.
theorem Repeats.id_eq {env env' : Envelope} (hn : n.Repeats m) (hm : m.unseal S = .ok env)
    (hn' : n.unseal S = .ok env') : n.id = m.id := by
  have ⟨hd, hs⟩ := hn.spelled_alike hm
  rw [id_of_unseal hm, id_of_unseal hn', expectedId, expectedId, hd, hs]

end Message

namespace Election

variable {h : Host} {e : Election} {lao : Lao} {m n : Message} {t : Turn Election Unit}
  {path : String}

-- The identifiers in the log, in order.
def identifiers (e : Election) : List String :=
  e.inbox.messages.map Message.id

theorem has_iff_mem_identifiers {id : String} : e.inbox.has id ↔ id ∈ e.identifiers := by
  simp [Inbox.has_iff, identifiers]

theorem identifiers_log : (e.log m).identifiers = e.identifiers.concat m.id := by
  simp [identifiers, log, setInbox]

theorem nodup_log (hd : e.identifiers.Nodup) (hf : ¬e.inbox.has m.id) :
    (e.log m).identifiers.Nodup := by
  rw [identifiers_log, List.nodup_concat]
  exact ⟨has_iff_mem_identifiers.not.mp hf, hd⟩

-- Whatever is logged was new, the report of the host as well.
theorem Processed.nodup (ht : Processed h lao m e t) (hd : e.identifiers.Nodup) :
    t.state.identifiers.Nodup := by
  refine ht.keeps (P := fun e => e.identifiers.Nodup) hd ?phase ?vote ?other ?report
  case phase => exact fun _ hd => hd
  case vote => exact fun {_ _ votes} ha => nodup_log (e := e.storeVotes m.sender votes) hd ha.fresh
  case other => exact fun ha _ => nodup_log hd ha.fresh
  case report => exact fun _ hn hd => nodup_log hd hn

theorem nodup_identifiers {hub : Hub} (hr : hub.Reachable h)
    (he : Table.get? hub.elections path = some e) : e.identifiers.Nodup :=
  hr.election_induction (P := fun _ e => e.identifiers.Nodup)
    (fun _ _ => List.nodup_singleton _) (fun _ hd => hd) (fun hd ht => ht.nodup hd) he

-- What is in the log is not admitted again, whoever sends it and whatever it is called.
theorem Regular.not_admits (hr : e.Regular h path) (hm : m ∈ e.inbox.messages)
    (hn : n.Repeats m) {env : Envelope} {p : Payload} {r : Ruling} :
    ¬Admits h lao n e env p r := by
  intro ha
  have ⟨env', hu⟩ := hr.passed m hm
  exact ha.fresh (Inbox.has_iff.mpr ⟨m, hm, (hn.id_eq hu ha.unseal_eq).symm⟩)

-- Nor does it stand in the log a second time.
theorem Regular.eq_of_repeats (hr : e.Regular h path) (hd : e.identifiers.Nodup)
    (hm : m ∈ e.inbox.messages) (hn : n ∈ e.inbox.messages) (hnm : n.Repeats m) : n = m := by
  have ⟨_, hum⟩ := hr.passed m hm
  have ⟨_, hun⟩ := hr.passed n hn
  exact List.inj_on_of_nodup_map hd hn hm (hnm.id_eq hum hun)

end Election

namespace Hub

variable {h : Host} {hub : Hub} {path : String} {e : Election}

theorem handle_catchup (he : Table.get? hub.elections path = some e) (version : String)
    (id : Int64) (s : Socket) :
    hub.handle h (.catchup version id path) s =
      ⟨hub, [], some (.log (some id) e.inbox.messages)⟩ := by
  simp [handle, run, Query.channel, Query.id?, he, Turn.done]

end Hub

-- From one point of a run to a later one an election stays where it is and its log only grows at
-- the end. No identifier is in it twice, none is reserved between two calls, and the whole of it
-- is what one who asks is told.
theorem Hub.log_grows_without_repeats (h : Host) (pre post : List Call) (path : String)
    (e : Election) (he : Table.get? (after h pre).elections path = some e) :
    ∃ e', Table.get? (after h (pre ++ post)).elections path = some e' ∧
      e.inbox.messages <+: e'.inbox.messages ∧ (e'.inbox.messages.map Message.id).Nodup ∧
      e'.inbox.pending = [] ∧
      ∀ version id s, (after h (pre ++ post)).handle h (.catchup version id path) s =
        ⟨after h (pre ++ post), [], some (.log (some id) e'.inbox.messages)⟩ := by
  have ⟨e', he', hg⟩ := grows_after he post
  have hr := reachable_after h (pre ++ post)
  exact ⟨e', he', hg.messages, Election.nodup_identifiers hr he',
    (Election.regular hr he').pending_eq, handle_catchup he'⟩

theorem Hub.log_grows_endedA :
    Table.get? (after Trial.host Trial.voteRun).elections (Trial.path "A") =
        some Trial.votedA ∧
      Trial.votedA.inbox.messages <+: Trial.endedA.inbox.messages ∧
      (Trial.endedA.inbox.messages.map Message.id).Nodup ∧ Trial.endedA.inbox.pending = [] := by
  have he := Trial.reaches_votedA.get?_eq
  have ⟨e', he', hp, hn, hi, _⟩ := log_grows_without_repeats Trial.host Trial.voteRun
    [Trial.publish (Trial.path "A") (Trial.message 3 (.closing (Trial.closing "A")))]
    (Trial.path "A") Trial.votedA he
  cases Trial.reaches_endedA.get?_eq.symm.trans he'
  exact ⟨he, hp, hn, hi⟩

-- A message that is in a log stays there, and once only. Whatever repeats its payload and its
-- signature is refused from then on, under any name, and then nothing changes.
theorem Election.repeat_refused (h : Host) (pre post : List Hub.Call) (path : String)
    (e : Election) (he : Table.get? (Hub.after h pre).elections path = some e) (m n : Message)
    (hm : m ∈ e.inbox.messages) (hn : n.Repeats m) :
    ∃ e', Table.get? (Hub.after h (pre ++ post)).elections path = some e' ∧
      m ∈ e'.inbox.messages ∧ (∀ k ∈ e'.inbox.messages, k.Repeats m → k = m) ∧
      (∀ lao, ∃ f, e'.process h lao n = .refuse e' f) ∧
      ∀ q s, q.channel = path → q.message? = some n →
        ∃ f, (Hub.after h (pre ++ post)).handle h q s =
          ⟨Hub.after h (pre ++ post), [], some (.fault q.id? f)⟩ := by
  have ⟨e', he', hg⟩ := Hub.grows_after he post
  have hreach := Hub.reachable_after h (pre ++ post)
  have hr := regular hreach he'
  have hm' : m ∈ e'.inbox.messages := hg.messages.subset hm
  refine ⟨e', he', hm', fun k hk => ?_, fun lao => ?_, fun q s hp hq => ?_⟩
  case refine_1 => exact hr.eq_of_repeats (nodup_identifiers hreach he') hm' hk
  case refine_2 => exact process_eq_refuse fun _ _ _ => hr.not_admits hm' hn
  case refine_3 =>
    subst hp
    have ⟨f, hf⟩ := Hub.say_of_not_admits (h := h) he' (hr.not_admits hm' hn)
    exact ⟨f, Hub.handle_of_say hq hf⟩

-- The vote of the trial under another name, when the election has ended.
theorem Election.repeat_refused_endedA :
    let m := Trial.message 2 (.castVote (Trial.vote "A"))
    let n := { m with sender := "another", id := "new", witnesses := [⟨"w", "s"⟩] }
    Table.get? (Hub.after Trial.host Trial.endRun).elections (Trial.path "A") =
        some Trial.endedA ∧
      m ∈ Trial.votedA.inbox.messages ∧ n.Repeats m ∧ n ≠ m ∧
      ∀ lao, ∃ f, Trial.endedA.process Trial.host lao n = .refuse Trial.endedA f := by
  intro m n
  have hm : m ∈ Trial.votedA.inbox.messages := by simp [Trial.messages_votedA, Trial.logA, m]
  have hn : n.Repeats m := ⟨rfl, rfl⟩
  obtain ⟨e', he', -, -, hf, -⟩ := repeat_refused Trial.host Trial.voteRun
    [Trial.publish (Trial.path "A") (Trial.message 3 (.closing (Trial.closing "A")))]
    (Trial.path "A") Trial.votedA Trial.reaches_votedA.get?_eq m n hm hn
  cases Trial.reaches_endedA.get?_eq.symm.trans he'
  have hne : n ≠ m := fun h => List.cons_ne_nil _ _ (congrArg Message.witnesses h)
  exact ⟨Trial.reaches_endedA.get?_eq, hm, hn, hne, hf⟩

end Plenum
