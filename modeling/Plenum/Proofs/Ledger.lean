import Plenum.Inbox.Ledger
import Plenum.Proofs.Election
import Plenum.Proofs.Table

namespace Plenum

namespace Inbox

theorem isSome_get? (i : Inbox) (id : String) : (i.get? id).isSome ↔ i.has id := by
  simp [get?, has]

theorem get?_concat (ms : List Message) (ids : List String) (m : Message) (id : String) :
    get? ⟨ms ++ [m], ids⟩ id = if m.id = id then some m else get? ⟨ms, ids⟩ id := by
  simp only [get?, List.reverse_append, List.reverse_singleton, List.singleton_append]
  split
  case isTrue hm => exact List.find?_cons_of_pos (decide_eq_true hm)
  case isFalse hm => exact List.find?_cons_of_neg (by simpa using hm)

end Inbox

namespace Ledger

variable {l : Ledger} {m : Message} {r : Reservation} {id : String}

-- A ledger without its table is the log that an election has.
def inbox (l : Ledger) : Inbox :=
  ⟨l.messages, l.pending⟩

-- The table has the last message of each id, and never a position without a message.
def Indexed (l : Ledger) : Prop :=
  ∀ id, l.find id = .ok (l.inbox.get? id)

theorem indexed_empty : empty.Indexed :=
  fun _ => rfl

theorem Indexed.contains_iff (hi : l.Indexed) (id : String) :
    Table.contains l.index id ↔ l.inbox.has id := by
  have hf := hi id
  rw [find] at hf
  rw [Table.contains, ← Inbox.isSome_get?]
  split at hf
  case h_1 hn => simp [hn, ← Except.ok.inj hf]
  case h_2 hs =>
    split at hf
    case h_1 => simp [hs, ← Except.ok.inj hf]
    case h_2 => cases hf

theorem find_append (l : Ledger) (m : Message) : (l.append m).find m.id = .ok (some m) := by
  simp [find, append, length]

-- What was found before is found where it was, since the list grows at its end.
theorem find_append_of_ne (hm : m.id ≠ id) {m? : Option Message} (hf : l.find id = .ok m?) :
    (l.append m).find id = .ok m? := by
  rw [find] at hf ⊢
  rw [append, Table.get?_insert_of_ne hm]
  split at hf
  case h_1 => exact hf
  case h_2 =>
    split at hf
    case h_2 => cases hf
    case h_1 hn =>
      have ⟨hl, _⟩ := List.getElem?_eq_some_iff.mp hn
      simp only [List.getElem?_append_left hl, hn, hf]

theorem Indexed.append (hi : l.Indexed) (m : Message) : (l.append m).Indexed := by
  intro id
  rw [inbox, Ledger.append, Inbox.get?_concat]
  split
  case isTrue hm => exact hm ▸ find_append l m
  case isFalse hm => exact find_append_of_ne hm (hi id)

theorem Indexed.reserve_eq (hi : l.Indexed) (id : String) :
    l.reserve id =
      if l.inbox.has id ∨ id ∈ l.pending then .error (.duplicate id)
      else .ok (l.claim id, ⟨id, false⟩) := by
  simp only [reserve, hi.contains_iff]

theorem mem_pending_release {i : String} :
    i ∈ (l.release id).pending ↔ i ∈ l.pending ∧ i ≠ id := by
  simp [release]

theorem commit_of_ne (hm : m.id ≠ r.id) :
    l.commit r m =
      ⟨l.drop r, [], .error (.internal s!"reservation for {r.id} committed with {m.id}")⟩ :=
  if_pos hm

theorem commit_of_eq (hm : m.id = r.id) :
    l.commit r m = ⟨(l.release r.id).append m, [m], .ok ()⟩ := by
  simp [commit, hm, append, drop]

-- What a ledger does to its messages and its pending ids is what the log of an election does.
theorem Indexed.inbox_store (hi : l.Indexed) (m : Message) :
    (l.store m).inbox = l.inbox.store m := by
  simp only [Ledger.store, Inbox.store, ← hi.contains_iff]
  split <;> rfl

theorem Indexed.inbox_reserve (hi : l.Indexed) (id : String) :
    (l.reserve id).map (·.1.inbox) = l.inbox.reserve id := by
  rw [hi.reserve_eq, Inbox.reserve]
  split
  case isTrue hc => exact (if_pos hc).symm
  case isFalse hc => exact (if_neg hc).symm

theorem inbox_drop (l : Ledger) (id : String) :
    (l.drop ⟨id, false⟩).inbox = l.inbox.release id :=
  rfl

theorem inbox_commit (l : Ledger) (id : String) (m : Message) :
    ((l.commit ⟨id, false⟩ m).outcome.map fun () => (l.commit ⟨id, false⟩ m).ledger.inbox) =
      l.inbox.commit id m := by
  by_cases hm : m.id = id
  case pos =>
    rw [commit_of_eq hm, Inbox.commit, if_pos hm]
    rfl
  case neg =>
    rw [commit_of_ne hm, Inbox.commit, if_neg hm]
    rfl

end Ledger

namespace Desk

def Call.isStore : Call → Bool
  | .store _ => true
  | _ => false

section

variable {σ : Type} (step : σ → Call → σ × Result)

-- The state after a run, and what the calls of the run result in.
def after (s : σ) (calls : List Call) : σ :=
  calls.foldl (fun s c => (step s c).1) s

def results (s : σ) : List Call → List Result
  | [] => []
  | c :: calls => (step s c).2 :: results (step s c).1 calls

@[simp]
theorem after_cons (s : σ) (c : Call) (calls : List Call) :
    after step s (c :: calls) = after step (step s c).1 calls :=
  rfl

theorem after_concat (s : σ) (calls : List Call) (c : Call) :
    after step s (calls ++ [c]) = (step (after step s calls) c).1 := by
  simp [after]

theorem after_append (s : σ) (pre post : List Call) :
    after step s (pre ++ post) = after step (after step s pre) post :=
  List.foldl_append

end

-- What a run puts into the list, each message with the call that does it.
def added (d : Desk) : List Call → List (Call × Message)
  | [] => []
  | c :: calls =>
    ((d.step c).1.ledger.messages.drop d.ledger.length).map (c, ·) ++ added (d.step c).1 calls

end Desk

-- What there is to see of a desk: the list of messages, the ids that are held, by slot, and what
-- the fan-outs have seen.
structure View where
  messages : List Message
  held : Table String
  seen : List Message
  deriving DecidableEq, Repr

namespace View

open Desk

def empty : View :=
  ⟨[], [], []⟩

def identifiers (v : View) : List String :=
  v.messages.map Message.id

def vacate (v : View) (slot : String) : View :=
  { v with held := Table.erase v.held slot }

def step (v : View) : Call → View × Result
  | .store m =>
    (if m.id ∈ v.identifiers then v else { v with messages := v.messages ++ [m] }, .done)
  | .get id => (v, .found (v.messages.reverse.find? (·.id = id)))
  | .list => (v, .listed v.messages)
  | .reserve slot id =>
    if id ∈ v.identifiers ∨ id ∈ Table.values v.held then (v, .refused (.duplicate id))
    else ({ v with held := Table.insert (v.vacate slot).held slot id }, .reserved id)
  | .drop slot => (v.vacate slot, if Table.contains v.held slot then .done else .vacant)
  | .commit slot m =>
    match Table.get? v.held slot with
    | none => (v, .vacant)
    | some id =>
      if m.id = id then
        ({ v.vacate slot with messages := v.messages ++ [m], seen := v.seen ++ [m] },
          .committed [m])
      else
        (v.vacate slot, .refused (.internal s!"reservation for {id} committed with {m.id}"))

-- No two slots hold the same id.
structure Apart (v : View) : Prop where
  slots : (Table.keys v.held).Nodup
  ids : (Table.values v.held).Nodup

variable {v : View} {slot id : String}

theorem apart_empty : empty.Apart :=
  ⟨List.nodup_nil, List.nodup_nil⟩

theorem Apart.values_vacate (ha : v.Apart) (hs : Table.get? v.held slot = some id) :
    Table.values (v.vacate slot).held = (Table.values v.held).filter (· ≠ id) :=
  Table.values_erase ha.slots ha.ids hs

theorem Apart.vacate (ha : v.Apart) (slot : String) : (v.vacate slot).Apart :=
  ⟨Table.nodup_keys_erase slot ha.slots, ha.ids.sublist (List.filter_sublist.map _)⟩

theorem get?_vacate (v : View) (slot : String) : Table.get? (v.vacate slot).held slot = none := by
  simp [View.vacate, Table.get?_erase]

theorem values_insert (v : View) (slot id : String) :
    Table.values (Table.insert (v.vacate slot).held slot id) =
      Table.values (v.vacate slot).held ++ [id] := by
  rw [Table.insert_of_get?_none (v.get?_vacate slot), Table.values, Table.values, List.map_append]
  rfl

theorem Apart.reserve (ha : v.Apart) (hn : id ∉ Table.values v.held) :
    Apart { v with held := Table.insert (v.vacate slot).held slot id } where
  slots := Table.nodup_keys_insert slot id (ha.vacate slot).slots
  ids := by
    have hv : id ∉ Table.values (v.vacate slot).held :=
      fun hm => hn ((List.filter_sublist.map _).subset hm)
    rw [values_insert, ← List.concat_eq_append, List.nodup_concat]
    exact ⟨hv, (ha.vacate slot).ids⟩

-- What a call puts at the end of the list.
def gain (v : View) : Call → List Message
  | .store m => if m.id ∈ v.identifiers then [] else [m]
  | .commit slot m => if Table.get? v.held slot = some m.id then [m] else []
  | _ => []

-- What a call can do to what there is to see.
inductive Stepped (v : View) : Call → View → Prop
  | kept {c : Call} : v.gain c = [] → Stepped v c v
  | stored {m : Message} :
    m.id ∉ v.identifiers → Stepped v (.store m) { v with messages := v.messages ++ [m] }
  | vacated {c : Call} (slot : String) : v.gain c = [] → Stepped v c (v.vacate slot)
  | reserved {slot id : String} :
    id ∉ v.identifiers → id ∉ Table.values v.held →
    Stepped v (.reserve slot id) { v with held := Table.insert (v.vacate slot).held slot id }
  | committed {slot : String} {m : Message} :
    Table.get? v.held slot = some m.id →
    Stepped v (.commit slot m)
      { v.vacate slot with messages := v.messages ++ [m], seen := v.seen ++ [m] }

theorem stepped (v : View) (c : Call) : Stepped v c (v.step c).1 := by
  cases c <;> simp only [step]
  case get | list => exact .kept rfl
  case drop slot => exact .vacated slot rfl
  case store m =>
    split
    case isTrue hm => exact .kept (if_pos hm)
    case isFalse hm => exact .stored hm
  case reserve slot id =>
    split
    case isTrue => exact .kept rfl
    case isFalse hn => exact .reserved (not_or.mp hn).left (not_or.mp hn).right
  case commit slot m =>
    split
    case h_1 hg => exact .kept (by simp [gain, hg])
    case h_2 id hg =>
      split
      case isTrue hm => exact .committed (hm ▸ hg)
      case isFalse hm => exact .vacated slot (by simp [gain, hg, Ne.symm hm])

theorem Apart.step (ha : v.Apart) (c : Call) : (v.step c).1.Apart := by
  have hs := v.stepped c
  generalize (v.step c).1 = v' at hs
  cases hs
  case kept => exact ha
  case stored => exact ⟨ha.slots, ha.ids⟩
  case vacated slot _ => exact ha.vacate slot
  case reserved hn => exact ha.reserve hn
  case committed slot _ _ => exact ⟨(ha.vacate slot).slots, (ha.vacate slot).ids⟩

-- What is put into the list is seen by a fan-out, unless it was stored directly.
theorem step_gain (v : View) (c : Call) :
    (v.step c).1.messages = v.messages ++ v.gain c ∧
      (v.step c).1.seen = v.seen ++ if c.isStore then [] else v.gain c := by
  have hs := v.stepped c
  generalize (v.step c).1 = v' at hs
  cases hs
  case kept hn => simp [hn]
  case stored hm => simp [gain, hm, Call.isStore]
  case vacated hn => simp [hn, vacate]
  case reserved => simp [gain]
  case committed hg => simp [gain, hg, Call.isStore]

theorem messages_prefix_after (v : View) (calls : List Call) :
    v.messages <+: (after step v calls).messages := by
  induction calls generalizing v
  case nil => exact List.prefix_refl _
  case cons c calls ih =>
    have hc : v.messages <+: (v.step c).1.messages := (step_gain v c).left ▸ List.prefix_append ..
    exact hc.trans (ih _)

end View

namespace Desk

def live (id : String) : Reservation :=
  ⟨id, false⟩

def view (d : Desk) : View :=
  ⟨d.ledger.messages, d.held.map fun (slot, r) => (slot, r.id), d.seen⟩

-- The ledger keeps what the view says, once more in its table and its pending ids.
structure Shows (d : Desk) (v : View) : Prop where
  messages_eq : d.ledger.messages = v.messages
  held_eq : d.held = v.held.map fun (slot, id) => (slot, live id)
  seen_eq : d.seen = v.seen
  indexed : d.ledger.Indexed
  pending : ∀ id, id ∈ d.ledger.pending ↔ id ∈ Table.values v.held

variable {d : Desk} {v : View} {l : Ledger} {m : Message} {slot id : String}

theorem shows_empty : empty.Shows .empty where
  messages_eq := rfl
  held_eq := rfl
  seen_eq := rfl
  indexed := Ledger.indexed_empty
  pending _ := Iff.rfl

namespace Shows

theorem view_eq (hs : d.Shows v) : d.view = v := by
  simp [view, hs.messages_eq, hs.held_eq, hs.seen_eq, live, Function.comp_def]

theorem get?_held (hs : d.Shows v) (slot : String) :
    Table.get? d.held slot = (Table.get? v.held slot).map live := by
  rw [hs.held_eq, Table.get?_map v.held live]

theorem has_iff (hs : d.Shows v) (id : String) : d.ledger.inbox.has id ↔ id ∈ v.identifiers := by
  simp [Inbox.has_iff, Ledger.inbox, hs.messages_eq, View.identifiers]

theorem find_eq (hs : d.Shows v) (id : String) :
    d.ledger.find id = .ok (v.messages.reverse.find? (·.id = id)) := by
  rw [hs.indexed id, Inbox.get?, Ledger.inbox, hs.messages_eq]

theorem append (hs : d.Shows v) (m : Message) :
    Shows { d with ledger := d.ledger.append m } { v with messages := v.messages ++ [m] } where
  messages_eq := congrArg (· ++ [m]) hs.messages_eq
  held_eq := hs.held_eq
  seen_eq := hs.seen_eq
  indexed := hs.indexed.append m
  pending := hs.pending

-- Of all that is pending a reservation gives back its own id, which no other one holds.
theorem vacate (hs : d.Shows v) (ha : v.Apart) (slot : String) :
    (d.vacate slot).Shows (v.vacate slot) := by
  have hg := hs.get?_held slot
  cases hv : Table.get? v.held slot
  case none =>
    have hn : v.vacate slot = v := by rw [View.vacate, Table.erase_of_get? hv]
    rw [hv] at hg
    simpa only [Desk.vacate, hg, hn, Option.map_none] using hs
  case some id =>
    rw [hv] at hg
    simp only [Desk.vacate, hg, Option.map_some]
    refine ⟨hs.messages_eq, ?_, hs.seen_eq, hs.indexed, fun i => ?_⟩
    case refine_1 => rw [hs.held_eq, Table.map_erase v.held live, View.vacate]
    case refine_2 =>
      rw [ha.values_vacate hv, List.mem_filter, decide_eq_true_eq, ← hs.pending]
      exact Ledger.mem_pending_release

-- A new claim is not among those that end where its slot is cleared.
theorem vacate_claim (hs : d.Shows v) (hn : id ∉ Table.values v.held) (slot : String) :
    Desk.vacate { d with ledger := d.ledger.claim id } slot =
      { d.vacate slot with ledger := (d.vacate slot).ledger.claim id } := by
  have hg := hs.get?_held slot
  cases hv : Table.get? v.held slot
  case none =>
    rw [hv] at hg
    simp only [Desk.vacate, hg, Option.map_none]
  case some old =>
    rw [hv] at hg
    have ho : id ≠ old := fun he => hn (he ▸ Table.mem_values_of_get? hv)
    simp [Desk.vacate, hg, live, Ledger.drop, Ledger.release, Ledger.claim, ho]

theorem claim (hs : d.Shows v) (hf : Table.get? v.held slot = none) (id : String) :
    Shows { d with ledger := d.ledger.claim id, held := Table.insert d.held slot (live id) }
      { v with held := Table.insert v.held slot id } where
  messages_eq := hs.messages_eq
  held_eq := by rw [hs.held_eq, Table.map_insert v.held live]
  seen_eq := hs.seen_eq
  indexed := hs.indexed
  pending i := by
    rw [Table.insert_of_get?_none hf, Table.values, List.map_append]
    simp [Ledger.claim, hs.pending, Table.values, or_comm]

theorem reserve (hs : d.Shows v) (ha : v.Apart) (slot id : String) :
    (d.reserve slot id).1.Shows (v.step (.reserve slot id)).1 ∧
      (d.reserve slot id).2 = (v.step (.reserve slot id)).2 := by
  simp only [Desk.reserve, View.step, hs.indexed.reserve_eq, hs.has_iff, hs.pending]
  by_cases hc : id ∈ v.identifiers ∨ id ∈ Table.values v.held
  case pos =>
    rw [if_pos hc, if_pos hc]
    exact ⟨hs, rfl⟩
  case neg =>
    rw [if_neg hc, if_neg hc]
    simp only [hs.vacate_claim (not_or.mp hc).right]
    exact ⟨(hs.vacate ha slot).claim (v.get?_vacate slot) id, trivial⟩

theorem commit (hs : d.Shows v) (ha : v.Apart) (slot : String) (m : Message) :
    (d.commit slot m).1.Shows (v.step (.commit slot m)).1 ∧
      (d.commit slot m).2 = (v.step (.commit slot m)).2 := by
  have hg := hs.get?_held slot
  have hv := hs.vacate ha slot
  cases hh : Table.get? v.held slot
  case none =>
    simp only [hh, Option.map_none] at hg
    simp only [Desk.commit, hg, View.step, hh]
    exact ⟨hs, trivial⟩
  case some id =>
    simp only [hh, Option.map_some] at hg
    simp only [Desk.vacate, hg] at hv
    simp only [Desk.commit, hg, View.step, hh]
    by_cases hm : m.id = id
    case pos =>
      rw [Ledger.commit_of_eq hm, if_pos hm]
      exact ⟨{ hv.append m with seen_eq := congrArg (· ++ [m]) hs.seen_eq }, rfl⟩
    case neg =>
      rw [Ledger.commit_of_ne hm, if_neg hm]
      exact ⟨{ hv with seen_eq := (List.append_nil _).trans hs.seen_eq }, rfl⟩

theorem step (hs : d.Shows v) (ha : v.Apart) (c : Call) :
    (d.step c).1.Shows (v.step c).1 ∧ (d.step c).2 = (v.step c).2 := by
  cases c
  case reserve slot id => exact hs.reserve ha slot id
  case commit slot m => exact hs.commit ha slot m
  case list => exact ⟨hs, congrArg Result.listed hs.messages_eq⟩
  case get id => exact ⟨hs, by simp only [Desk.step, View.step, hs.find_eq]⟩
  case drop slot =>
    have hc : Table.contains d.held slot = Table.contains v.held slot := by
      rw [Table.contains, hs.get?_held, Option.isSome_map, Table.contains]
    exact ⟨hs.vacate ha slot, by simp only [Desk.step, View.step, hc]⟩
  case store m =>
    refine ⟨?_, rfl⟩
    simp only [Desk.step, View.step, Ledger.store, hs.indexed.contains_iff, hs.has_iff]
    split
    case isTrue => exact hs
    case isFalse => exact hs.append m

theorem run (hs : d.Shows v) (ha : v.Apart) (calls : List Call) :
    (after Desk.step d calls).Shows (after View.step v calls) ∧
      results Desk.step d calls = results View.step v calls := by
  induction calls generalizing d v
  case nil => exact ⟨hs, rfl⟩
  case cons c calls ih =>
    have ⟨hn, hc⟩ := hs.step ha c
    have ⟨hl, hr⟩ := ih hn (ha.step c)
    exact ⟨hl, congrArg₂ List.cons hc hr⟩

theorem drop_eq_gain (hs : d.Shows v) (ha : v.Apart) (c : Call) :
    (d.step c).1.ledger.messages.drop d.ledger.length = v.gain c := by
  have ⟨hn, _⟩ := hs.step ha c
  rw [hn.messages_eq, (v.step_gain c).left, Ledger.length, hs.messages_eq, List.drop_left]

theorem added_eq (hs : d.Shows v) (ha : v.Apart) (calls : List Call) :
    v.messages ++ (d.added calls).map (·.2) = (after View.step v calls).messages ∧
      v.seen ++ ((d.added calls).filter (!·.1.isStore)).map (·.2) =
        (after View.step v calls).seen := by
  induction calls generalizing d v
  case nil => exact ⟨List.append_nil _, List.append_nil _⟩
  case cons c calls ih =>
    have ⟨hm, hf⟩ := ih (hs.step ha c).left (ha.step c)
    have ⟨hc, hv⟩ := v.step_gain c
    rw [hc, List.append_assoc] at hm
    rw [hv, List.append_assoc] at hf
    rw [added, hs.drop_eq_gain ha]
    constructor
    case left => simpa [Function.comp_def] using hm
    case right => cases he : c.isStore <;> simpa [he, List.filter_map, Function.comp_def] using hf

end Shows

-- Over every run a ledger does what is said of the list and of the held ids in `View.step`, with
-- the same results. What a commit sees in its fan-out is what it appends, so that the fan-outs
-- have seen the list without the messages that were stored directly.
theorem ledger_is_list_with_claims (calls : List Call) :
    results step empty calls = results View.step .empty calls ∧
      (after step empty calls).view = after View.step .empty calls ∧
      (∀ n, (after step empty (calls.take n)).ledger.messages <+:
        (after step empty calls).ledger.messages) ∧
      (after step empty calls).ledger.messages = (empty.added calls).map (·.2) ∧
      (after step empty calls).seen =
        ((empty.added calls).filter (!·.1.isStore)).map (·.2) ∧
      (∀ id, (after step empty calls).ledger.find id =
        .ok ((after step empty calls).ledger.messages.reverse.find? (·.id = id))) ∧
      (after step empty calls).ledger.length = (after View.step .empty calls).messages.length := by
  have ⟨hs, hr⟩ := shows_empty.run View.apart_empty calls
  have ⟨hm, hf⟩ := shows_empty.added_eq View.apart_empty calls
  refine ⟨hr, hs.view_eq, fun n => ?_, ?_, ?_, fun id => ?_, ?_⟩
  case refine_1 =>
    have ⟨ht, _⟩ := shows_empty.run View.apart_empty (calls.take n)
    have hp := (after View.step .empty (calls.take n)).messages_prefix_after (calls.drop n)
    rwa [← after_append, List.take_append_drop, ← ht.messages_eq, ← hs.messages_eq] at hp
  case refine_2 => exact hs.messages_eq.trans hm.symm
  case refine_3 => exact hs.seen_eq.trans hf.symm
  case refine_4 => rw [hs.find_eq, hs.messages_eq]
  case refine_5 => rw [Ledger.length, hs.messages_eq]

end Desk
end Plenum
