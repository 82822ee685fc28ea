import Mathlib.Tactic.Common
import Plenum.Service

namespace Plenum

namespace Bytes

-- Lines that end with a line feed, except perhaps for the last, and have none elsewhere.
def AreLines (ls : List Bytes) : Prop :=
  ∃ (bodies : List Bytes) (rest : Option Bytes),
    ls = bodies.map (· ++ [lineFeed]) ++ rest.toList ∧ (∀ l ∈ bodies, lineFeed ∉ l) ∧
      ∀ l ∈ rest, l ≠ [] ∧ lineFeed ∉ l

theorem areLines_lines (b : Bytes) : AreLines (lines b) := by
  induction b
  case nil => exact ⟨[], none, rfl, nofun, nofun⟩
  case cons x b ih =>
    obtain ⟨bodies, rest, hl, hb, hr⟩ := ih
    have hc : lines (x :: b) = consLine x (lines b) := rfl
    rw [hc, hl]
    unfold consLine
    by_cases hx : x = lineFeed
    case pos =>
      refine ⟨[] :: bodies, rest, by simp [hx], List.forall_mem_cons.mpr ⟨List.not_mem_nil, hb⟩, hr⟩
    case neg =>
      rw [if_neg hx]
      have hn {l : Bytes} (hf : lineFeed ∉ l) : lineFeed ∉ x :: l :=
        fun hm => (List.mem_cons.mp hm).elim (Ne.symm hx) hf
      cases bodies
      case cons body bodies =>
        have ⟨hbody, hb⟩ := List.forall_mem_cons.mp hb
        exact ⟨(x :: body) :: bodies, rest, rfl, List.forall_mem_cons.mpr ⟨hn hbody, hb⟩, hr⟩
      case nil =>
        cases rest
        case none => exact ⟨[], some [x], rfl, nofun, by simpa using Ne.symm hx⟩
        case some l =>
          refine ⟨[], some (x :: l), rfl, nofun, fun l' hl' => ?_⟩
          cases hl'
          exact ⟨List.cons_ne_nil x l, hn (hr l rfl).right⟩

variable {b l : Bytes}

theorem endsLine_concat (l : Bytes) : endsLine (l ++ [lineFeed]) := by
  simp [endsLine]

theorem not_endsLine (hf : lineFeed ∉ l) : endsLine l = false := by
  rw [endsLine, decide_eq_false_iff_not]
  exact fun hl => hf (List.mem_of_getLast? hl)

theorem lines_concat_append (hf : lineFeed ∉ l) (b : Bytes) :
    lines (l ++ [lineFeed] ++ b) = (l ++ [lineFeed]) :: lines b := by
  induction l
  case nil => rfl
  case cons x l ih =>
    have ⟨hx, hf⟩ := List.ne_and_not_mem_of_not_mem_cons hf
    have hc : lines (x :: l ++ [lineFeed] ++ b) = consLine x (lines (l ++ [lineFeed] ++ b)) := rfl
    rw [hc, ih hf, consLine, if_neg hx.symm]
    rfl

-- The complete lines of a stream, and what is left of it.
def complete (b : Bytes) : List Bytes :=
  (lines b).filter endsLine

def remainder (b : Bytes) : Bytes :=
  ((lines b).filter (!endsLine ·)).flatten

theorem lines_flatten_append {bodies : List Bytes} (hb : ∀ l ∈ bodies, lineFeed ∉ l) (b : Bytes) :
    lines ((bodies.map (· ++ [lineFeed])).flatten ++ b) =
      bodies.map (· ++ [lineFeed]) ++ lines b := by
  induction bodies
  case nil => rfl
  case cons l bodies ih =>
    have ⟨hl, hb⟩ := List.forall_mem_cons.mp hb
    rw [List.map_cons, List.flatten_cons, List.append_assoc, lines_concat_append hl, ih hb,
      List.cons_append]

-- Complete lines stay as they are, whatever comes after them.
theorem lines_append (b b' : Bytes) :
    lines (b ++ b') = complete b ++ lines (remainder b ++ b') := by
  obtain ⟨bodies, rest, hl, hb, hr⟩ := areLines_lines b
  have hbodies : ∀ l ∈ bodies.map (· ++ [lineFeed]), endsLine l :=
    List.forall_mem_map.mpr fun l _ => endsLine_concat l
  have hrest : ∀ l ∈ rest.toList, endsLine l = false := by
    intro l hl
    exact not_endsLine (hr l (Option.mem_toList.mp hl)).right
  have hc : complete b = bodies.map (· ++ [lineFeed]) := by
    rw [complete, hl, List.filter_append, List.filter_eq_self.mpr hbodies,
      List.filter_eq_nil_iff.mpr fun l hl => by simp [hrest l hl], List.append_nil]
  have hm : remainder b = rest.toList.flatten := by
    rw [remainder, hl, List.filter_append,
      List.filter_eq_nil_iff.mpr fun l hl => by simp [hbodies l hl],
      List.filter_eq_self.mpr fun l hl => by simp [hrest l hl], List.nil_append]
  have hb' : b ++ b' = (bodies.map (· ++ [lineFeed])).flatten ++ (rest.toList.flatten ++ b') := by
    rw [← List.append_assoc, ← List.flatten_append, ← hl, flatten_lines]
  rw [hb', lines_flatten_append hb, hc, hm]

theorem complete_append (b b' : Bytes) :
    complete (b ++ b') = complete b ++ complete (remainder b ++ b') := by
  rw [complete, lines_append, List.filter_append, complete, List.filter_filter]
  simp only [Bool.and_self]
  rfl

theorem remainder_append (b b' : Bytes) : remainder (b ++ b') = remainder (remainder b ++ b') := by
  have hn : (lines b).filter (fun l => !endsLine l && endsLine l) = [] :=
    List.filter_eq_nil_iff.mpr fun l _ => by simp
  rw [remainder, lines_append, List.filter_append, complete, List.filter_filter, hn]
  rfl

theorem complete_append_lines (b : Bytes) : complete b ++ lines (remainder b) = lines b := by
  have hl := lines_append b []
  rw [List.append_nil, List.append_nil] at hl
  exact hl.symm

end Bytes

namespace Service

variable {h : Host} {limit : Nat} {s : Socket}

theorem hearAll_append (v : Service) (ls ls' : List Bytes) :
    v.hearAll h limit s (ls ++ ls') =
      if (v.hearAll h limit s ls).2 then (v.hearAll h limit s ls).1.hearAll h limit s ls'
      else v.hearAll h limit s ls := by
  induction ls generalizing v
  case nil => rfl
  case cons l ls ih =>
    rw [List.cons_append, hearAll, hearAll]
    cases v.hear h limit s l
    case none => rfl
    case some v => exact ih v

end Service

namespace Connection

variable {h : Host} {limit : Nat} {v : Service} {s : Socket}

-- Pieces of a stream come one after another.
def feedAll (h : Host) (limit : Nat) (v : Service) (c : Connection) (pieces : List Bytes) :
    Service × Connection :=
  pieces.foldl (fun p b => p.2.feed h limit p.1 b) (v, c)

-- What has become of the service and the connection when a part of the stream has come.
def halfway (h : Host) (limit : Nat) (v : Service) (s : Socket) (b : Bytes) :
    Service × Connection :=
  let (v, alive) := v.hearAll h limit s b.complete
  if alive then (v, ⟨s, b.remainder, false⟩) else (v.hangUp s, ⟨s, [], true⟩)

theorem feed_halfway (h : Host) (limit : Nat) (v : Service) (s : Socket) (b b' : Bytes) :
    (halfway h limit v s b).2.feed h limit (halfway h limit v s b).1 b' =
      halfway h limit v s (b ++ b') := by
  rw [halfway, halfway, Bytes.complete_append, Bytes.remainder_append, Service.hearAll_append]
  obtain ⟨v', alive⟩ := v.hearAll h limit s b.complete
  cases alive
  case false => rfl
  case true => rfl

theorem feedAll_eq_halfway (h : Host) (limit : Nat) (v : Service) (s : Socket)
    (pieces : List Bytes) :
    feedAll h limit v (start s) pieces = halfway h limit v s pieces.flatten := by
  have hp (b : Bytes) : pieces.foldl (fun p b => p.2.feed h limit p.1 b) (halfway h limit v s b) =
      halfway h limit v s (b ++ pieces.flatten) := by
    induction pieces generalizing b
    case nil => rw [List.flatten_nil, List.append_nil]; rfl
    case cons piece pieces ih =>
      rw [List.foldl_cons, feed_halfway, ih, List.append_assoc, List.flatten_cons]
  exact hp []

-- In whatever pieces a stream comes, the connection hears its lines.
theorem finish_feedAll (h : Host) (limit : Nat) (v : Service) (s : Socket) (pieces : List Bytes) :
    let p := feedAll h limit v (start s) pieces
    (p.2.finish h limit p.1).1 = v.converse h limit s pieces.flatten := by
  simp only
  rw [feedAll_eq_halfway, Service.converse, ← Bytes.complete_append_lines, Service.hearAll_append,
    halfway]
  obtain ⟨v', alive⟩ := v.hearAll h limit s (Bytes.complete pieces.flatten)
  cases alive
  case false => rfl
  case true => rfl

end Connection
end Plenum
