import Plenum.Payload.Decode
import Plenum.Proofs.Guards
import Plenum.Proofs.Json.Reading

namespace Plenum

open Json

namespace SetupQuestion

theorem ofTree?_toTree (q : SetupQuestion) : ofTree? q.toTree = some q := by
  have hm : Method.ofTree? q.method.toTree = some q.method := by cases q.method <;> rfl
  have ho : Tree.list? Tree.text? (.array (q.options.map .text)) = some q.options :=
    Tree.list?_map fun _ _ => rfl
  rw [ofTree?, toTree, Layout.read?_fields rfl (by decide)]
  simp [Fields.get?_cons, Fields.getD?_cons, Tree.text?_text, hm, ho, Tree.bool?]

theorem plain_toTree {d : Nat} (q : SetupQuestion) : q.toTree.Plain (d + 2) := by
  have ho : (Tree.array (q.options.map .text)).Plain (d + 1) := Tree.plain_map fun s => .text s
  exact .record (by simp [Method.toTree, Tree.Plain.text, Tree.Plain.bool, ho])

end SetupQuestion

namespace Setup

theorem ofTree?_toTree (p : Setup) : ofTree? p.toTree = some p := by
  have hq : Tree.list? SetupQuestion.ofTree? (.array (p.questions.map SetupQuestion.toTree)) =
      some p.questions :=
    Tree.list?_map fun q _ => q.ofTree?_toTree
  rw [ofTree?, toTree, Layout.read?_fields rfl (by decide)]
  simp [Fields.get?_cons, Tree.text?_text, Tree.int64?_int, hq]

theorem plain_toTree {d : Nat} (p : Setup) : p.toTree.Plain (d + 4) := by
  have hq : (Tree.array (p.questions.map SetupQuestion.toTree)).Plain (d + 3) :=
    Tree.plain_map fun q => q.plain_toTree
  exact .record (by simp [Tree.Plain.text, Tree.plain_int64, hq])

end Setup

namespace Opening

theorem ofTree?_toTree (p : Opening) : ofTree? p.toTree = some p := by
  rw [ofTree?, toTree, Layout.read?_fields rfl (by decide)]
  simp [Fields.get?_cons, Tree.text?_text, Tree.int64?_int]

theorem plain_toTree {d : Nat} (p : Opening) : p.toTree.Plain (d + 1) :=
  .record (by simp [Tree.Plain.text, Tree.plain_int64])

end Opening

namespace Ballot

theorem ofTree?_toTree (b : Ballot) : ofTree? b.toTree = some b := by
  have hc : Tree.list? Tree.int64? (.array (b.choices.map fun i => .int i.toInt)) =
      some b.choices :=
    Tree.list?_map fun i _ => Tree.int64?_int i
  rw [ofTree?, toTree, Layout.read?_fields rfl (by decide)]
  simp [Fields.get?_cons, Tree.text?_text, hc]

theorem plain_toTree {d : Nat} (b : Ballot) : b.toTree.Plain (d + 2) := by
  have hc : (Tree.array (b.choices.map fun i => .int i.toInt)).Plain (d + 1) :=
    Tree.plain_map fun i => Tree.plain_int64 i
  exact .record (by simp [Tree.Plain.text, hc])

end Ballot

namespace CastVote

theorem ofTree?_toTree (p : CastVote) : ofTree? p.toTree = some p := by
  have hv : Tree.list? Ballot.ofTree? (.array (p.votes.map Ballot.toTree)) = some p.votes :=
    Tree.list?_map fun b _ => b.ofTree?_toTree
  rw [ofTree?, toTree, Layout.read?_fields rfl (by decide)]
  simp [Fields.get?_cons, Tree.text?_text, Tree.int64?_int, hv]

theorem plain_toTree {d : Nat} (p : CastVote) : p.toTree.Plain (d + 4) := by
  have hv : (Tree.array (p.votes.map Ballot.toTree)).Plain (d + 3) :=
    Tree.plain_map fun b => b.plain_toTree
  exact .record (by simp [Tree.Plain.text, Tree.plain_int64, hv])

end CastVote

namespace Closing

theorem ofTree?_toTree (p : Closing) : ofTree? p.toTree = some p := by
  rw [ofTree?, toTree, Layout.read?_fields rfl (by decide)]
  simp [Fields.get?_cons, Tree.text?_text, Tree.int64?_int]

theorem plain_toTree {d : Nat} (p : Closing) : p.toTree.Plain (d + 1) :=
  .record (by simp [Tree.Plain.text, Tree.plain_int64])

end Closing

namespace OptionCount

theorem ofTree?_toTree (c : OptionCount) : ofTree? c.toTree = some c := by
  rw [ofTree?, toTree, Layout.read?_fields rfl (by decide), Option.bind_eq_bind, Option.bind_some,
    Fields.get?_cons, if_pos rfl, Fields.get?_cons, if_neg (by decide), Fields.get?_cons,
    if_pos rfl, Tree.text?_text, Tree.uint64?_int]
  rfl

theorem plain_toTree {d : Nat} (c : OptionCount) : c.toTree.Plain (d + 1) :=
  .record (by simp [Tree.Plain.text, Tree.plain_uint64])

end OptionCount

namespace QuestionOutcome

theorem ofTree?_toTree (q : QuestionOutcome) : ofTree? q.toTree = some q := by
  have hr : Tree.list? OptionCount.ofTree? (.array (q.result.map OptionCount.toTree)) =
      some q.result :=
    Tree.list?_map fun c _ => c.ofTree?_toTree
  rw [ofTree?, toTree, Layout.read?_fields rfl (by decide)]
  simp [Fields.get?_cons, Tree.text?_text, hr]

theorem plain_toTree {d : Nat} (q : QuestionOutcome) : q.toTree.Plain (d + 3) := by
  have hr : (Tree.array (q.result.map OptionCount.toTree)).Plain (d + 2) :=
    Tree.plain_map fun c => c.plain_toTree
  exact .record (by simp [Tree.Plain.text, hr])

end QuestionOutcome

namespace Outcome

theorem ofTree?_toTree (p : Outcome) : ofTree? p.toTree = some p := by
  have hq : Tree.list? QuestionOutcome.ofTree?
      (.array (p.questions.map QuestionOutcome.toTree)) = some p.questions :=
    Tree.list?_map fun q _ => q.ofTree?_toTree
  rw [ofTree?, toTree, Layout.read?_fields rfl (by decide)]
  simp [Fields.get?_cons, Tree.text?_text, hq]

theorem plain_toTree {d : Nat} (p : Outcome) : p.toTree.Plain (d + 5) := by
  have hq : (Tree.array (p.questions.map QuestionOutcome.toTree)).Plain (d + 4) :=
    Tree.plain_map fun q => q.plain_toTree
  exact .record (by simp [Tree.Plain.text, hq])

end Outcome

theorem Payload.Kind.ofAction?_action (k : Kind) : ofAction? k.action = some k := by
  cases k <;> decide

namespace Header

theorem ofTree?_record {ms : List (String × Tree)} (hn : (ms.map (·.1)).Nodup) {o a : String}
    (h : ms.filter (·.1 ∈ layout.names) = [("object", .text o), ("action", .text a)]) :
    ofTree? (.record ms) = some ⟨o, a⟩ := by
  rw [ofTree?, Layout.read?_record hn (fun hc => by simp [layout] at hc), h]
  simp [Fields.get?_cons, Tree.text?_text]

theorem kind?_eq_some {header : Header} {k : Payload.Kind} :
    header.kind? = some k ↔ header = ⟨Payload.object, k.action⟩ := by
  rw [kind?]
  constructor
  case mp =>
    intro h
    split at h
    case isTrue ho =>
      have ha := List.find?_some h
      rw [decide_eq_true_eq] at ha
      rw [ha, ← ho]
    case isFalse => cases h
  case mpr =>
    intro h
    subst h
    exact (if_pos rfl).trans k.ofAction?_action

theorem read_eq_ok {b : Bytes} {header : Header} :
    read b = .ok header ↔ ∃ t, parse (Glyph.ofBytes b) = some t ∧ ofTree? t = some header := by
  rw [← Option.bind_eq_some_iff, read]
  cases (parse (Glyph.ofBytes b)).bind ofTree? <;> simp

end Header

namespace Payload

variable {b : Bytes} {p : Payload} {k : Kind}

def header : Payload → Header
  | setup p => ⟨p.object, p.action⟩
  | opening p => ⟨p.object, p.action⟩
  | castVote p => ⟨p.object, p.action⟩
  | closing p => ⟨p.object, p.action⟩
  | outcome p => ⟨p.object, p.action⟩

-- A payload whose header says of what kind it is.
def Labelled (p : Payload) : Prop :=
  p.header = ⟨object, p.kind.action⟩

theorem Labelled.kind? (h : p.Labelled) : p.header.kind? = some p.kind :=
  Header.kind?_eq_some.mpr h

theorem header_ofTree?_toTree (p : Payload) : Header.ofTree? p.toTree = some p.header := by
  cases p <;> exact Header.ofTree?_record (by simp) rfl

theorem kind_ofTree?_toTree (p : Payload) : p.kind.ofTree? p.toTree = some p := by
  cases p
  case setup p => exact congrArg (Option.map setup) p.ofTree?_toTree
  case opening p => exact congrArg (Option.map opening) p.ofTree?_toTree
  case castVote p => exact congrArg (Option.map castVote) p.ofTree?_toTree
  case closing p => exact congrArg (Option.map closing) p.ofTree?_toTree
  case outcome p => exact congrArg (Option.map outcome) p.ofTree?_toTree

theorem kind_of_ofTree? {t : Tree} (h : k.ofTree? t = some p) : p.kind = k := by
  cases k <;> obtain ⟨q, -, rfl⟩ := Option.map_eq_some_iff.mp h <;> rfl

theorem plain_toTree {d : Nat} (p : Payload) : p.toTree.Plain (d + 5) := by
  cases p
  case setup p => exact p.plain_toTree
  case opening p => exact p.plain_toTree
  case castVote p => exact p.plain_toTree
  case closing p => exact p.plain_toTree
  case outcome p => exact p.plain_toTree

theorem parse_encode (p : Payload) : parse (Glyph.ofBytes p.encode) = some p.toTree := by
  rw [encode, Glyph.ofBytes_ofText, render, parse_render (p.plain_toTree (d := 0))]

theorem decode_eq_ok : decode b = .ok p ↔
    ∃ t header k, parse (Glyph.ofBytes b) = some t ∧ Header.ofTree? t = some header ∧
      header.kind? = some k ∧ k.ofTree? t = some p := by
  rw [decode, Guards.bind_eq_ok]
  constructor
  case mp =>
    intro ⟨header, hr, h⟩
    have ⟨t, ht, hh⟩ := Header.read_eq_ok.mp hr
    split at h
    case h_1 => cases h
    case h_2 k hk =>
      rw [ht, Option.bind_some] at h
      split at h
      case h_1 => cases h
      case h_2 p' hp =>
        cases h
        exact ⟨t, header, k, ht, hh, hk, hp⟩
  case mpr =>
    intro ⟨t, header, k, ht, hh, hk, hp⟩
    refine ⟨header, Header.read_eq_ok.mpr ⟨t, ht, hh⟩, ?_⟩
    simp only [hk, ht, Option.bind_some, hp]
    rfl

theorem decode_encode (h : p.Labelled) : decode p.encode = .ok p :=
  decode_eq_ok.mpr
    ⟨_, _, _, p.parse_encode, p.header_ofTree?_toTree, h.kind?, p.kind_ofTree?_toTree⟩

theorem kind?_of_decode (h : decode b = .ok p) :
    ∃ header, Header.read b = .ok header ∧ header.kind? = some p.kind := by
  have ⟨t, header, k, ht, hh, hk, hp⟩ := decode_eq_ok.mp h
  exact ⟨header, Header.read_eq_ok.mpr ⟨t, ht, hh⟩, kind_of_ofTree? hp ▸ hk⟩

end Payload
end Plenum
