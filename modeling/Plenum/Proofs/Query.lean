import Plenum.Answer
import Plenum.Proofs.Json.Reading

namespace Plenum

open Json

namespace WitnessSignature

theorem ofTree?_toTree (w : WitnessSignature) : ofTree? w.toTree = some w := by
  rw [ofTree?, toTree, Layout.read?_fields rfl (by decide)]
  simp [Fields.get?_cons, Tree.text?_text]

theorem plain_toTree {d : Nat} (w : WitnessSignature) : w.toTree.Plain (d + 1) :=
  .record (by simp [Tree.Plain.text])

theorem lastWins_toTree (w : WitnessSignature) : w.toTree.lastWins = w.toTree :=
  Tree.lastWins_record (by simp) (by simp [Tree.text, Tree.lastWins])

end WitnessSignature

namespace Message

theorem ofTree?_toTree (m : Message) : ofTree? m.toTree = some m := by
  have hw : Tree.list? WitnessSignature.ofTree?
      (.array (m.witnesses.map WitnessSignature.toTree)) = some m.witnesses :=
    Tree.list?_map fun w _ => w.ofTree?_toTree
  rw [ofTree?, toTree, Layout.read?_fields rfl (by decide)]
  simp [Fields.get?_cons, Fields.getD?_cons, Tree.text?_text, hw]

theorem plain_toTree {d : Nat} (m : Message) : m.toTree.Plain (d + 3) := by
  have hw : (Tree.array (m.witnesses.map WitnessSignature.toTree)).Plain (d + 2) :=
    Tree.plain_map fun w => w.plain_toTree
  exact .record (by simp [Tree.Plain.text, hw])

theorem lastWins_toTree (m : Message) : m.toTree.lastWins = m.toTree := by
  have ht (s : String) : (Tree.text s).lastWins = .text s := rfl
  have hw := Tree.lastWins_map m.witnesses WitnessSignature.lastWins_toTree
  exact Tree.lastWins_record (by simp) (by simp [ht, hw])

theorem read?_render (m : Message) : read? m.render = some m := by
  rw [read?, render, parse_render (m.plain_toTree (d := 124)), Option.bind_some, ofTree?_toTree]

end Message

namespace Query

theorem Method.ofName?_name (m : Method) : ofName? m.name = some m := by
  cases m <;> decide

-- What a request is about: the channel, and the message if there is one.
def params (channel : String) (m? : Option Message) : Tree :=
  .record (("channel", .text channel) :: messageMember m?)

def members (q : Query) : List (String × Tree) :=
  ("method", .text q.method.name) :: ("jsonrpc", .text q.version) ::
    (idMember q.id? ++ [("params", params q.channel q.message?)])

theorem toTree_eq (q : Query) : q.toTree = .record q.members :=
  rfl

theorem nodup_members (q : Query) : (q.members.map (·.1)).Nodup := by
  cases h : q.id? <;> simp [members, idMember, h]

theorem forall_members {P : Tree → Prop} (ht : ∀ s, P (.text s))
    (hi : ∀ id : Int64, P (.int id.toInt)) (hp : ∀ channel m?, P (params channel m?)) (q : Query) :
    ∀ f ∈ q.members, P f.2 := by
  cases h : q.id? <;> simp [members, idMember, h, ht, hi, hp]

theorem plain_params {d : Nat} (channel : String) (m? : Option Message) :
    (params channel m?).Plain (d + 4) := by
  cases m?
  case none => exact .record (by simp [messageMember, Tree.Plain.text])
  case some m => exact .record (by simp [messageMember, Tree.Plain.text, m.plain_toTree])

theorem plain_toTree {d : Nat} (q : Query) : q.toTree.Plain (d + 5) :=
  .record (q.forall_members .text Tree.plain_int64 plain_params)

theorem lastWins_params (channel : String) (m? : Option Message) :
    (params channel m?).lastWins = params channel m? := by
  have ht (s : String) : (Tree.text s).lastWins = .text s := rfl
  cases m?
  case none => exact Tree.lastWins_record (by simp [messageMember]) (by simp [messageMember, ht])
  case some m =>
    exact Tree.lastWins_record (by simp [messageMember])
      (by simp [messageMember, ht, m.lastWins_toTree])

theorem lastWins_toTree (q : Query) : q.toTree.lastWins = q.toTree :=
  have hm : ∀ f ∈ q.members, f.2.lastWins = f.2 :=
    q.forall_members (P := fun t => t.lastWins = t) (fun _ => rfl) (fun _ => rfl) lastWins_params
  Tree.lastWins_record q.nodup_members hm

theorem channel?_params (channel : String) : channel? (params channel none) = some channel := by
  rw [channel?, params, messageMember, Layout.read?_fields rfl (by decide)]
  simp [Fields.get?_cons, Tree.text?_text]

theorem addressed?_params (channel : String) (m : Message) :
    addressed? (params channel (some m)) = some (channel, m) := by
  rw [addressed?, params, messageMember, Layout.read?_fields rfl (by decide)]
  simp [Fields.get?_cons, Tree.text?_text, m.ofTree?_toTree]

theorem read?_toTree (q : Query) : layout.read? q.toTree = some q.members.tail := by
  have hc : layout.closed ≠ true := Bool.false_ne_true
  rw [toTree_eq, Layout.read?_record q.nodup_members (absurd · hc), members]
  cases q.id? <;> rfl

theorem ofTree?_toTree (q : Query) : ofTree? q.method q.toTree = some q := by
  rw [ofTree?, read?_toTree]
  cases q
  case publish v id path m =>
    simp [members, method, version, id?, channel, message?, idMember, Fields.get?_cons,
      Fields.getD?_cons, Tree.text?_text, Tree.int64?_int, addressed?_params]
  case broadcast v id path m =>
    cases id <;>
      simp [members, method, version, id?, channel, message?, idMember, Fields.get?_cons,
        Fields.getD?_cons, Fields.getD?_nil, Tree.text?_text, Tree.nullable?_int64,
        addressed?_params]
  all_goals
    simp [members, method, version, id?, channel, message?, idMember, Fields.get?_cons,
      Fields.getD?_cons, Tree.text?_text, Tree.int64?_int, channel?_params]

theorem member?_method (q : Query) : q.toTree.member? "method" = some (.text q.method.name) := by
  rw [toTree_eq, members]
  cases q.id? <;> rfl

theorem parse_render (q : Query) : parse q.render = .ok q := by
  have hr : Tree.readWhole? (Glyph.ofText q.render) = some q.toTree := by
    rw [render, Tree.readWhole?_render (q.plain_toTree (d := 122)), lastWins_toTree]
  simp only [parse, hr, member?_method, Option.bind_some, Tree.text?_text, Method.ofName?_name,
    ofTree?_toTree]

end Query

namespace Answer

namespace Error

theorem ofTree?_toTree (e : Error) : ofTree? e.toTree = some e := by
  rw [ofTree?, toTree, Layout.read?_fields rfl (by decide)]
  simp [Fields.get?_cons, Tree.text?_text, Tree.int32?_int]

theorem plain_toTree {d : Nat} (e : Error) : e.toTree.Plain (d + 1) :=
  .record (by simp [Tree.Plain.text, Tree.plain_int32])

end Error

namespace Result

theorem ofTree?_toTree (r : Result) : ofTree? r.toTree = some r := by
  cases r
  case number n => exact congrArg (Option.map number) (Tree.int32?_int n)
  case messages ms =>
    exact congrArg (Option.map messages) (Tree.list?_map fun m _ => m.ofTree?_toTree)

theorem plain_toTree {d : Nat} (r : Result) : r.toTree.Plain (d + 4) := by
  cases r
  case number n => exact Tree.plain_int32 n
  case messages ms => exact Tree.plain_map fun m => m.plain_toTree

-- A result is a number or an array, so that it is not taken for one that is left out.
theorem toTree_ne_null (r : Result) : r.toTree ≠ .null := by
  cases r <;> exact fun h => by cases h

end Result

def members (a : Answer) : List (String × Tree) :=
  [("jsonrpc", .text a.version),
      ("id", match a.id with | none => .null | some id => .int id.toInt)] ++
    (match a.result with | none => [] | some r => [("result", r.toTree)]) ++
    (match a.error with | none => [] | some e => [("error", e.toTree)])

theorem names_members (a : Answer) : (a.members.map (·.1)).Sublist layout.names := by
  cases hr : a.result <;> cases he : a.error <;> simp [members, layout, hr, he]

theorem read?_toTree (a : Answer) : layout.read? a.toTree = some a.members := by
  have hn : layout.names.Nodup := by decide
  exact Layout.read?_of_known (hn.sublist a.names_members) fun m hm =>
    a.names_members.subset (List.mem_map_of_mem hm)

theorem plain_toTree {d : Nat} (a : Answer) : a.toTree.Plain (d + 5) := by
  refine .record ?_
  cases a.id <;> cases a.result <;> cases a.error <;>
    simp [Tree.Plain.text, Tree.Plain.null, Tree.plain_int64, Result.plain_toTree,
      Error.plain_toTree]

theorem ofTree?_toTree (a : Answer) : ofTree? a.toTree = some a := by
  have hs (r : Result) : r.toTree.isSound (maxDepth - 1) :=
    Tree.isSound_of_plain (r.plain_toTree (d := 122))
  have hr (r : Result) : Tree.nullable? Result.ofTree? r.toTree = some (some r) :=
    Tree.nullable?_of_ne r.toTree_ne_null r.ofTree?_toTree
  have he (e : Error) : Tree.nullable? Error.ofTree? e.toTree = some (some e) :=
    Tree.nullable?_of_ne (fun h => by cases h) e.ofTree?_toTree
  have hn : Tree.nullable? Tree.int64? .null = some none := rfl
  obtain ⟨version, id, result, error⟩ := a
  rw [ofTree?, read?_toTree]
  cases id <;> cases result <;> cases error <;>
    simp [members, Fields.get?_cons, Fields.getD?_cons, Fields.getD?_nil, Tree.text?_text,
      Tree.nullable?_int64, hn, hs, hr, he]

theorem read?_render (a : Answer) : read? a.render = some a := by
  rw [read?, render, Json.parse_render (a.plain_toTree (d := 122)), Option.bind_some,
    ofTree?_toTree]

-- An answer names no method.
theorem parse_render (a : Answer) : Query.parse a.render = .error (.decode "missing method") := by
  have hr : Tree.readWhole? (Glyph.ofText a.render) = some a.toTree.lastWins := by
    rw [render, Tree.readWhole?_render (a.plain_toTree (d := 122))]
  have hm : a.toTree.member? "method" = none := by
    rw [toTree]
    cases a.id <;> cases a.result <;> cases a.error <;> rfl
  simp only [Query.parse, hr, Tree.member?_lastWins, hm, Option.map_none, Option.bind_none]

end Answer
end Plenum
