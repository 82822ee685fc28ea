import Plenum.Proofs.Json.Lexing
import Plenum.Proofs.Json.Numeral

namespace Plenum.Json

-- The trees that are written: all strings in them can be read, all numbers are integers of at most
-- 64 bits, and containers nest no deeper than `depth`.
inductive Tree.Plain : (depth : Nat) → Tree → Prop
  | null {d : Nat} : Plain d null
  | bool {d : Nat} (b : Bool) : Plain d (bool b)
  | int {d : Nat} {n : Int} : n.natAbs < UInt64.size → Plain d (int n)
  | text {d : Nat} (s : String) : Plain d (text s)
  | array {d : Nat} {vs : List Tree} : (∀ v ∈ vs, Plain d v) → Plain (d + 1) (array vs)
  | record {d : Nat} {ms : List (String × Tree)} :
    (∀ m ∈ ms, Plain d m.2) → Plain (d + 1) (record ms)

namespace Lexer

theorem step_mark {l : Lexer} {ts : List Token} {c : Char} (h : l.Settled ts)
    (hc : c = '[' ∨ c = ']' ∨ c = '{' ∨ c = '}' ∨ c = ',' ∨ c = ':') :
    l.step (.char c) = start ts c := by
  have hl : c.isLower = false := by rcases hc with rfl | rfl | rfl | rfl | rfl | rfl <;> rfl
  have hn : isNumeric c = false := by rcases hc with rfl | rfl | rfl | rfl | rfl | rfl <;> rfl
  obtain ⟨tokens, mode⟩ := l
  cases mode <;> simp_all [Settled, step]

theorem read_mark {l : Lexer} {ts : List Token} (h : l.Settled ts) {t : Token}
    (ht : t ∈ [.openArray, .closeArray, .openObject, .closeObject, .comma, .colon]) :
    l.read t.toList = some ⟨t :: ts, .blank⟩ := by
  simp only [List.mem_cons, List.not_mem_nil, or_false] at ht
  rcases ht with rfl | rfl | rfl | rfl | rfl | rfl <;>
    simp [Token.toList, read_cons, read_nil, step_mark h, start, push]

theorem Settled.of_blank (ts : List Token) : Settled ⟨ts, .blank⟩ ts :=
  rfl

theorem read_digits {ts : List Token} {rev cs : List Char} (h : ∀ c ∈ cs, isNumeric c) :
    read ⟨ts, .number rev⟩ cs = some ⟨ts, .number (cs.reverse ++ rev)⟩ := by
  induction cs generalizing rev
  case nil => rfl
  case cons c cs ih =>
    have hs : step ⟨ts, .number rev⟩ (.char c) = some ⟨ts, .number (c :: rev)⟩ := by
      simp [step, h c List.mem_cons_self]
    rw [read_cons, hs, Option.bind_some, ih fun d hd => h d (List.mem_cons_of_mem _ hd)]
    simp

theorem read_int (ts : List Token) (n : Int) :
    ∃ l, read ⟨ts, .blank⟩ (Token.number (.ofInt n)).toList = some l ∧
      l.Settled (.number (.ofInt n) :: ts) := by
  have ⟨c, cs, hcs, hc⟩ := Numeral.toList_ofInt_eq_cons n
  have hs : step ⟨ts, .blank⟩ (.char c) = some ⟨ts, .number [c]⟩ := by
    rcases hc with rfl | hd
    case inl => rfl
    case inr =>
      have hne (d : Char) (h : d.isDigit = false) : c ≠ d := by rintro rfl; simp [hd] at h
      simp [start, hd, hne ' ' rfl, hne '\n' rfl, hne '\t' rfl, hne '\r' rfl, hne '\"' rfl,
        hne '[' rfl, hne ']' rfl, hne '{' rfl, hne '}' rfl, hne ',' rfl, hne ':' rfl, step]
  have hn : ∀ d ∈ cs, isNumeric d := fun d hd =>
    Numeral.isNumeric_of_mem_toList (n := n) (hcs ▸ List.mem_cons_of_mem _ hd)
  refine ⟨_, by rw [Token.toList, hcs, read_cons, hs, Option.bind_some, read_digits hn], ?_⟩
  have hr : (cs.reverse ++ [c]).reverse = (Numeral.ofInt n).toList := by simp [hcs]
  simp only [Settled, endNumber, hr, Numeral.read?_ofInt, Option.map_some]

-- A tree that can stand between any tokens.
def Reads (t : Tree) : Prop :=
  ∀ ts, ∃ l, read ⟨ts, .blank⟩ (t.tokens.flatMap Token.toList) = some l ∧
    l.Settled (t.tokens.reverse ++ ts)

theorem read_itemTokens {vs : List Tree} (h : ∀ v ∈ vs, Reads v) {l : Lexer} {ts : List Token}
    (hl : l.Settled ts) :
    l.read ((Tree.itemTokens vs).flatMap Token.toList) =
      some ⟨(Tree.itemTokens vs).reverse ++ ts, .blank⟩ := by
  induction vs generalizing l ts
  case nil => simp [Tree.itemTokens, read_mark hl (t := .closeArray)]
  case cons v vs ih =>
    have ⟨_, hv, hs⟩ := h v List.mem_cons_self (.comma :: ts)
    have hi := ih (fun w hw => h w (List.mem_cons_of_mem _ hw)) hs
    simp [Tree.itemTokens, read_append, read_mark hl (t := .comma), hv, hi]

theorem read_memberTokens {ms : List (String × Tree)} (h : ∀ m ∈ ms, Reads m.2) {l : Lexer}
    {ts : List Token} (hl : l.Settled ts) :
    l.read ((Tree.memberTokens (ms.map fun m => (some m.1, m.2))).flatMap Token.toList) =
      some ⟨(Tree.memberTokens (ms.map fun m => (some m.1, m.2))).reverse ++ ts, .blank⟩ := by
  induction ms generalizing l ts
  case nil => simp [Tree.memberTokens, read_mark hl (t := .closeObject)]
  case cons m ms ih =>
    have hk := read_string (.comma :: ts) m.1
    have hc := read_mark (.of_blank (.string m.1 :: .comma :: ts)) (t := .colon)
    have ⟨_, hv, hs⟩ := h m List.mem_cons_self (.colon :: .string m.1 :: .comma :: ts)
    have hi := ih (fun w hw => h w (List.mem_cons_of_mem _ hw)) hs
    simp [Tree.memberTokens, read_append, read_mark hl (t := .comma), hk, hc, hv, hi]

-- What is read of the tokens of a tree, from between tokens.
theorem reads_of_plain {d : Nat} {t : Tree} (h : t.Plain d) : Reads t := by
  induction h
  case null => exact fun ts => ⟨⟨ts, .word ['l', 'l', 'u', 'n']⟩, rfl, rfl⟩
  case bool b =>
    cases b
    case false => exact fun ts => ⟨⟨ts, .word ['e', 's', 'l', 'a', 'f']⟩, rfl, rfl⟩
    case true => exact fun ts => ⟨⟨ts, .word ['e', 'u', 'r', 't']⟩, rfl, rfl⟩
  case int n _ =>
    intro ts
    obtain ⟨l, hl, hs⟩ := read_int ts n
    exact ⟨l, by simpa [Tree.int, Tree.tokens] using hl, hs⟩
  case text s =>
    intro ts
    exact ⟨_, by simpa [Tree.text, Tree.tokens] using read_string ts s, .of_blank _⟩
  case array vs _ ih =>
    intro ts
    have ho := read_mark (.of_blank ts) (t := .openArray)
    rcases vs with _ | ⟨v, vs⟩
    case nil =>
      have hc := read_mark (.of_blank (.openArray :: ts)) (t := .closeArray)
      exact ⟨_, by simpa [Tree.tokens, read_append, ho] using hc, .of_blank _⟩
    case cons =>
      obtain ⟨l, hv, hs⟩ := ih v List.mem_cons_self (.openArray :: ts)
      have hi := read_itemTokens (fun w hw => ih w (List.mem_cons_of_mem _ hw)) hs
      exact ⟨_, by simpa [Tree.tokens, read_append, ho, hv] using hi,
        by simp [Settled, Tree.tokens]⟩
  case record ms _ ih =>
    intro ts
    have ho := read_mark (.of_blank ts) (t := .openObject)
    rcases ms with _ | ⟨m, ms⟩
    case nil =>
      have hc := read_mark (.of_blank (.openObject :: ts)) (t := .closeObject)
      exact ⟨_, by simpa [Tree.record, Tree.tokens, read_append, ho] using hc, .of_blank _⟩
    case cons =>
      have hk := read_string (.openObject :: ts) m.1
      have hc := read_mark (.of_blank (.string m.1 :: .openObject :: ts)) (t := .colon)
      obtain ⟨l, hv, hs⟩ := ih m List.mem_cons_self (.colon :: .string m.1 :: .openObject :: ts)
      have hi := read_memberTokens (fun w hw => ih w (List.mem_cons_of_mem _ hw)) hs
      exact ⟨_, by simpa [Tree.record, Tree.tokens, read_append, ho, hk, hc, hv] using hi,
        by simp [Settled, Tree.record, Tree.tokens]⟩

end Lexer

theorem lex_render {d : Nat} {t : Tree} (h : t.Plain d) :
    lex (Glyph.ofText t.render) = some t.tokens := by
  have ⟨l, hl, hs⟩ := Lexer.reads_of_plain h []
  have hr : (Glyph.ofText t.render).foldlM Lexer.step ⟨[], .blank⟩ = some l := by
    simpa [Glyph.ofText, Tree.render, Lexer.read] using hl
  simp [lex, hr, hs.finish]

namespace Parser

-- Takes tokens one after another.
def feed (p : Parser) (ts : List Token) : Option Parser :=
  ts.foldlM step p

theorem feed_cons (p : Parser) (t : Token) (ts : List Token) :
    p.feed (t :: ts) = (p.step t).bind (feed · ts) :=
  rfl

theorem feed_append (p : Parser) (ts us : List Token) :
    p.feed (ts ++ us) = (p.feed ts).bind (feed · us) := by
  simp [feed]

-- A tree that is taken in where a value is due.
def Takes (t : Tree) : Prop :=
  ∀ fs, feed ⟨fs, .value⟩ t.tokens = some (complete t fs)

-- The first item of an array is a value like any other, since it does not close the array.
theorem feed_firstItem {d : Nat} {t : Tree} (h : t.Plain d) (fs : List Frame) (ts : List Token) :
    feed ⟨fs, .firstItem⟩ (t.tokens ++ ts) = feed ⟨.items [] :: fs, .value⟩ (t.tokens ++ ts) := by
  cases h
  case array vs _ => cases vs <;> rfl
  case record ms _ => cases ms <;> rfl
  all_goals rfl

theorem feed_itemTokens {vs : List Tree} (h : ∀ v ∈ vs, Takes v) (fs : List Frame)
    (rev : List Tree) :
    feed ⟨fs, .nextItem rev⟩ (Tree.itemTokens vs) =
      some (complete (.array (rev.reverse ++ vs)) fs) := by
  induction vs generalizing rev
  case nil => simp [Tree.itemTokens, feed, step]
  case cons v vs ih =>
    have hv := h v List.mem_cons_self (.items rev :: fs)
    have hi := ih (fun w hw => h w (List.mem_cons_of_mem _ hw)) (v :: rev)
    simp [Tree.itemTokens, feed_cons, feed_append, step, hv, complete, hi]

theorem feed_memberTokens {ms : List (String × Tree)} (h : ∀ m ∈ ms, Takes m.2) (fs : List Frame)
    (rev : List (Option String × Tree)) :
    feed ⟨fs, .nextMember rev⟩ (Tree.memberTokens (ms.map fun m => (some m.1, m.2))) =
      some (complete (.object (rev.reverse ++ ms.map fun m => (some m.1, m.2))) fs) := by
  induction ms generalizing rev
  case nil => simp [Tree.memberTokens, feed, step]
  case cons m ms ih =>
    have hv := h m List.mem_cons_self (.members rev m.1 :: fs)
    have hi := ih (fun w hw => h w (List.mem_cons_of_mem _ hw)) ((some m.1, m.2) :: rev)
    simp [Tree.memberTokens, feed_cons, feed_append, step, hv, complete, hi]

theorem takes_of_plain {d : Nat} {t : Tree} (h : t.Plain d) : Takes t := by
  induction h
  case null => exact fun _ => rfl
  case bool => exact fun _ => rfl
  case int => exact fun _ => rfl
  case text => exact fun _ => rfl
  case array vs hp ih =>
    intro fs
    rcases vs with _ | ⟨v, vs⟩
    case nil => rfl
    case cons =>
      have hv := ih v List.mem_cons_self (.items [] :: fs)
      have hi := feed_itemTokens (fun w hw => ih w (List.mem_cons_of_mem _ hw)) fs [v]
      have hf := feed_firstItem (hp v List.mem_cons_self) fs (Tree.itemTokens vs)
      have ho : step ⟨fs, .value⟩ .openArray = some ⟨fs, .firstItem⟩ := rfl
      rw [Tree.tokens, List.cons_append, feed_cons, ho, Option.bind_some, hf, feed_append, hv,
        Option.bind_some]
      exact hi
  case record ms _ ih =>
    intro fs
    rcases ms with _ | ⟨m, ms⟩
    case nil => rfl
    case cons =>
      have hv := ih m List.mem_cons_self (.members [] m.1 :: fs)
      have hi := feed_memberTokens (fun w hw => ih w (List.mem_cons_of_mem _ hw)) fs
        [(some m.1, m.2)]
      have ho : feed ⟨fs, .value⟩ [.openObject, .string m.1, .colon] =
        some ⟨.members [] m.1 :: fs, .value⟩ := rfl
      rw [Tree.record, List.map_cons, Tree.tokens]
      change feed _ ([.openObject, .string m.1, .colon] ++ m.2.tokens ++ _) = _
      rw [feed_append, feed_append, ho, Option.bind_some, hv, Option.bind_some]
      exact hi

end Parser

theorem assemble_tokens {d : Nat} {t : Tree} (h : t.Plain d) : assemble t.tokens = some t := by
  have ht : t.tokens.foldlM Parser.step ⟨[], .value⟩ = some ⟨[], .done t⟩ :=
    Parser.takes_of_plain h []
  simp [assemble, ht, Parser.result]

theorem parse_render {d : Nat} {t : Tree} (h : t.Plain d) :
    parse (Glyph.ofText t.render) = some t := by
  rw [parse, lex_render h, Option.bind_some, assemble_tokens h]

end Plenum.Json
