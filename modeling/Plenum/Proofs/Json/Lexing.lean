import Mathlib.Tactic.Common
import Plenum.Json.Tree

namespace Plenum.Json

namespace Piece

-- How a character stands in a string that was written: control characters without a short escape
-- come back as units.
def ofChar (c : Char) : Piece :=
  if c.toNat < 32 ∧ c.toNat ∉ [8, 9, 10, 12, 13] then unit c.toNat else char c

theorem text?_unit_cons {n : Nat} (hn : n < 32) (ps : List Piece) :
    text? (unit n :: ps) = (text? ps).map (Char.ofNat n :: ·) := by
  have hh : isHigh n = false := by simp [isHigh]; omega
  have hl : isLow n = false := by simp [isLow]; omega
  cases ps
  case nil => simp [text?, hh, hl]
  case cons p ps => cases p <;> simp [text?, hh, hl]

theorem text?_map_ofChar (cs : List Char) : text? (cs.map ofChar) = some cs := by
  induction cs
  case nil => rfl
  case cons c cs ih =>
    rw [List.map_cons, ofChar]
    split
    case isTrue hc => rw [text?_unit_cons hc.left, ih, Char.ofNat_toNat]; rfl
    case isFalse => rw [text?, ih]; rfl

end Piece

namespace Lexer

-- Reads characters one after another.
def read (l : Lexer) (cs : List Char) : Option Lexer :=
  (cs.map Glyph.char).foldlM step l

theorem read_nil (l : Lexer) : l.read [] = some l :=
  rfl

theorem read_cons (l : Lexer) (c : Char) (cs : List Char) :
    l.read (c :: cs) = (l.step (.char c)).bind (read · cs) :=
  rfl

theorem read_append (l : Lexer) (cs ds : List Char) :
    l.read (cs ++ ds) = (l.read cs).bind (read · ds) := by
  simp [read]

theorem hexValue?_hexDigit : ∀ d < 16, hexValue? (Token.hexDigit d) = some d := by
  decide

theorem read_unit (ts : List Token) (rev : List Piece) {n : Nat} (h : n < 256) :
    read ⟨ts, .string rev⟩
        ['\\', 'u', '0', '0', Token.hexDigit (n / 16), Token.hexDigit (n % 16)] =
      some ⟨ts, .string (.unit n :: rev)⟩ := by
  have h₁ := hexValue?_hexDigit (n / 16) (by omega)
  have h₂ := hexValue?_hexDigit (n % 16) (by omega)
  have h₃ : hexValue? '0' = some 0 := rfl
  have hu : unescape ts rev 'u' = some ⟨ts, .hex rev 0 0⟩ := rfl
  have hn : 16 * (n / 16) + n % 16 = n := by omega
  simp [read_cons, read_nil, step, hu, h₁, h₂, h₃, hn]

theorem read_escape (ts : List Token) (rev : List Piece) (c : Char) :
    read ⟨ts, .string rev⟩ (Token.escape c) = some ⟨ts, .string (.ofChar c :: rev)⟩ := by
  have hc {n : Nat} (h : c.toNat = n) : c = Char.ofNat n := by rw [← h, Char.ofNat_toNat]
  unfold Token.escape
  split_ifs with hq hb h8 h9 h10 h12 h13 hu
  case pos => subst hq; rfl
  case pos => subst hb; rfl
  case pos => rw [hc h8]; rfl
  case pos => rw [hc h9]; rfl
  case pos => rw [hc h10]; rfl
  case pos => rw [hc h12]; rfl
  case pos => rw [hc h13]; rfl
  case pos =>
    have hp : Piece.ofChar c = .unit c.toNat := by simp [Piece.ofChar, hu, h8, h9, h10, h12, h13]
    rw [hp, read_unit ts rev (by omega)]
  case neg =>
    have hp : Piece.ofChar c = .char c := by simp [Piece.ofChar, hu]
    simp [read_cons, read_nil, step, hp, hq, hb, hu]

theorem read_escapes (ts : List Token) (rev : List Piece) (cs : List Char) :
    read ⟨ts, .string rev⟩ (cs.flatMap Token.escape) =
      some ⟨ts, .string ((cs.map Piece.ofChar).reverse ++ rev)⟩ := by
  induction cs generalizing rev
  case nil => rfl
  case cons c cs ih => simp [List.flatMap_cons, read_append, read_escape, ih]

theorem read_string (ts : List Token) (s : String) :
    read ⟨ts, .blank⟩ (Token.string (some s)).toList = some ⟨.string (some s) :: ts, .blank⟩ := by
  have hs : step ⟨ts, .blank⟩ (.char '\"') = some ⟨ts, .string []⟩ := rfl
  rw [Token.toList, Option.getD_some, Token.quote, List.cons_append, read_cons, hs,
    Option.bind_some, read_append, read_escapes]
  simp [read_cons, read_nil, step, close, Piece.text?_map_ofChar]

-- All that is left to do before `ts` are the tokens read is to end the last one.
def Settled (l : Lexer) (ts : List Token) : Prop :=
  match l.mode with
  | .blank => l.tokens = ts
  | .word rev => endWord l.tokens rev = some ts
  | .number rev => endNumber l.tokens rev = some ts
  | _ => False

theorem Settled.finish {l : Lexer} {ts : List Token} (h : l.Settled ts) :
    l.finish = some ts.reverse := by
  obtain ⟨tokens, mode⟩ := l
  cases mode <;> simp_all [Settled, Lexer.finish]

end Lexer
end Plenum.Json
