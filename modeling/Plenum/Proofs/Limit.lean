import Plenum.Proofs.Conversation

namespace Plenum

namespace Text

theorem trimList_append {cs us : List Char} (hu : us.all isBlank) :
    trimList (cs ++ us) = trimList cs := by
  have hu := List.all_eq_true.mp hu
  rw [trimList, trimList, List.dropWhile_append]
  split
  case isTrue he => rw [List.isEmpty_iff.mp he, List.dropWhile_eq_nil_iff.mpr hu]
  case isFalse =>
    rw [List.reverse_append,
      List.dropWhile_append_of_pos fun c hc => hu c (List.mem_reverse.mp hc)]

theorem trim_append {s u : String} (hu : u.toList.all isBlank) : trim (s ++ u) = trim s := by
  rw [trim, String.toList_append, trimList_append hu, trim]

end Text

namespace Bytes

-- Bytes that are the UTF-8 form of a text.
def IsText (b : Bytes) : Prop :=
  ∃ t, ofText t = b

variable {b x y l : Bytes} {t : String}

theorem ofText_append (s t : String) : ofText (s ++ t) = ofText s ++ ofText t := by
  simp [ofText]

theorem IsText.append (hx : IsText x) (hy : IsText y) : IsText (x ++ y) := by
  obtain ⟨s, rfl⟩ := hx
  obtain ⟨t, rfl⟩ := hy
  exact ⟨s ++ t, ofText_append s t⟩

theorem IsText.isSome_text? (h : IsText b) : b.text?.isSome := by
  obtain ⟨t, rfl⟩ := h
  rw [text?_ofText]
  rfl

theorem isText_encode (cs : List Char) : IsText (cs.flatMap String.utf8EncodeChar) :=
  ⟨_, ofText_ofList cs⟩

theorem isText_encodeChar (c : Char) : IsText (String.utf8EncodeChar c) := by
  simpa using isText_encode [c]

theorem encodeChar_eq_or (c : Char) : (∃ b, String.utf8EncodeChar c = [b]) ∨
    ∀ b ∈ String.utf8EncodeChar c, 128 ≤ b.toNat := by
  fun_cases String.utf8EncodeChar c
  case case1 => exact .inl ⟨_, rfl⟩
  all_goals
    refine .inr ?_
    simp only [List.forall_mem_cons, UInt8.toNat_ofNat', List.not_mem_nil, false_implies,
      implies_true, and_true]
    omega

-- A byte below 128 is a character of its own.
theorem encodeChar_of_mem {a : UInt8} {c : Char} (ha : a.toNat < 128)
    (hm : a ∈ String.utf8EncodeChar c) : String.utf8EncodeChar c = [a] := by
  rcases encodeChar_eq_or c with ⟨b, hb⟩ | hn
  case inl =>
    rw [hb] at hm ⊢
    rw [List.mem_singleton.mp hm]
  case inr => exact (Nat.not_le.mpr ha (hn a hm)).elim

-- A text can be cut at a byte that is a character of its own.
theorem IsText.split {a : UInt8} (ha : a.toNat < 128) (h : IsText (x ++ a :: y)) :
    IsText x ∧ IsText y := by
  obtain ⟨t, ht⟩ := h
  rw [← String.ofList_toList (s := t), ofText_ofList] at ht
  generalize t.toList = cs at ht
  induction cs generalizing x
  case nil => cases List.append_eq_nil_iff.mp ht.symm |>.right
  case cons c cs ih =>
    rw [List.flatMap_cons] at ht
    rcases List.append_eq_append_iff.mp ht with ⟨w, rfl, hw⟩ | ⟨w, hc, hw⟩
    case inl =>
      have ⟨hx, hy⟩ := ih hw
      exact ⟨(isText_encodeChar c).append hx, hy⟩
    case inr =>
      -- The cut falls at the end of the first character, or in it, and then is all of it.
      cases w
      case nil =>
        have ⟨_, hy⟩ := ih (x := []) hw.symm
        exact ⟨List.append_nil x ▸ hc ▸ isText_encodeChar c, hy⟩
      case cons b w =>
        obtain ⟨rfl, rfl⟩ := List.cons.inj hw
        have hm : a ∈ String.utf8EncodeChar c := hc ▸ List.mem_append_right x List.mem_cons_self
        rw [encodeChar_of_mem ha hm] at hc
        obtain ⟨rfl, rfl⟩ : x = [] ∧ w = [] := by simpa [List.singleton_eq_append_iff] using hc
        exact ⟨⟨"", rfl⟩, isText_encode cs⟩

theorem IsText.of_flatten_append {bodies : List Bytes}
    (h : IsText ((bodies.map (· ++ [lineFeed])).flatten ++ b)) :
    (∀ l ∈ bodies, IsText l) ∧ IsText b := by
  induction bodies
  case nil => exact ⟨nofun, h⟩
  case cons l bodies ih =>
    rw [List.map_cons, List.flatten_cons, List.append_assoc, List.append_assoc] at h
    have ⟨hl, h⟩ := h.split (by decide)
    have ⟨hbodies, hb⟩ := ih h
    exact ⟨List.forall_mem_cons.mpr ⟨hl, hbodies⟩, hb⟩

-- The lines of a text are texts.
theorem IsText.of_mem_lines (h : IsText b) (hl : l ∈ lines b) : IsText l := by
  obtain ⟨bodies, rest, hls, -, -⟩ := areLines_lines b
  rw [← flatten_lines b, hls, List.flatten_append] at h
  have ⟨hbodies, hrest⟩ := h.of_flatten_append
  rw [hls] at hl
  rcases List.mem_append.mp hl with hl | hl
  case inl =>
    obtain ⟨body, hbody, rfl⟩ := List.mem_map.mp hl
    exact (hbodies body hbody).append ⟨"\n", rfl⟩
  case inr =>
    cases Option.mem_toList.mp hl
    simpa using hrest

def carriageReturn : UInt8 :=
  13

-- What ends a line: a line feed, with a carriage return before it or not, or nothing.
def terminator (l : Bytes) : Bytes :=
  if [carriageReturn, lineFeed] <:+ l then [carriageReturn, lineFeed]
  else if [lineFeed] <:+ l then [lineFeed]
  else []

def content (l : Bytes) : Bytes :=
  l.take (l.length - l.terminator.length)

theorem terminator_suffix (l : Bytes) : l.terminator <:+ l := by
  unfold terminator
  split
  case isTrue h => exact h
  case isFalse =>
    split
    case isTrue h => exact h
    case isFalse => exact List.nil_suffix

theorem content_append_terminator (l : Bytes) : l.content ++ l.terminator = l :=
  List.suffix_iff_eq_append.mp l.terminator_suffix

theorem length_content_add (l : Bytes) : l.content.length + l.terminator.length = l.length := by
  rw [← List.length_append, content_append_terminator]

-- A terminator is blank, and begins with a character of one byte.
theorem exists_ofText_eq_terminator (l : Bytes) :
    ∃ u, ofText u = l.terminator ∧ u.toList.all Text.isBlank ∧
      (l.terminator = [] ∨ ∃ a y, l.terminator = a :: y ∧ a.toNat < 128) := by
  unfold terminator
  split
  case isTrue => exact ⟨"\r\n", rfl, rfl, .inr ⟨_, _, rfl, by decide⟩⟩
  case isFalse =>
    split
    case isTrue => exact ⟨"\n", rfl, rfl, .inr ⟨_, _, rfl, by decide⟩⟩
    case isFalse => exact ⟨"", rfl, rfl, .inl rfl⟩

-- The content of a line is a text, which is the same as the line but for blanks at its end.
theorem exists_ofText_eq_content (ht : ofText t = l) :
    ∃ c, ofText c = l.content ∧ Text.trim c = Text.trim t := by
  have ⟨u, hu, hblank, hcut⟩ := l.exists_ofText_eq_terminator
  have hl := l.content_append_terminator
  have hc : IsText l.content := by
    have h : IsText (l.content ++ l.terminator) := hl.symm ▸ ⟨t, ht⟩
    rcases hcut with he | ⟨a, y, he, ha⟩
    case inl => rwa [he, List.append_nil] at h
    case inr =>
      rw [he] at h
      exact (h.split ha).left
  obtain ⟨c, hc⟩ := hc
  have hcu : c ++ u = t := ofText_injective (by rw [ofText_append, hc, hu, hl, ht])
  exact ⟨c, hc, hcu ▸ (Text.trim_append hblank).symm⟩

end Bytes

theorem Incoming.ofBytes_eq_tooLong {limit : Nat} {l : Bytes} (hl : l.IsText) :
    ofBytes limit l = .tooLong ↔ limit < l.length := by
  obtain ⟨t, rfl⟩ := hl
  rw [ofBytes_of_text (Bytes.text?_ofText t)]
  by_cases hl : limit < (Bytes.ofText t).length
  case pos => simp [hl]
  case neg => by_cases hb : Text.trim t = "" <;> simp [hl, hb]

-- A client sends a text. All its lines are heard, and each is refused if its content and what ends
-- it have more bytes together than the limit, and is served as its content is otherwise. So the
-- content alone decides, except where it is within the limit and is not with what ends it.
theorem Service.limit_counts_terminator (h : Host) (limit : Nat) (v : Service) (s : Socket)
    (text : String) (ms : List Moment)
    (hs : ms.filterMap Moment.line? = (Bytes.ofText text).lines) :
    (Talk.heard h limit s ⟨v, true⟩ ms).map Prod.snd = (Bytes.ofText text).lines ∧
    ∀ l ∈ (Bytes.ofText text).lines, ∃ t, Bytes.ofText t = l.content ∧
      l.content ++ l.terminator = l ∧
      (∀ hub : Hub, hub.replyTo? h limit s l = some
        (if limit < l.content.length + l.terminator.length then
          ⟨hub, [], some (.fault none (overlong limit))⟩
        else if Text.trim t = "" then ⟨hub, [], none⟩
        else hub.handleLine h (Text.trim t) s)) ∧
      ((Incoming.ofBytes limit l = .tooLong ↔ limit < l.content.length) ↔
        ¬(l.content.length ≤ limit ∧ limit < l.content.length + l.terminator.length)) := by
  have ht {l : Bytes} (hl : l ∈ (Bytes.ofText text).lines) : l.IsText :=
    Bytes.IsText.of_mem_lines ⟨text, rfl⟩ hl
  refine ⟨?heard, fun l hl => ?line⟩
  case heard =>
    rw [Talk.lines_heard, if_pos rfl, hs]
    exact List.takeWhile_eq_self_iff.mpr fun l hl => (ht hl).isSome_text?
  case line =>
    have ⟨line, hline⟩ := ht hl
    have ⟨t, hc, htrim⟩ := Bytes.exists_ofText_eq_content hline
    refine ⟨t, hc, l.content_append_terminator, fun hub => ?reply, ?refused⟩
    case reply =>
      rw [l.length_content_add, htrim]
      exact Hub.replyTo?_of_text (hline ▸ Bytes.text?_ofText line)
    case refused =>
      rw [Incoming.ofBytes_eq_tooLong ⟨line, hline⟩, ← l.length_content_add]
      omega

namespace Trial

-- A request of 52 bytes for a channel that does not exist.
def errand : String :=
  "\x7b\"method\":\"catchup\",\"id\":6,\"params\":\x7b\"channel\":\"/\"\x7d\x7d"

def errands : Bytes :=
  Bytes.ofText (errand ++ "\r\n" ++ errand)

end Trial

open Trial in
theorem Service.limit_counts_terminator_errands :
    (errands.lines.map Moment.line).filterMap Moment.line? = errands.lines ∧
      (Talk.heard host 52 listener ⟨lounge, true⟩ (errands.lines.map .line)).map Prod.snd =
        [Bytes.ofText (errand ++ "\r\n"), Bytes.ofText errand] ∧
      ∀ hub : Hub, hub.replyTo? host 52 listener (Bytes.ofText (errand ++ "\r\n")) =
        some ⟨hub, [], some (.fault none (overlong 52))⟩ := by
  have hm := Moment.filterMap_line errands.lines
  have he : errands.lines = [Bytes.ofText (errand ++ "\r\n"), Bytes.ofText errand] := by
    decide +kernel
  have ⟨hh, hl⟩ := limit_counts_terminator host 52 lounge listener _ _ hm
  have ⟨t, _, _, hr, _⟩ := hl (Bytes.ofText (errand ++ "\r\n")) (he ▸ List.mem_cons_self)
  refine ⟨hm, hh.trans he, fun hub => ?_⟩
  rw [hr hub, if_pos (by decide +kernel)]

-- A request of as many bytes as the limit is served at the end of a stream, and is refused where a
-- line feed or a carriage return and a line feed follow it.
open Trial in
theorem Service.terminator_makes_line_too_long :
    (∀ u ∈ ["\n", "\r\n"],
      (Bytes.ofText (errand ++ u)).lines = [Bytes.ofText (errand ++ u)] ∧
      (Bytes.ofText (errand ++ u)).content = Bytes.ofText errand ∧
      (lounge.converse host 52 listener (Bytes.ofText (errand ++ u))).queues.waiting "q" =
        [(Answer.fault none (overlong 52)).render]) ∧
    (Bytes.ofText errand).length = 52 ∧
    (lounge.converse host 52 listener (Bytes.ofText errand)).queues.waiting "q" =
      [(Answer.fault (some 6) (.unknownChannel "/")).render] :=
  ⟨by decide +kernel, by decide +kernel, by decide +kernel⟩

end Plenum
