import Plenum.Proofs.Json.Fields
import Plenum.Proofs.Payload

namespace Plenum

open Json
open Json.Fields (isSound_of_get? isSound_of_getD?)
open Json.Tree (thorough_text? thorough_bool? thorough_int64? thorough_uint64? thorough_list?)

section Thorough

variable {d : Nat}

theorem Method.thorough_ofTree? : Thorough (d + 1) Method.ofTree? := by
  intro t m h
  unfold ofTree? at h
  split at h
  case h_1 => rfl
  case h_2 => rfl
  case h_3 => cases h

theorem SetupQuestion.thorough_ofTree? : Thorough (d + 2) SetupQuestion.ofTree? := by
  intro t q h
  simp only [ofTree?, Option.bind_eq_bind, Option.bind_eq_some_iff] at h
  obtain ⟨fs, hf, _, hi, _, hq, _, hm, _, ho, _, hw, _⟩ := h
  refine Layout.isSound_of_read? rfl (by decide) hf ?_
  simp only [layout, List.forall_mem_cons]
  exact ⟨isSound_of_get? hi thorough_text?, isSound_of_get? hq thorough_text?,
    isSound_of_get? hm Method.thorough_ofTree?,
    isSound_of_get? ho (thorough_list? thorough_text?), isSound_of_getD? hw thorough_bool?,
    List.forall_mem_nil _⟩

theorem Ballot.thorough_ofTree? : Thorough (d + 2) Ballot.ofTree? := by
  intro t b h
  simp only [ofTree?, Option.bind_eq_bind, Option.bind_eq_some_iff] at h
  obtain ⟨fs, hf, _, hi, _, hq, _, hc, _⟩ := h
  refine Layout.isSound_of_read? rfl (by decide) hf ?_
  simp only [layout, List.forall_mem_cons]
  exact ⟨isSound_of_get? hi thorough_text?, isSound_of_get? hq thorough_text?,
    isSound_of_get? hc (thorough_list? thorough_int64?), List.forall_mem_nil _⟩

theorem OptionCount.thorough_ofTree? : Thorough (d + 1) OptionCount.ofTree? := by
  intro t c h
  simp only [ofTree?, Option.bind_eq_bind, Option.bind_eq_some_iff] at h
  obtain ⟨fs, hf, _, ho, _, hc, _⟩ := h
  refine Layout.isSound_of_read? rfl (by decide) hf ?_
  simp only [layout, List.forall_mem_cons]
  exact ⟨isSound_of_get? ho thorough_text?, isSound_of_get? hc thorough_uint64?,
    List.forall_mem_nil _⟩

theorem QuestionOutcome.thorough_ofTree? : Thorough (d + 3) QuestionOutcome.ofTree? := by
  intro t q h
  simp only [ofTree?, Option.bind_eq_bind, Option.bind_eq_some_iff] at h
  obtain ⟨fs, hf, _, hi, _, hr, _⟩ := h
  refine Layout.isSound_of_read? rfl (by decide) hf ?_
  simp only [layout, List.forall_mem_cons]
  exact ⟨isSound_of_get? hi thorough_text?,
    isSound_of_get? hr (thorough_list? OptionCount.thorough_ofTree?), List.forall_mem_nil _⟩

end Thorough

namespace Header

-- The tags of an object where the last member of a name counts.
def last? (t : Tree) : Option Header := do
  let object ← (t.member? "object").bind Tree.text?
  let action ← (t.member? "action").bind Tree.text?
  some { object, action }

theorem last?_eq_some {t : Tree} {header : Header} : last? t = some header ↔
    (t.member? "object").bind Tree.text? = some header.object ∧
      (t.member? "action").bind Tree.text? = some header.action := by
  rw [last?]
  cases (t.member? "object").bind Tree.text?
  case none => simp
  case some => cases header; cases (t.member? "action").bind Tree.text? <;> simp

theorem exists_object_of_last? {t : Tree} {header : Header} (h : last? t = some header) :
    ∃ ms, t = .object ms := by
  have ⟨ho, _⟩ := last?_eq_some.mp h
  cases t
  case object => exact ⟨_, rfl⟩
  all_goals cases ho

theorem last?_lastWins (t : Tree) : last? t.lastWins = last? t := by
  have ht (name : String) :
      (t.lastWins.member? name).bind Tree.text? = (t.member? name).bind Tree.text? := by
    rw [Tree.member?_lastWins, Option.bind_map]
    exact congrArg _ (funext Tree.text?_lastWins)
  rw [last?, last?, ht, ht]

-- Whoever reads the tags of an object as known names reads them so.
theorem last?_of_fields? {l : Layout} {ms : List (Option String × Tree)} {fs : Fields}
    {header : Header} (hf : l.fields? ms = some fs) (hl : ∀ name ∈ layout.names, name ∈ l.names)
    (ho : fs.get? "object" Tree.text? = some header.object)
    (ha : fs.get? "action" Tree.text? = some header.action) :
    last? (.object ms) = some header := by
  have hn (name : String) (h : name ∈ layout.names) :
      ((Tree.object ms).member? name).bind Tree.text? = fs.get? name Tree.text? := by
    rw [← Layout.lookup_of_fields? hf (hl name h), Fields.get?]
  rw [last?, hn "object" (by decide), hn "action" (by decide), ho, ha]
  rfl

theorem read?_of_ofTree? {t : Tree} {header : Header} (h : ofTree? t = some header) :
    ∃ fs, layout.read? t = some fs ∧ fs.get? "object" Tree.text? = some header.object ∧
      fs.get? "action" Tree.text? = some header.action := by
  simp only [ofTree?, Option.bind_eq_bind, Option.bind_eq_some_iff] at h
  obtain ⟨fs, hf, _, ho, _, ha, hh⟩ := h
  cases hh
  exact ⟨fs, hf, ho, ha⟩

end Header

-- What is read of a record under a header: its tags are in it, and all its fields are sound.
structure Header.Heads (header : Header) (d : Nat) (l : Layout) (fs : Fields) : Prop where
  object_eq : fs.get? "object" Tree.text? = some header.object
  action_eq : fs.get? "action" Tree.text? = some header.action
  sound : ∀ name ∈ l.names, ∀ v, fs.lookup name = some v → v.isSound d

section Heads

variable {d : Nat} {t : Tree}

theorem Setup.heads_of_ofTree? {p : Setup} (h : ofTree? t = some p) :
    ∃ fs, layout.read? t = some fs ∧ Header.Heads ⟨p.object, p.action⟩ (d + 3) layout fs := by
  simp only [ofTree?, Option.bind_eq_bind, Option.bind_eq_some_iff] at h
  obtain ⟨fs, hf, _, ho, _, ha, _, hv, _, hi, _, hl, _, hn, _, hc, _, hs, _, he, _, hq, hp⟩ := h
  cases hp
  refine ⟨fs, hf, ho, ha, ?_⟩
  simp only [layout, List.forall_mem_cons]
  exact ⟨isSound_of_get? ho thorough_text?, isSound_of_get? ha thorough_text?,
    isSound_of_get? hv thorough_text?, isSound_of_get? hi thorough_text?,
    isSound_of_get? hl thorough_text?, isSound_of_get? hn thorough_text?,
    isSound_of_get? hc thorough_int64?, isSound_of_get? hs thorough_int64?,
    isSound_of_get? he thorough_int64?,
    isSound_of_get? hq (thorough_list? SetupQuestion.thorough_ofTree?), List.forall_mem_nil _⟩

theorem Opening.heads_of_ofTree? {p : Opening} (h : ofTree? t = some p) :
    ∃ fs, layout.read? t = some fs ∧ Header.Heads ⟨p.object, p.action⟩ d layout fs := by
  simp only [ofTree?, Option.bind_eq_bind, Option.bind_eq_some_iff] at h
  obtain ⟨fs, hf, _, ho, _, ha, _, hl, _, he, _, hs, hp⟩ := h
  cases hp
  refine ⟨fs, hf, ho, ha, ?_⟩
  simp only [layout, List.forall_mem_cons]
  exact ⟨isSound_of_get? ho thorough_text?, isSound_of_get? ha thorough_text?,
    isSound_of_get? hl thorough_text?, isSound_of_get? he thorough_text?,
    isSound_of_get? hs thorough_int64?, List.forall_mem_nil _⟩

theorem CastVote.heads_of_ofTree? {p : CastVote} (h : ofTree? t = some p) :
    ∃ fs, layout.read? t = some fs ∧ Header.Heads ⟨p.object, p.action⟩ (d + 3) layout fs := by
  simp only [ofTree?, Option.bind_eq_bind, Option.bind_eq_some_iff] at h
  obtain ⟨fs, hf, _, ho, _, ha, _, hl, _, he, _, hc, _, hv, hp⟩ := h
  cases hp
  refine ⟨fs, hf, ho, ha, ?_⟩
  simp only [layout, List.forall_mem_cons]
  exact ⟨isSound_of_get? ho thorough_text?, isSound_of_get? ha thorough_text?,
    isSound_of_get? hl thorough_text?, isSound_of_get? he thorough_text?,
    isSound_of_get? hc thorough_int64?,
    isSound_of_get? hv (thorough_list? Ballot.thorough_ofTree?), List.forall_mem_nil _⟩

theorem Closing.heads_of_ofTree? {p : Closing} (h : ofTree? t = some p) :
    ∃ fs, layout.read? t = some fs ∧ Header.Heads ⟨p.object, p.action⟩ d layout fs := by
  simp only [ofTree?, Option.bind_eq_bind, Option.bind_eq_some_iff] at h
  obtain ⟨fs, hf, _, ho, _, ha, _, hl, _, he, _, hc, _, hr, hp⟩ := h
  cases hp
  refine ⟨fs, hf, ho, ha, ?_⟩
  simp only [layout, List.forall_mem_cons]
  exact ⟨isSound_of_get? ho thorough_text?, isSound_of_get? ha thorough_text?,
    isSound_of_get? hl thorough_text?, isSound_of_get? he thorough_text?,
    isSound_of_get? hc thorough_int64?, isSound_of_get? hr thorough_text?, List.forall_mem_nil _⟩

theorem Outcome.heads_of_ofTree? {p : Outcome} (h : ofTree? t = some p) :
    ∃ fs, layout.read? t = some fs ∧ Header.Heads ⟨p.object, p.action⟩ (d + 4) layout fs := by
  simp only [ofTree?, Option.bind_eq_bind, Option.bind_eq_some_iff] at h
  obtain ⟨fs, hf, _, ho, _, ha, _, hq, hp⟩ := h
  cases hp
  refine ⟨fs, hf, ho, ha, ?_⟩
  simp only [layout, List.forall_mem_cons]
  exact ⟨isSound_of_get? ho thorough_text?, isSound_of_get? ha thorough_text?,
    isSound_of_get? hq (thorough_list? QuestionOutcome.thorough_ofTree?), List.forall_mem_nil _⟩

end Heads

namespace Payload

variable {k : Kind} {t : Tree} {p : Payload} {header : Header} {b : Bytes}

namespace Kind

def layout : Kind → Layout
  | setup => Setup.layout
  | opening => Opening.layout
  | castVote => CastVote.layout
  | closing => Closing.layout
  | outcome => Outcome.layout

-- Every kind has the two fields of a header and more that must be there, and no field twice, and
-- it refuses all others.
theorem layout_spec (k : Kind) :
    (∀ name ∈ Header.layout.names, name ∈ k.layout.names) ∧
      Header.layout.names.length < k.layout.least ∧ k.layout.names.Nodup ∧ k.layout.closed := by
  cases k <;> decide

theorem heads_of_ofTree? (h : k.ofTree? t = some p) :
    ∃ fs, k.layout.read? t = some fs ∧ p.header.Heads (maxDepth - 1) k.layout fs := by
  cases k
  all_goals
    have ⟨q, hq, hp⟩ := Option.map_eq_some_iff.mp h
    cases hp
  case setup => exact Setup.heads_of_ofTree? hq
  case opening => exact Opening.heads_of_ofTree? hq
  case castVote => exact CastVote.heads_of_ofTree? hq
  case closing => exact Closing.heads_of_ofTree? hq
  case outcome => exact Outcome.heads_of_ofTree? hq

theorem isSound_of_ofTree? (h : k.ofTree? t = some p) : t.isSound maxDepth := by
  have ⟨_, _, hn, hc⟩ := k.layout_spec
  have ⟨fs, hf, hh⟩ := heads_of_ofTree? h
  exact Layout.isSound_of_read? hc hn hf hh.sound

theorem last?_of_ofTree? {ms : List (Option String × Tree)} (h : k.ofTree? (.object ms) = some p) :
    Header.last? (.object ms) = some p.header := by
  have ⟨fs, hf, hh⟩ := heads_of_ofTree? h
  exact Header.last?_of_fields? hf k.layout_spec.left hh.object_eq hh.action_eq

-- An array is too long for a header where it is long enough for a payload.
theorem exists_object (hp : k.ofTree? t = some p) (hh : Header.ofTree? t = some header) :
    ∃ ms, t = .object ms := by
  have ⟨fs, hf, _⟩ := heads_of_ofTree? hp
  have ⟨gs, hg, _⟩ := Header.read?_of_ofTree? hh
  cases t
  case object ms => exact ⟨ms, rfl⟩
  case array vs =>
    simp only [Layout.read?, Option.ite_none_right_eq_some] at hf hg
    have := k.layout_spec.right.left
    omega
  all_goals cases hf

end Kind

theorem tag_eq_ok {name s : String} :
    tag t name = .ok s ↔ (t.member? name).bind Tree.text? = some s ∧ s ≠ "" := by
  unfold tag
  split
  case h_1 s' hs => by_cases he : s' = "" <;> simp [hs, he]; grind
  case h_2 hs => simp [hs]

-- The payload, read as a whole, carries these tags, and neither is empty.
def Carries (b : Bytes) (header : Header) : Prop :=
  ∃ t, Tree.readWhole? (Glyph.ofBytes b) = some t ∧ tag t "object" = .ok header.object ∧
    tag t "action" = .ok header.action

theorem carries_iff : Carries b header ↔
    ∃ ms, parse (Glyph.ofBytes b) = some (.object ms) ∧ (Tree.object ms).isSound maxDepth ∧
      Header.last? (.object ms) = some header ∧ header.object ≠ "" ∧ header.action ≠ "" := by
  have ht (t : Tree) : tag t "object" = .ok header.object ∧ tag t "action" = .ok header.action ↔
      Header.last? t = some header ∧ header.object ≠ "" ∧ header.action ≠ "" := by
    rw [tag_eq_ok, tag_eq_ok, Header.last?_eq_some]
    tauto
  simp only [Carries, ht, Tree.readWhole?_eq_some]
  constructor
  case mp =>
    intro ⟨_, ⟨t, hp, hs, hl⟩, hh, hn⟩
    rw [← hl, Header.last?_lastWins] at hh
    have ⟨ms, hm⟩ := Header.exists_object_of_last? hh
    subst hm
    exact ⟨ms, hp, hs, hh, hn⟩
  case mpr =>
    intro ⟨ms, hp, hs, hh, hn⟩
    exact ⟨_, ⟨_, hp, hs, rfl⟩, (Header.last?_lastWins _).trans hh, hn⟩

theorem validate_eq_ok : validate b = .ok () ↔
    ∃ header, Carries b header ∧ (header.isKnown → ∃ p, decode b = .ok p) := by
  rw [validate]
  constructor
  case mp =>
    intro h
    split at h
    case h_1 => cases h
    case h_2 ms hr =>
      simp only [Guards.bind_eq_ok] at h
      obtain ⟨object, ho, action, ha, h⟩ := h
      refine ⟨⟨object, action⟩, ⟨_, hr, ho, ha⟩, fun hk => ?_⟩
      rw [if_pos hk] at h
      split at h
      case h_1 p hp => exact ⟨p, hp⟩
      all_goals cases h
    case h_3 => cases h
  case mpr =>
    rintro ⟨header, ⟨t, hr, ho, ha⟩, hd⟩
    obtain ⟨ms, hm⟩ := Header.exists_object_of_last? <|
      Header.last?_eq_some.mpr ⟨(tag_eq_ok.mp ho).left, (tag_eq_ok.mp ha).left⟩
    subst hm
    rw [hr]
    simp only [ho, ha, Guards.ok_bind]
    by_cases hk : header.isKnown
    case pos =>
      obtain ⟨p, hp⟩ := hd hk
      simp only [hk, if_true, hp, Guards.pure_eq_ok]
    case neg => simp only [hk, Bool.false_eq_true, if_false, Guards.pure_eq_ok]

-- What can be decoded is labelled, and all readers find its labels.
theorem labelled_of_decode (h : decode b = .ok p) :
    p.Labelled ∧ Header.read b = .ok p.header ∧ Carries b p.header := by
  have ⟨t, header, k, ht, hh, hk, hp⟩ := decode_eq_ok.mp h
  have ⟨ms, hm⟩ := Kind.exists_object hp hh
  subst hm
  have ⟨fs, hf, ho, ha⟩ := Header.read?_of_ofTree? hh
  have hl := Header.last?_of_fields? hf (fun _ => id) ho ha
  have he : header = p.header := Option.some.inj (hl.symm.trans (Kind.last?_of_ofTree? hp))
  subst he
  have hn : p.Labelled := by
    rw [Labelled, kind_of_ofTree? hp]
    exact Header.kind?_eq_some.mp hk
  refine ⟨hn, Header.read_eq_ok.mpr ⟨_, ht, hh⟩, ?_⟩
  refine carries_iff.mpr ⟨ms, ht, Kind.isSound_of_ofTree? hp, hl, ?_⟩
  rw [hn]
  cases p.kind <;> decide

theorem validate_of_decode (h : decode b = .ok p) : validate b = .ok () :=
  have ⟨_, _, hc⟩ := labelled_of_decode h
  validate_eq_ok.mpr ⟨p.header, hc, fun _ => ⟨p, h⟩⟩

theorem Carries.eq {header' : Header} (h : Carries b header) (h' : Carries b header') :
    header = header' := by
  have ⟨ms, hp, _, hl, _⟩ := carries_iff.mp h
  have ⟨ms', hp', _, hl', _⟩ := carries_iff.mp h'
  cases hp.symm.trans hp'
  exact Option.some.inj (hl.symm.trans hl')

-- A payload that passes the check has a header that reads as the check reads its labels.
theorem Carries.eq_of_read {header' : Header} (h : Carries b header)
    (hr : Header.read b = .ok header') : header = header' := by
  have ⟨ms, hp, _, hl, _⟩ := carries_iff.mp h
  have ⟨t, hp', hh⟩ := Header.read_eq_ok.mp hr
  cases hp.symm.trans hp'
  have ⟨fs, hf, ho, ha⟩ := Header.read?_of_ofTree? hh
  exact Option.some.inj (hl.symm.trans (Header.last?_of_fields? hf (fun _ => id) ho ha))

theorem exists_decode (hv : validate b = .ok ()) (hc : Carries b header) (hk : header.isKnown) :
    ∃ p, decode b = .ok p ∧ p.header = header := by
  have ⟨header', hc', hd⟩ := validate_eq_ok.mp hv
  have ⟨p, hp⟩ := hd (hc.eq hc' ▸ hk)
  have ⟨_, _, hc''⟩ := labelled_of_decode hp
  exact ⟨p, hp, hc''.eq hc⟩

theorem validate_encode {p : Payload} (h : p.Labelled) : validate p.encode = .ok () :=
  validate_of_decode (decode_encode h)

-- The handlers can decode exactly the payloads that pass the check and whose header is known. What
-- they decode has the labels that the header has and the kind that these name. So no payload that
-- the check takes for one of a known kind fails later or becomes one of another kind.
theorem readers_agree (b : Bytes) :
    ((∃ p, decode b = .ok p) ↔
      validate b = .ok () ∧ ∃ header, Header.read b = .ok header ∧ header.isKnown) ∧
    (∀ p, decode b = .ok p → Header.read b = .ok p.header ∧ p.header = ⟨object, p.kind.action⟩) ∧
    ∀ header, validate b = .ok () → Carries b header → header.isKnown →
      ∃ p, decode b = .ok p ∧ p.header = header := by
  refine ⟨⟨?sound, ?complete⟩, ?labels, fun header => exists_decode⟩
  case sound =>
    intro ⟨p, hp⟩
    have ⟨hl, hr, _⟩ := labelled_of_decode hp
    exact ⟨validate_of_decode hp, p.header, hr, by simp [Header.isKnown, hl.kind?]⟩
  case complete =>
    intro ⟨hv, header, hr, hk⟩
    have ⟨header', hc, hd⟩ := validate_eq_ok.mp hv
    exact hd (hc.eq_of_read hr ▸ hk)
  case labels =>
    intro p hp
    have ⟨hl, hr, _⟩ := labelled_of_decode hp
    exact ⟨hr, hl⟩

-- An escape, another order than that of writing, and blanks.
theorem readers_agree_escaped :
    let b := Bytes.ofText <|
      "\x7b\"action\":\"e\\u006ed\", \"registered_votes\":\"\",\"created_at\":-7 ," ++
        "\"object\":\"election\",\"election\":\"E\",\"lao\":\"L\"\x7d"
    validate b = .ok () ∧ Header.read b = .ok ⟨"election", "end"⟩ := by
  intro b
  have hb : decode b = .ok (.closing ⟨"election", "end", "L", "E", -7, ""⟩) := by
    rw [decode, Header.read, Glyph.ofBytes_ofText]
    decide +kernel
  obtain ⟨hv, hl, _⟩ := readers_agree b
  exact ⟨(hv.mp ⟨_, hb⟩).left, (hl _ hb).left⟩

-- A payload is read back by all readers from what it is written as if its labels are those of its
-- kind, and only then.
theorem labelled_iff_read_back (p : Payload) :
    p.header = ⟨object, p.kind.action⟩ ↔ validate p.encode = .ok () ∧ decode p.encode = .ok p := by
  constructor
  case mp => exact fun h => ⟨validate_encode h, decode_encode h⟩
  case mpr => exact fun ⟨_, h⟩ => (labelled_of_decode h).left

-- Signs that need an escape or more than one byte, and the greatest count.
theorem labelled_iff_read_back_outcome :
    let p := outcome ⟨object, "result", [⟨"\"\\\n\u0001é😀", [⟨"", 18446744073709551615⟩]⟩]⟩
    validate p.encode = .ok () ∧ decode p.encode = .ok p :=
  (labelled_iff_read_back _).mp rfl

end Payload
end Plenum
