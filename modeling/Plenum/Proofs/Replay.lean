import Plenum.Proofs.Regular

namespace Plenum

namespace Hub

-- The message stands in the log of an election, and has been announced there.
def Published (hub : Hub) (m : Message) : Prop :=
  ∃ path e, Table.get? hub.elections path = some e ∧ m ∈ e.inbox.messages

-- Of the host, the call has no signature but one that was published over the same payload.
def Call.Held (h : Host) (hub : Hub) (c : Call) : Prop :=
  ∀ path m, c.Says path m → m.IsFrom h.suite h.key →
    ∃ n, hub.Published n ∧ n.IsFrom h.suite h.key ∧ m.data = n.data ∧ m.signature = n.signature

def Replays (h : Host) (calls : List Call) : Prop :=
  ∀ pre c post, calls = pre ++ c :: post → c.Held h (after h pre)

variable {h : Host} {hub : Hub} {path : String} {e : Election} {calls : List Call} {c : Call}
  {m : Message}

theorem replays_concat :
    Replays h (calls ++ [c]) ↔ Replays h calls ∧ c.Held h (after h calls) := by
  constructor
  case mp =>
    refine fun hr => ⟨fun pre d post hc => ?_, hr calls c [] rfl⟩
    exact hr pre d (post ++ [c]) (by rw [hc, List.append_assoc, List.cons_append])
  case mpr =>
    rintro ⟨hr, hh⟩ pre d post hc
    rcases List.eq_nil_or_concat post with rfl | ⟨post, d', rfl⟩
    case inl =>
      have ⟨hp, hd⟩ := List.append_inj' hc rfl
      cases hd
      exact hp ▸ hh
    case inr =>
      rw [List.concat_eq_append, ← List.cons_append, ← List.append_assoc] at hc
      exact hr pre d post (List.append_inj' hc rfl).left

-- The message carries the report of an election that has ended.
def Reports (h : Host) (hub : Hub) (m : Message) : Prop :=
  ∃ path e, Table.get? hub.elections path = some e ∧ e.phase = .terminated ∧
    m.data = (e.outcomeMessage h).data ∧ m.signature = (e.outcomeMessage h).signature

theorem Reports.step (hm : Reports h hub m) (c : Call) : Reports h (hub.step h c) m := by
  obtain ⟨path, e, he, hp, hd, hs⟩ := hm
  have ⟨e', he', hg⟩ := grows_step (h := h) he c
  have ho : e'.outcomeMessage h = e.outcomeMessage h :=
    Election.outcomeMessage_congr (hg.questions hp)
  exact ⟨path, e', he', hg.terminated hp, ho ▸ hd, ho ▸ hs⟩

-- All that the host has signed and that is published is a report.
def Traced (h : Host) (hub : Hub) : Prop :=
  ∀ m, hub.Published m → m.IsFrom h.suite h.key → Reports h hub m

theorem Traced.held (ht : Traced h hub) (hc : c.Held h hub) (hs : c.Says path m)
    (hm : m.IsFrom h.suite h.key) : Reports h hub m := by
  have ⟨n, hp, hn, hd, hg⟩ := hc path m hs hm
  have ⟨path', e, he, ht, hd', hg'⟩ := ht n hp hn
  exact ⟨path', e, he, ht, hd.trans hd', hg.trans hg'⟩

end Hub

namespace Election

variable {h : Host} {e : Election} {lao : Lao} {m n : Message} {t : Turn Election Unit}

-- What is new in a log is the message that was sent, or the report at the end.
theorem Processed.mem_messages (ht : Processed h lao m e t) (hn : n ∈ t.state.inbox.messages) :
    n ∈ e.inbox.messages ∨ n = m ∨
      n = t.state.outcomeMessage h ∧ t.state.phase = .terminated := by
  have hl {e : Election} {m : Message} (hn : n ∈ (e.log m).inbox.messages) :
      n ∈ e.inbox.messages ∨ n = m := by
    simpa [log, setInbox] using hn
  cases ht
  case refused => exact .inl hn
  case opened => exact (hl hn).imp_right .inl
  case voted => exact (hl hn).imp_right .inl
  case closed =>
    rcases hl hn with hn | hn
    case inl => exact (hl hn).imp_right .inl
    case inr => exact .inr (.inr ⟨hn.trans (outcomeMessage_congr rfl), rfl⟩)
  case unreported => exact (hl hn).imp_right .inl
  case noted => exact (hl hn).imp_right .inl

end Election

namespace Hub

variable {h : Host} {hub : Hub} {calls : List Call} {c : Call}

theorem Traced.step (ht : Traced h hub) (hc : c.Held h hub) : Traced h (hub.step h c) := by
  rintro n ⟨path, e', he', hn⟩ hf
  cases origin he'
  case kept hk => exact (ht n ⟨path, _, hk, hn⟩ hf).step c
  case spoken e lao m hk _ hs =>
    rcases (Election.processed h lao m e).mem_messages hn with hn | rfl | ⟨hn, hp⟩
    case inl => exact (ht n ⟨path, e, hk, hn⟩ hf).step c
    case inr.inl => exact (ht.held hc hs hf).step c
    case inr.inr => exact ⟨path, _, he', hp, by rw [hn], by rw [hn]⟩
  case created s id lao place m _ hs _ =>
    have hn : n = m := by
      simpa [setUpElection, Election.log, Election.setInbox, Election.ofSetup, Channel.empty,
        Inbox.empty] using hn
    exact (ht.held hc hs (hn ▸ hf)).step c |> (hn ▸ ·)

theorem traced (hr : Replays h calls) : Traced h (after h calls) := by
  induction calls using List.reverseRecOn
  case nil => rintro n ⟨path, e, he, _⟩; cases he
  case append_singleton calls c ih =>
    have ⟨hr, hc⟩ := replays_concat.mp hr
    rw [after_concat]
    exact (ih hr).step hc

end Hub
end Plenum
