import Plenum.Proofs.VoteOrder

namespace Plenum

namespace Question

variable {q r s : Question} {voter : String} {asked : List String}

-- What a vote on some questions leaves of a question: the question itself, all records of other
-- voters, and the record of the voter too unless the vote is on this question.
structure Retains (voter : String) (asked : List String) (q r : Question) : Prop where
  blank_eq : r.blank = q.blank
  others : Table.erase r.votes voter = Table.erase q.votes voter
  unasked : q.id ∉ asked → r = q

theorem Retains.refl (q : Question) : q.Retains voter asked q :=
  ⟨rfl, rfl, fun _ => rfl⟩

theorem Retains.trans (h₁ : q.Retains voter asked r) (h₂ : r.Retains voter asked s) :
    q.Retains voter asked s where
  blank_eq := h₂.blank_eq.trans h₁.blank_eq
  others := h₂.others.trans h₁.others
  unasked hq := by
    have hr := h₁.unasked hq
    rw [h₂.unasked (hr ▸ hq), hr]

theorem retains_update (q : Question) (v : Vote) (ha : q.id ∈ asked) :
    q.Retains voter asked (q.update voter v) where
  blank_eq := update_blank q voter v
  others := by
    unfold update
    split
    case isTrue => exact Table.erase_insert q.votes voter v
    case isFalse => rfl
  unasked hn := (hn ha).elim

theorem retains_hear {c : Cast} (hc : c.voter = voter) (ha : c.question ∈ asked) :
    q.Retains voter asked (q.hear c) := by
  unfold hear
  split
  case isTrue hq => exact hc ▸ retains_update q c.vote (hq ▸ ha)
  case isFalse => exact .refl q

theorem retains_hearAll {cs : List Cast} (hc : ∀ c ∈ cs, c.voter = voter ∧ c.question ∈ asked) :
    q.Retains voter asked (q.hearAll cs) := by
  induction cs generalizing q
  case nil => exact .refl q
  case cons c cs ih =>
    have ⟨⟨hv, ha⟩, hc⟩ := List.forall_mem_cons.mp hc
    exact (retains_hear hv ha).trans (ih hc)

-- The voter has a record on the question that no vote of that time replaces.
def Outdates (q : Question) (voter : String) (castAt : Int64) : Prop :=
  ∃ w, q.voteOf? voter = some w ∧ w.castAt ≤ castAt

theorem update_of_outdates {v : Vote} (hq : q.Outdates voter v.castAt) : q.update voter v = q := by
  have ⟨w, hw, ht⟩ := hq
  have hr : ¬q.replaces voter v := by simpa [replaces, hw] using ht
  rw [update, if_neg hr]

theorem hearAll_of_outdates {cs : List Cast}
    (hc : ∀ c ∈ cs, c.question = q.id → q.Outdates c.voter c.vote.castAt) : q.hearAll cs = q := by
  induction cs
  case nil => rfl
  case cons c cs ih =>
    have ⟨hq, hc⟩ := List.forall_mem_cons.mp hc
    have hh : q.hear c = q := by
      unfold hear
      split
      case isTrue hi => exact update_of_outdates (hq hi)
      case isFalse => rfl
    rw [hearAll, List.foldl_cons, hh]
    exact ih hc

end Question

namespace Election

variable {h : Host} {e : Election} {lao : Lao} {m : Message} {env : Envelope} {p : CastVote}

-- A vote that is in order: it passes, is new, comes from an attendee or the organizer, and names
-- this election, which is open; and all its ballots are such as one of the questions allows.
structure MayVote (h : Host) (lao : Lao) (m : Message) (env : Envelope) (p : CastVote)
    (e : Election) : Prop where
  unseal_eq : m.unseal h.suite = .ok env
  decode_eq : Payload.decode env.payload = .ok (.castVote p)
  fresh : ∀ n ∈ e.inbox.messages, n.id ≠ m.id
  entitled : m.sender ∈ lao.attendees ∨ env.sender = lao.organizer
  lao_eq : p.lao = e.lao
  id_eq : p.election = e.id
  isOpen : e.phase = .started
  allowed : ∀ b ∈ p.votes, ∃ q ∈ e.questions, q.id = b.question ∧ q.Allows b.choices

theorem exists_judgeBallot_iff (hn : e.ids.Nodup) {castAt : Int64} {b : Ballot} :
    (∃ a, e.judgeBallot m castAt b = .ok a) ↔
      ∃ q ∈ e.questions, q.id = b.question ∧ q.Allows b.choices := by
  constructor
  case mp =>
    rintro ⟨⟨i, v⟩, hj⟩
    have ⟨q, hq, hi, hc, _⟩ := check_of_judgeBallot hj
    exact ⟨q, List.mem_of_getElem? hq, hi, (Question.check_eq_ok.mp hc).left⟩
  case mpr =>
    rintro ⟨q, hq, hi, ha⟩
    have hf := (question?_eq_some hn).mpr ⟨hq, hi⟩
    obtain ⟨i, hp, hq⟩ := Option.bind_eq_some_iff.mp hf
    have hc := Question.check_eq_ok.mpr ⟨ha, rfl⟩
    exact ⟨_, by simp only [judgeBallot, hp, hq, hc]; rfl⟩

-- Nothing stands against a vote that is in order: no identifier is reserved from an attempt before,
-- and each ballot is judged by the one question that has its id.
theorem mayVote_iff_admits (hp : e.inbox.pending = []) (hn : e.ids.Nodup) :
    e.MayVote h lao m env p ↔ ∃ votes, Admits h lao m e env (.castVote p) (.vote votes) := by
  constructor
  case mp =>
    rintro ⟨hu, hd, hf, he, hl, hi, ho, ha⟩
    have hb : ∀ b ∈ p.votes, ∃ a, e.judgeBallot m p.createdAt b = .ok a :=
      fun b hb => (exists_judgeBallot_iff hn).mpr (ha b hb)
    have ⟨votes, hv⟩ := Guards.exists_mapM_eq_ok.mpr hb
    have hf : ¬e.inbox.has m.id := Inbox.has_iff.not.mpr fun ⟨n, hn, hi⟩ => hf n hn hi
    exact ⟨votes, hu, hf, hp ▸ List.not_mem_nil, hd,
      judgeVote_eq_ok.mpr ⟨he, hl, hi, ho, votes, hv, rfl⟩⟩
  case mpr =>
    rintro ⟨votes, hu, hf, -, hd, hj⟩
    have ⟨he, hl, hi, ho, _, hv, _⟩ := judgeVote_eq_ok.mp hj
    have hb := Guards.exists_mapM_eq_ok.mp ⟨_, hv⟩
    exact ⟨hu, hd, fun n hn hi => hf (Inbox.has_iff.mpr ⟨n, hn, hi⟩), he, hl, hi, ho,
      fun b hb' => (exists_judgeBallot_iff hn).mp (hb b hb')⟩

variable {votes : List (Nat × Vote)}

-- What an admitted vote leaves of the questions: all of them if none of its ballots comes into
-- effect.
theorem Admits.retains (hn : e.ids.Nodup) (ha : Admits h lao m e env (.castVote p) (.vote votes)) :
    List.Forall₂ (Question.Retains m.sender (p.votes.map Ballot.question)) e.questions
      (e.storeVotes m.sender votes).questions := by
  rw [questions_storeVotes hn ha, List.forall₂_map_right_iff, List.forall₂_same,
    Message.casts_eq ha.content?_eq]
  intro q _
  exact Question.retains_hearAll
    (List.forall_mem_map.mpr fun b hb => ⟨rfl, List.mem_map_of_mem hb⟩)

theorem Admits.questions_eq (hn : e.ids.Nodup)
    (ha : Admits h lao m e env (.castVote p) (.vote votes))
    (ho : ∀ q ∈ e.questions, q.id ∈ p.votes.map Ballot.question →
      q.Outdates m.sender p.createdAt) :
    (e.storeVotes m.sender votes).questions = e.questions := by
  have hh : ∀ q ∈ e.questions, q.hearAll (p.votes.map (m.cast p.createdAt)) = q := by
    refine fun q hq => Question.hearAll_of_outdates (List.forall_mem_map.mpr fun b hb hi => ?_)
    exact ho q hq (hi ▸ List.mem_map_of_mem hb)
  rw [questions_storeVotes hn ha, Message.casts_eq ha.content?_eq]
  exact (List.map_congr_left (g := fun q => q) hh).trans (List.map_id' _)

end Election

-- A vote is accepted exactly if it is in order, by the LAO of the election as it is now. It is
-- logged then, and of all that there is in the hub nothing else is changed but the voter's own
-- records on the questions that the vote is on; nor are those if the voter has voted on them
-- before, at times that are not later.
theorem Hub.vote_accepted_iff_mayVote (h : Host) (hub : Hub) (hr : hub.Reachable h) (path : String)
    (e : Election) (he : Table.get? hub.elections path = some e) (m : Message)
    (hk : ∀ p, m.content? = some p → p.kind = .castVote) :
    ((hub.process h path e m).outcome = .ok () ↔
      ∃ lao env p, Table.get? hub.laos e.lao = some lao ∧ e.MayVote h lao m env p) ∧
    ((hub.process h path e m).outcome = .ok () →
      ∃ p qs, m.content? = some (.castVote p) ∧
        (hub.process h path e m).state = hub.setElection path { e.log m with questions := qs } ∧
        List.Forall₂ (Question.Retains m.sender (p.votes.map Ballot.question)) e.questions qs ∧
        ((∀ q ∈ e.questions, q.id ∈ p.votes.map Ballot.question →
          q.Outdates m.sender p.createdAt) → qs = e.questions)) := by
  have ⟨lao, hl⟩ := hr.exists_lao he
  have hp := (Election.regular hr he).pending_eq
  have hc := Election.counted hr he
  have ht : hub.process h path e m = (e.process h lao m).within (hub.setElection path) :=
    process_of_lao hl
  -- What is accepted has been admitted, and it can be nothing but a vote.
  have ha (ho : (hub.process h path e m).outcome = .ok ()) : e.Accepts h lao m := by
    rcases Election.admits_or_refuse h lao m e with ⟨env, p, r, ha⟩ | ⟨f, hf⟩
    case inl =>
      rw [ht] at ho
      exact Election.accepts_of_outcome (ha.kind?_eq.trans (hk p ha.content?_eq ▸ rfl)) ho
    case inr =>
      rw [ht, hf] at ho
      cases ho
  refine ⟨⟨fun ho => ?_, ?_⟩, fun ho => ?_⟩
  case refine_1 =>
    obtain ⟨env, p, votes, ha⟩ := ha ho
    exact ⟨lao, env, p, hl, (Election.mayVote_iff_admits hp hc.ids).mpr ⟨votes, ha⟩⟩
  case refine_2 =>
    rintro ⟨lao', env, p, hl', hm⟩
    cases hl.symm.trans hl'
    obtain ⟨votes, ha⟩ := (Election.mayVote_iff_admits hp hc.ids).mp hm
    rw [ht, ha.process_eq]
    rfl
  case refine_3 =>
    obtain ⟨env, p, votes, ha⟩ := ha ho
    refine ⟨p, _, ha.content?_eq, ?_, ha.retains hc.ids, ha.questions_eq hc.ids⟩
    rw [ht, ha.process_eq]
    rfl

-- In the trial every new vote on an open election is in order.
theorem Trial.Conducted.mayVote {name : String} {method : Method} {ns : List Nat} {e : Election}
    {n : Nat} (hc : Conducted name method .started ns e)
    (hq : e.questions.map Question.blank = questions name method) (t : Int64) (hn : n < 7)
    (hf : n + 1 ∉ ns) :
    ∃ env, e.MayVote host lao (message n (.castVote (voteAt name t))) env (voteAt name t) := by
  have ⟨env, hu, ho, hd⟩ := exists_unseal_message n (p := .castVote (voteAt name t)) rfl
  refine ⟨env, hu, hd, ?fresh, .inr ho, hc.lao_eq.symm, hc.id_eq.symm, hc.phase_eq, ?allowed⟩
  case fresh =>
    intro k hk hi
    rw [id_message] at hi
    exact hc.marked.not_has (by omega) hf (Inbox.has_iff.mpr ⟨k, hk, hi⟩)
  case allowed =>
    obtain ⟨q, qs, he, hb, -⟩ := List.map_eq_cons_iff.mp hq
    obtain ⟨hi, ho, -⟩ := Question.mk.inj hb
    have ha : q.Allows [0] := by
      refine ⟨List.forall_mem_singleton.mpr ?_, List.nodup_singleton _, nofun, fun _ => rfl⟩
      rw [ho]
      decide
    exact List.forall_mem_singleton.mpr ⟨q, he ▸ List.mem_cons_self, hi, ha⟩

-- In the trial the organizer votes for a second time, later than before, and all that comes of it
-- is an entry in the log.
theorem Hub.vote_accepted_iff_mayVote_late :
    let hub := after Trial.host (Trial.castRun .plurality)
    let e := Trial.castA .plurality
    let m := Trial.message 3 (.castVote (Trial.voteAt "A" 1))
    hub.Reachable Trial.host ∧ Table.get? hub.elections (Trial.path "A") = some e ∧
      (∀ p, m.content? = some p → p.kind = .castVote) ∧
      (hub.process Trial.host (Trial.path "A") e m).outcome = .ok () ∧
      (hub.process Trial.host (Trial.path "A") e m).state =
        hub.setElection (Trial.path "A") (e.log m) := by
  intro hub e m
  have hr := reachable_after Trial.host (Trial.castRun .plurality)
  have hreach := Trial.reaches_castA .plurality
  have hc := Trial.content?_message 3 (p := .castVote (Trial.voteAt "A" 1)) rfl
  have hk : ∀ p, m.content? = some p → p.kind = .castVote := by
    intro p hp
    cases hc.symm.trans hp
    rfl
  have hq : e.questions = [⟨Trial.questionId "A", ["x", "y"], .plurality,
      [(Base64.encode Trial.organizer.toList, Trial.record 2)]⟩] := by
    rw [← Trial.sender_message 2 (.castVote (Trial.vote "A"))]
    exact Trial.questions_voted rfl
  have ⟨env, hm⟩ := (Trial.conducted_castA .plurality).mayVote (n := 3) (by rw [hq]; rfl) 1
    (by decide) (by decide)
  have hl : Table.get? hub.laos "L" = some Trial.lao := by
    have ha : hub = ⟨_, _⟩ := hreach.after_eq
    rw [ha]
    rfl
  have ⟨hiff, hdone⟩ := vote_accepted_iff_mayVote Trial.host hub hr (Trial.path "A") e
    hreach.get?_eq m hk
  have ho := hiff.mpr ⟨Trial.lao, env, _, hl, hm⟩
  obtain ⟨p, qs, hp, hs, -, hqs⟩ := hdone ho
  cases hc.symm.trans hp
  have ht : ∀ q ∈ e.questions, q.Outdates m.sender 1 := by
    intro q hm
    rw [hq] at hm
    rw [List.mem_singleton.mp hm]
    refine ⟨Trial.record 2, ?_, by decide⟩
    rw [Question.voteOf?, Table.get?_cons, Trial.sender_message, if_pos rfl]
  have hlog (e : Election) (m : Message) :
      { e.log m with questions := e.questions } = e.log m := rfl
  rw [hqs fun q hq _ => ht q hq, hlog] at hs
  exact ⟨hr, hreach.get?_eq, hk, ho, hs⟩

end Plenum
