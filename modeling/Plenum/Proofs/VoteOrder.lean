import Mathlib.Data.Finset.Dedup
import Plenum.Proofs.Report

namespace Plenum

-- Votes of one voter, cast at the same time, with a question in common.
def Message.Contend (m n : Message) : Prop :=
  m.sender = n.sender ∧ ∃ p q, m.content? = some (.castVote p) ∧ n.content? = some (.castVote q) ∧
    p.createdAt = q.createdAt ∧ ∃ b ∈ p.votes, ∃ c ∈ q.votes, b.question = c.question

namespace Message

variable {m n : Message} {c d : Cast}

theorem mem_casts : c ∈ m.casts ↔
    ∃ p, m.content? = some (.castVote p) ∧ ∃ b ∈ p.votes, m.cast p.createdAt b = c := by
  unfold casts
  split
  case h_1 p hp => simp [hp]
  case h_2 hn => exact ⟨nofun, fun ⟨p, hp, _⟩ => (hn p hp).elim⟩

theorem Contend.symm (hc : m.Contend n) : n.Contend m :=
  have ⟨hs, p, q, hp, hq, ht, b, hb, c, hc, hbc⟩ := hc
  ⟨hs.symm, q, p, hq, hp, ht.symm, c, hc, b, hb, hbc.symm⟩

theorem contend_of_casts (hc : c ∈ m.casts) (hd : d ∈ n.casts) (hv : c.voter = d.voter)
    (hq : c.question = d.question) (ht : c.vote.castAt = d.vote.castAt) : m.Contend n := by
  obtain ⟨p, hp, b, hb, rfl⟩ := mem_casts.mp hc
  obtain ⟨q, hq', b', hb', rfl⟩ := mem_casts.mp hd
  exact ⟨hv, p, q, hp, hq', ht, b, hb, b', hb', hq⟩

end Message

-- A search that finds the same wherever it finds anything does not depend on the order.
theorem findSome?_perm {α β : Type} {f : α → Option β} {as bs : List α} (hp : as.Perm bs)
    (hf : ∀ a ∈ as, ∀ b ∈ as, ∀ x ∈ f a, ∀ y ∈ f b, x = y) :
    as.findSome? f = bs.findSome? f := by
  induction hp
  case nil => rfl
  case cons a as bs _ ih =>
    have ih := ih fun a ha b hb =>
      hf a (List.mem_cons_of_mem _ ha) b (List.mem_cons_of_mem _ hb)
    rw [List.findSome?_cons, List.findSome?_cons, ih]
  case swap a b as =>
    rw [List.findSome?_cons, List.findSome?_cons, List.findSome?_cons, List.findSome?_cons]
    cases ha : f a <;> cases hb : f b <;> simp only
    case some.some x y =>
      have hxy := hf a (List.mem_cons_of_mem _ List.mem_cons_self) b List.mem_cons_self x ha y hb
      rw [hxy]
  case trans hab _ ih₁ ih₂ =>
    refine (ih₁ hf).trans (ih₂ fun a ha b hb => ?_)
    exact hf a (hab.mem_iff.mpr ha) b (hab.mem_iff.mpr hb)

namespace Vote

theorem leads_perm {vs ws : List Vote} (hp : vs.Perm ws) : leads vs = leads ws :=
  funext fun _ => hp.all_eq

-- The earliest vote is among the old ones, or else in the one block that has an earliest vote.
-- There is only one where the votes of different blocks have different times.
theorem earliest_perm {α : Type} {f : α → List Vote} {as bs : List α} (old : List Vote)
    (hp : as.Perm bs)
    (hf : ∀ a ∈ as, ∀ b ∈ as, a ≠ b → ∀ v ∈ f a, ∀ w ∈ f b, v.castAt ≠ w.castAt) :
    earliest (old ++ as.flatMap f) = earliest (old ++ bs.flatMap f) := by
  have hl : leads (old ++ as.flatMap f) = leads (old ++ bs.flatMap f) :=
    leads_perm ((hp.flatMap_right f).append_left old)
  have hone : ∀ a ∈ as, ∀ b ∈ as, ∀ v ∈ (f a).find? (leads (old ++ as.flatMap f)),
      ∀ w ∈ (f b).find? (leads (old ++ as.flatMap f)), v = w := by
    intro a ha b hb v hv w hw
    by_cases hab : a = b
    case pos =>
      subst hab
      exact Option.some.inj (hv.symm.trans hw)
    case neg =>
      have hmv := List.mem_of_find?_eq_some hv
      have hmw := List.mem_of_find?_eq_some hw
      have hv' : v ∈ old ++ as.flatMap f :=
        List.mem_append_right _ (List.mem_flatMap.mpr ⟨a, ha, hmv⟩)
      have hw' : w ∈ old ++ as.flatMap f :=
        List.mem_append_right _ (List.mem_flatMap.mpr ⟨b, hb, hmw⟩)
      have hvw := leads_iff.mp (List.find?_some hv) w hw'
      have hwv := leads_iff.mp (List.find?_some hw) v hv'
      exact (hf a ha b hb hab v hmv w hmw (Int64.le_antisymm hvw hwv)).elim
  rw [earliest, earliest, List.find?_append, List.find?_append, List.find?_flatMap,
    List.find?_flatMap, ← hl, findSome?_perm hp hone]

end Vote

-- The votes of a voter on a question among some ballots.
def votesOf (cs : List Cast) (question voter : String) : List Vote :=
  (cs.filter fun c => c.question = question ∧ c.voter = voter).map Cast.vote

theorem recount_eq (cs : List Cast) (question voter : String) :
    recount cs question voter = Vote.earliest (votesOf cs question voter) :=
  rfl

theorem mem_votesOf {cs : List Cast} {question voter : String} {v : Vote} :
    v ∈ votesOf cs question voter ↔
      ∃ c ∈ cs, c.question = question ∧ c.voter = voter ∧ c.vote = v := by
  simp [votesOf, and_assoc]

theorem votesOf_append_flatMap (old : List Cast) (ms : List Message) (question voter : String) :
    votesOf (old ++ ms.flatMap Message.casts) question voter =
      votesOf old question voter ++ ms.flatMap fun m => votesOf m.casts question voter := by
  simp only [votesOf, List.filter_append, List.filter_flatMap, List.map_append, List.map_flatMap]

theorem recount_perm {ms ns : List Message} (old : List Cast) (hp : ms.Perm ns)
    (hc : ∀ m ∈ ms, ∀ n ∈ ms, m ≠ n → ¬m.Contend n) :
    recount (old ++ ms.flatMap Message.casts) = recount (old ++ ns.flatMap Message.casts) := by
  funext question voter
  rw [recount_eq, recount_eq, votesOf_append_flatMap, votesOf_append_flatMap]
  refine Vote.earliest_perm _ hp fun m hm n hn hmn v hv w hw ht => hc m hm n hn hmn ?_
  obtain ⟨c, hcm, hcq, hcv, rfl⟩ := mem_votesOf.mp hv
  obtain ⟨d, hdn, hdq, hdv, rfl⟩ := mem_votesOf.mp hw
  exact Message.contend_of_casts hcm hdn (hcv.trans hdv.symm) (hcq.trans hdq.symm) ht

theorem supporters_perm {cs ds : List Cast} (hp : cs.Perm ds)
    (hr : recount cs = recount ds) (question : String) (option : Nat) :
    supporters cs question option = supporters ds question option := by
  rw [supporters, supporters, hr, List.toFinset_eq_of_perm _ _ (hp.map _)]

theorem Outcome.due_perm {cs ds : List Cast} (hp : cs.Perm ds) (hr : recount cs = recount ds)
    (s : Setup) : Outcome.due s cs = .due s ds := by
  simp only [due, QuestionOutcome.due, supporters_perm hp hr]

namespace Question

variable {q r : Question}

-- The same question, with the same vote of every voter.
def Agrees (q r : Question) : Prop :=
  q.blank = r.blank ∧ ∀ voter, q.voteOf? voter = r.voteOf? voter

theorem Counts.agrees {cs ds : List Cast} (hq : q.Counts cs) (hr : r.Counts ds)
    (hb : q.blank = r.blank) (hc : recount cs = recount ds) : q.Agrees r := by
  refine ⟨hb, fun voter => ?_⟩
  have hi : q.id = r.id := (congrArg Question.id hb :)
  rw [hq.right, hr.right, hi, hc]

theorem agree_of_counts {qs rs : List Question} {cs ds : List Cast} (hq : ∀ q ∈ qs, q.Counts cs)
    (hr : ∀ r ∈ rs, r.Counts ds) (hb : qs.map blank = rs.map blank)
    (hc : recount cs = recount ds) : List.Forall₂ Agrees qs rs := by
  induction qs generalizing rs
  case nil =>
    rw [List.map_eq_nil_iff.mp hb.symm]
    exact .nil
  case cons q qs ih =>
    obtain ⟨r, rs, rfl, hqr, hqs⟩ := List.map_eq_cons_iff.mp hb.symm
    have ⟨hq, hqs'⟩ := List.forall_mem_cons.mp hq
    have ⟨hr, hrs'⟩ := List.forall_mem_cons.mp hr
    exact .cons (hq.agrees hr hqr.symm hc) (ih hqs' hrs' hqs.symm)

theorem positions_blank (q : Question) (seen : List Nat) (is : List Int64) :
    q.blank.positions seen is = q.positions seen is := by
  induction is generalizing seen
  case nil => rfl
  case cons i is ih =>
    simp only [positions, ih]
    rfl

theorem check_blank (q : Question) (is : List Int64) : q.blank.check is = q.check is := by
  simp only [check, positions_blank]
  rfl

end Question

namespace Election

variable {h : Host} {e e' : Election} {lao : Lao} {m n : Message} {s : Setup}

theorem position?_eq (e : Election) (id : String) :
    e.position? id = (e.ids.reverse.findIdx? (· = id)).map (e.ids.length - 1 - ·) := by
  rw [position?, ids, ← List.map_reverse, List.findIdx?_map, List.length_map]
  rfl

-- How a ballot is judged does not depend on the votes that are there.
theorem judgeBallot_congr (hq : e.questions.map Question.blank = e'.questions.map Question.blank)
    (m : Message) (castAt : Int64) : e.judgeBallot m castAt = e'.judgeBallot m castAt := by
  funext b
  have hi : e.ids = e'.ids := by
    have hb (e : Election) : e.ids = (e.questions.map Question.blank).map Question.id := by
      rw [List.map_map]
      rfl
    rw [hb, hb, hq]
  have hp : e.position? b.question = e'.position? b.question := by
    rw [position?_eq, position?_eq, hi]
  simp only [judgeBallot, hp]
  split
  case h_1 => rfl
  case h_2 i _ =>
    have hb : (e.questions[i]?).map Question.blank = (e'.questions[i]?).map Question.blank := by
      rw [← List.getElem?_map, ← List.getElem?_map, hq]
    cases hr : e.questions[i]? <;> cases hr' : e'.questions[i]? <;> rw [hr, hr'] at hb
    case some.some q r =>
      have hc : q.check b.choices = r.check b.choices := by
        rw [← q.check_blank, ← r.check_blank, Option.some.inj hb]
      simp only [hc]
    all_goals cases hb

-- What is admitted before another vote is admitted after it as well.
theorem Admits.after_vote {env : Envelope} {p : CastVote} {r : Ruling}
    (hn : Admits h lao n e env (.castVote p) r) (voter : String) (votes : List (Nat × Vote))
    (hi : m.id ≠ n.id) :
    Admits h lao n ((e.storeVotes voter votes).log m) env (.castVote p) r where
  unseal_eq := hn.unseal_eq
  fresh := by
    rw [Inbox.has_iff]
    rintro ⟨k, hk, hkn⟩
    rcases List.mem_append.mp hk with hk | hk
    case inl => exact hn.fresh (Inbox.has_iff.mpr ⟨k, hk, hkn⟩)
    case inr => exact hi (List.mem_singleton.mp hk ▸ hkn)
  free := hn.free
  decode_eq := hn.decode_eq
  judge_eq := by
    have hb : ((e.storeVotes voter votes).log m).questions.map Question.blank =
        e.questions.map Question.blank := storeVotes_map Question.update_blank e voter votes
    have hj : ((e.storeVotes voter votes).log m).judgeBallot n p.createdAt =
        e.judgeBallot n p.createdAt := judgeBallot_congr hb n p.createdAt
    have hv := judgeVote_eq_ok.mp hn.judge_eq
    rw [← hj] at hv
    exact judgeVote_eq_ok.mpr hv

-- One message after the other, up to the first that is refused.
def processAll (h : Host) (e : Election) (lao : Lao) : List Message → Turn Election Unit
  | [] => .done e ()
  | m :: ms => (e.process h lao m).andThen fun e _ => processAll h e lao ms

theorem processAll_cons (ms : List Message) (ho : (e.process h lao m).outcome = .ok ()) :
    (e.processAll h lao (m :: ms)).state =
        ((e.process h lao m).state.processAll h lao ms).state ∧
      (e.processAll h lao (m :: ms)).outcome =
        ((e.process h lao m).state.processAll h lao ms).outcome := by
  simp only [processAll, Turn.andThen, ho, and_self]

-- A vote that passes.
def Accepts (h : Host) (lao : Lao) (e : Election) (m : Message) : Prop :=
  ∃ env p votes, Admits h lao m e env (.castVote p) (.vote votes)

theorem accepts_of_outcome (hk : m.kind? = some .castVote)
    (ho : (e.process h lao m).outcome = .ok ()) : e.Accepts h lao m := by
  rcases admits_or_refuse h lao m e with ⟨env, p, r, ha⟩ | ⟨f, hf⟩
  case inl =>
    have hp := Option.some.inj (ha.kind?_eq.symm.trans hk)
    cases p
    case castVote p =>
      obtain ⟨-, -, -, -, votes, -, rfl⟩ := judgeVote_eq_ok.mp ha.judge_eq
      exact ⟨env, p, votes, ha⟩
    all_goals cases hp
  case inr =>
    rw [hf] at ho
    cases ho

-- Votes that are accepted, each for itself, are accepted together, and all of their ballots come
-- into the count.
theorem processAll_of_accepts {ms : List Message} (hc : e.Counted) (hs : e.StemsFrom s)
    (hi : (ms.map Message.id).Nodup) (ha : ∀ m ∈ ms, e.Accepts h lao m) :
    let t := e.processAll h lao ms
    t.outcome = .ok () ∧ t.state.Counted ∧ t.state.StemsFrom s ∧
      t.state.casts = e.casts ++ ms.flatMap Message.casts := by
  induction ms generalizing e
  case nil => exact ⟨rfl, hc, hs, (List.append_nil _).symm⟩
  case cons m ms ih =>
    have ⟨hm, hi⟩ := List.nodup_cons.mp hi
    have ⟨⟨env, p, votes, ham⟩, ha⟩ := List.forall_mem_cons.mp ha
    have ht := processed h lao m e
    have hp : e.process h lao m = ⟨(e.storeVotes m.sender votes).log m, e.announce m, .ok ()⟩ :=
      ham.process_eq
    have hcasts : (e.process h lao m).state.casts = e.casts ++ m.casts := by
      rw [hp]
      exact casts_log
    have hn : ∀ n ∈ ms, (e.process h lao m).state.Accepts h lao n := by
      intro n hn
      obtain ⟨env', p', votes', han⟩ := ha n hn
      rw [hp]
      exact ⟨env', p', votes', han.after_vote m.sender votes fun hmn =>
        hm (hmn ▸ List.mem_map_of_mem hn)⟩
    obtain ⟨hstate, hout⟩ := processAll_cons ms (congrArg Turn.outcome hp)
    obtain ⟨ho, hc, hs, hcs⟩ := ih (ht.counted hc) (ht.stemsFrom hs) hi hn
    refine ⟨hout.trans ho, hstate ▸ hc, hstate ▸ hs, ?_⟩
    rw [hstate, hcs, hcasts, List.append_assoc, List.flatMap_cons]

end Election

-- Some votes with different identifiers that an election accepts, each for itself, and of which
-- no two contend: in every order it accepts all of them, every voter has the same vote on every
-- question in the end, and the report is the same.
theorem Election.vote_order_does_not_matter (h : Host) (hub : Hub) (hr : hub.Reachable h)
    (path : String) (e : Election) (he : Table.get? hub.elections path = some e) (lao : Lao)
    (ms : List Message) (hi : (ms.map Message.id).Nodup)
    (hv : ∀ m ∈ ms, m.kind? = some .castVote ∧ (e.process h lao m).outcome = .ok ())
    (hc : ∀ m ∈ ms, ∀ n ∈ ms, m ≠ n → ¬m.Contend n) (ns : List Message) (hp : ms.Perm ns) :
    (e.processAll h lao ms).outcome = .ok () ∧ (e.processAll h lao ns).outcome = .ok () ∧
      List.Forall₂ Question.Agrees (e.processAll h lao ms).state.questions
        (e.processAll h lao ns).state.questions ∧
      Outcome.gather (e.processAll h lao ms).state.questions =
        .gather (e.processAll h lao ns).state.questions := by
  have hcount := counted hr he
  have ⟨s, hs⟩ := exists_stemsFrom hr he
  have ha : ∀ m ∈ ms, e.Accepts h lao m :=
    fun m hm => accepts_of_outcome (hv m hm).left (hv m hm).right
  obtain ⟨hom, hcm, hsm, hm⟩ := processAll_of_accepts hcount hs hi ha
  obtain ⟨hon, hcn, hsn, hn⟩ := processAll_of_accepts hcount hs ((hp.map _).nodup_iff.mp hi)
    fun n hn => ha n (hp.mem_iff.mpr hn)
  have hr : recount (e.processAll h lao ms).state.casts =
      recount (e.processAll h lao ns).state.casts := by
    rw [hm, hn, recount_perm e.casts hp hc]
  have hperm : (e.processAll h lao ms).state.casts.Perm (e.processAll h lao ns).state.casts := by
    rw [hm, hn]
    exact .append_left _ (hp.flatMap_right _)
  refine ⟨hom, hon, ?_, ?_⟩
  case refine_1 =>
    exact Question.agree_of_counts hcm.counts hcn.counts (hsm.questions.trans hsn.questions.symm) hr
  case refine_2 => rw [hsm.gather_eq hcm, hsn.gather_eq hcn, Outcome.due_perm hperm hr]

-- The organizer of the trial votes twice, the second time with an earlier time.
theorem Election.vote_order_startedA :
    let hub := Hub.after Trial.host (Trial.startRun .plurality)
    let e := Trial.startedA .plurality
    let m := Trial.message 2 (.castVote (Trial.voteAt "A" 1))
    let n := Trial.message 3 (.castVote (Trial.voteAt "A" 0))
    hub.Reachable Trial.host ∧ Table.get? hub.elections (Trial.path "A") = some e ∧
      ([m, n].map Message.id).Nodup ∧
      (∀ k ∈ [m, n], k.kind? = some .castVote ∧
        (e.process Trial.host Trial.lao k).outcome = .ok ()) ∧
      (∀ k ∈ [m, n], ∀ l ∈ [m, n], k ≠ l → ¬k.Contend l) ∧ [m, n].Perm [n, m] ∧
      List.Forall₂ Question.Agrees (e.processAll Trial.host Trial.lao [m, n]).state.questions
        (e.processAll Trial.host Trial.lao [n, m]).state.questions := by
  intro hub e m n
  have hreach := Hub.reachable_after Trial.host (Trial.startRun .plurality)
  have he := (Trial.reaches_startedA .plurality).get?_eq
  have hs := Trial.conducted_startedA .plurality
  have hi : ([m, n].map Message.id).Nodup := by
    simp only [List.map_cons, List.map_nil, List.nodup_cons, List.mem_singleton, m, n,
      Trial.id_message]
    exact ⟨fun hmn => absurd (Trial.mark_inj 3 (by decide) 4 (by decide) hmn) (by decide), nofun,
      List.nodup_nil⟩
  have hv (i : Nat) (t : Int64) (hn : i < 7) (hf : i + 1 ∉ [1, 2]) :
      (Trial.message i (.castVote (Trial.voteAt "A" t))).kind? = some .castVote ∧
        (e.process Trial.host Trial.lao
          (Trial.message i (.castVote (Trial.voteAt "A" t)))).outcome = .ok () := by
    have ha := hs.admits (p := .castVote (Trial.voteAt "A" t)) rfl hn hf
      (hs.judge_voteAt rfl i t)
    exact ⟨ha.kind?_eq, congrArg Turn.outcome ha.process_eq⟩
  have hv : ∀ k ∈ [m, n], k.kind? = some .castVote ∧
      (e.process Trial.host Trial.lao k).outcome = .ok () :=
    List.forall_mem_cons.mpr ⟨hv 2 1 (by decide) (by decide),
      List.forall_mem_singleton.mpr (hv 3 0 (by decide) (by decide))⟩
  have hmn : ¬m.Contend n := by
    rintro ⟨-, p, q, hp, hq, ht, -⟩
    cases hp.symm.trans (Trial.content?_message 2 (p := .castVote (Trial.voteAt "A" 1)) rfl)
    cases hq.symm.trans (Trial.content?_message 3 (p := .castVote (Trial.voteAt "A" 0)) rfl)
    exact absurd ht (by decide)
  have hc : ∀ k ∈ [m, n], ∀ l ∈ [m, n], k ≠ l → ¬k.Contend l := by
    simp only [List.forall_mem_cons, List.not_mem_nil, false_implies, implies_true, and_true,
      ne_eq, not_true_eq_false, true_and]
    exact ⟨fun _ => hmn, fun _ hnm => hmn hnm.symm⟩
  have hp : [m, n].Perm [n, m] := .swap n m []
  obtain ⟨-, -, hq, -⟩ := vote_order_does_not_matter Trial.host hub hreach
    (Trial.path "A") e he Trial.lao [m, n] hi hv hc [n, m] hp
  exact ⟨hreach, he, hi, hv, hc, hp, hq⟩

end Plenum
