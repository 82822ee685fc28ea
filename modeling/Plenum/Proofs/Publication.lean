import Plenum.Proofs.Report

namespace Plenum

-- The questions of a setup that passes, with any votes on them, have ids that are base 64.
theorem Setup.decode?_id_of_check {S : Suite} {s : Setup} {lao : String} {qs : List Question}
    (hc : s.check S lao = .ok ()) (hq : qs.map Question.blank = s.questions.map .ofSetup) :
    ∀ q ∈ qs, Base64.decode? q.id ≠ none := by
  have ⟨_, _, _, _, hc⟩ := check_eq_ok.mp hc
  intro q hm
  have hb : q.blank ∈ s.questions.map .ofSetup := hq ▸ List.mem_map_of_mem hm
  obtain ⟨r, hr, he⟩ := List.mem_map.mp hb
  have hi : r.id = q.id := (congrArg Question.id he :)
  exact hi ▸ Election.decode?_of_checkQuestions hc r hr

-- The report of the questions of a setup that passes, with any votes on them, is a message that
-- passes, and what comes out of it is the report as it was written and the key of the host. What is
-- read off that is the report that was gathered, and nothing is found wrong with it; so that every
-- election that puts these questions logs and announces it, unless its identifier is there already.
theorem Outcome.report_passes (h : Host) (hs : h.suite.Sound) (s : Setup) (lao : String)
    (hc : s.check h.suite lao = .ok ()) (qs : List Question)
    (hq : qs.map Question.blank = s.questions.map .ofSetup) :
    let o := Outcome.gather qs
    let m := Message.sign h (Payload.outcome o).encode
    m.unseal h.suite = .ok ⟨(Payload.outcome o).encode, h.key⟩ ∧
      Payload.decode (Payload.outcome o).encode = .ok (.outcome o) ∧
      Election.judgeOutcome h h.key o = .ok .note ∧
      ∀ e : Election, e.questions = qs → (∀ n ∈ e.inbox.messages, n.id ≠ m.id) →
        m.id ∉ e.inbox.pending →
        Election.publishOutcome h e = ⟨e.log m, e.announce m, .ok ()⟩ := by
  intro o m
  have hr := Setup.decode?_id_of_check hc hq
  refine ⟨Message.unseal_sign hs (Payload.validate_encode rfl), Payload.decode_encode rfl,
    Election.judgeOutcome_gather hr, ?_⟩
  rintro e rfl hn hp
  have hm : m = e.outcomeMessage h := Election.sign_gather h e
  rw [hm] at hn hp ⊢
  have hn : ¬e.inbox.has (e.outcomeMessage h).id := by
    rw [Inbox.has_iff]
    exact fun ⟨n, hn', hi⟩ => hn n hn' hi
  exact Election.publishOutcome_of_readable hs hr hn hp

-- The report of the one vote of the trial.
theorem Outcome.report_passes_castA :
    let qs := (Trial.castA .plurality).questions
    let m := Message.sign Trial.host (Payload.outcome (.gather qs)).encode
    Trial.host.suite.Sound ∧ (Trial.ask "A" .plurality).check Trial.host.suite "L" = .ok () ∧
      qs.map Question.blank = (Trial.ask "A" .plurality).questions.map .ofSetup ∧
      (Outcome.gather qs).questions = [⟨Trial.questionId "A", [⟨"x", 1⟩, ⟨"y", 0⟩]⟩] ∧
      Election.publishOutcome Trial.host (Trial.castA .plurality) =
        ⟨(Trial.castA .plurality).log m, (Trial.castA .plurality).announce m, .ok ()⟩ := by
  intro qs m
  have hc := Trial.conducted_castA .plurality
  have hs := Trial.check_ask "A" .plurality
  have hq : qs.map Question.blank = (Trial.ask "A" .plurality).questions.map .ofSetup := by
    have hv : qs = _ := Trial.questions_voted rfl
    rw [hv]
    rfl
  have hi : m.id = Trial.mark 0 := by
    rw [← Trial.id_outcomeMessage (Trial.castA .plurality), ← Election.sign_gather]
  have ⟨_, _, _, hp⟩ := report_passes Trial.host Trial.sound _ "L" hs qs hq
  refine ⟨Trial.sound, hs, hq, by rw [Trial.gather_castA], hp _ rfl (fun n hn hi' => ?_) ?_⟩
  case refine_1 =>
    refine hc.marked.not_has (by decide) (by decide) (Inbox.has_iff.mpr ⟨n, hn, hi'.trans hi⟩)
  case refine_2 =>
    rw [hc.pending_eq]
    exact List.not_mem_nil

end Plenum
