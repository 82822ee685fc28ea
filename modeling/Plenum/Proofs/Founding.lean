import Plenum.Proofs.Authority
import Plenum.Proofs.Namesake
import Plenum.Proofs.Recount

namespace Plenum

theorem Path.lao?_eq_some {path id : String} : lao? path = some id ↔ path = lao id := by
  refine ⟨eq_lao_of_lao?, fun hp => ?_⟩
  have hl : (lao id).toList = (root ++ "/").toList ++ id.toList := String.toList_append ..
  rw [hp, lao?, hl, List.isPrefixOf?_eq_some_iff_append_eq.mpr rfl, Option.map_some,
    String.ofList_toList]

namespace Setup

variable {S : Suite} {s : Setup} {lao : String}

-- A setup that is in order at a LAO: it names the LAO, its id is made of what it says, it does not
-- end before it starts, and it puts some questions, all different, each with its own id and with
-- something to choose from.
structure InOrder (S : Suite) (lao : String) (s : Setup) : Prop where
  lao_eq : s.lao = lao
  id_eq : s.id = S.electionId lao s.createdAt s.name
  times : s.startTime ≤ s.endTime
  asks : s.questions ≠ []
  questionIds : ∀ q ∈ s.questions, q.id = S.questionId s.id q.question
  distinct : (s.questions.map SetupQuestion.id).Nodup
  options : ∀ q ∈ s.questions, q.options ≠ []

theorem check_eq_ok_iff_inOrder : s.check S lao = .ok () ↔ s.InOrder S lao := by
  rw [check_eq_ok, checkQuestions_eq_ok]
  constructor
  case mp =>
    rintro ⟨hl, hi, ht, ha, hq, hd, -⟩
    exact ⟨hl, hi, ht, ha, fun q hm => (hq q hm).left, hd, fun q hm => (hq q hm).right⟩
  case mpr =>
    rintro ⟨hl, hi, ht, ha, hq, hd, ho⟩
    exact ⟨hl, hi, ht, ha, fun q hm => ⟨hq q hm, ho q hm⟩, hd, fun _ _ => List.not_mem_nil⟩

-- The id of a setup that is in order is as long as all identifiers are.
theorem InOrder.length_id (hs : s.InOrder S lao) : s.id.toList.length = 44 := by
  rw [hs.id_eq, Suite.electionId, Suite.length_identifier]

end Setup

namespace Election

variable {h : Host} {e : Election} {lao : Lao} {m : Message} {path : String}

-- The election is where its ids say, and its id is as long as all identifiers are.
structure Placed (path : String) (e : Election) : Prop where
  path_eq : path = Path.election e.lao e.id
  length_id : e.id.toList.length = 44

theorem Processed.placed {t : Turn Election Unit} (ht : Processed h lao m e t)
    (hp : e.Placed path) : t.state.Placed path := by
  cases ht <;> exact ⟨hp.path_eq, hp.length_id⟩

theorem placed_of_setsUp {hub : Hub} {place id : String} {s : Setup}
    (hs : Hub.SetsUp h hub place m s id lao) (hp : path = Path.election id s.id) :
    (Hub.setUpElection path s m).Placed path where
  path_eq := (bound_of_setsUp hs hp).path_eq
  length_id := (Setup.check_eq_ok_iff_inOrder.mp hs.check_eq).length_id

theorem placed {hub : Hub} (hr : hub.Reachable h)
    (he : Table.get? hub.elections path = some e) : e.Placed path :=
  hr.election_induction (P := Placed) placed_of_setsUp
    (fun _ hp => ⟨hp.path_eq, hp.length_id⟩) (fun hp ht => ht.placed hp) he

end Election

namespace Hub

variable {h : Host} {hub : Hub} {l i : String}

-- The hub has an election of a LAO with an id.
def HasElection (hub : Hub) (lao id : String) : Prop :=
  ∃ path e, Table.get? hub.elections path = some e ∧ e.lao = lao ∧ e.id = id

-- The path of an election is taken by that election only, although the id of a LAO is any text.
theorem Reachable.get?_eq_none_iff (hr : hub.Reachable h) (hi : i.toList.length = 44) :
    Table.get? hub.elections (Path.election l i) = none ↔ ¬hub.HasElection l i := by
  rw [Option.eq_none_iff_forall_ne_some, HasElection, not_exists]
  constructor
  case mp =>
    rintro hn path ⟨e, he, rfl, rfl⟩
    exact hn e ((Election.placed hr he).path_eq ▸ he)
  case mpr =>
    intro hn e he
    have hp := Election.placed hr he
    have ⟨hl, hi⟩ := Path.election_injective (hi.trans hp.length_id.symm) hp.path_eq
    exact hn _ ⟨e, he, hl.symm, hi.symm⟩

variable {path : String} {m : Message}

-- What it takes for a message to set up an election.
theorem Reachable.setsUp_iff (hr : hub.Reachable h) {s : Setup} {id : String} {lao : Lao} :
    SetsUp h hub path m s id lao ↔
      path = Path.lao id ∧ Table.get? hub.laos id = some lao ∧
        (∃ env, m.unseal h.suite = .ok env ∧ env.sender = lao.organizer ∧
          Payload.decode env.payload = .ok (.setup s)) ∧
        s.InOrder h.suite id ∧ ¬hub.HasElection id s.id := by
  constructor
  case mp =>
    rintro ⟨hl, hu, hc, hf⟩
    have ⟨hp, hl⟩ := laoAt?_eq_some.mp hl
    have hs := Setup.check_eq_ok_iff_inOrder.mp hc
    exact ⟨Path.lao?_eq_some.mp hp, hl, hu, hs, (hr.get?_eq_none_iff hs.length_id).mp hf⟩
  case mpr =>
    rintro ⟨hp, hl, hu, hs, hf⟩
    exact ⟨laoAt?_eq_some.mpr ⟨Path.lao?_eq_some.mpr hp, hl⟩, hu,
      Setup.check_eq_ok_iff_inOrder.mpr hs, (hr.get?_eq_none_iff hs.length_id).mpr hf⟩

-- A message sets up an election exactly if it passes and is a setup, its path is that of a LAO
-- that is registered, it comes from the organizer whom this LAO has now, the setup is in order
-- there, and no election has the same LAO and the same id. Then that election is added at its own
-- path, and nothing else is changed: it has not been opened, nobody listens and nobody has voted,
-- the message is all of its log, and it puts the questions of the setup in their order, each of
-- them found by its id.
theorem setUp_ok_iff_inOrder (h : Host) (hub : Hub) (hr : hub.Reachable h) (path : String)
    (m : Message) :
    ((∃ a, hub.setUp h path m = .ok a) ↔
      ∃ env s id lao, m.unseal h.suite = .ok env ∧ Payload.decode env.payload = .ok (.setup s) ∧
        path = Path.lao id ∧ Table.get? hub.laos id = some lao ∧ env.sender = lao.organizer ∧
        s.InOrder h.suite id ∧
        ∀ place e, Table.get? hub.elections place = some e → ¬(e.lao = id ∧ e.id = s.id)) ∧
    ∀ hub' e, hub.setUp h path m = .ok (hub', e) →
      ∃ s, m.content? = some (.setup s) ∧
        Table.get? hub.elections (Path.election s.lao s.id) = none ∧
        hub' = { hub with elections := hub.elections ++ [(Path.election s.lao s.id, e)] } ∧
        e = {
          path := Path.election s.lao s.id
          sockets := []
          inbox := ⟨[m], []⟩
          lao := s.lao
          id := s.id
          name := s.name
          startTime := s.startTime
          endTime := s.endTime
          phase := .created
          questions := s.questions.map fun q => ⟨q.id, q.options, q.method, []⟩ } ∧
        ∀ q ∈ e.questions, e.question? q.id = some q := by
  refine ⟨?accepted, fun hub' e ha => ?added⟩
  case accepted =>
    have hn {l i : String} : ¬hub.HasElection l i ↔
        ∀ place e, Table.get? hub.elections place = some e → ¬(e.lao = l ∧ e.id = i) := by
      simp only [HasElection, not_exists, not_and]
    constructor
    case mp =>
      rintro ⟨a, ha⟩
      obtain ⟨s, id, lao, hs, -⟩ := setUp_eq_ok.mp ha
      obtain ⟨hp, hl, ⟨env, hu, ho, hd⟩, hi, hf⟩ := hr.setsUp_iff.mp hs
      exact ⟨env, s, id, lao, hu, hd, hp, hl, ho, hi, hn.mp hf⟩
    case mpr =>
      rintro ⟨env, s, id, lao, hu, hd, hp, hl, ho, hi, hf⟩
      have hs := hr.setsUp_iff.mpr ⟨hp, hl, ⟨env, hu, ho, hd⟩, hi, hn.mpr hf⟩
      exact ⟨_, setUp_eq_ok.mpr ⟨s, id, lao, hs, rfl⟩⟩
  case added =>
    obtain ⟨s, id, lao, hs, he⟩ := setUp_eq_ok.mp ha
    cases he
    obtain ⟨rfl, -⟩ := Setup.check_eq_ok.mp hs.check_eq
    have hc : (setUpElection (Path.election s.lao s.id) s m).Counted :=
      Election.counted_of_setsUp hs
    refine ⟨s, hs.content?_eq, hs.fresh, ?_, rfl, fun q hq => ?_⟩
    case refine_1 => rw [setElection, Table.insert_of_get?_none hs.fresh]
    case refine_2 => exact (Election.question?_eq_some hc.ids).mpr ⟨hq, rfl⟩

-- In the trial a second election is set up beside the one that is voted in.
theorem setUp_ok_iff_inOrder_second :
    let hub := after Trial.host Trial.voteRun
    hub.Reachable Trial.host ∧
      ∃ e, hub.setUp Trial.host (Path.lao "L") (Trial.message 4 (.setup (Trial.setup "B"))) =
          .ok (⟨hub.laos, [(Trial.path "A", Trial.votedA), (Trial.path "B", e)]⟩, e) ∧
        e.inbox.messages = [Trial.message 4 (.setup (Trial.setup "B"))] ∧
        ∃ q, e.question? (Trial.questionId "B") = some q ∧ q.votes = [] := by
  intro hub
  have hr := reachable_after Trial.host Trial.voteRun
  have he : hub = ⟨[("L", Trial.lao)], [(Trial.path "A", Trial.votedA)]⟩ :=
    Trial.reaches_votedA.after_eq
  have ⟨hiff, hadded⟩ := setUp_ok_iff_inOrder Trial.host hub hr (Path.lao "L")
    (Trial.message 4 (.setup (Trial.setup "B")))
  have hn : ∀ place e, Table.get? hub.elections place = some e →
      ¬(e.lao = "L" ∧ e.id = Trial.electionId "B") := by
    rintro place e hg ⟨-, hi⟩
    rw [he, Table.get?_cons] at hg
    split at hg
    case isTrue =>
      cases hg
      have hi : Trial.electionId "A" = Trial.electionId "B" :=
        Trial.conducted_votedA.id_eq.symm.trans hi
      exact Trial.path_ne (by rw [Trial.path, hi, Trial.path])
    case isFalse => cases hg
  have hl : Table.get? hub.laos "L" = some Trial.lao := by rw [he]; rfl
  have hi := Setup.check_eq_ok_iff_inOrder.mp (Trial.check_ask "B" .approval)
  have ⟨env, hu, ho, hd⟩ := Trial.exists_unseal_message 4 (p := .setup (Trial.setup "B")) rfl
  have ⟨⟨hub', e⟩, hs⟩ := hiff.mpr ⟨env, _, "L", Trial.lao, hu, hd, rfl, hl, ho, hi, hn⟩
  obtain ⟨s, hc, -, rfl, hq, hf⟩ := hadded hub' e hs
  cases hc.symm.trans (Trial.content?_message 4 (p := .setup (Trial.setup "B")) rfl)
  have hp : Path.election (Trial.setup "B").lao (Trial.setup "B").id = Trial.path "B" := rfl
  rw [hp] at hs
  refine ⟨hr, e, ?_, ?_, ?_⟩
  case refine_1 => rw [hs, he]; rfl
  case refine_2 => rw [hq]
  case refine_3 =>
    have hm : ⟨Trial.questionId "B", ["x", "y"], .approval, []⟩ ∈ e.questions := by
      rw [hq]
      exact List.mem_cons_self
    exact ⟨_, hf _ hm, rfl⟩

end Hub
end Plenum
