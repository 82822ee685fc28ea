import Plenum.Proofs.Conduct
import Plenum.Proofs.Spelling

namespace Plenum

theorem Suite.length_identifier (S : Suite) (parts : List String) :
    (S.identifier parts).toList.length = 44 := by
  rw [identifier, Base64.encode, String.toList_ofList, Base64.length_encodeList,
    Vector.length_toList]

-- An identifier at the end of a path can be read off it, whatever is in front.
theorem Path.election_injective {l l' i i' : String} (hi : i.toList.length = i'.toList.length)
    (h : election l i = election l' i') : l = l' ∧ i = i' := by
  have h := congrArg String.toList h
  simp only [election, toString, String.toList_append, List.append_assoc] at h
  have h := List.append_cancel_left (List.append_cancel_left h)
  rw [← List.append_assoc, ← List.append_assoc] at h
  have ⟨hl, hi⟩ := List.append_inj' h hi
  exact ⟨String.toList_inj.mp (List.append_cancel_right hl), String.toList_inj.mp hi⟩

namespace Setup

variable {S : Suite} {s s' : Setup}

-- Different bytes under one identifier.
def Collide (S : Suite) (s s' : Setup) : Prop :=
  S.electionId s.lao s.createdAt s.name = S.electionId s'.lao s'.createdAt s'.name ∧
    Suite.preimage ["Election", s.lao, toString s.createdAt.toInt, s.name] ≠
      Suite.preimage ["Election", s'.lao, toString s'.createdAt.toInt, s'.name]

def Namesake (s s' : Setup) : Prop :=
  s.lao = s'.lao ∧ s.createdAt = s'.createdAt ∧ s.name = s'.name

-- The time and the name of one are spelled as those of the other, although they differ.
def Lookalike (s s' : Setup) : Prop :=
  s.lao = s'.lao ∧ (Suite.Blurs s.createdAt s.name s'.createdAt s'.name ∨
    Suite.Blurs s'.createdAt s'.name s.createdAt s.name)

theorem preimage_eq_iff (hl : s.lao = s'.lao) :
    Suite.preimage ["Election", s.lao, toString s.createdAt.toInt, s.name] =
        Suite.preimage ["Election", s'.lao, toString s'.createdAt.toInt, s'.name] ↔
      s.Namesake s' ∨ s.Lookalike s' := by
  rw [hl, Suite.preimage_cons "Election", Suite.preimage_cons s'.lao,
    Suite.preimage_cons "Election", Suite.preimage_cons s'.lao]
  simp only [List.append_cancel_left_eq, Suite.preimage_eq_iff, Namesake, Lookalike, hl, true_and]

-- The identifier of a setup that passes is made of what it says.
theorem id_of_check {id : String} (hc : s.check S id = .ok ()) :
    s.id = S.identifier ["Election", s.lao, toString s.createdAt.toInt, s.name] := by
  obtain ⟨rfl, hi, _⟩ := check_eq_ok.mp hc
  exact hi

end Setup

namespace Election

variable {h : Host} {e : Election} {lao : Lao} {m : Message} {t : Turn Election Unit} {s : Setup}
  {path : String}

-- The setup at the head of the log.
def setup? (e : Election) : Option Setup :=
  match e.inbox.messages.head?.bind Message.content? with
  | some (.setup s) => some s
  | _ => none

-- The setup of an election has passed the check, and the election is where it says.
structure Founded (S : Suite) (path : String) (s : Setup) (e : Election) : Prop where
  setup?_eq : e.setup? = some s
  check_eq : s.check S s.lao = .ok ()
  path_eq : path = Path.election s.lao s.id

theorem setup?_of_grows {e' : Election} (hs : e.setup? = some s) (hg : e.Grows e') :
    e'.setup? = some s := by
  have ⟨new, hn⟩ := hg.messages
  rw [setup?] at hs ⊢
  cases hm : e.inbox.messages
  case nil => rw [hm] at hs; cases hs
  case cons m rest =>
    rw [hm] at hs hn
    rwa [← hn]

theorem founded_of_setsUp {hub : Hub} {place id : String}
    (hs : Hub.SetsUp h hub place m s id lao) (hp : path = Path.election id s.id) :
    (Hub.setUpElection path s m).Founded h.suite path s where
  setup?_eq := by
    have hm : (Hub.setUpElection path s m).inbox.messages = [m] := rfl
    rw [setup?, hm, List.head?_cons, Option.bind_some, hs.content?_eq]
  check_eq := by
    have ⟨hl, _⟩ := Setup.check_eq_ok.mp hs.check_eq
    exact hl ▸ hs.check_eq
  path_eq := by
    have ⟨hl, _⟩ := Setup.check_eq_ok.mp hs.check_eq
    exact hl ▸ hp

theorem exists_founded {hub : Hub} (hr : hub.Reachable h)
    (he : Table.get? hub.elections path = some e) : ∃ s, e.Founded h.suite path s :=
  hr.election_induction (P := fun path e => ∃ s, e.Founded h.suite path s)
    (fun hs hp => ⟨_, founded_of_setsUp hs hp⟩)
    (fun _ ⟨s, hs⟩ => ⟨s, hs.setup?_eq, hs.check_eq, hs.path_eq⟩)
    (fun ⟨s, hs⟩ ht => ⟨s, setup?_of_grows hs.setup?_eq ht.grows, hs.check_eq, hs.path_eq⟩) he

end Election

namespace Hub

variable {h : Host} {hub : Hub} {path id : String} {lao : Lao} {m : Message} {env : Envelope}
  {s : Setup}

-- There is an election whose setup cannot be told from this one by LAO, time and name as they
-- stand in an identifier.
def HasLike (hub : Hub) (s : Setup) : Prop :=
  ∃ path e s', Table.get? hub.elections path = some e ∧ e.setup? = some s' ∧
    (s.Namesake s' ∨ s.Lookalike s')

-- A setup that is in order creates its election, unless there is one at its path.
theorem setUp_eq_ite (hl : hub.laoAt? path = some (id, lao)) (hu : m.unseal h.suite = .ok env)
    (ho : env.sender = lao.organizer) (hd : Payload.decode env.payload = .ok (.setup s))
    (hc : s.check h.suite id = .ok ()) :
    hub.setUp h path m =
      if Table.contains hub.elections (Path.election id s.id) then
        .error (.duplicate s!"election {s.id}")
      else
        .ok (hub.setElection (Path.election id s.id) (setUpElection (Path.election id s.id) s m),
          setUpElection (Path.election id s.id) s m) := by
  simp only [setUp, hu, hd, hl, ho, hc, store_empty, Guards.ok_bind, ne_eq, not_true, if_false]
  split <;> rfl

theorem Reachable.contains_iff (hr : hub.Reachable h) (hc : s.check h.suite s.lao = .ok ())
    (hn : ∀ path e s', Table.get? hub.elections path = some e →
      e.setup? = some s' → ¬s.Collide h.suite s') :
    Table.contains hub.elections (Path.election s.lao s.id) ↔ hub.HasLike s := by
  have hi := Setup.id_of_check hc
  rw [Table.contains, Option.isSome_iff_exists]
  constructor
  case mp =>
    rintro ⟨e, he⟩
    obtain ⟨s', hs⟩ := Election.exists_founded hr he
    have hi' := Setup.id_of_check hs.check_eq
    have hn' : s.id.toList.length = s'.id.toList.length := by
      rw [hi, hi', Suite.length_identifier, Suite.length_identifier]
    obtain ⟨hl, hs'⟩ := Path.election_injective hn' hs.path_eq
    refine ⟨_, e, s', he, hs.setup?_eq, (Setup.preimage_eq_iff hl).mp ?_⟩
    by_contra hp
    exact hn _ e s' he hs.setup?_eq ⟨hi.symm.trans (hs'.trans hi'), hp⟩
  case mpr =>
    rintro ⟨path, e, s', he, hs, hl'⟩
    obtain ⟨s'', hs'⟩ := Election.exists_founded hr he
    cases hs.symm.trans hs'.setup?_eq
    have hi' := Setup.id_of_check hs'.check_eq
    have hl : s.lao = s'.lao := hl'.elim And.left And.left
    have hp := (Setup.preimage_eq_iff hl).mpr hl'
    rw [Suite.identifier, ← hp, ← Suite.identifier, ← hi] at hi'
    rw [hs'.path_eq, hi', ← hl] at he
    exact ⟨e, he⟩

end Hub

-- An election of the trial with a name that begins with digits, and a setup that is spelled alike.
namespace Trial

def twinName : String :=
  "000000007ABCDEFG"

def twin : Setup :=
  { setup twinName with createdAt := 1600000000, name := "ABCDEFG" }

def twinRun : List Hub.Call :=
  [register, setUp twinName 0]

theorem reaches_twinRun : Reaches twinRun [(path twinName, created twinName 0)] :=
  Reaches.nil.setUp rfl rfl

theorem check_twin : twin.check host.suite "L" = .ok () := by
  have hi : electionId twinName = suite.electionId "L" 1600000000 "ABCDEFG" := by decide +kernel
  have ht : (0 : Int64) ≤ 0 := by decide
  exact Setup.check_eq_ok.mpr ⟨rfl, hi, ht, nofun,
    Setup.checkQuestions_cons_eq_ok.mpr ⟨rfl, nofun, nofun, rfl⟩⟩

theorem lookalike_twin : twin.Lookalike (setup twinName) :=
  ⟨rfl, .inr ⟨0, by decide, rfl, by decide +kernel, by decide +kernel⟩⟩

theorem setup?_created (name : String) (n : Nat) :
    (created name n).setup? = some (setup name) := by
  have hm : (created name n).inbox.messages = [message n (.setup (setup name))] := rfl
  rw [Election.setup?, hm, List.head?_cons, Option.bind_some,
    content?_message n (p := .setup (setup name)) rfl]

theorem laoAt?_twinRun : (Hub.after host twinRun).laoAt? (Path.lao "L") = some ("L", lao) := by
  rw [reaches_twinRun.after_eq]
  exact Hub.laoAt?_eq_some.mpr ⟨by decide +kernel, rfl⟩

def twinEnvelope : Envelope :=
  ⟨(Payload.setup twin).encode, organizer⟩

theorem unseal_twin : (message 1 (.setup twin)).unseal host.suite = .ok twinEnvelope :=
  unseal_message 1 (p := .setup twin) rfl

theorem decode_twin : Payload.decode twinEnvelope.payload = .ok (.setup twin) := by
  simp only [twinEnvelope]
  exact Payload.decode_encode (p := .setup twin) rfl

theorem hasLike_twin : (Hub.after host twinRun).HasLike twin :=
  ⟨_, _, _, reaches_twinRun.get?_eq, setup?_created .., .inr lookalike_twin⟩

-- The only setup there.
theorem eq_setup_of_get? {place : String} {e : Election} {s : Setup}
    (he : Table.get? (Hub.after host twinRun).elections place = some e) (hs : e.setup? = some s) :
    s = setup twinName := by
  rw [reaches_twinRun.after_eq, Table.get?_cons] at he
  split at he
  case isTrue =>
    cases he
    exact Option.some.inj (hs.symm.trans (setup?_created twinName 0))
  case isFalse => cases he

theorem not_collide_twin (place : String) (e : Election) (s : Setup)
    (he : Table.get? (Hub.after host twinRun).elections place = some e) (hs : e.setup? = some s) :
    ¬twin.Collide host.suite s := by
  rw [eq_setup_of_get? he hs]
  rintro ⟨_, hp⟩
  apply hp
  exact (Setup.preimage_eq_iff lookalike_twin.left).mpr (.inr lookalike_twin)

end Trial

namespace Hub

-- A setup that is in order is refused as a duplicate if there is an election of its LAO with the
-- same time and the same name, or with a time and a name that are spelled as its own together
-- although they are not the same. Otherwise its election is created.
theorem setUp_duplicate_or_ok (h : Host) (hub : Hub) (hr : hub.Reachable h) (path id : String)
    (lao : Lao) (m : Message) (env : Envelope) (s : Setup)
    (hl : hub.laoAt? path = some (id, lao)) (hu : m.unseal h.suite = .ok env)
    (ho : env.sender = lao.organizer) (hd : Payload.decode env.payload = .ok (.setup s))
    (hc : s.check h.suite id = .ok ())
    (hn : ∀ path e s', Table.get? hub.elections path = some e →
      e.setup? = some s' → ¬s.Collide h.suite s') :
    (hub.HasLike s → hub.setUp h path m = .error (.duplicate s!"election {s.id}")) ∧
    (¬hub.HasLike s →
      hub.setUp h path m =
        .ok (hub.setElection (Path.election id s.id) (setUpElection (Path.election id s.id) s m),
          setUpElection (Path.election id s.id) s m)) := by
  have ⟨hs, _⟩ := Setup.check_eq_ok.mp hc
  rw [setUp_eq_ite hl hu ho hd hc, ← hr.contains_iff (hs ▸ hc) hn, hs]
  exact ⟨fun ht => if_pos ht, fun hf => if_neg hf⟩

theorem setUp_duplicate_twin :
    let hub := after Trial.host Trial.twinRun
    hub.setUp Trial.host (Path.lao "L") (Trial.message 1 (.setup Trial.twin)) =
        .error (.duplicate s!"election {Trial.twin.id}") ∧
      hub.Reachable Trial.host ∧ hub.laoAt? (Path.lao "L") = some ("L", Trial.lao) ∧
      (Trial.message 1 (.setup Trial.twin)).unseal Trial.host.suite = .ok Trial.twinEnvelope ∧
      Payload.decode Trial.twinEnvelope.payload = .ok (.setup Trial.twin) ∧
      Trial.twin.check Trial.host.suite "L" = .ok () := by
  intro hub
  have hr := reachable_after Trial.host Trial.twinRun
  have ⟨hd, _⟩ := setUp_duplicate_or_ok Trial.host hub hr (Path.lao "L") "L" Trial.lao
    (Trial.message 1 (.setup Trial.twin)) Trial.twinEnvelope Trial.twin Trial.laoAt?_twinRun
    Trial.unseal_twin rfl Trial.decode_twin Trial.check_twin Trial.not_collide_twin
  exact ⟨hd Trial.hasLike_twin, hr, Trial.laoAt?_twinRun, Trial.unseal_twin, Trial.decode_twin,
    Trial.check_twin⟩

-- A setup that is in order is refused although the only election there has another time and
-- another name, and nothing collides.
theorem setUp_refused_for_other_name :
    (after Trial.host Trial.twinRun).setUp Trial.host (Path.lao "L")
        (Trial.message 1 (.setup Trial.twin)) =
        .error (.duplicate s!"election {Trial.twin.id}") ∧
      ∀ path e s, Table.get? (after Trial.host Trial.twinRun).elections path = some e →
        e.setup? = some s → ¬Trial.twin.Collide Trial.host.suite s ∧
          s.createdAt ≠ Trial.twin.createdAt ∧ s.name ≠ Trial.twin.name := by
  constructor
  case left =>
    have hl : Trial.twin.lao = "L" := rfl
    have hr := reachable_after Trial.host Trial.twinRun
    have hc := (hr.contains_iff (s := Trial.twin) Trial.check_twin
      Trial.not_collide_twin).mpr Trial.hasLike_twin
    rw [hl] at hc
    rw [setUp_eq_ite Trial.laoAt?_twinRun Trial.unseal_twin rfl Trial.decode_twin
      Trial.check_twin, if_pos hc]
  case right =>
    intro path e s he hs
    have hn := Trial.not_collide_twin path e s he hs
    rw [Trial.eq_setup_of_get? he hs] at hn ⊢
    exact ⟨hn, by decide, by decide⟩

end Hub
end Plenum
