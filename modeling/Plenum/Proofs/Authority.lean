import Mathlib.Data.List.Basic
import Plenum.Proofs.Authentic

namespace Plenum

theorem Path.eq_lao_of_lao? {path id : String} (hp : lao? path = some id) : path = lao id := by
  obtain ⟨cs, hc, rfl⟩ := Option.map_eq_some_iff.mp hp
  rw [List.isPrefixOf?_eq_some_iff_append_eq] at hc
  have hl : lao (String.ofList cs) = root ++ "/" ++ String.ofList cs := rfl
  rw [hl, ← String.toList_inj, ← hc]
  simp

namespace Attendees

variable {as : Attendees} {keys : List String} {key : String}

theorem mem_addAll : key ∈ as.addAll keys ↔ key ∈ as ∨ key ∈ keys := by
  induction keys generalizing as
  case nil => simp [addAll]
  case cons k keys ih =>
    have ha : key ∈ as.add k ↔ key ∈ as ∨ key = k := by
      unfold add
      split
      case isTrue hk => exact ⟨.inl, (·.elim id (· ▸ hk))⟩
      case isFalse => simp
    exact ih.trans (by rw [ha, List.mem_cons, or_assoc])

end Attendees

namespace Hub

variable {h : Host} {hub : Hub} {calls : List Call} {c : Call} {id key path : String}

-- The organizer that a call gives to a LAO, and the attendees that it names for it.
def Call.organizer? (id : String) : Call → Option Key
  | .register j organizer _ => if j = id then some organizer else none
  | _ => none

def Call.invited (id : String) : Call → List String
  | .register j _ keys | .addAttendees j keys => if j = id then keys else []
  | _ => []

-- The organizer of a LAO by the most recent registration. There is none before the first.
def organizer? (calls : List Call) (id : String) : Option Key :=
  calls.reverse.findSome? (Call.organizer? id)

-- Some call has named the key as an attendee of the LAO, which was registered by then.
def Invited (calls : List Call) (id key : String) : Prop :=
  ∃ pre c post, calls = pre ++ c :: post ∧ key ∈ c.invited id ∧
    (organizer? (pre ++ [c]) id).isSome

-- The LAO as the calls have made it.
structure Registered (calls : List Call) (id : String) (lao : Lao) : Prop where
  organizer_eq : organizer? calls id = some lao.organizer
  mem_attendees_iff (key : String) : key ∈ lao.attendees ↔ Invited calls id key

theorem organizer?_concat (calls : List Call) (c : Call) (id : String) :
    organizer? (calls ++ [c]) id = (c.organizer? id).or (organizer? calls id) := by
  rw [organizer?, List.reverse_append, List.reverse_singleton, List.singleton_append,
    List.findSome?_cons]
  cases c.organizer? id <;> rfl

theorem invited_concat :
    Invited (calls ++ [c]) id key ↔
      Invited calls id key ∨ key ∈ c.invited id ∧ (organizer? (calls ++ [c]) id).isSome := by
  constructor
  case mp =>
    rintro ⟨pre, d, post, hc, hk, ho⟩
    rcases List.eq_nil_or_concat post with rfl | ⟨post, d', rfl⟩
    case inl =>
      have ⟨hp, hd⟩ := List.append_inj' hc rfl
      cases hd
      exact .inr ⟨hk, hp ▸ ho⟩
    case inr =>
      rw [List.concat_eq_append, ← List.cons_append, ← List.append_assoc] at hc
      exact .inl ⟨pre, d, post, (List.append_inj' hc rfl).left, hk, ho⟩
  case mpr =>
    rintro (⟨pre, d, post, hc, hk, ho⟩ | ⟨hk, ho⟩)
    case inl => exact ⟨pre, d, post ++ [c], by simp [hc], hk, ho⟩
    case inr => exact ⟨calls, c, [], rfl, hk, ho⟩

-- What a call makes of a LAO: the organizer is the one it gives, or stays, and the attendees that
-- it names are added.
theorem get?_laos_step (h : Host) (hub : Hub) (c : Call) (id : String) :
    Table.get? (hub.step h c).laos id =
      ((c.organizer? id).or ((Table.get? hub.laos id).map Lao.organizer)).map fun organizer =>
        ⟨organizer,
          Attendees.addAll ((Table.get? hub.laos id).elim [] Lao.attendees) (c.invited id)⟩ := by
  have hk : Table.get? hub.laos id =
      ((Table.get? hub.laos id).map Lao.organizer).map fun organizer =>
        ⟨organizer, (Table.get? hub.laos id).elim [] Lao.attendees⟩ := by
    cases Table.get? hub.laos id <;> rfl
  cases c
  case register j organizer keys =>
    by_cases hj : j = id
    case pos =>
      subst hj
      simp [step, register, Call.organizer?, Call.invited]
    case neg =>
      simp only [step, register, Table.get?_insert_of_ne hj, Call.organizer?, Call.invited,
        if_neg hj]
      exact hk
  case addAttendees j keys =>
    by_cases hj : j = id
    case pos =>
      subst hj
      cases hl : Table.get? hub.laos j <;>
        simp [step, addAttendees, hl, Call.organizer?, Call.invited, Except.toOption]
    case neg =>
      have hs : Table.get? (hub.step h (.addAttendees j keys)).laos id =
          Table.get? hub.laos id := by
        cases hl : Table.get? hub.laos j <;>
          simp [step, addAttendees, hl, Except.toOption, Table.get?_insert_of_ne hj]
      simp only [Call.organizer?, Call.invited, if_neg hj]
      exact hs.trans hk
  case query q s =>
    rw [laos_query]
    exact hk
  case removeSocket => exact hk

-- What a run knows of a LAO is what its calls say.
theorem get?_laos_after (h : Host) (calls : List Call) (id : String) :
    organizer? calls id = (Table.get? (after h calls).laos id).map Lao.organizer ∧
      ∀ key, key ∈ (Table.get? (after h calls).laos id).elim [] Lao.attendees ↔
        Invited calls id key := by
  induction calls using List.reverseRecOn
  case nil =>
    refine ⟨rfl, fun key => ⟨nofun, ?_⟩⟩
    rintro ⟨pre, c, post, hc, -⟩
    cases List.append_eq_nil_iff.mp hc.symm |>.right
  case append_singleton calls c ih =>
    have ⟨ho, hk⟩ := ih
    rw [after_concat, get?_laos_step, ← ho, ← organizer?_concat]
    refine ⟨?_, fun key => ?_⟩
    case refine_1 => cases organizer? (calls ++ [c]) id <;> rfl
    case refine_2 =>
      rw [invited_concat, ← hk]
      cases hc : organizer? (calls ++ [c]) id
      case some => simp [Attendees.mem_addAll]
      case none =>
        rw [organizer?_concat, Option.or_eq_none_iff, ho, Option.map_eq_none_iff] at hc
        simp [hc.right]

theorem registered (h : Host) (calls : List Call) {lao : Lao}
    (hl : Table.get? (after h calls).laos id = some lao) : Registered calls id lao := by
  have ⟨ho, hk⟩ := get?_laos_after h calls id
  rw [hl] at ho hk
  exact ⟨ho, hk⟩

end Hub

-- The message is authentic, and the key is its sender's.
def Message.SignedBy (S : Suite) (m : Message) (k : Key) : Prop :=
  ∃ payload σ, m.Authentic S payload k σ

-- Who has to have signed a message of a kind so that it may change an election of a LAO.
def Message.Authorized (h : Host) (lao : Lao) (m : Message) : Payload.Kind → Prop
  | .setup | .opening | .closing => m.SignedBy h.suite lao.organizer
  | .castVote => ∃ k, m.SignedBy h.suite k ∧ (k = lao.organizer ∨ m.sender ∈ lao.attendees)
  | .outcome => m.SignedBy h.suite h.key

theorem Message.SignedBy.sender_eq {S : Suite} {m : Message} {k : Key} (hk : m.SignedBy S k) :
    m.sender = Base64.encode k.toList :=
  have ⟨_, _, ha⟩ := hk
  ha.sender_eq

theorem Message.SignedBy.readKey_eq {S : Suite} {m : Message} {k : Key} (hk : m.SignedBy S k) :
    S.readKey m.sender = .ok k :=
  have ⟨_, _, ha⟩ := hk
  Suite.readKey_eq_ok.mpr ⟨ha.sender_eq, ha.isKey⟩

-- One message is signed by one key.
theorem Message.SignedBy.key_eq {S : Suite} {m : Message} {k l : Key} (hk : m.SignedBy S k)
    (hl : m.SignedBy S l) : k = l := by
  have hd := congrArg Base64.decode? (hk.sender_eq.symm.trans hl.sender_eq)
  rw [Base64.decode?_encode, Base64.decode?_encode] at hd
  exact Vector.toList_inj.mp (Option.some.inj hd)

theorem Message.signedBy_of_unseal {S : Suite} {m : Message} {env : Envelope}
    (hu : m.unseal S = .ok env) : m.SignedBy S env.sender :=
  ⟨env.payload, authentic_of_unseal hu⟩

namespace Election

variable {h : Host} {e : Election} {lao : Lao} {m : Message}

theorem Admits.authorized {env : Envelope} {p : Payload} {r : Ruling}
    (ha : Admits h lao m e env p r) : m.Authorized h lao p.kind := by
  have hs := Message.signedBy_of_unseal ha.unseal_eq
  have hj := ha.judge_eq
  cases p
  case setup => cases hj
  case opening =>
    have ⟨hk, _⟩ := judgeOpening_eq_ok.mp hj
    rwa [hk] at hs
  case castVote =>
    have ⟨hk, _⟩ := judgeVote_eq_ok.mp hj
    exact ⟨env.sender, hs, hk.symm⟩
  case closing =>
    have ⟨hk, _⟩ := judgeClosing_eq_ok.mp hj
    rwa [hk] at hs
  case outcome =>
    have ⟨hk, _⟩ := judgeOutcome_eq_ok.mp hj
    rwa [hk] at hs

-- A message that changes an election is authorized, and it is no setup.
theorem state_eq_or_authorized (h : Host) (e : Election) (lao : Lao) (m : Message) :
    (e.process h lao m).state = e ∨
      ∃ kind, m.kind? = some kind ∧ kind ≠ .setup ∧ m.Authorized h lao kind := by
  rcases admits_or_refuse h lao m e with ⟨env, p, r, ha⟩ | ⟨f, hf⟩
  case inl => exact .inr ⟨p.kind, ha.kind?_eq, ha.not_setup, ha.authorized⟩
  case inr => exact .inl (congrArg Turn.state hf)

end Election

theorem Hub.SetsUp.authorized {h : Host} {hub : Hub} {path : String} {m : Message} {s : Setup}
    {id : String} {lao : Lao} (hs : SetsUp h hub path m s id lao) : m.Authorized h lao .setup := by
  obtain ⟨env, hu, ho, -⟩ := hs.unseal_eq
  have hs := Message.signedBy_of_unseal hu
  rwa [ho] at hs

-- A call changes in an election at most who listens, or else it brings a message that is
-- authorized by the LAO of that election as the calls before have made it, the organizer being
-- the one registered last. A setup does so by creating the election on the path of its LAO, any
-- other message at the election that is there, which stays with its LAO.
theorem Hub.change_is_authorized (h : Host) (calls : List Call) (c : Call) (path : String)
    (e' : Election) (he' : Table.get? (after h (calls ++ [c])).elections path = some e') :
    (∃ e sockets, Table.get? (after h calls).elections path = some e ∧
      e' = { e with sockets }) ∨
    ∃ place m kind lao, c.Says place m ∧ m.kind? = some kind ∧ Registered calls e'.lao lao ∧
      m.Authorized h lao kind ∧
      (kind = .setup ∧ place = Path.lao e'.lao ∧
          Table.get? (after h calls).elections path = none ∨
        kind ≠ .setup ∧ place = path ∧
          ∃ e, Table.get? (after h calls).elections path = some e ∧ e.lao = e'.lao ∧
            e' = (e.process h lao m).state) := by
  rw [after_concat] at he'
  cases origin he'
  case kept e sockets he => exact .inl ⟨e, sockets, he, rfl⟩
  case spoken e lao m he hl hc =>
    rcases Election.state_eq_or_authorized h e lao m with hs | ⟨kind, hk, hn, ha⟩
    case inl => exact .inl ⟨e, e.sockets, he, hs⟩
    case inr =>
      refine .inr ⟨path, m, kind, lao, hc, hk, ?_, ha, .inr ⟨hn, rfl, e, he, ?_, rfl⟩⟩
      case refine_1 => exact lao_of_process (e := e) ▸ registered h calls hl
      case refine_2 => exact lao_of_process.symm
  case created s id lao place m hs hc hp =>
    have ⟨hi, _⟩ := Setup.check_eq_ok.mp hs.check_eq
    have ⟨hid, hl⟩ := laoAt?_eq_some.mp hs.laoAt_eq
    refine .inr ⟨place, m, .setup, lao, hc, hs.kind?_eq, ?_, hs.authorized,
      .inl ⟨rfl, ?_, hp ▸ hs.fresh⟩⟩
    case refine_1 =>
      have hl : Table.get? (after h calls).laos s.lao = some lao := hi ▸ hl
      exact registered h calls hl
    case refine_2 => exact (Path.eq_lao_of_lao? hid).trans (congrArg Path.lao hi.symm)

-- The key of the host becomes the organizer, and the former organizer an attendee.
def Trial.handover : Hub.Call :=
  .register "L" host.key [Base64.encode organizer.toList]

def Trial.successor : Lao :=
  ⟨host.key, [Base64.encode organizer.toList]⟩

theorem Trial.admits_successor :
    Election.Admits host successor (message 2 (.castVote (vote "A"))) (startedA .plurality)
      ⟨(Payload.castVote (vote "A")).encode, organizer⟩ (.castVote (vote "A"))
      (.vote [(0, record 2)]) := by
  have hs := conducted_startedA .plurality
  have ha := hs.admits (n := 2) (p := .castVote (vote "A")) rfl (by decide) (by decide)
    (hs.judge_vote rfl 2)
  have hj := ha.judge_eq
  rw [Election.judge, Election.judgeVote_eq_ok] at hj
  refine { ha with judge_eq := ?_ }
  rw [Election.judge, Election.judgeVote_eq_ok]
  exact ⟨.inl List.mem_cons_self, hj.right⟩

-- After that the former organizer can still vote in the election that is open, as an attendee.
theorem Hub.change_is_authorized_handover :
    let calls := Trial.startRun .plurality ++ [Trial.handover]
    let m := Trial.message 2 (.castVote (Trial.vote "A"))
    Table.get? (after Trial.host (calls ++ [Trial.publish (Trial.path "A") m])).elections
        (Trial.path "A") = some (Trial.castA .plurality) ∧
      organizer? calls "L" = some Trial.host.key ∧ m.SignedBy Trial.host.suite Trial.organizer ∧
      Trial.organizer ≠ Trial.host.key ∧ Invited calls "L" m.sender := by
  intro calls m
  have hr := Trial.reaches_startedA .plurality
  have hc : after Trial.host calls =
      ⟨[("L", Trial.successor)], [(Trial.path "A", Trial.startedA .plurality)]⟩ := by
    rw [after_concat, hr.after_eq]
    rfl
  have he : Table.get? (after Trial.host calls).elections (Trial.path "A") =
      some (Trial.startedA .plurality) := by
    rw [hc]
    exact Trial.get?_path ..
  have he' : Table.get? (after Trial.host (calls ++ [Trial.publish (Trial.path "A") m])).elections
      (Trial.path "A") = some (Trial.castA .plurality) := by
    have hl : Table.get? (after Trial.host calls).laos (Trial.startedA .plurality).lao =
        some Trial.successor := by
      rw [hc]
      rfl
    have hg := get?_step_of_said (h := Trial.host) he hl (Trial.Reaches.says_publish _ m)
    rw [Trial.admits_successor.process_eq, ← after_concat] at hg
    exact hg
  have ho : organizer? calls "L" = some Trial.host.key := rfl
  have hv : m.kind? = some .castVote := Trial.kind?_message 2 rfl
  rcases change_is_authorized Trial.host calls _ (Trial.path "A") _ he' with
    ⟨e, sockets, he₀, heq⟩ | ⟨place, n, kind, lao, hsays, hk, hreg, hauth, -⟩
  case inl =>
    cases he.symm.trans he₀
    have hl : 3 = 2 := congrArg (fun e => e.inbox.messages.length) heq
    cases hl
  case inr =>
    obtain ⟨q, s, hq, -, hn⟩ := hsays
    cases hq
    obtain rfl : n = m := (Option.some.inj hn).symm
    cases Option.some.inj (hk.symm.trans hv)
    obtain ⟨k, hk, hka⟩ := hauth
    cases hk.key_eq (Message.signedBy_of_unseal (Trial.unseal_message 2 rfl))
    have hl : some Trial.host.key = some lao.organizer := ho.symm.trans hreg.organizer_eq
    refine ⟨he', ho, hk, Trial.organizer_ne_host, (hreg.mem_attendees_iff _).mp ?_⟩
    exact hka.resolve_left fun hko => Trial.organizer_ne_host (hko.trans (Option.some.inj hl).symm)

end Plenum
