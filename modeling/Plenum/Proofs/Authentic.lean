import Plenum.Proofs.Conduct

namespace Plenum

-- The LAO and the election that a payload is for. A result names neither.
def Payload.address? : Payload → Option (String × String)
  | .setup p => some (p.lao, p.id)
  | .opening p => some (p.lao, p.election)
  | .castVote p => some (p.lao, p.election)
  | .closing p => some (p.lao, p.election)
  | .outcome _ => none

theorem Payload.exists_address {p : Payload} (hk : p.kind ≠ .outcome) :
    ∃ a, p.address? = some a := by
  cases p
  case outcome => exact (hk rfl).elim
  all_goals exact ⟨_, rfl⟩

namespace Message

-- All spellings in the message are the canonical ones of some bytes, the identifier is that of
-- payload and signature, the payload is in shape, and the signature is the sender's.
structure Authentic (S : Suite) (m : Message) (payload : Bytes) (sender : Key) (σ : Signature) :
    Prop where
  data_eq : m.data = Base64.encode payload
  signature_eq : m.signature = Base64.encode σ.toList
  sender_eq : m.sender = Base64.encode sender.toList
  id_eq : m.id = S.identifier [m.data, m.signature]
  shape : Payload.validate payload = .ok ()
  isKey : S.isKey sender
  verifies : S.verify sender payload σ

variable {S : Suite} {m : Message} {env : Envelope}

theorem authentic_of_unseal (hu : m.unseal S = .ok env) :
    ∃ σ, m.Authentic S env.payload env.sender σ := by
  have ⟨hp, hs, hv⟩ := unseal_eq_ok.mp hu
  have ⟨hi, hk, hc⟩ := verify_eq_ok.mp hv
  have ⟨hk, hkey⟩ := Suite.readKey_eq_ok.mp hk
  have ⟨σ, hσ, hver⟩ := Suite.check_eq_ok.mp hc
  have hd := Base64.encode_of_decode? (payload_eq_ok.mp hp)
  exact ⟨σ, hd.symm, hσ, hk, hi.symm, hs, hkey, hver⟩

theorem Authentic.content?_eq {payload : Bytes} {sender : Key} {σ : Signature}
    (ha : m.Authentic S payload sender σ) : m.content? = (Payload.decode payload).toOption := by
  have hp : m.payload = .ok payload := by
    rw [payload_eq_ok, ha.data_eq]
    exact Base64.decode?_encode payload
  rw [content?, hp]

theorem Authentic.decode_eq {payload : Bytes} {sender : Key} {σ : Signature} {p : Payload}
    (ha : m.Authentic S payload sender σ) (hc : m.content? = some p) :
    Payload.decode payload = .ok p := by
  rw [ha.content?_eq] at hc
  cases hd : Payload.decode payload
  case error => rw [hd] at hc; cases hc
  case ok p' =>
    rw [hd] at hc
    cases hc
    rfl

end Message

namespace Election

variable {h : Host} {e : Election} {lao : Lao} {m : Message} {t : Turn Election Unit}
  {path : String}

-- The message says something, and not of another election.
def Concerns (e : Election) (m : Message) : Prop :=
  ∃ p, m.content? = some p ∧ ∀ a ∈ p.address?, a = (e.lao, e.id)

-- The election is where its ids say, and so is all that is in its log.
structure Bound (path : String) (e : Election) : Prop where
  path_eq : path = Path.election e.lao e.id
  concerns : ∀ m ∈ e.inbox.messages, e.Concerns m

-- Every kind of message but a result is checked for its ids before it is admitted.
theorem Admits.concerns {env : Envelope} {p : Payload} {r : Ruling}
    (ha : Admits h lao m e env p r) : e.Concerns m := by
  refine ⟨p, ha.content?_eq, fun a hp => ?_⟩
  have hj := ha.judge_eq
  cases p
  case setup => cases hj
  case opening p =>
    have ⟨_, hl, hi, _⟩ := judgeOpening_eq_ok.mp hj
    cases hp
    rw [hl, hi]
  case castVote p =>
    have ⟨_, hl, hi, _⟩ := judgeVote_eq_ok.mp hj
    cases hp
    rw [hl, hi]
  case closing p =>
    have ⟨_, hl, hi, _⟩ := judgeClosing_eq_ok.mp hj
    cases hp
    rw [hl, hi]
  case outcome => cases hp

theorem Bound.log (hb : e.Bound path) (hm : e.Concerns m) : (e.log m).Bound path where
  path_eq := hb.path_eq
  concerns := List.forall_mem_append.mpr ⟨hb.concerns, List.forall_mem_singleton.mpr hm⟩

theorem Processed.bound (ht : Processed h lao m e t) (hb : e.Bound path) : t.state.Bound path := by
  refine ht.keeps (P := Bound path) hb ?phase ?vote ?other ?report
  case phase => exact fun _ hb => ⟨hb.path_eq, hb.concerns⟩
  case vote =>
    intro _ _ votes ha
    have hs : (e.storeVotes m.sender votes).Bound path := ⟨hb.path_eq, hb.concerns⟩
    exact hs.log ha.concerns
  case other => exact fun ha _ => hb.log ha.concerns
  case report => exact fun _ _ hb => hb.log ⟨_, content?_outcomeMessage h e, nofun⟩

theorem bound_of_setsUp {hub : Hub} {place id : String} {s : Setup}
    (hs : Hub.SetsUp h hub place m s id lao) (hp : path = Path.election id s.id) :
    (Hub.setUpElection path s m).Bound path where
  path_eq := by
    have ⟨hi, _⟩ := Setup.check_eq_ok.mp hs.check_eq
    rw [hp, ← hi]
    rfl
  concerns := by
    refine List.forall_mem_singleton.mpr ⟨_, hs.content?_eq, fun a ha => ?_⟩
    cases ha
    rfl

theorem bound {hub : Hub} (hr : hub.Reachable h) (he : Table.get? hub.elections path = some e) :
    e.Bound path :=
  hr.election_induction (P := Bound) (fun hs hp => bound_of_setsUp hs hp)
    (fun _ hb => ⟨hb.path_eq, hb.concerns⟩) (fun hb ht => ht.bound hb) he

-- An election of which a payload in its log speaks is the one that the payload names.
theorem Bound.address_eq {p : Payload} {a : String × String} (hb : e.Bound path)
    (hm : m ∈ e.inbox.messages) (hc : m.content? = some p) (ha : p.address? = some a) :
    a = (e.lao, e.id) := by
  obtain ⟨p', hp', hi⟩ := hb.concerns m hm
  cases hc.symm.trans hp'
  exact hi a ha

-- Where a payload that names an election stands is known from the payload.
theorem Bound.path_eq_of_address {p : Payload} {a : String × String} (hb : e.Bound path)
    (hm : m ∈ e.inbox.messages) (hc : m.content? = some p) (ha : p.address? = some a) :
    path = Path.election a.1 a.2 := by
  rw [hb.address_eq hm hc ha]
  exact hb.path_eq

end Election

-- Every message in a log is authentic and says what an election understands. Unless it is a
-- result, it names the LAO and the id of the election, these make up the path of the election, and
-- its payload is in no log elsewhere, be it under another sender, signature or identifier.
theorem Hub.logged_is_authentic (h : Host) (hub : Hub) (hr : hub.Reachable h) (path : String)
    (e : Election) (m : Message) (he : Table.get? hub.elections path = some e)
    (hm : m ∈ e.inbox.messages) :
    ∃ payload sender σ p, m.Authentic h.suite payload sender σ ∧
      Payload.decode payload = .ok p ∧ path = Path.election e.lao e.id ∧
      (p.kind ≠ .outcome → p.address? = some (e.lao, e.id) ∧
        ∀ path' e' n, Table.get? hub.elections path' = some e' →
          n ∈ e'.inbox.messages → n.data = m.data → path' = path) := by
  have hb := Election.bound hr he
  have ⟨env, hu⟩ := (Election.regular hr he).passed m hm
  have ⟨σ, hσ⟩ := Message.authentic_of_unseal hu
  obtain ⟨p, hc, -⟩ := hb.concerns m hm
  refine ⟨env.payload, env.sender, σ, p, hσ, hσ.decode_eq hc, hb.path_eq,
    fun hk => ?_⟩
  have ⟨a, ha⟩ := Payload.exists_address hk
  refine ⟨hb.address_eq hm hc ha ▸ ha, fun path' e' n he' hn hd => ?_⟩
  have hc' : n.content? = some p := (Message.content?_congr hd).trans hc
  rw [(Election.bound hr he').path_eq_of_address hn hc' ha, hb.path_eq_of_address hm hc ha]

-- The vote in the first election of the trial is not in the second, where the result of the first
-- one is.
theorem Hub.logged_is_authentic_vote :
    let hub := after Trial.host Trial.openRun
    let m := Trial.message 2 (.castVote (Trial.vote "A"))
    hub.Reachable Trial.host ∧ Table.get? hub.elections (Trial.path "A") = some Trial.endedA ∧
      m ∈ Trial.endedA.inbox.messages ∧
      (∃ payload sender σ, m.Authentic Trial.host.suite payload sender σ) ∧
      (∀ n ∈ Trial.openB.inbox.messages, n.data ≠ m.data) ∧
      ∃ n ∈ Trial.openB.inbox.messages, n ∈ Trial.endedA.inbox.messages := by
  intro hub m
  have hr := reachable_after Trial.host Trial.openRun
  have he := Trial.reaches_openB.get?_eq
  have hm : m ∈ Trial.endedA.inbox.messages := by simp [Trial.messages_endedA, Trial.logA, m]
  obtain ⟨payload, sender, σ, p, hσ, hp, -, hn⟩ :=
    logged_is_authentic Trial.host hub hr (Trial.path "A") Trial.endedA m he hm
  have hk : p.kind ≠ .outcome := by
    have hc := Trial.content?_message 2 (p := .castVote (Trial.vote "A")) rfl
    rw [hσ.content?_eq, hp] at hc
    cases hc
    exact fun hk => by cases hk
  refine ⟨hr, he, hm, ⟨payload, sender, σ, hσ⟩, fun n hn' hd => ?_, ?_⟩
  case refine_1 =>
    have hB := Trial.get?_B Trial.reaches_openB
    exact Trial.path_ne ((hn hk).right _ _ n hB hn' hd).symm
  case refine_2 =>
    rw [Trial.messages_openB, Trial.messages_endedA]
    exact ⟨Trial.votedA.outcomeMessage Trial.host, List.mem_cons_of_mem _ List.mem_cons_self,
      List.mem_append_right _ List.mem_cons_self⟩

end Plenum
