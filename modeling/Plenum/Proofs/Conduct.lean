import Plenum.Proofs.Replay

namespace Plenum

namespace Hub

variable {h : Host} {hub : Hub} {path : String} {e : Election} {c : Call} {m : Message}

theorem step_of_setsUp {s : Setup} {id : String} {lao : Lao}
    (hn : Table.get? hub.elections path = none) (hs : SetsUp h hub path m s id lao)
    (hc : c.Says path m) :
    hub.step h c = hub.setElection (Path.election id s.id)
      (setUpElection (Path.election id s.id) s m) := by
  obtain ⟨q, s', rfl, rfl, hq⟩ := hc
  rw [step, handle_hub, (run_of_message hq).left, say, hn]
  simp only [processAtLao_of_setsUp hs, Turn.done]

theorem step_of_admits {lao : Lao} {env : Envelope} {p : Payload} {r : Election.Ruling}
    (he : Table.get? hub.elections path = some e) (hl : Table.get? hub.laos e.lao = some lao)
    (ha : Election.Admits h lao m e env p r) (hc : c.Says path m) :
    hub.step h c = hub.setElection path (e.carryOut h m r).state := by
  obtain ⟨q, s, rfl, rfl, hq⟩ := hc
  rw [step, handle_hub, (run_of_message hq).left, say_of_get? he hl, ha.process_eq]
  rfl

end Hub

namespace Trial

-- What the first half of a signature is made of is whose it is. The other half is what tells the
-- signatures of one signer apart.
def signature (signer n : UInt8) : Signature :=
  .ofFn fun i => if i.val < 32 then signer else n

-- A signature is good for the signer that it names, and the digest of a text is its end. For the
-- few messages of the trial this does what a suite has to do: what a signer has signed passes,
-- nothing of another signer does, and no two messages share an identifier.
def suite : Suite where
  digest b := .ofFn fun i => b.reverse.getD i 0
  isKey _ := true
  publicKey seed := seed
  sign seed _ := signature seed[0] 0
  verify k _ σ := σ[0] = k[0]

theorem verify_signature {k : Key} {b : Bytes} {signer n : UInt8} (hk : k[0] = signer) :
    suite.verify k b (signature signer n) := by
  simp [suite, signature, hk]

def host : Host :=
  .ofSeed suite (.replicate 32 0)

theorem sound : host.suite.Sound :=
  ⟨fun _ => rfl, fun _ _ => verify_signature rfl⟩

def organizer : Key :=
  .replicate 32 1

-- The signature of the host, and those of the organizer.
def stamp : Nat → Signature
  | 0 => signature 0 0
  | n + 1 => signature 1 (.ofNat (n + 1))

-- A message of the organizer.
def message (n : Nat) (p : Payload) : Message :=
  let data := Base64.encode p.encode
  let signature := Base64.encode (stamp (n + 1)).toList
  { data
    sender := Base64.encode organizer.toList
    signature
    id := suite.identifier [data, signature]
    witnesses := [] }

theorem sender_message (n : Nat) (p : Payload) :
    (message n p).sender = Base64.encode organizer.toList :=
  rfl

theorem unseal_message (n : Nat) {p : Payload} (hp : p.Labelled) :
    (message n p).unseal suite = .ok ⟨p.encode, organizer⟩ := by
  have hd : (message n p).payload = .ok p.encode :=
    Message.payload_eq_ok.mpr (Base64.decode?_encode _)
  have hk : suite.readKey (message n p).sender = .ok organizer :=
    Suite.readKey_eq_ok.mpr ⟨rfl, rfl⟩
  have hc : suite.check organizer p.encode (message n p).signature = .ok () :=
    Suite.check_eq_ok.mpr ⟨stamp (n + 1), rfl, verify_signature rfl⟩
  exact Message.unseal_eq_ok.mpr ⟨hd, Payload.validate_encode hp,
    Message.verify_eq_ok.mpr ⟨rfl, hk, hc⟩⟩

theorem exists_unseal_message (n : Nat) {p : Payload} (hp : p.Labelled) :
    ∃ env, (message n p).unseal host.suite = .ok env ∧ env.sender = organizer ∧
      Payload.decode env.payload = .ok p :=
  ⟨_, unseal_message n hp, rfl, Payload.decode_encode hp⟩

theorem content?_message (n : Nat) {p : Payload} (hp : p.Labelled) :
    (message n p).content? = some p := by
  rw [Message.content?_of_unseal (unseal_message n hp), Payload.decode_encode hp]
  rfl

theorem kind?_message (n : Nat) {p : Payload} (hp : p.Labelled) :
    (message n p).kind? = some p.kind :=
  Message.kind?_of_content? (content?_message n hp)

theorem organizer_ne_host : organizer ≠ host.key := by
  decide

theorem not_isFrom_host (n : Nat) {p : Payload} (hp : p.Labelled) :
    ¬(message n p).IsFrom suite host.key := by
  rintro ⟨env, hu, hk⟩
  rw [unseal_message n hp] at hu
  cases hu
  exact organizer_ne_host hk

theorem digest_append (a b : Bytes) (hb : 32 ≤ b.length) :
    suite.digest (a ++ b) = suite.digest b := by
  refine congrArg Vector.ofFn (funext fun i => ?_)
  have hi : i.val < b.reverse.length := by rw [List.length_reverse]; omega
  rw [List.reverse_append, List.getD_eq_getElem?_getD, List.getElem?_append_left hi,
    List.getD_eq_getElem?_getD]

-- A message's identifier, which is about its signature only.
def mark (n : Nat) : String :=
  Base64.encode (suite.digest (Bytes.ofText (Base64.encode (stamp n).toList))).toList

theorem identifier_eq_mark (d : String) (n : Nat) :
    suite.identifier [d, Base64.encode (stamp n).toList] = mark n := by
  have hl := Base64.length_ofText_encode (stamp n).toList
  rw [Vector.length_toList] at hl
  rw [Suite.identifier, Suite.preimage_pair, ← List.append_assoc, ← List.append_assoc,
    digest_append _ _ (by omega), mark]

theorem mark_inj : ∀ m < 8, ∀ n < 8, mark m = mark n → m = n := by
  decide +kernel

theorem id_message (n : Nat) (p : Payload) : (message n p).id = mark (n + 1) :=
  identifier_eq_mark ..

theorem id_outcomeMessage (e : Election) : (e.outcomeMessage host).id = mark 0 :=
  Election.sign_gather host e ▸ identifier_eq_mark _ 0

-- What the organizer says, apart from results.
def Spoken (m : Message) : Prop :=
  ∃ n < 7, ∃ p : Payload, p.Labelled ∧ p.kind ≠ .outcome ∧ m = message n p

theorem Spoken.not_outcome {m : Message} (hm : Spoken m) : m.kind? ≠ some .outcome := by
  obtain ⟨n, _, p, hp, hk, rfl⟩ := hm
  rw [kind?_message n hp]
  exact fun h => hk (Option.some.inj h)

theorem Spoken.not_collide {m : Message} (hm : Spoken m) (e : Election) :
    ¬m.Collide host.suite (e.outcomeMessage host) := by
  obtain ⟨n, hn, p, -, -, rfl⟩ := hm
  rintro ⟨hi, -⟩
  have ho := Message.id_of_unseal (Election.unseal_outcomeMessage sound e)
  rw [← ho, id_outcomeMessage] at hi
  have hm : (message n p).expectedId host.suite = mark (n + 1) := id_message n p
  cases mark_inj (n + 1) (by omega) 0 (by decide) (hm.symm.trans hi)

-- The messages of an election, by their marks.
def Marked (e : Election) (ns : List Nat) : Prop :=
  e.inbox.messages.map Message.id = ns.map mark ∧ ∀ n ∈ ns, n < 8

theorem Marked.log {e : Election} {ns : List Nat} {n : Nat} {m : Message} (hm : Marked e ns)
    (hi : m.id = mark n) (hn : n < 8) : Marked (e.log m) (ns ++ [n]) := by
  refine ⟨?_, ?_⟩
  case refine_1 =>
    rw [List.map_append, ← hm.left]
    simp [Election.log, Election.setInbox, hi]
  case refine_2 => simpa [or_imp, forall_and, hn] using hm.right

theorem Marked.not_has {e : Election} {ns : List Nat} {n : Nat} (hm : Marked e ns) (hn : n < 8)
    (hf : n ∉ ns) : ¬e.inbox.has (mark n) := by
  rw [Inbox.has_iff]
  rintro ⟨m, hm', hi⟩
  have hi' : m.id ∈ ns.map mark := hm.left ▸ List.mem_map_of_mem hm'
  obtain ⟨k, hk, he⟩ := List.mem_map.mp hi'
  exact hf (mark_inj k (hm.right k hk) n hn (he.trans hi) ▸ hk)

def electionId (name : String) : String :=
  suite.electionId "L" 0 name

def questionId (name : String) : String :=
  suite.questionId (electionId name) "Who?"

def path (name : String) : String :=
  Path.election "L" (electionId name)

-- An election with one question, of which one option may be approved. All times are the same.
def setup (name : String) : Setup where
  object := "election"
  action := "setup"
  version := "OPEN_BALLOT"
  id := electionId name
  lao := "L"
  name := name
  createdAt := 0
  startTime := 0
  endTime := 0
  questions := [⟨questionId name, "Who?", .approval, ["x", "y"], false⟩]

def opening (name : String) : Opening :=
  ⟨"election", "open", "L", electionId name, 0⟩

def vote (name : String) : CastVote :=
  ⟨"election", "cast_vote", "L", electionId name, 0, [⟨"v", questionId name, [0]⟩]⟩

def closing (name : String) : Closing :=
  ⟨"election", "end", "L", electionId name, 0, ""⟩

-- The same election, with the question put to either method.
def ask (name : String) (method : Method) : Setup :=
  { setup name with questions := [⟨questionId name, "Who?", method, ["x", "y"], false⟩] }

theorem check_ask (name : String) (method : Method) :
    (ask name method).check suite "L" = .ok () := by
  have ht : (0 : Int64) ≤ 0 := by decide
  exact Setup.check_eq_ok.mpr ⟨rfl, rfl, ht, nofun,
    Setup.checkQuestions_cons_eq_ok.mpr ⟨rfl, nofun, nofun, rfl⟩⟩

-- The election that a setup makes.
def founded (name : String) (method : Method) (n : Nat) : Election :=
  Hub.setUpElection (path name) (ask name method) (message n (.setup (ask name method)))

def created (name : String) (n : Nat) : Election :=
  Hub.setUpElection (path name) (setup name) (message n (.setup (setup name)))

-- An election on its way, with the method of its question and the marks of its messages.
structure Conducted (name : String) (method : Method) (phase : Phase) (ns : List Nat)
    (e : Election) : Prop where
  lao_eq : e.lao = "L"
  id_eq : e.id = electionId name
  start_eq : e.startTime = 0
  end_eq : e.endTime = 0
  pending_eq : e.inbox.pending = []
  asked : ∀ q ∈ e.questions, q.id = questionId name ∧ q.method = method
  phase_eq : e.phase = phase
  marked : Marked e ns

-- The questions before any vote.
def questions (name : String) (method : Method) : List Question :=
  [⟨questionId name, ["x", "y"], method, []⟩]

def lao : Lao :=
  ⟨organizer, []⟩

section Steps

variable {name : String} {method : Method} {phase : Phase} {ns : List Nat} {e : Election} {n : Nat}
  {r : Election.Ruling}

theorem conducted_founded (name : String) (method : Method) (hn : n < 7) :
    Conducted name method .created [n + 1] (founded name method n) where
  lao_eq := rfl
  id_eq := rfl
  start_eq := rfl
  end_eq := rfl
  pending_eq := rfl
  asked q hq := by
    have hq : q ∈ questions name method := hq
    rw [List.mem_singleton.mp hq]
    exact ⟨rfl, rfl⟩
  phase_eq := rfl
  marked := by
    have hm : (founded name method n).inbox.messages =
        [message n (.setup (ask name method))] := rfl
    refine ⟨by rw [hm, List.map_singleton, List.map_singleton, id_message], fun k hk => ?_⟩
    rw [List.mem_singleton.mp hk]
    omega

theorem conducted_created (name : String) (hn : n < 7) :
    Conducted name .approval .created [n + 1] (created name n) :=
  conducted_founded name .approval hn

theorem Conducted.log {m : Message} (hc : Conducted name method phase ns e) (hi : m.id = mark n)
    (hn : n < 8) : Conducted name method phase (ns ++ [n]) (e.log m) where
  lao_eq := hc.lao_eq
  id_eq := hc.id_eq
  start_eq := hc.start_eq
  end_eq := hc.end_eq
  pending_eq := hc.pending_eq
  asked := hc.asked
  phase_eq := hc.phase_eq
  marked := hc.marked.log hi hn

-- What is new in an election and judged well is admitted there.
theorem Conducted.admits {p : Payload} (hc : Conducted name method phase ns e) (hp : p.Labelled)
    (hn : n < 7) (hf : n + 1 ∉ ns) (hj : e.judge host lao (message n p) organizer p = .ok r) :
    Election.Admits host lao (message n p) e ⟨p.encode, organizer⟩ p r where
  unseal_eq := unseal_message n hp
  fresh := id_message n p ▸ hc.marked.not_has (by omega) hf
  free := hc.pending_eq ▸ List.not_mem_nil
  decode_eq := Payload.decode_encode hp
  judge_eq := hj

theorem Conducted.judge_opening (hc : Conducted name method .created ns e) (n : Nat) :
    e.judge host lao (message n (.opening (opening name))) organizer (.opening (opening name)) =
      .ok .start := by
  rw [Election.judge, Election.judgeOpening_eq_ok, hc.lao_eq, hc.id_eq, hc.start_eq, hc.end_eq]
  exact ⟨rfl, rfl, rfl, Int64.le_refl _, Int64.le_refl _, hc.phase_eq, rfl⟩

-- The record that the vote makes.
def record (n : Nat) : Vote :=
  ⟨mark (n + 1), "v", 0, [0]⟩

-- The same vote cast at another time.
def voteAt (name : String) (t : Int64) : CastVote :=
  { vote name with createdAt := t }

def recordAt (n : Nat) (t : Int64) : Vote :=
  { record n with castAt := t }

theorem judgeBallot_eq (hq : e.questions = questions name method) (n : Nat) (p : Payload)
    (t : Int64) :
    e.judgeBallot (message n p) t ⟨"v", questionId name, [0]⟩ = .ok (0, recordAt n t) := by
  have hp : e.position? (questionId name) = some 0 := by
    simp [Election.position?, hq, questions]
  simp only [Election.judgeBallot, hp, hq, questions, List.getElem?_cons_zero, id_message]
  cases method <;> rfl

theorem Conducted.judge_voteAt (hc : Conducted name method .started ns e)
    (hq : e.questions = questions name method) (n : Nat) (t : Int64) :
    e.judge host lao (message n (.castVote (voteAt name t))) organizer
      (.castVote (voteAt name t)) = .ok (.vote [(0, recordAt n t)]) := by
  rw [Election.judge, Election.judgeVote_eq_ok, hc.lao_eq, hc.id_eq]
  refine ⟨.inr rfl, rfl, rfl, hc.phase_eq, [(0, recordAt n t)], ?_, rfl⟩
  simp only [voteAt, vote, List.mapM_cons, List.mapM_nil, judgeBallot_eq hq, Guards.ok_bind]
  rfl

theorem Conducted.judge_vote (hc : Conducted name method .started ns e)
    (hq : e.questions = questions name method) (n : Nat) :
    e.judge host lao (message n (.castVote (vote name))) organizer (.castVote (vote name)) =
      .ok (.vote [(0, record n)]) :=
  hc.judge_voteAt hq n 0

theorem Conducted.judge_closing (hc : Conducted name method .started ns e) (n : Nat) :
    e.judge host lao (message n (.closing (closing name))) organizer (.closing (closing name)) =
      .ok .terminate := by
  rw [Election.judge, Election.judgeClosing_eq_ok, hc.lao_eq, hc.id_eq, hc.start_eq]
  have hv : Base64.decode? "" ≠ none := by decide
  exact ⟨rfl, rfl, rfl, Int64.le_refl _, hv, hc.phase_eq, rfl⟩

-- An election after its opening, after a vote, and after its end.
def opened (name : String) (n : Nat) (e : Election) : Election :=
  { e.log (message n (.opening (opening name))) with phase := .started }

def voted (name : String) (n : Nat) (e : Election) : Election :=
  let m := message n (.castVote (vote name))
  (e.storeVotes m.sender [(0, record n)]).log m

def ended (name : String) (n : Nat) (e : Election) : Election :=
  { (e.log (message n (.closing (closing name)))).log (e.outcomeMessage host) with
    phase := .terminated }

theorem Conducted.opened (hc : Conducted name method phase ns e) (hn : n < 7) :
    Conducted name method .started (ns ++ [n + 1]) (opened name n e) :=
  have hl := hc.log (id_message n (.opening (opening name))) (by omega)
  { hl with phase_eq := rfl }

theorem questions_voted (hq : e.questions = questions name method) :
    (voted name n e).questions = [⟨questionId name, ["x", "y"], method,
      [((message n (.castVote (vote name))).sender, record n)]⟩] := by
  have hv (voter : String) : (e.storeVotes voter [(0, record n)]).questions =
      [⟨questionId name, ["x", "y"], method, [(voter, record n)]⟩] := by
    rw [Election.storeVotes, hq]
    rfl
  exact hv _

theorem Conducted.voted (hc : Conducted name method phase ns e)
    (hq : e.questions = questions name method) (hn : n < 7) :
    Conducted name method phase (ns ++ [n + 1]) (voted name n e) := by
  have hl := hc.log (id_message n (.castVote (vote name))) (by omega)
  refine { hl with asked := fun q hm => ?_ }
  rw [questions_voted hq] at hm
  rw [List.mem_singleton.mp hm]
  exact ⟨rfl, rfl⟩

theorem Conducted.readable (hc : Conducted name method phase ns e) :
    ∀ q ∈ e.questions, Base64.decode? q.id ≠ none :=
  fun q hq => (hc.asked q hq).left ▸ suite.decode?_questionId _ _

-- Approvals are left out of a report.
theorem Conducted.gather_eq (hc : Conducted name .approval phase ns e) :
    Outcome.gather e.questions = ⟨Payload.object, Payload.Kind.outcome.action, []⟩ := by
  have hf : e.questions.filter (·.method = .plurality) = [] := by
    refine List.filter_eq_nil_iff.mpr fun q hq => ?_
    simp [(hc.asked q hq).right]
  rw [Outcome.gather, hf]
  rfl

-- So that nothing in their reports tells two such elections apart.
theorem Conducted.outcomeMessage_eq {other : String} {phase' : Phase} {ns' : List Nat}
    {e' : Election} (hc : Conducted name .approval phase ns e)
    (hc' : Conducted other .approval phase' ns' e') :
    e.outcomeMessage host = e'.outcomeMessage host := by
  rw [← Election.sign_gather, ← Election.sign_gather, hc.gather_eq, hc'.gather_eq]

-- A report is admitted in any election that has not got one.
theorem Conducted.admits_outcome {other : String} {method' : Method} {phase' : Phase}
    {ns' : List Nat} {e' : Election} (hc : Conducted name method phase ns e)
    (hc' : Conducted other method' phase' ns' e') (hf : 0 ∉ ns) :
    Election.Admits host lao (e'.outcomeMessage host) e
      ⟨(Payload.outcome (.gather e'.questions)).encode, host.key⟩
      (.outcome (.gather e'.questions)) .note := by
  have hn : ¬e.inbox.has (e'.outcomeMessage host).id := by
    rw [id_outcomeMessage]
    exact hc.marked.not_has (by decide) hf
  have hp : (e'.outcomeMessage host).id ∉ e.inbox.pending := by
    rw [hc.pending_eq]
    exact List.not_mem_nil
  have hd : Payload.decode (Payload.outcome (.gather e'.questions)).encode =
      .ok (.outcome (.gather e'.questions)) := Payload.decode_encode rfl
  have hj : Election.judgeOutcome host host.key (.gather e'.questions) = .ok .note :=
    Election.judgeOutcome_gather hc'.readable
  exact ⟨Election.unseal_outcomeMessage sound e', hn, hp, hd, hj⟩

theorem Conducted.carryOut_terminate (hc : Conducted name method phase ns e) (hn : n < 7)
    (hf : 0 ∉ ns) :
    e.carryOut host (message n (.closing (closing name))) .terminate =
      ⟨ended name n e, e.announce (message n (.closing (closing name))) ++
        e.announce (e.outcomeMessage host), .ok ()⟩ := by
  have hl := hc.log (id_message n (.closing (closing name))) (by omega)
  have ht : Conducted name method .terminated (ns ++ [n + 1])
      { e.log (message n (.closing (closing name))) with phase := .terminated } :=
    { hl with phase_eq := rfl }
  have ho : Election.outcomeMessage host
      { e.log (message n (.closing (closing name))) with phase := .terminated } =
      e.outcomeMessage host := Election.outcomeMessage_congr rfl
  have hp := Election.publishOutcome_of_admits (ht.admits_outcome ht (by simpa using hf))
  rw [ho] at hp
  simp only [Election.carryOut, hp]
  rfl

end Steps

-- A run of the trial, with the elections that are there in the end.
structure Reaches (calls : List Hub.Call) (es : Table Election) : Prop where
  replays : Hub.Replays host calls
  after_eq : Hub.after host calls = ⟨[("L", lao)], es⟩

def register : Hub.Call :=
  .register "L" organizer []

def publish (path : String) (m : Message) : Hub.Call :=
  .query (.publish protocolVersion 0 path m) ⟨"s", "q"⟩

def setUp (name : String) (n : Nat) : Hub.Call :=
  publish (Path.lao "L") (message n (.setup (setup name)))

namespace Reaches

variable {calls : List Hub.Call} {es : Table Election} {name : String} {method : Method}
  {e : Election} {n : Nat} {p : Payload} {r : Election.Ruling}

theorem says_publish (path : String) (m : Message) : (publish path m).Says path m :=
  ⟨_, _, rfl, rfl, rfl⟩

theorem held_of_message {hub : Hub} {path : String} (hp : p.Labelled) :
    (publish path (message n p)).Held host hub := by
  rintro _ _ ⟨q, s, hc, rfl, hq⟩ hf
  cases hc
  cases hq
  exact (not_isFrom_host n hp hf).elim

theorem nil : Reaches [register] [] where
  replays pre c post hc path m hs := by
    obtain ⟨q, s, rfl, -⟩ := hs
    rcases List.singleton_eq_append_iff.mp hc with ⟨-, hc⟩ | ⟨-, hc⟩ <;> cases hc
  after_eq := rfl

theorem founded (hr : Reaches calls es) (method : Method)
    (hn : Table.get? es (path name) = none) (hl : Table.get? es (Path.lao "L") = none) :
    Reaches (calls ++ [Trial.publish (Path.lao "L") (message n (.setup (ask name method)))])
      (es.insert (path name) (Trial.founded name method n)) where
  replays := Hub.replays_concat.mpr ⟨hr.replays, held_of_message rfl⟩
  after_eq := by
    have hs : Hub.SetsUp host ⟨[("L", lao)], es⟩ (Path.lao "L")
        (message n (.setup (ask name method))) (ask name method) "L" lao := {
      laoAt_eq := Hub.laoAt?_eq_some.mpr ⟨by decide +kernel, rfl⟩
      unseal_eq := exists_unseal_message n rfl
      check_eq := check_ask name method
      fresh := hn }
    rw [Hub.after_concat, hr.after_eq, Hub.step_of_setsUp hl hs (says_publish ..)]
    rfl

theorem setUp (hr : Reaches calls es) (hn : Table.get? es (path name) = none)
    (hl : Table.get? es (Path.lao "L") = none) :
    Reaches (calls ++ [Trial.setUp name n]) (es.insert (path name) (created name n)) :=
  hr.founded .approval hn hl

theorem publish {env : Envelope} {m : Message} (hr : Reaches calls es)
    (he : Table.get? es (path name) = some e) (hl : e.lao = "L")
    (ha : Election.Admits host lao m e env p r)
    (hh : (Trial.publish (path name) m).Held host (Hub.after host calls)) :
    Reaches (calls ++ [Trial.publish (path name) m])
      (es.insert (path name) (e.carryOut host m r).state) where
  replays := Hub.replays_concat.mpr ⟨hr.replays, hh⟩
  after_eq := by
    have hl : Table.get? [("L", lao)] e.lao = some lao := by rw [hl]; rfl
    rw [Hub.after_concat, hr.after_eq, Hub.step_of_admits he hl ha (says_publish ..)]
    rfl

variable {phase : Phase} {ns : List Nat}

theorem opened (hr : Reaches calls es) (he : Table.get? es (path name) = some e)
    (hc : Conducted name method .created ns e) (hn : n < 7) (hf : n + 1 ∉ ns) :
    Reaches (calls ++ [Trial.publish (path name) (message n (.opening (opening name)))])
      (es.insert (path name) (Trial.opened name n e)) :=
  have ha := hc.admits (p := .opening (opening name)) rfl hn hf (hc.judge_opening n)
  hr.publish he hc.lao_eq ha (held_of_message rfl)

theorem voted (hr : Reaches calls es) (he : Table.get? es (path name) = some e)
    (hc : Conducted name method .started ns e) (hq : e.questions = questions name method)
    (hn : n < 7) (hf : n + 1 ∉ ns) :
    Reaches (calls ++ [Trial.publish (path name) (message n (.castVote (vote name)))])
      (es.insert (path name) (Trial.voted name n e)) :=
  have ha := hc.admits (p := .castVote (vote name)) rfl hn hf (hc.judge_vote hq n)
  hr.publish he hc.lao_eq ha (held_of_message rfl)

theorem ended (hr : Reaches calls es) (he : Table.get? es (path name) = some e)
    (hc : Conducted name method .started ns e) (hn : n < 7) (hf : n + 1 ∉ ns) (h₀ : 0 ∉ ns) :
    Reaches (calls ++ [Trial.publish (path name) (message n (.closing (closing name)))])
      (es.insert (path name) (Trial.ended name n e)) := by
  have ha := hc.admits (p := .closing (closing name)) rfl hn hf (hc.judge_closing n)
  have hp := hr.publish he hc.lao_eq ha (held_of_message rfl)
  rwa [hc.carryOut_terminate hn h₀] at hp

-- What is published at one election can be sent to another.
theorem told {other : String} {method' : Method} {phase' : Phase} {ns' : List Nat} {e' : Election}
    (hr : Reaches calls es) (he : Table.get? es (path name) = some e)
    (hc : Conducted name method phase ns e) (hf : 0 ∉ ns)
    (hc' : Conducted other method' phase' ns' e')
    (hp : (Hub.after host calls).Published (e'.outcomeMessage host)) :
    Reaches (calls ++ [Trial.publish (path name) (e'.outcomeMessage host)])
      (es.insert (path name) (e.log (e'.outcomeMessage host))) := by
  refine hr.publish he hc.lao_eq (hc.admits_outcome hc' hf) ?_
  rintro _ _ ⟨q, s, hq, rfl, hm⟩ hm'
  cases hq
  cases hm
  exact ⟨_, hp, hm', rfl, rfl⟩

end Reaches

-- An election that is set up and opened, and what leads to it.
def startedA (method : Method) : Election :=
  opened "A" 1 (founded "A" method 0)

def startRun (method : Method) : List Hub.Call :=
  [register, publish (Path.lao "L") (message 0 (.setup (ask "A" method))),
    publish (path "A") (message 1 (.opening (opening "A")))]

-- One that is voted in as well.
def castA (method : Method) : Election :=
  voted "A" 2 (opened "A" 1 (founded "A" method 0))

def castRun (method : Method) : List Hub.Call :=
  [register, publish (Path.lao "L") (message 0 (.setup (ask "A" method))),
    publish (path "A") (message 1 (.opening (opening "A"))),
    publish (path "A") (message 2 (.castVote (vote "A")))]

-- The first election is such a one, and then it is ended.
def openA : Election :=
  opened "A" 1 (created "A" 0)

def votedA : Election :=
  voted "A" 2 openA

def endedA : Election :=
  ended "A" 3 votedA

def voteRun : List Hub.Call :=
  [register, setUp "A" 0, publish (path "A") (message 1 (.opening (opening "A"))),
    publish (path "A") (message 2 (.castVote (vote "A")))]

def endRun : List Hub.Call :=
  voteRun ++ [publish (path "A") (message 3 (.closing (closing "A")))]

-- A second one is set up, sent the result of the first, and opened.
def toldB : Election :=
  (created "B" 4).log (votedA.outcomeMessage host)

def openB : Election :=
  opened "B" 5 toldB

def replayRun : List Hub.Call :=
  endRun ++ [setUp "B" 4, publish (path "B") (votedA.outcomeMessage host)]

def openRun : List Hub.Call :=
  replayRun ++ [publish (path "B") (message 5 (.opening (opening "B")))]

theorem conducted_startedA (method : Method) :
    Conducted "A" method .started [1, 2] (startedA method) :=
  (conducted_founded "A" method (by decide)).opened (by decide)

theorem conducted_castA (method : Method) :
    Conducted "A" method .started [1, 2, 3] (castA method) :=
  (conducted_startedA method).voted rfl (by decide)

theorem gather_castA :
    Outcome.gather (castA .plurality).questions =
      ⟨Payload.object, Payload.Kind.outcome.action,
        [⟨questionId "A", [⟨"x", 1⟩, ⟨"y", 0⟩]⟩]⟩ := by
  rw [castA, questions_voted rfl]
  rfl

theorem conducted_votedA : Conducted "A" .approval .started [1, 2, 3] votedA :=
  conducted_castA .approval

theorem conducted_createdB : Conducted "B" .approval .created [5] (created "B" 4) :=
  conducted_created "B" (by decide)

theorem conducted_toldB : Conducted "B" .approval .created [5, 0] toldB :=
  conducted_createdB.log (id_outcomeMessage _) (by decide)

theorem conducted_openB : Conducted "B" .approval .started [5, 0, 6] openB :=
  conducted_toldB.opened (by decide)

-- The messages of the first election up to its end, and those of the second.
def logA : List Message :=
  [message 0 (.setup (setup "A")), message 1 (.opening (opening "A")),
    message 2 (.castVote (vote "A")), message 3 (.closing (closing "A"))]

def logB : List Message :=
  [message 4 (.setup (setup "B")), votedA.outcomeMessage host, message 5 (.opening (opening "B")),
    message 6 (.closing (closing "B"))]

theorem messages_votedA : votedA.inbox.messages = logA.take 3 :=
  rfl

theorem messages_endedA : endedA.inbox.messages = logA ++ [votedA.outcomeMessage host] :=
  rfl

theorem messages_toldB : toldB.inbox.messages = logB.take 2 :=
  rfl

theorem messages_openB : openB.inbox.messages = logB.take 3 :=
  rfl

theorem spoken_logA : ∀ m ∈ logA, Spoken m := by
  simp only [logA, List.forall_mem_cons]
  exact ⟨⟨0, by decide, .setup (setup "A"), rfl, nofun, rfl⟩,
    ⟨1, by decide, .opening (opening "A"), rfl, nofun, rfl⟩,
    ⟨2, by decide, .castVote (vote "A"), rfl, nofun, rfl⟩,
    ⟨3, by decide, .closing (closing "A"), rfl, nofun, rfl⟩, nofun⟩

theorem spoken_logB : ∀ m ∈ logB, Spoken m ∨ m = votedA.outcomeMessage host := by
  simp only [logB, List.forall_mem_cons]
  exact ⟨.inl ⟨4, by decide, .setup (setup "B"), rfl, nofun, rfl⟩, .inr trivial,
    .inl ⟨5, by decide, .opening (opening "B"), rfl, nofun, rfl⟩,
    .inl ⟨6, by decide, .closing (closing "B"), rfl, nofun, rfl⟩, nofun⟩

theorem insert_path (name : String) (e e' : Election) :
    Table.insert [(path name, e)] (path name) e' = [(path name, e')] := by
  rw [Table.insert, if_pos rfl]

theorem get?_path (name : String) (e : Election) (es : Table Election) :
    Table.get? ((path name, e) :: es) (path name) = some e := by
  rw [Table.get?_cons, if_pos rfl]

theorem Reaches.get?_eq {calls : List Hub.Call} {es : Table Election} {name : String}
    {e : Election} (hr : Reaches calls ((path name, e) :: es)) :
    Table.get? (Hub.after host calls).elections (path name) = some e := by
  rw [hr.after_eq]
  exact get?_path ..

theorem path_ne : path "A" ≠ path "B" := by
  decide +kernel

theorem path_ne_lao : path "A" ≠ Path.lao "L" := by
  decide +kernel

theorem reaches_startedA (method : Method) :
    Reaches (startRun method) [(path "A", startedA method)] := by
  have hc := conducted_founded "A" method (n := 0) (by decide)
  have h₀ : Reaches [register, publish (Path.lao "L") (message 0 (.setup (ask "A" method)))]
      [(path "A", founded "A" method 0)] := Reaches.nil.founded method rfl rfl
  have h₁ := h₀.opened (n := 1) (get?_path ..) hc (by decide) (by decide)
  rw [insert_path] at h₁
  exact h₁

theorem reaches_castA (method : Method) : Reaches (castRun method) [(path "A", castA method)] := by
  have h₂ := (reaches_startedA method).voted (n := 2) (get?_path ..) (conducted_startedA method) rfl
    (by decide) (by decide)
  rw [insert_path] at h₂
  exact h₂

theorem reaches_votedA : Reaches voteRun [(path "A", votedA)] :=
  reaches_castA .approval

theorem reaches_endedA : Reaches endRun [(path "A", endedA)] := by
  have h₃ := reaches_votedA.ended (n := 3) (get?_path ..) conducted_votedA (by decide) (by decide)
    (by decide)
  rwa [insert_path] at h₃

theorem published_outcome {calls : List Hub.Call} {es : Table Election}
    (hr : Reaches calls ((path "A", endedA) :: es)) :
    (Hub.after host calls).Published (votedA.outcomeMessage host) :=
  ⟨path "A", endedA, hr.get?_eq, List.mem_append_right _ List.mem_cons_self⟩

theorem reaches_toldB : Reaches replayRun [(path "A", endedA), (path "B", toldB)] := by
  have h₄ : Reaches (endRun ++ [setUp "B" 4]) [(path "A", endedA), (path "B", created "B" 4)] := by
    have h₄ : Reaches (endRun ++ [setUp "B" 4])
        (Table.insert [(path "A", endedA)] (path "B") (created "B" 4)) := reaches_endedA.setUp
      (by rw [Table.get?_cons, if_neg path_ne, Table.get?_nil])
      (by rw [Table.get?_cons, if_neg path_ne_lao, Table.get?_nil])
    rwa [Table.insert, if_neg path_ne] at h₄
  have h₅ := h₄.told (by rw [Table.get?_cons, if_neg path_ne, get?_path]) conducted_createdB
    (by decide) conducted_votedA (published_outcome h₄)
  rw [Table.insert, if_neg path_ne, insert_path] at h₅
  rwa [List.append_assoc] at h₅

theorem reaches_openB : Reaches openRun [(path "A", endedA), (path "B", openB)] := by
  have h₆ := reaches_toldB.opened (n := 5) (by rw [Table.get?_cons, if_neg path_ne, get?_path])
    conducted_toldB (by decide) (by decide)
  rwa [Table.insert, if_neg path_ne, insert_path] at h₆

theorem get?_B {calls : List Hub.Call} {e e' : Election}
    (hr : Reaches calls [(path "A", e), (path "B", e')]) :
    Table.get? (Hub.after host calls).elections (path "B") = some e' := by
  rw [hr.after_eq, Table.get?_cons, if_neg path_ne, get?_path]

end Trial
end Plenum
