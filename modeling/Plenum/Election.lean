import Plenum.Channel
import Plenum.Election.Question
import Plenum.Envelope
import Plenum.Lao

namespace Plenum

inductive Phase
  | created
  | started
  | terminated
  deriving DecidableEq, Repr

structure Election extends Channel where
  lao : String
  id : String
  name : String
  startTime : Int64
  endTime : Int64
  phase : Phase
  questions : List Question
  deriving DecidableEq, Repr

-- Why an election refuses a message.
inductive Election.Refusal
  | alreadySetUp
  | notOrganizer (sender : String)
  | notAttendee
  | notHost
  | otherLao (got expected : String)
  | otherElection (got expected : String)
  | outsideTimes (at_ start stop : Int64)
  | alreadyOpened
  | notOpen
  | terminated
  | endBeforeStart (at_ start : Int64)
  | unreadableVotes
  | notStarted
  | alreadyTerminated
  | unreadableQuestion (position : Nat) (id : String)
  | unknownQuestion (id : String)
  | ballot (defect : Ballot.Defect)
  deriving DecidableEq, Repr

-- What an accepted message does. A vote goes to the question at a position.
inductive Election.Ruling
  | start
  | vote (votes : List (Nat × Vote))
  | terminate
  | note
  deriving DecidableEq, Repr

namespace Election

def Refusal.fault : Refusal → Fault
  | alreadySetUp => .request "election is already set up"
  | notOrganizer sender => .unauthorized s!"sender is {sender}, should be the organizer"
  | notAttendee => .unauthorized "only attendees can cast a vote in an election"
  | notHost => .unauthorized "election results are only published by the server"
  | otherLao got expected => .request s!"lao id is {got}, should be {expected}"
  | otherElection got expected => .request s!"election id is {got}, should be {expected}"
  | outsideTimes t start stop =>
    .request s!"election cannot be opened at {t.toInt}, outside [{start.toInt}, {stop.toInt}]"
  | alreadyOpened => .request "election is already started or terminated"
  | notOpen => .request "election is not open yet"
  | terminated => .request "election is terminated"
  | endBeforeStart t start =>
    .request s!"election end created at {t.toInt} is before the start time {start.toInt}"
  | unreadableVotes => .request "registered_votes should be base64url encoded"
  | notStarted => .request "election is not started"
  | alreadyTerminated => .request "election is already terminated"
  | unreadableQuestion i id => .request s!"question id {i} {id}, should be base64URL encoded"
  | unknownQuestion id => .unknownQuestion id
  | ballot defect => defect.fault

def ofSetup (path : String) (s : Setup) : Election where
  toChannel := .empty path
  lao := s.lao
  id := s.id
  name := s.name
  startTime := s.startTime
  endTime := s.endTime
  phase := .created
  questions := s.questions.map .ofSetup

-- The position of a question, the last one if several have its id.
def position? (e : Election) (id : String) : Option Nat :=
  (e.questions.reverse.findIdx? (·.id = id)).map (e.questions.length - 1 - ·)

def question? (e : Election) (id : String) : Option Question := do
  e.questions[← e.position? id]?

-- Passes a message that names this election and its LAO.
def checkIds (e : Election) (lao election : String) : Except Refusal Unit := do
  if lao ≠ e.lao then throw (.otherLao lao e.lao)
  if election ≠ e.id then throw (.otherElection election e.id)

def judgeOpening (e : Election) (lao : Lao) (m : Message) (sender : Key) (p : Opening) :
    Except Refusal Ruling := do
  if sender ≠ lao.organizer then throw (.notOrganizer m.sender)
  e.checkIds p.lao p.election
  if p.openedAt < e.startTime ∨ e.endTime < p.openedAt then
    throw (.outsideTimes p.openedAt e.startTime e.endTime)
  if e.phase ≠ .created then throw .alreadyOpened
  return .start

def judgeBallot (e : Election) (m : Message) (castAt : Int64) (b : Ballot) :
    Except Refusal (Nat × Vote) :=
  match e.position? b.question with
  | none => .error (.unknownQuestion b.question)
  | some i =>
    match e.questions[i]? with
    | none => .error (.unknownQuestion b.question)
    | some q =>
      match q.check b.choices with
      | .error d => .error (.ballot d)
      | .ok choices => .ok (i, ⟨m.id, b.id, castAt, choices⟩)

def judgeVote (e : Election) (lao : Lao) (m : Message) (sender : Key) (p : CastVote) :
    Except Refusal Ruling := do
  if m.sender ∉ lao.attendees ∧ sender ≠ lao.organizer then throw .notAttendee
  e.checkIds p.lao p.election
  match e.phase with
  | .created => throw .notOpen
  | .terminated => throw .terminated
  | .started =>
    let votes ← p.votes.mapM (e.judgeBallot m p.createdAt)
    return .vote votes

def judgeClosing (e : Election) (lao : Lao) (m : Message) (sender : Key) (p : Closing) :
    Except Refusal Ruling := do
  if sender ≠ lao.organizer then throw (.notOrganizer m.sender)
  e.checkIds p.lao p.election
  if p.createdAt < e.startTime then throw (.endBeforeStart p.createdAt e.startTime)
  if Base64.decode? p.registeredVotes = none then throw .unreadableVotes
  match e.phase with
  | .created => throw .notStarted
  | .terminated => throw .alreadyTerminated
  | .started => return .terminate

-- The first question whose id is no base 64, with its position counted from `i`.
def unreadableQuestion? (i : Nat) : List QuestionOutcome → Option (Nat × String)
  | [] => none
  | q :: qs =>
    if Base64.decode? q.id = none then some (i, q.id) else unreadableQuestion? (i + 1) qs

def judgeOutcome (h : Host) (sender : Key) (p : Outcome) : Except Refusal Ruling := do
  if sender ≠ h.key then throw .notHost
  match unreadableQuestion? 0 p.questions with
  | some (i, id) => throw (.unreadableQuestion i id)
  | none => return .note

-- A message is judged before anything changes; `enact` then does what the ruling says.
def judge (h : Host) (e : Election) (lao : Lao) (m : Message) (sender : Key) :
    Payload → Except Refusal Ruling
  | .setup _ => .error .alreadySetUp
  | .opening p => e.judgeOpening lao m sender p
  | .castVote p => e.judgeVote lao m sender p
  | .closing p => e.judgeClosing lao m sender p
  | .outcome p => judgeOutcome h sender p

def setInbox (e : Election) (inbox : Inbox) : Election :=
  { e with inbox }

def release (e : Election) (id : String) : Election :=
  { e with toChannel := e.toChannel.release id }

def commit (e : Election) (m : Message) : Turn Election Unit :=
  (e.toChannel.commit m.id m).within fun c => { e with toChannel := c }

-- Opens a message and reserves its id.
def receive (S : Suite) (e : Election) (m : Message) : Except Fault (Election × Envelope) := do
  let env ← m.unseal S
  let inbox ← e.inbox.reserve m.id
  return (e.setInbox inbox, env)

def storeVote (voter : String) (qs : List Question) (v : Nat × Vote) : List Question :=
  qs.modify v.1 (·.update voter v.2)

def storeVotes (e : Election) (voter : String) (votes : List (Nat × Vote)) : Election :=
  { e with questions := votes.foldl (storeVote voter) e.questions }

-- The host's own message takes the way of any other, except that its payload is known.
def publishOutcome (h : Host) (e : Election) : Turn Election Unit :=
  let p := Outcome.gather e.questions
  let m := Message.sign h (Payload.outcome p).encode
  match e.receive h.suite m with
  | .error f => .refuse e f
  | .ok (e, env) =>
    match judgeOutcome h env.sender p with
    | .error r => .refuse (e.release m.id) r.fault
    | .ok _ => e.commit m

def enact (h : Host) (e : Election) (m : Message) : Ruling → Turn Election Unit
  | .start => (e.commit m).andThen fun e _ => .done { e with phase := .started } ()
  | .vote votes => (e.storeVotes m.sender votes).commit m
  | .terminate =>
    (e.commit m).andThen fun e _ => publishOutcome h { e with phase := .terminated }
  | .note => e.commit m

-- What becomes of an election to which a message is sent.
def process (h : Host) (e : Election) (lao : Lao) (m : Message) : Turn Election Unit :=
  match e.receive h.suite m with
  | .error f => .refuse e f
  | .ok (e, env) =>
    match Payload.decode env.payload with
    | .error f => .refuse (e.release m.id) f
    | .ok p =>
      match e.judge h lao m env.sender p with
      | .error r => .refuse (e.release m.id) r.fault
      | .ok ruling => e.enact h m ruling

end Election
end Plenum
