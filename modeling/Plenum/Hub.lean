import Plenum.Answer
import Plenum.Election

namespace Plenum

namespace Path

-- Where all paths begin.
def root : String :=
  "/root"

def lao (id : String) : String :=
  s!"{root}/{id}"

def election (lao id : String) : String :=
  s!"{root}/{lao}/{id}"

-- The LAO id that a path would be the path of.
def lao? (path : String) : Option String :=
  ((root ++ "/").toList.isPrefixOf? path.toList).map String.ofList

end Path

namespace Suite

def electionId (S : Suite) (lao : String) (createdAt : Int64) (name : String) : String :=
  S.identifier ["Election", lao, toString createdAt.toInt, name]

def questionId (S : Suite) (election question : String) : String :=
  S.identifier ["Question", election, question]

end Suite

-- What can be wrong with the content of a setup.
inductive Setup.Defect
  | otherLao (got expected : String)
  | otherId (got expected : String)
  | endsBeforeStart
  | noQuestions
  | otherQuestionId (got expected : String)
  | repeatedQuestion (id : String)
  | noOptions (question : String)
  deriving DecidableEq, Repr

def Setup.Defect.fault : Setup.Defect → Fault
  | otherLao got expected => .request s!"lao id is {got}, should be {expected}"
  | otherId got expected => .request s!"election id is {got}, should be {expected}"
  | endsBeforeStart => .request "election end time is before its start time"
  | noQuestions => .request "election has no questions"
  | otherQuestionId got expected => .request s!"question id is {got}, should be {expected}"
  | repeatedQuestion id => .request s!"duplicate question id {id}"
  | noOptions question => .request s!"question {question} has no ballot options"

namespace Setup

-- `seen` holds the ids of the questions before.
def checkQuestions (S : Suite) (election : String) (seen : List String) :
    List SetupQuestion → Except Defect Unit
  | [] => .ok ()
  | q :: qs => do
    let expected := S.questionId election q.question
    if q.id ≠ expected then throw (.otherQuestionId q.id expected)
    if q.id ∈ seen then throw (.repeatedQuestion q.id)
    if q.options = [] then throw (.noOptions q.id)
    checkQuestions S election (q.id :: seen) qs

-- Checks a setup against the LAO it is sent to.
def check (S : Suite) (lao : String) (s : Setup) : Except Defect Unit := do
  if s.lao ≠ lao then throw (.otherLao s.lao lao)
  let expected := S.electionId lao s.createdAt s.name
  if s.id ≠ expected then throw (.otherId s.id expected)
  if s.endTime < s.startTime then throw .endsBeforeStart
  if s.questions = [] then throw .noQuestions
  checkQuestions S s.id [] s.questions

end Setup

-- The LAOs that are known, and the elections, each under its path.
structure Hub where
  laos : Table Lao
  elections : Table Election
  deriving DecidableEq

-- What a client gets back besides the lines that were sent: the answer, if one is due.
structure Reply where
  hub : Hub
  sent : List Delivery
  answer : Option Answer

namespace Hub

def empty : Hub :=
  ⟨[], []⟩

-- Registers a LAO. Of a LAO that is known, the organizer changes and attendees are added.
def register (hub : Hub) (id : String) (organizer : Key) (attendees : List String) : Hub :=
  let known := (Table.get? hub.laos id).elim [] Lao.attendees
  { hub with laos := Table.insert hub.laos id ⟨organizer, Attendees.addAll known attendees⟩ }

def addAttendees (hub : Hub) (id : String) (keys : List String) : Except Fault Hub :=
  match Table.get? hub.laos id with
  | none => .error (.unknownChannel (Path.lao id))
  | some lao =>
    let lao := { lao with attendees := Attendees.addAll lao.attendees keys }
    .ok { hub with laos := Table.insert hub.laos id lao }

-- The LAO whose path this is, with its id.
def laoAt? (hub : Hub) (path : String) : Option (String × Lao) := do
  let id ← Path.lao? path
  let lao ← Table.get? hub.laos id
  return (id, lao)

def setElection (hub : Hub) (path : String) (e : Election) : Hub :=
  { hub with elections := Table.insert hub.elections path e }

-- Creates the election that a message sent to `path` sets up. The message is the first in its
-- log.
def setUp (h : Host) (hub : Hub) (path : String) (m : Message) : Except Fault (Hub × Election) := do
  let env ← m.unseal h.suite
  let .setup s ← Payload.decode env.payload
    | throw (.request s!"only election#setup can be published on {path}")
  let some (id, lao) := hub.laoAt? path
    | throw (.unknownChannel path)
  if env.sender ≠ lao.organizer then
    throw (.unauthorized s!"sender is {m.sender}, should be the organizer")
  match s.check h.suite id with
  | .error d => throw d.fault
  | .ok () =>
    let place := Path.election id s.id
    if Table.contains hub.elections place then throw (.duplicate s!"election {s.id}")
    let e := Election.ofSetup place s
    let e := e.setInbox (e.inbox.store m)
    return (hub.setElection place e, e)

-- Sends a message to the election at a path.
def process (h : Host) (hub : Hub) (path : String) (e : Election) (m : Message) : Turn Hub Unit :=
  match Table.get? hub.laos e.lao with
  | none => .refuse hub (.unknownChannel path)
  | some lao => (e.process h lao m).within (hub.setElection path)

-- Sends a message to a path with no election: only setups are welcome, and only at a LAO.
def processAtLao (h : Host) (hub : Hub) (path : String) (m : Message) : Turn Hub Unit :=
  let created : Except Fault Hub := do
    if (hub.laoAt? path).isNone then throw (.unknownChannel path)
    let b ← m.payload
    let header ← Header.read b
    if header.kind? ≠ some .setup then
      throw (.request s!"{header.object}#{header.action} is not handled on {path}")
    let (hub, _) ← hub.setUp h path m
    return hub
  match created with
  | .error f => .refuse hub f
  | .ok hub => .done hub ()

-- Runs a request to its answer.
def run (h : Host) (hub : Hub) (q : Query) (s : Socket) : Turn Hub Answer :=
  let path := q.channel
  match Table.get? hub.elections path with
  | none =>
    match q with
    | .publish _ id _ m =>
      (hub.processAtLao h path m).andThen fun hub _ => .done hub (.ok (some id))
    | .broadcast _ id _ m =>
      (hub.processAtLao h path m).andThen fun hub _ => .done hub (.ok id)
    | _ => .refuse hub (.unknownChannel path)
  | some e =>
    match q with
    | .subscribe _ id _ =>
      let e := { e with toChannel := e.subscribe s }
      .done (hub.setElection path e) (.ok (some id))
    | .unsubscribe _ id _ =>
      match e.unsubscribe s.id with
      | .error f => .refuse hub f
      | .ok c => .done (hub.setElection path { e with toChannel := c }) (.ok (some id))
    | .publish _ id _ m =>
      (hub.process h path e m).andThen fun hub _ => .done hub (.ok (some id))
    | .broadcast _ id _ m =>
      (hub.process h path e m).andThen fun hub _ => .done hub (.ok id)
    | .catchup _ id _ => .done hub (.log (some id) e.inbox.messages)

-- Runs a request. One without id is answered only if it fails.
def handle (h : Host) (hub : Hub) (q : Query) (s : Socket) : Reply :=
  let t := hub.run h q s
  match t.outcome with
  | .error f => ⟨t.state, t.sent, some (.fault q.id? f)⟩
  | .ok a => ⟨t.state, t.sent, if q.id? = none then none else some a⟩

-- Reads a line and runs the request on it.
def handleLine (h : Host) (hub : Hub) (line : String) (s : Socket) : Reply :=
  match Query.parse line with
  | .error f => ⟨hub, [], some (.fault none f)⟩
  | .ok q => hub.handle h q s

-- Takes a socket out of every election.
def removeSocket (hub : Hub) (id : String) : Hub :=
  { hub with elections := hub.elections.map fun (path, e) =>
      (path, { e with toChannel := e.removeSocket id }) }

end Hub
end Plenum
