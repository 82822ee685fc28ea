import Plenum.Fault
import Plenum.Payload
import Plenum.Table

namespace Plenum

-- What can be wrong with a ballot.
inductive Ballot.Defect
  | noChoice
  | notOneChoice
  | outOfRange (choice : Int64) (question : String)
  | repeated (choice : Int64) (question : String)
  deriving DecidableEq, Repr

def Ballot.Defect.fault : Ballot.Defect → Fault
  | noChoice => .ballot "no ballot option was chosen for plurality voting method"
  | notOneChoice => .ballot "approval voting method requires exactly one ballot option"
  | outOfRange i q => .ballot s!"ballot option index {i.toInt} out of range for question {q}"
  | repeated i q => .ballot s!"ballot option index {i.toInt} chosen twice for question {q}"

-- The vote of one voter on one question, with the message it came in.
structure Vote where
  message : String
  ballot : String
  castAt : Int64
  choices : List Nat
  deriving DecidableEq, Repr

structure Question where
  id : String
  options : List String
  method : Method
  votes : Table Vote
  deriving DecidableEq, Repr

namespace Question

def ofSetup (q : SetupQuestion) : Question :=
  ⟨q.id, q.options, q.method, []⟩

-- `seen` holds the positions that came before.
def positions (q : Question) (seen : List Nat) : List Int64 → Except Ballot.Defect (List Nat)
  | [] => .ok []
  | i :: is =>
    let n := i.toInt.toNat
    if i.toInt < 0 ∨ q.options.length ≤ n then .error (.outOfRange i q.id)
    else if n ∈ seen then .error (.repeated i q.id)
    else do
      let ns ← positions q (n :: seen) is
      return n :: ns

-- Checks a ballot: how many options it names, then which.
def check (q : Question) (choices : List Int64) : Except Ballot.Defect (List Nat) :=
  if q.method = .plurality ∧ choices = [] then .error .noChoice
  else if q.method = .approval ∧ choices.length ≠ 1 then .error .notOneChoice
  else q.positions [] choices

def voteOf? (q : Question) (voter : String) : Option Vote :=
  Table.get? q.votes voter

-- Whether a vote takes the place of what the voter has now.
def replaces (q : Question) (voter : String) (v : Vote) : Bool :=
  match q.voteOf? voter with
  | none => true
  | some w => v.castAt < w.castAt

-- Of the votes of one voter the earliest stands, and of two with the same time the one that came
-- first.
def update (q : Question) (voter : String) (v : Vote) : Question :=
  if q.replaces voter v then { q with votes := Table.insert q.votes voter v } else q

def voteCount (q : Question) : Nat :=
  q.votes.length

-- How many times the votes name each option, in the order of the options.
def tally (q : Question) : List (String × Nat) :=
  q.options.mapIdx fun i o => (o, (q.votes.flatMap fun v => v.2.choices).count i)

end Question

-- The payload that reports the votes: questions that are put to plurality, in order.
def Outcome.gather (qs : List Question) : Outcome where
  object := Payload.object
  action := Payload.Kind.outcome.action
  questions := (qs.filter (·.method = .plurality)).map fun q =>
    ⟨q.id, q.tally.map fun (o, n) => ⟨o, .ofNat n⟩⟩

end Plenum
