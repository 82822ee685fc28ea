import Plenum.Fault
import Plenum.Socket

namespace Plenum

-- What a request does. If it fails it may still have changed or sent something.
structure Turn (σ α : Type) where
  state : σ
  sent : List Delivery
  outcome : Except Fault α

namespace Turn

variable {σ τ α β : Type}

def done (s : σ) (a : α) : Turn σ α :=
  ⟨s, [], .ok a⟩

def refuse (s : σ) (f : Fault) : Turn σ α :=
  ⟨s, [], .error f⟩

-- Goes on from a turn that did not fail.
def andThen (t : Turn σ α) (next : σ → α → Turn σ β) : Turn σ β :=
  match t.outcome with
  | .error f => ⟨t.state, t.sent, .error f⟩
  | .ok a =>
    let u := next t.state a
    ⟨u.state, t.sent ++ u.sent, u.outcome⟩

-- The turn as a turn of a larger state.
def within (t : Turn σ α) (put : σ → τ) : Turn τ α :=
  ⟨put t.state, t.sent, t.outcome⟩

end Turn
end Plenum
