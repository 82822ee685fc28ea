import Plenum.Election
import Plenum.Text.Quoted

namespace Plenum

def Phase.name : Phase → String
  | .created => "Created"
  | .started => "Started"
  | .terminated => "Terminated"

-- Does not tell the seed.
def Host.summary (h : Host) : String :=
  s!"ServerKeys \x7b public_key: {Text.quoted h.publicText}, .. \x7d"

def Election.summary (e : Election) : String :=
  s!"ElectionChannel \x7b path: {Text.quoted e.path}, election_id: {Text.quoted e.id}, " ++
    s!"phase: {e.phase.name}, questions: {e.questions.length}, .. \x7d"

end Plenum
