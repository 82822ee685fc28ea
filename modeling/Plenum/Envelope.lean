import Plenum.Message
import Plenum.Payload.Decode

namespace Plenum

-- What is known of a message that passed.
structure Envelope where
  payload : Bytes
  sender : Key
  deriving DecidableEq

-- Opens a message, if it passes. Nothing counts here but the message itself.
def Message.unseal (S : Suite) (m : Message) : Except Fault Envelope := do
  let payload ← m.payload
  Payload.validate payload
  let sender ← m.verify S payload
  return { payload, sender }

end Plenum
