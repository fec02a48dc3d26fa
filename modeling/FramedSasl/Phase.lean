import FramedSasl.Performative

/-! The phases of an exchange and the performatives that move it on. Both sides follow one table,
the sender when it sends and the receiver when it receives. -/

namespace FramedSasl

inductive Phase where
  | unconfigured
  | configuring
  | mechanismExchange
  | challengeResponse
  | done
  deriving DecidableEq, Repr

namespace Phase

def name : Phase → Bytes
  | unconfigured => text "unconfigured"
  | configuring => text "configuring"
  | mechanismExchange => text "mechanism-exchange"
  | challengeResponse => text "challenge-response"
  | done => text "done"

/-- The phase after a performative of this kind, if it may pass in this phase. -/
def after? : Phase → Kind → Option Phase
  | configuring, .mechanisms => some mechanismExchange
  | mechanismExchange, .init => some mechanismExchange
  | mechanismExchange, .challenge => some challengeResponse
  | mechanismExchange, .outcome => some done
  | challengeResponse, .challenge => some challengeResponse
  | challengeResponse, .response => some challengeResponse
  | challengeResponse, .outcome => some done
  | _, _ => none

end Phase

end FramedSasl
