import FramedSasl.Codec
import FramedSasl.Outcome

/-! A scenario: what the two sides of a negotiation offer, say and answer, and where the run is
logged. A payload that is absent is not sent; an empty one is. -/

namespace FramedSasl

structure ServerPlan where
  mechanisms : List Bytes := []
  challenge : Option Bytes := none
  outcome : Outcome := .ok
  additionalData : Option Bytes := none
  deriving DecidableEq

structure ClientPlan where
  mechanism : Bytes := []
  hostname : Option Bytes := none
  initialResponse : Option Bytes := none
  response : Option Bytes := none
  deriving DecidableEq

structure Scenario where
  logLevel : Bytes := text "info"
  logPath : Bytes := text "/tmp/amqp_sasl.log"
  frameLimit : Nat := minimumLimit
  server : ServerPlan := {}
  client : ClientPlan := {}
  deriving DecidableEq

end FramedSasl
