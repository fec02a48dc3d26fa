import FramedSasl.Journal.Json
import FramedSasl.Journal.Level

/-! Entries of the journal, one line of JSON each: a frame that passed, the end of a negotiation,
the failure of an endpoint. No entry holds a payload, only its length. -/

namespace FramedSasl

structure FrameEntry where
  endpoint : Bytes
  /-- `sent` or `received`. -/
  direction : Bytes
  frame : Bytes
  frameSize : Nat
  payloadSize : Nat
  more : Bool
  deriving DecidableEq

structure NegotiationEntry where
  endpoint : Bytes
  role : Bytes
  mechanism : Bytes
  hostname : Bytes
  outcome : Bytes
  framesSent : Nat
  framesReceived : Nat
  deriving DecidableEq

structure FailureEntry where
  endpoint : Bytes
  code : Bytes
  message : Bytes
  context : Bytes
  deriving DecidableEq

inductive Entry where
  | frame (entry : FrameEntry)
  | negotiation (entry : NegotiationEntry)
  | failure (entry : FailureEntry)
  deriving DecidableEq

namespace Entry

open Json

def level : Entry → Level
  | frame _ => .debug
  | negotiation _ => .info
  | failure _ => .warn

def members : Entry → List (String × Scalar)
  | frame e =>
    [("event", .string (text "sasl_frame")), ("endpoint", .string e.endpoint),
      ("direction", .string e.direction), ("frame", .string e.frame),
      ("frame_size", .number e.frameSize), ("payload_size", .number e.payloadSize),
      ("more", .bool e.more)]
  | negotiation e =>
    [("event", .string (text "sasl_outcome")), ("endpoint", .string e.endpoint),
      ("role", .string e.role), ("mechanism", .string e.mechanism),
      ("hostname", .string e.hostname), ("outcome", .string e.outcome),
      ("frames_sent", .number e.framesSent), ("frames_received", .number e.framesReceived)]
  | failure e =>
    [("event", .string (text "sasl_protocol_error")), ("endpoint", .string e.endpoint),
      ("code", .string e.code), ("message", .string e.message), ("context", .string e.context)]

/-- The entry as it is written at the time `stamp`. -/
def line (stamp : Bytes) (e : Entry) : Bytes :=
  object (e.members ++ [("timestamp", .string stamp)])

end Entry

end FramedSasl
