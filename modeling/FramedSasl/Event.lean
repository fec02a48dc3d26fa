import FramedSasl.Frame
import FramedSasl.Journal.Record

/-! What an endpoint reports: each frame that passes, its failure, and the end of its negotiation.
Every report is a line on the console and, if there is a journal, an entry there. -/

namespace FramedSasl

/-- How a negotiation ended. `hostname` is the one that a server was asked for. -/
structure Verdict where
  role : Option Role
  mechanism : Bytes
  hostname : Option Bytes
  outcome : Outcome
  framesSent : Nat
  framesReceived : Nat
  deriving DecidableEq

inductive Event where
  | passed (traffic : Traffic) (frame : Frame) (size : Nat)
  | failed (fault : Fault)
  | finished (verdict : Verdict)
  deriving DecidableEq

/-- What became of a frame on its way out or in. -/
def Traffic.passed : Traffic → Bytes
  | .output => text "sent"
  | .input => text "received"

namespace Event

def level : Event → Level
  | passed .. => .debug
  | failed _ => .warn
  | finished _ => .info

def line : Event → Bytes
  | passed traffic frame size =>
    traffic.passed ++ text " " ++ frame.body.describe ++ text " size=" ++ decimal size ++
      if frame.more then text " more" else []
  | failed fault =>
    text "SASL transport failed: " ++ fault.message ++ text " (" ++ fault.context ++ text ")"
  | finished verdict =>
    text "SASL negotiation finished: " ++ bindings [binding "role" (roleName verdict.role),
      binding "mechanism" verdict.mechanism, binding "outcome" verdict.outcome.name]

def entry (endpoint : Bytes) : Event → Entry
  | passed traffic frame size => .frame
    { endpoint, direction := traffic.passed, frame := frame.kind.name, frameSize := size
      payloadSize := frame.body.payloadSize, more := frame.more }
  | failed fault => .failure
    { endpoint, code := fault.kind.name, message := fault.message, context := fault.context }
  | finished verdict => .negotiation
    { endpoint, role := roleName verdict.role, mechanism := verdict.mechanism
      hostname := verdict.hostname.getD [], outcome := verdict.outcome.name
      framesSent := verdict.framesSent, framesReceived := verdict.framesReceived }

/-- The records of an event of `endpoint` at the time `stamp`; `journal` is the least level of the
journal, if there is one. -/
def records (endpoint : Bytes) (journal : Option Level) (stamp : Bytes) (e : Event) :
    List Record :=
  .console e.level (text "[" ++ endpoint ++ text "] " ++ e.line) ::
    journal.elim [] fun least => Record.ofEntry least stamp (e.entry endpoint)

end Event

end FramedSasl
