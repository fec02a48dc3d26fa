import FramedSasl.Codec.Progress
import FramedSasl.Event
import FramedSasl.Session.Backlog

/-! An endpoint of a byte stream: a session, its codec and the protocol header that opens each
direction. `output` gives the bytes that are due, `input` takes in bytes of the peer, cut anywhere.
The first failure of either is final: every later call answers with the same fault. -/

namespace FramedSasl

/-- The first eight bytes in each direction. -/
def protocolHeader : Bytes := text "AMQP" ++ [3, 1, 0, 0]

structure Endpoint where
  name : Bytes
  session : Session := {}
  codec : Codec := {}
  headerSent : Bool := false
  /-- How much of the peer's protocol header is in. -/
  headerMatched : Nat := 0
  framesSent : Nat := 0
  framesReceived : Nat := 0
  /-- The end of the negotiation has been reported. -/
  reported : Bool := false
  failure : Option Fault := none
  deriving DecidableEq

/-- What one call on an endpoint did. -/
structure Turn (α : Type) where
  result : Except Fault α
  endpoint : Endpoint
  events : List Event

namespace Endpoint

def headerReceived (e : Endpoint) : Bool := e.headerMatched = protocolHeader.length

/-- A call on the session. -/
def inSession {α : Type} (call : Call Session α) : Call Endpoint α := ExceptT.mk fun e =>
  let (result, session) := call.on e.session
  (result, { e with session })

/-- A call on the codec. -/
def inCodec {α : Type} (call : Call Codec α) : Call Endpoint α := ExceptT.mk fun e =>
  let (result, codec) := call.on e.codec
  (result, { e with codec })

def fail {α : Type} (e : Endpoint) (fault : Fault) : Turn α :=
  ⟨.error fault, { e with failure := some fault }, [.failed fault]⟩

def verdict (e : Endpoint) : Verdict where
  role := e.session.role
  mechanism := e.session.selectedMechanism
  hostname := if e.session.role = some .server then e.session.hostname else none
  outcome := e.session.outcome
  framesSent := e.framesSent
  framesReceived := e.framesReceived

/-- Ends a call that went well: the end of the negotiation is reported once. -/
def conclude {α : Type} (e : Endpoint) (answer : α) (events : List Event) : Turn α :=
  if e.reported ∨ e.session.phase ≠ .done then ⟨.ok answer, e, events⟩
  else ⟨.ok answer, { e with reported := true }, events ++ [.finished e.verdict]⟩

/-- Runs `call` unless the endpoint has failed or has no role. -/
def guarded {α : Type} (e : Endpoint) (traffic : Traffic) (call : Turn α) : Turn α :=
  match e.failure with
  | some fault => ⟨.error fault, e, []⟩
  | none =>
    if e.session.role = none then ⟨.error (.endpoint (.unassigned traffic e.name)), e, []⟩
    else call

/-! ### Out -/

def sent (frame : Frame) : Event := .passed .output frame frame.size

/-- The frames of all performatives that are due. -/
def drain (e : Endpoint) : Turn Bytes :=
  match _h : Session.nextOutbound.on e.session with
  | (.error fault, session) => { e with session }.fail fault
  | (.ok none, session) => ⟨.ok [], { e with session }, []⟩
  | (.ok (some p), session) =>
    match (Codec.encode p).on e.codec with
    | (.error fault, codec) => { e with session, codec }.fail fault
    | (.ok frames, codec) =>
      let later := drain { e with session, codec, framesSent := e.framesSent + frames.length }
      { later with
        result := later.result.map (frames.flatMap Frame.serialize ++ ·)
        events := frames.map sent ++ later.events }
termination_by e.session.backlog
decreasing_by exact Session.nextOutbound_backlog _h

/-- The bytes that are due, behind the protocol header the first time. -/
def output (e : Endpoint) : Turn Bytes :=
  e.guarded .output <|
    let drained := drain { e with headerSent := true }
    match drained.result with
    | .error _ => drained
    | .ok bytes =>
      drained.endpoint.conclude ((if e.headerSent then [] else protocolHeader) ++ bytes)
        drained.events

/-! ### In -/

/-- Matches bytes with the protocol header from byte number `matched` on: how far it went, and the
bytes behind the header. -/
def matchHeader (matched : Nat) (data : Bytes) : Nat × Except Fault Bytes :=
  match data with
  | [] => (matched, .ok [])
  | b :: rest =>
    match protocolHeader[matched]? with
    | none => (matched, .ok (b :: rest))
    | some expected =>
      if b = expected then matchHeader (matched + 1) rest
      else (matched, .error (.endpoint (.header matched expected b)))

def received (arrival : Arrival) : Event := .passed .input arrival.frame arrival.size

/-- Takes in the performatives that are complete, and counts them. -/
def absorb (e : Endpoint) : Turn Nat :=
  let polled := e.codec.poll
  let e' := { e with
    codec := polled.codec, framesReceived := e.framesReceived + polled.arrivals.length }
  let arrived := polled.arrivals.map received
  match _h : polled.result with
  | .error fault => { e'.fail fault with events := arrived ++ [.failed fault] }
  | .ok none => ⟨.ok 0, e', arrived⟩
  | .ok (some p) =>
    match (Session.accept p).on e.session with
    | (.error fault, session) =>
      { { e' with session }.fail fault with events := arrived ++ [.failed fault] }
    | (.ok (), session) =>
      let later := absorb { e' with session }
      { later with result := later.result.map (· + 1), events := arrived ++ later.events }
termination_by e.codec.buffer.length
decreasing_by exact Codec.poll_length_lt _h

/-- Takes in bytes of the peer: the protocol header, then frames. Answers how many performatives
became complete. -/
def input (e : Endpoint) (data : Bytes) : Turn Nat :=
  e.guarded .input <|
    match matchHeader e.headerMatched data with
    | (matched, .error fault) => { e with headerMatched := matched }.fail fault
    | (matched, .ok rest) =>
      let absorbed := absorb { e with headerMatched := matched, codec := e.codec.feed rest }
      match absorbed.result with
      | .error _ => absorbed
      | .ok count => absorbed.endpoint.conclude count absorbed.events

end Endpoint

end FramedSasl
