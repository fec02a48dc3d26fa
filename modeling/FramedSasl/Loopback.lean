import FramedSasl.Endpoint.Credit
import FramedSasl.Note
import FramedSasl.Scenario

/-! A negotiation in one place: two endpoints whose bytes go straight to each other (`pump`), driven
through a scenario (`negotiate`). Every round of a pump with bytes in it uses up credit of one of
the two, so that it ends. -/

namespace FramedSasl

/-- Two endpoints back to back, and the notes so far. -/
structure Pair where
  client : Endpoint := { name := text "client" }
  server : Endpoint := { name := text "server" }
  notes : List Note := []
  deriving DecidableEq

namespace Pair

def endpoint (p : Pair) : Role → Endpoint
  | .client => p.client
  | .server => p.server

def put (p : Pair) (side : Role) (e : Endpoint) : Pair :=
  match side with
  | .client => { p with client := e }
  | .server => { p with server := e }

def say (level : Level) (line : Bytes) : Call Pair Unit :=
  modify fun p => { p with notes := p.notes ++ [.say level line] }

/-- A call on one endpoint. -/
def ask {α : Type} (side : Role) (call : Call Endpoint α) : Call Pair α := ExceptT.mk fun p =>
  let (result, e) := call.on (p.endpoint side)
  (result, p.put side e)

/-- A call on the session of one endpoint. -/
def session {α : Type} (side : Role) (call : Call Session α) : Call Pair α :=
  ask side (Endpoint.inSession call)

/-- The pair after bytes have passed one endpoint. -/
def passed {α : Type} (p : Pair) (side : Role) (turn : Turn α) : Pair :=
  { p.put side turn.endpoint with
    notes := p.notes ++ turn.events.map (.report (p.endpoint side).name) }

/-- Bytes out of or into one endpoint. -/
def pass {α : Type} (side : Role) (turn : Endpoint → Turn α) : Call Pair α := ExceptT.mk fun p =>
  ((turn (p.endpoint side)).result, p.passed side (turn (p.endpoint side)))

/-! ### Moving bytes -/

/-- What the client has to send goes to the server, and then the other way. Answers whether there
was anything. -/
def round : Call Pair Bool := do
  let forth ← pass .client Endpoint.output
  let _ ← pass .server (·.input forth)
  let back ← pass .server Endpoint.output
  let _ ← pass .client (·.input back)
  return forth ≠ [] ∨ back ≠ []

def credit (p : Pair) : Nat := p.client.credit + p.server.credit

theorem on_pass_bind {α β : Type} (p : Pair) (side : Role) (turn : Endpoint → Turn α)
    (next : α → Call Pair β) :
    Call.on p (pass side turn >>= next) =
      match (turn (p.endpoint side)).result with
      | .error fault => (.error fault, p.passed side (turn (p.endpoint side)))
      | .ok a => Call.on (p.passed side (turn (p.endpoint side))) (next a) := by
  have h : Call.on p (pass side turn) =
      ((turn (p.endpoint side)).result, p.passed side (turn (p.endpoint side))) := rfl
  rw [Call.on_bind, h]
  cases (turn (p.endpoint side)).result <;> rfl

theorem round_credit {p p' : Pair} (h : round.on p = (.ok true, p')) : p'.credit < p.credit := by
  simp only [round, on_pass_bind, Call.on_pure, passed, put, endpoint] at h
  split at h
  · cases h
  · next forth hforth =>
    split at h
    · cases h
    · split at h
      · cases h
      · next back hback =>
        split at h
        · cases h
        · simp only [Prod.mk.injEq, Except.ok.injEq, decide_eq_true_eq] at h
          obtain ⟨hmoved, rfl⟩ := h
          have h₁ := p.client.output_credit_le
          have h₂ := p.server.input_credit forth
          have h₃ := (p.server.input forth).endpoint.output_credit_le
          have h₄ := p.client.output.endpoint.input_credit back
          simp only [credit]
          rcases hmoved with hne | hne
          · have := Endpoint.output_credit hforth hne
            omega
          · have := Endpoint.output_credit hback hne
            omega

/-- Rounds until nothing moves. -/
def pumpFrom (p : Pair) : Except Fault Unit × Pair :=
  match _h : round.on p with
  | (.error fault, p') => (.error fault, p')
  | (.ok false, p') => (.ok (), p')
  | (.ok true, p') => pumpFrom p'
termination_by p.credit
decreasing_by exact round_credit _h

def pump : Call Pair Unit := ExceptT.mk pumpFrom

/-! ### The course of a scenario -/

/-- Takes all that came in at one side, and counts its bytes. -/
def collect (side : Role) : Call Pair Nat := do
  let p ← get
  let s := (p.endpoint side).session
  set (p.put side { p.endpoint side with session := (s.receive s.pending).2 })
  return s.pending

def bytesNote (who what : String) (count : Nat) : Call Pair Unit :=
  say .info (text who ++ text ": received " ++ text what ++ text " of " ++ decimal count ++
    text " bytes")

/-- Roles, limits, the server's mechanisms and the client's host name. -/
def configure (s : Scenario) : Call Pair Unit := Call.together <|
  [session .client (Session.assignRole (some .client)),
    session .server (Session.assignRole (some .server)),
    ask .client (Endpoint.inCodec (Codec.setLimit s.frameLimit)),
    ask .server (Endpoint.inCodec (Codec.setLimit s.frameLimit)),
    ask .client (Endpoint.inCodec (Codec.setPeerLimit s.frameLimit)),
    ask .server (Endpoint.inCodec (Codec.setPeerLimit s.frameLimit)),
    session .server (Session.setMechanisms s.server.mechanisms)] ++
  s.client.hostname.toList.map fun name => session .client (Session.setHostname name)

/-- The server's offer. -/
def offer : Call Pair Unit := do
  pump
  say .info (text "client: server offers " ++
    decimal (← get).client.session.remoteMechanisms.length ++ text " mechanism(s)")

/-- The client's choice, with its initial response if it has one. -/
def choose (s : Scenario) : Call Pair Unit := do
  session .client (Session.setMechanisms [s.client.mechanism])
  match s.client.initialResponse with
  | none => pump
  | some data => do
    session .client (Session.send data)
    pump
  let server := (← get).server.session
  say .info (text "server: client selected " ++ server.selectedMechanism ++
    text ", initial response " ++ decimal server.pending ++ text " bytes")
  let _ ← collect .server

/-- The client's response, if it has one. -/
def respond (s : Scenario) : Call Pair Unit := do
  match s.client.response with
  | none => return ()
  | some data =>
    session .client (Session.send data)
    pump
    bytesNote "server" "response" (← collect .server)

/-- The server's challenge, if it has one, and the response. -/
def challenge (s : Scenario) : Call Pair Unit := do
  match s.server.challenge with
  | none => return ()
  | some data =>
    session .server (Session.send data)
    pump
    bytesNote "client" "challenge" (← collect .client)
    respond s

/-- The server's outcome, as the client sees it. -/
def conclude (s : Scenario) : Call Pair Outcome := do
  session .server (Session.declare s.server.outcome s.server.additionalData)
  pump
  let count ← collect .client
  if 0 < count then bytesNote "client" "additional data" count
  return (← get).client.session.outcome

/-- The outcome of the whole scenario. -/
def negotiate (s : Scenario) : Call Pair Outcome := do
  configure s
  offer
  choose s
  challenge s
  conclude s

end Pair

end FramedSasl
