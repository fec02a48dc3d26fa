import FramedSasl.Proofs.EndpointTurns
import FramedSasl.Proofs.SessionTurns

/-! A client and a server with a wire in each direction. A wire keeps its bytes in order; any number
of them may come in at a time, and the owners of both sides may call at any time. Each side keeps a
log of the data that its owner gave and took. -/

namespace FramedSasl

structure Party where
  endpoint : Endpoint
  /-- The bytes on their way to this side. -/
  wire : Bytes := []
  /-- The data of the owner's calls that went well. -/
  given : Bytes := []
  /-- The bytes that the owner received. -/
  taken : Bytes := []

namespace Party

def fresh (name : Bytes) (side : Role) (limit peerLimit : Nat) : Party where
  endpoint := {
    name, session := { role := some side, phase := .configuring }, codec := { limit, peerLimit } }

/-- A call of the owner. -/
def obey (p : Party) (call : OwnerCall) : Party :=
  match (Endpoint.inSession call.run).on p.endpoint with
  | (.error _, endpoint) => { p with endpoint }
  | (.ok (), endpoint) => { p with endpoint, given := p.given ++ call.data }

/-- The owner receives up to `n` bytes. -/
def receive (p : Party) (n : Nat) : Party :=
  let (bytes, session) := p.endpoint.session.receive n
  { p with endpoint := { p.endpoint with session }, taken := p.taken ++ bytes }

def output (p : Party) : Party := { p with endpoint := p.endpoint.output.endpoint }

/-- The bytes of an output, none if it fails. -/
def sent (p : Party) : Bytes :=
  match p.endpoint.output.result with
  | .error _ => []
  | .ok bytes => bytes

def carry (p : Party) (bytes : Bytes) : Party := { p with wire := p.wire ++ bytes }

/-- The first `n` bytes of the wire come in. -/
def deliver (p : Party) (n : Nat) : Party :=
  { p with endpoint := (p.endpoint.input (p.wire.take n)).endpoint, wire := p.wire.drop n }

end Party

/-- The limits of one direction, a word of 32 bits each: the sender's is no more than the
receiver's. -/
structure Room where
  sender : Nat
  receiver : Nat
  least : minimumLimit ≤ sender
  word : sender < wordCount
  fits : sender ≤ receiver

instance : Inhabited Room :=
  ⟨⟨minimumLimit, minimumLimit, Nat.le_refl _, by decide, Nat.le_refl _⟩⟩

structure Link where
  client : Party
  server : Party

inductive Move where
  | call (side : Role) (call : OwnerCall)
  | receive (side : Role) (n : Nat)
  | output (side : Role)
  | deliver (side : Role) (n : Nat)

namespace Link

/-- Before any call. -/
def fresh (clientName serverName : Bytes) (toServer toClient : Room) : Link where
  client := .fresh clientName .client toClient.receiver toServer.sender
  server := .fresh serverName .server toServer.receiver toClient.sender

def party (l : Link) : Role → Party
  | .client => l.client
  | .server => l.server

def step (l : Link) : Move → Link
  | .call .client call => { l with client := l.client.obey call }
  | .call .server call => { l with server := l.server.obey call }
  | .receive .client n => { l with client := l.client.receive n }
  | .receive .server n => { l with server := l.server.receive n }
  | .output .client => ⟨l.client.output, l.server.carry l.client.sent⟩
  | .output .server => ⟨l.client.carry l.server.sent, l.server.output⟩
  | .deliver .client n => { l with client := l.client.deliver n }
  | .deliver .server n => { l with server := l.server.deliver n }

def run (l : Link) (moves : List Move) : Link := moves.foldl step l

end Link

namespace Party

variable {p : Party} {side : Role}

/-- A call of the owner changes the session, and the log by the bytes that it queues. -/
theorem obey_cases (h : p.endpoint.session.role = some side) (call : OwnerCall) :
    ∃ result s more, Session.Obeys side p.endpoint.session call (result, s) ∧
      s.outbound = p.endpoint.session.outbound ++ more ∧
        s.inbound = p.endpoint.session.inbound ∧
          p.obey call = { p with
            endpoint := { p.endpoint with session := s }, given := p.given ++ more } := by
  have hobeys := Session.obey_cases h call
  rw [obey, Endpoint.on_inSession]
  generalize Call.on p.endpoint.session call.run = answer at hobeys ⊢
  have hnone : p.given ++ [] = p.given := List.append_nil _
  have hkept : p.endpoint.session.outbound = p.endpoint.session.outbound ++ [] :=
    (List.append_nil _).symm
  cases hobeys with
  | refused _ fault => exact ⟨_, _, [], .refused _ fault, hkept, rfl, by rw [hnone]⟩
  | sameRole requested => exact ⟨_, _, [], .sameRole requested, hkept, rfl, rfl⟩
  | named names hunset hne hnames hone =>
    exact ⟨_, _, [], .named names hunset hne hnames hone, hkept, rfl, rfl⟩
  | asked name hrole hearly => exact ⟨_, _, [], .asked name hrole hearly, hkept, rfl, rfl⟩
  | queued bytes hset hundecided =>
    exact ⟨_, _, bytes, .queued bytes hset hundecided, rfl, rfl, rfl⟩
  | declared outcome data hrole hfirst hdecided =>
    refine ⟨_, _, data.getD [], .declared outcome data hrole hfirst hdecided, ?_, ?_, rfl⟩
    · cases data with
      | none => exact hkept
      | some data => rfl
    · cases data <;> rfl

theorem output_of_failure {fault : Fault} (h : p.endpoint.failure = some fault) :
    p.endpoint.output.result = .error fault ∧ p.output = p ∧ p.sent = [] := by
  simp only [output, sent, Endpoint.output_of_failure h, and_self]

theorem deliver_of_failure {fault : Fault} (h : p.endpoint.failure = some fault) (n : Nat) :
    (p.endpoint.input (p.wire.take n)).result = .error fault ∧
      p.deliver n = { p with wire := p.wire.drop n } := by
  simp only [deliver, Endpoint.input_of_failure h, and_self]

end Party

end FramedSasl
