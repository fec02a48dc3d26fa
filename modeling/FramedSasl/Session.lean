import FramedSasl.Call
import FramedSasl.MechanismList
import FramedSasl.Order

/-! One side of an exchange, without any bytes on a wire. The owner chooses a role, sets mechanisms,
queues payloads and, on the server, declares the outcome; `nextOutbound` gives the performative
that is due, `accept` takes in one of the peer. -/

namespace FramedSasl

structure Session where
  role : Option Role := none
  phase : Phase := .unconfigured
  /-- What a server offers, or the one that a client chose. -/
  localMechanisms : List Bytes := []
  /-- What the peer offers or chose. -/
  remoteMechanisms : List Bytes := []
  /-- The host name that the client asks for. -/
  hostname : Option Bytes := none
  /-- The init was sent, or has come in. -/
  initPassed : Bool := false
  /-- A challenge has no response yet. -/
  challengeOpen : Bool := false
  /-- Payload bytes for the next performative that carries some. -/
  outbound : Bytes := []
  /-- A payload is queued, perhaps one of no bytes. -/
  hasOutbound : Bool := false
  /-- Payload bytes that came in and were not received by the owner. -/
  inbound : Bytes := []
  outcome : Outcome := .undecided
  deriving DecidableEq

/-- How far a session is. -/
inductive Standing where
  | idle
  | step
  | pass
  | fail
  deriving DecidableEq, Repr

def Standing.name : Standing → Bytes
  | .idle => text "idle"
  | .step => text "step"
  | .pass => text "pass"
  | .fail => text "fail"

namespace Session

def standing (s : Session) : Standing :=
  match s.outcome with
  | .ok => .pass
  | .undecided => if s.phase = .unconfigured ∨ s.phase = .configuring then .idle else .step
  | _ => .fail

/-- The mechanism of the init, empty when there is none. -/
def selectedMechanism (s : Session) : Bytes :=
  (if s.role = some .server then s.remoteMechanisms else s.localMechanisms).headD []

def pending (s : Session) : Nat := s.inbound.length

def refuse {α : Type} (fault : SessionFault) : Call Session α := throw (.session fault)

/-! ### Calls of the owner -/

def assignRole (requested : Option Role) : Call Session Unit := do
  let s ← get
  match requested, s.role with
  | none, _ => refuse .noRoleGiven
  | some role, none => set { s with role := some role, phase := .configuring }
  | some role, some current =>
    if current = role then return () else refuse (.roleAssigned current role)

def setMechanisms (names : List Bytes) : Call Session Unit := do
  let s ← get
  if s.role = none then refuse .mechanismsUnassigned
  else if s.localMechanisms ≠ [] then refuse (.mechanismsSet s.localMechanisms)
  else if names = [] then refuse .noMechanisms
  else if s.role = some .client ∧ names.length ≠ 1 then refuse (.notOneMechanism names.length)
  else match nameFlaw? names with
    | some .empty => refuse .emptyMechanism
    | some (.duplicate name) => refuse (.duplicateMechanism name)
    | none => set { s with localMechanisms := names }

/-- A client's host name, until the init is sent. -/
def setHostname (name : Bytes) : Call Session Unit := do
  let s ← get
  if s.role ≠ some .client then refuse (.needsRole .setHostname s.role)
  else if s.initPassed then refuse (.hostnameAfterInit name)
  else set { s with hostname := some name }

/-- The host name that a server was asked for. -/
def requestedHostname (s : Session) : Except Fault (Option Bytes) :=
  if s.role ≠ some .server then .error (.session (.needsRole .hostname s.role))
  else .ok s.hostname

/-- `data` behind what is queued. Queueing no bytes is not the same as queueing nothing. -/
def enqueue (s : Session) (data : Bytes) : Session :=
  { s with outbound := s.outbound ++ data, hasOutbound := true }

/-- The payload that is queued, if any, and the session without it. -/
def takeOutbound (s : Session) : Option Bytes × Session :=
  if s.hasOutbound then (some s.outbound, { s with outbound := [], hasOutbound := false })
  else (none, s)

def queued (s : Session) : Option Bytes := if s.hasOutbound then some s.outbound else none

/-- Bytes in the buffer that no flag stands for; they stay in it. -/
def unflagged (s : Session) : Bytes := if s.hasOutbound then [] else s.outbound

theorem takeOutbound_eq (s : Session) :
    s.takeOutbound = (s.queued, { s with outbound := s.unflagged, hasOutbound := false }) := by
  rcases s with ⟨_, _, _, _, _, _, _, _, _ | _, _, _⟩ <;> rfl

theorem queued_of_flag {s : Session} (h : s.hasOutbound = true) : s.queued = some s.outbound := by
  rw [queued, if_pos h]

theorem unflagged_of_flag {s : Session} (h : s.hasOutbound = true) : s.unflagged = [] := by
  rw [unflagged, if_pos h]

theorem queued_eq_none {s : Session} : s.queued = none ↔ s.hasOutbound = false := by
  unfold queued
  split <;> simp_all

theorem flag_of_queued {s : Session} {payload : Bytes} (h : s.queued = some payload) :
    s.hasOutbound = true ∧ s.outbound = payload := by
  have hflag : s.hasOutbound = true := by
    rw [← Bool.not_eq_false, ← queued_eq_none, h]
    exact Option.some_ne_none payload
  exact ⟨hflag, Option.some.inj ((queued_of_flag hflag).symm.trans h)⟩

/-- What is taken and what stays are the whole buffer. -/
theorem queued_append_unflagged (s : Session) : s.queued.getD [] ++ s.unflagged = s.outbound := by
  rcases s with ⟨_, _, _, _, _, _, _, outbound, _ | _, _, _⟩
  · rfl
  · exact List.append_nil outbound

def send (data : Bytes) : Call Session Unit := do
  let s ← get
  match s.role with
  | none => refuse .sendUnassigned
  | some role =>
    if s.localMechanisms = [] then refuse (.sendBeforeMechanisms role)
    else if s.outcome ≠ .undecided then refuse (.sendAfterOutcome role s.outcome)
    else set (s.enqueue data)

/-- The first `n` bytes that came in, and the session without them. -/
def receive (s : Session) (n : Nat) : Bytes × Session :=
  (s.inbound.take n, { s with inbound := s.inbound.drop n })

/-- The server's verdict, with data for the client if there are any. -/
def declare (outcome : Outcome) (data : Option Bytes) : Call Session Unit := do
  let s ← get
  if s.role ≠ some .server then refuse (.needsRole .declare s.role)
  else if outcome = .undecided then refuse .outcomeUndecided
  else if s.outcome ≠ .undecided then refuse (.outcomeDeclared s.outcome outcome)
  else
    let s := { s with outcome }
    set (data.elim s s.enqueue)

/-! ### Performatives out -/

/-- Sends `p`, with `after` as the session but for the phase. -/
def emit (p : Performative) (after : Session) : Call Session (Option Performative) := do
  let s ← get
  let phase ← ofExcept (s.phase.afterSending s.role p.kind)
  set { after with phase }
  return some p

/-- A client sends its init once both sides have named mechanisms, then a response to each
challenge as soon as one is queued. -/
def clientOutbound : Call Session (Option Performative) := do
  let s ← get
  let (payload, rest) := s.takeOutbound
  if s.phase = .done then return none
  else if s.initPassed then
    if s.challengeOpen ∧ s.hasOutbound then
      emit (.response (payload.getD [])) { rest with challengeOpen := false }
    else return none
  else
    match s.localMechanisms, s.remoteMechanisms with
    | mechanism :: _, _ :: _ =>
      emit (.init mechanism payload s.hostname) { rest with initPassed := true }
    | _, _ => return none

/-- A server sends its mechanisms first. Behind the init, and while no challenge is open, it sends
the outcome once there is one, else what is queued as a challenge. -/
def serverOutbound : Call Session (Option Performative) := do
  let s ← get
  let (payload, rest) := s.takeOutbound
  if s.phase = .done then return none
  else if s.phase = .configuring then
    if s.localMechanisms = [] then return none
    else emit (.mechanisms s.localMechanisms) s
  else if s.initPassed = false ∨ s.challengeOpen then return none
  else if s.outcome ≠ .undecided then emit (.outcome s.outcome payload) rest
  else if s.hasOutbound then
    emit (.challenge (payload.getD [])) { rest with challengeOpen := true }
  else return none

/-- The performative that is due, if any. -/
def nextOutbound : Call Session (Option Performative) := do
  match (← get).role with
  | none => refuse .framesUnassigned
  | some .client => clientOutbound
  | some .server => serverOutbound

/-! ### Performatives in -/

/-- What a client makes of a performative, but for the phase. -/
def clientApply (p : Performative) : Call Session Unit := do
  let s ← get
  match p with
  | .mechanisms names =>
    if names = [] then refuse .noMechanismAdvertised
    else set { s with remoteMechanisms := names }
  | .challenge payload =>
    if s.initPassed = false then refuse .challengeBeforeInit
    else if s.challengeOpen then refuse .challengeUnanswered
    else set { s with inbound := s.inbound ++ payload, challengeOpen := true }
  | .outcome code data =>
    if s.initPassed = false then refuse .outcomeBeforeInit
    else set { s with
      inbound := s.inbound ++ data.getD [], challengeOpen := false, outcome := code }
  | p => refuse (.ownFrame .client p.kind)

/-- What a server makes of a performative, but for the phase. -/
def serverApply (p : Performative) : Call Session Unit := do
  let s ← get
  match p with
  | .init mechanism data hostname =>
    if s.initPassed then refuse .duplicateInit
    else if mechanism = [] then refuse .noMechanismNamed
    else set { s with
      remoteMechanisms := [mechanism], hostname, inbound := s.inbound ++ data.getD [],
      initPassed := true }
  | .response payload =>
    if s.challengeOpen = false then refuse .responseUnasked
    else set { s with inbound := s.inbound ++ payload, challengeOpen := false }
  | p => refuse (.ownFrame .server p.kind)

def apply (p : Performative) : Call Session Unit := do
  match (← get).role with
  | some .client => clientApply p
  | some .server => serverApply p
  | none => return ()

/-- Takes in a whole performative of the peer. -/
def accept (p : Performative) : Call Session Unit := do
  let s ← get
  let phase ← ofExcept (s.phase.afterReceiving s.role p.kind)
  apply p
  modify fun s => { s with phase }

end Session

end FramedSasl
