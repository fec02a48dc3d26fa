import FramedSasl.Proofs.Flow

/-! A link at a stage. Every move of either side, in any order, leads from a `Sound` link to a sound
one; so no bytes of the peer are ever refused, the sides agree on mechanism, host name and outcome,
and only an offer or an init that does not fit can fail. -/

namespace FramedSasl

open Call

/-- The endpoint has failed if its performative is lost, for the reason that it did not fit. -/
structure Endpoint.Fares (e : Endpoint) (side : Role) (stage : Stage) : Prop where
  failed : e.failure = none ↔ stage.loser ≠ some side
  cause : ∀ fault, e.failure = some fault →
    ∃ p : Performative, (p.kind = .mechanisms ∨ p.kind = .init) ∧
      p.Oversized e.codec.peerLimit fault

theorem Endpoint.Fares.of_none {e : Endpoint} {side : Role} {stage : Stage}
    (hfailure : e.failure = none) (hloser : stage.loser ≠ some side) : e.Fares side stage where
  failed := ⟨fun _ => hloser, fun _ => hfailure⟩
  cause := fun fault hfault => by
    rw [hfailure] at hfault
    cases hfault

namespace Stage

variable {stage : Stage} {p : Performative} {side : Role}

theorem flightTo_none (h : stage.flight = none) (side : Role) : stage.flightTo side = none := by
  rw [flightTo, h]
  rfl

theorem flightTo_other (h : stage.flight = some p) (hsender : p.kind.sender ≠ side) :
    stage.flightTo side = some p := by
  rw [flightTo, h]
  exact Option.filter_some_pos (decide_eq_true hsender)

theorem flightTo_sender (h : stage.flight = some p) :
    stage.flightTo p.kind.sender = none := by
  rw [flightTo, h]
  exact Option.filter_some_neg (by simp)

theorem flight_of_flightTo (h : stage.flightTo side = some p) :
    stage.flight = some p ∧ p.kind.sender ≠ side := by
  obtain ⟨hflight, hsender⟩ := Option.filter_eq_some_iff.1 h
  exact ⟨hflight, of_decide_eq_true hsender⟩

theorem loser_of_flight (h : stage.flight = some p) : stage.loser = none := by
  cases stage <;> first | rfl | cases h

theorem arrived_of_flight (h : stage.flight = some p) :
    stage.arrived.flight = none ∧ stage.arrived.loser = none := by
  cases stage <;> first | exact ⟨rfl, rfl⟩ | cases h

theorem lost_of_flight (h : stage.flight = some p)
    (hkind : p.kind = .mechanisms ∨ p.kind = .init) :
    stage.lost.flight = none ∧ stage.lost.loser = some p.kind.sender := by
  cases stage with
  | offering | choosing =>
    cases h
    exact ⟨rfl, rfl⟩
  | challenging | responding | concluding =>
    cases h
    rcases hkind with hkind | hkind <;> cases hkind
  | _ => cases h

end Stage

def Role.other : Role → Role
  | .client => .server
  | .server => .client

theorem Role.ne_other (side : Role) : side ≠ side.other := by
  cases side <;> decide

theorem Role.eq_other {side side' : Role} (h : side ≠ side') : side = side'.other := by
  cases side <;> cases side' <;> first | rfl | exact absurd rfl h

theorem Joint.lost {c s : Session} {stage : Stage} (h : Joint c s stage) :
    Joint c s stage.lost := by
  cases stage with
  | offering | choosing => exact ⟨h.client, h.server, h.agreed, trivial⟩
  | _ => exact h

/-- A client ends behind the server. -/
theorem Joint.server_done {c s : Session} {stage : Stage} (h : Joint c s stage)
    (hdone : c.phase = .done) : s.phase = .done := by
  have hphase := hdone.symm.trans h.client.phase
  cases stage with
  | serverTurn challenged | challenging challenged | concluding challenged =>
    exact absurd hphase.symm (Phase.engaged_ne_done challenged)
  | concluded => exact h.server.phase
  | _ => cases hphase

/-! ### From either side -/

/-- `Joint`, seen from `side`. -/
def Facing (side : Role) (mine theirs : Session) (stage : Stage) : Prop :=
  match side with
  | .client => Joint mine theirs stage
  | .server => Joint theirs mine stage

/-- `side` sends `p`, and both sides go on to the stage `next`. -/
structure Advance (side : Role) (mine theirs : Session) (stage : Stage) (p : Performative)
    (mine' : Session) (next : Stage) : Prop where
  idle : stage.flight = none
  kept : stage.loser = none
  emits : Session.Emits side mine p mine'
  flight : next.flight = some p
  facing : Facing side mine' theirs next

namespace Facing

variable {side : Role} {mine theirs mine' : Session} {stage : Stage}

theorem role (h : Facing side mine theirs stage) : mine.role = some side := by
  cases side with
  | client => exact h.client.role
  | server => exact h.server.role

theorem lost (h : Facing side mine theirs stage) : Facing side mine theirs stage.lost := by
  cases side <;> exact Joint.lost h

theorem obeys {call : OwnerCall} {result : Except Fault Unit} (h : Facing side mine theirs stage)
    (ho : Session.Obeys side mine call (result, mine')) : Facing side mine' theirs stage := by
  cases side with
  | client => exact h.client_obeys ho
  | server => exact h.server_obeys ho

theorem receive (h : Facing side mine theirs stage) (n : Nat) :
    Facing side (mine.receive n).2 theirs stage := by
  cases side with
  | client => exact Joint.client_bytes h mine.outbound (mine.inbound.drop n) mine.hasOutbound
  | server => exact Joint.server_bytes h mine.outbound (mine.inbound.drop n) mine.hasOutbound

/-- Either nothing is due, or one performative when none is on its way. -/
theorem output (h : Facing side mine theirs stage) :
    on mine Session.nextOutbound = (.ok none, mine) ∨
      ∃ p mine' next, Advance side mine theirs stage p mine' next := by
  cases side with
  | client =>
    rcases Joint.client_output h with hrests | ⟨hidle, hkept, p, c', next, hemits, hnext, hjoint⟩
    · exact .inl hrests
    · exact .inr ⟨p, c', next, hidle, hkept, hemits, hnext, hjoint⟩
  | server =>
    rcases Joint.server_output h with hrests | ⟨hidle, hkept, p, s', next, hemits, hnext, hjoint⟩
    · exact .inl hrests
    · exact .inr ⟨p, s', next, hidle, hkept, hemits, hnext, hjoint⟩

/-- While one side has anything to send, the other has not. -/
theorem alternates (h : Facing side mine theirs stage) :
    on mine Session.nextOutbound = (.ok none, mine) ∨
      on theirs Session.nextOutbound = (.ok none, theirs) := by
  cases side with
  | client => exact Joint.alternates h
  | server => exact (Joint.alternates h).symm

/-- What is on its way from the other side is accepted. -/
theorem input {p : Performative} (h : Facing side mine theirs stage)
    (hflight : stage.flight = some p) (hsender : p.kind.sender ≠ side) :
    ∃ mine', Session.Accepts mine p mine' ∧ Facing side mine' theirs stage.arrived := by
  cases side with
  | client => exact Joint.client_input h hflight (Role.eq_other hsender)
  | server => exact Joint.server_input h hflight (Role.eq_other hsender)

/-- The session that accepts what is on its way, if anything is. -/
theorem input_flightTo (h : Facing side mine theirs stage) :
    ∃ mine', ∀ p, stage.flightTo side = some p →
      Session.Accepts mine p mine' ∧ Facing side mine' theirs stage.arrived := by
  cases hdue : stage.flightTo side with
  | none => exact ⟨mine, by simp⟩
  | some p =>
    obtain ⟨hflight, hsender⟩ := Stage.flight_of_flightTo hdue
    obtain ⟨mine', haccepts, hfacing⟩ := h.input hflight hsender
    refine ⟨mine', ?_⟩
    intro q hq
    cases hq
    exact ⟨haccepts, hfacing⟩

end Facing

/-! ### Moves -/

/-- Two sides at a stage, seen from `side`. -/
structure Sound (side : Role) (mine theirs : Party) (stage : Stage) : Prop where
  facing : Facing side mine.endpoint.session theirs.endpoint.session stage
  outward : Flow mine theirs (stage.flightTo side.other)
  inward : Flow theirs mine (stage.flightTo side)
  mine : mine.endpoint.Fares side stage
  theirs : theirs.endpoint.Fares side.other stage

namespace Sound

variable {side : Role} {mine theirs : Party} {stage : Stage}

theorem flip (h : Sound side mine theirs stage) : Sound side.other theirs mine stage := by
  obtain ⟨hfacing, houtward, hinward, hmine, htheirs⟩ := h
  cases side <;> exact ⟨hfacing, hinward, houtward, htheirs, hmine⟩

theorem obey (h : Sound side mine theirs stage) (call : OwnerCall) :
    Sound side (mine.obey call) theirs stage := by
  obtain ⟨result, s, more, hobeys, hqueued, hinbound, hobey⟩ :=
    Party.obey_cases h.facing.role call
  rw [hobey]
  exact
    { facing := h.facing.obeys hobeys
      outward := h.outward.of_sender ⟨rfl, rfl, rfl⟩ rfl hqueued
      inward := h.inward.of_receiver ⟨⟨mine.endpoint.codec.started, rfl⟩, rfl, id, hinbound⟩ rfl rfl
      mine := ⟨h.mine.failed, h.mine.cause⟩
      theirs := h.theirs }

theorem receive (h : Sound side mine theirs stage) (n : Nat) :
    Sound side (mine.receive n) theirs stage where
  facing := h.facing.receive n
  outward := h.outward.of_sender ⟨rfl, rfl, rfl⟩ (List.append_nil _).symm (List.append_nil _).symm
  inward := h.inward.receive n
  mine := ⟨h.mine.failed, h.mine.cause⟩
  theirs := h.theirs

/-! ### Bytes that go out -/

/-- The other direction does not depend on what is sent. -/
theorem inward_output (h : Sound side mine theirs stage)
    (hholds : mine.endpoint.Holds mine.output.endpoint) :
    Flow (theirs.carry mine.sent) mine.output (stage.flightTo side) :=
  (h.inward.of_receiver hholds rfl rfl).of_sender ⟨rfl, rfl, rfl⟩ (List.append_nil _).symm
    (List.append_nil _).symm

theorem output_of_failure {fault : Fault} (h : Sound side mine theirs stage)
    (hfailure : mine.endpoint.failure = some fault) :
    mine.endpoint.output.result = .error fault ∧
      Sound side mine.output (theirs.carry mine.sent) stage := by
  obtain ⟨hresult, houtput, hsent⟩ := Party.output_of_failure hfailure
  have hcarry : theirs.carry [] = theirs := by rw [Party.carry, List.append_nil]
  rw [houtput, hsent, hcarry]
  exact ⟨hresult, h⟩

theorem output_rests (h : Sound side mine theirs stage) (hfailure : mine.endpoint.failure = none)
    (hrests : on mine.endpoint.session Session.nextOutbound =
      (.ok none, mine.endpoint.session)) :
    (∃ bytes, mine.endpoint.output.result = .ok bytes) ∧
      Sound side mine.output (theirs.carry mine.sent) stage := by
  obtain ⟨hresult, hsession, hkept, hholds, hflow⟩ :=
    h.outward.rests hfailure h.facing.role hrests
  refine ⟨hresult, ?_, hflow, h.inward_output hholds, .of_none hkept (h.mine.failed.1 hfailure),
    h.theirs⟩
  rw [hsession]
  exact h.facing

section

variable {p : Performative} {s : Session} {next : Stage}

theorem output_emits {frames : List Frame} (h : Sound side mine theirs stage)
    (hfailure : mine.endpoint.failure = none)
    (hadvance : Advance side mine.endpoint.session theirs.endpoint.session stage p s next)
    (hframes : p.fragments mine.endpoint.codec.peerLimit = .ok frames) :
    (∃ bytes, mine.endpoint.output.result = .ok bytes) ∧
      Sound side mine.output (theirs.carry mine.sent) next := by
  obtain ⟨hidle, hkept, hemits, hflight, hfacing⟩ := hadvance
  have houtward := h.outward
  rw [Stage.flightTo_none hidle] at houtward
  obtain ⟨hresult, hsession, hmine, hholds, hflow⟩ :=
    houtward.emits hfailure h.facing.role hemits hframes
  have htheirs : theirs.endpoint.failure = none := h.theirs.failed.2 (by simp [hkept])
  have hinward := h.inward_output hholds
  have hloser := Stage.loser_of_flight hflight
  refine ⟨hresult, ?_, ?_, ?_, .of_none hmine (by simp [hloser]),
    .of_none htheirs (by simp [hloser])⟩
  · rw [hsession]
    exact hfacing
  · rw [Stage.flightTo_other hflight (by rw [hemits.sender]; exact side.ne_other)]
    exact hflow
  · rw [Stage.flightTo_none hidle] at hinward
    rw [← hemits.sender, Stage.flightTo_sender hflight]
    exact hinward

theorem output_refused {fault : Fault} (h : Sound side mine theirs stage)
    (hfailure : mine.endpoint.failure = none)
    (hadvance : Advance side mine.endpoint.session theirs.endpoint.session stage p s next)
    (hframes : p.fragments mine.endpoint.codec.peerLimit = .error fault) :
    mine.endpoint.output.result = .error fault ∧ mine.endpoint.Overflows fault ∧
      Sound side mine.output (theirs.carry mine.sent) next.lost := by
  obtain ⟨hidle, hkept, hemits, hflight, hfacing⟩ := hadvance
  have houtward := h.outward
  rw [Stage.flightTo_none hidle] at houtward
  obtain ⟨hresult, hsession, hfailed, hholds, hflow⟩ :=
    houtward.refused hfailure h.facing.role hemits hframes
  have htheirs : theirs.endpoint.failure = none := h.theirs.failed.2 (by simp [hkept])
  have hinward := h.inward_output hholds
  have hoversized := Performative.fragments_error hframes
  -- so `next` is one of the two stages that have a stage without the performative
  have hkind := hoversized.sender houtward.least
  obtain ⟨hnone, hloser⟩ := Stage.lost_of_flight hflight hkind
  rw [hemits.sender] at hloser
  refine ⟨hresult, ⟨p, s, hemits.due, hkind, hoversized⟩, ?_, ?_, ?_, ⟨?_, ?_⟩, .of_none htheirs ?_⟩
  · rw [hsession]
    exact hfacing.lost
  · rw [Stage.flightTo_none hnone]
    exact hflow
  · rw [Stage.flightTo_none hidle] at hinward
    rw [Stage.flightTo_none hnone]
    exact hinward
  · rw [hfailed, hloser]
    simp
  · intro fault' hfault
    rw [hfailed] at hfault
    cases hfault
    obtain ⟨started, hcodec⟩ := hholds.codec
    rw [hcodec]
    exact ⟨p, hkind, hoversized⟩
  · rw [hloser]
    intro hsame
    exact side.ne_other (Option.some.inj hsame)

end

/-- Only a performative that does not fit is a new fault of an output. -/
theorem output (h : Sound side mine theirs stage) :
    (∃ next, Sound side mine.output (theirs.carry mine.sent) next) ∧
      ∀ fault, mine.endpoint.output.result = .error fault →
        mine.endpoint.failure = some fault ∨ mine.endpoint.Overflows fault := by
  cases hfailure : mine.endpoint.failure with
  | some cause =>
    obtain ⟨hresult, hsound⟩ := h.output_of_failure hfailure
    refine ⟨⟨stage, hsound⟩, ?_⟩
    intro fault hfault
    rw [hresult] at hfault
    cases hfault
    exact .inl rfl
  | none =>
    rcases h.facing.output with hrests | ⟨p, s, next, hadvance⟩
    · obtain ⟨⟨bytes, hresult⟩, hsound⟩ := h.output_rests hfailure hrests
      refine ⟨⟨stage, hsound⟩, ?_⟩
      simp [hresult]
    · cases hframes : p.fragments mine.endpoint.codec.peerLimit with
      | ok frames =>
        obtain ⟨⟨bytes, hresult⟩, hsound⟩ := h.output_emits hfailure hadvance hframes
        refine ⟨⟨next, hsound⟩, ?_⟩
        simp [hresult]
      | error cause =>
        obtain ⟨hresult, hoverflows, hsound⟩ := h.output_refused hfailure hadvance hframes
        refine ⟨⟨next.lost, hsound⟩, ?_⟩
        intro fault hfault
        rw [hresult] at hfault
        cases hfault
        exact .inr hoverflows

/-! ### Bytes that come in -/

section

variable {mine' : Party}

/-- What is on its way is not complete yet. -/
theorem waits (h : Sound side mine theirs stage) (hfailure : mine.endpoint.failure = none)
    (hkeeps : mine.endpoint.Keeps mine'.endpoint) (hgiven : mine'.given = mine.given)
    (hsession : mine'.endpoint.session = mine.endpoint.session)
    (hflow : Flow theirs mine' (stage.flightTo side)) : Sound side mine' theirs stage := by
  have hkept : mine'.endpoint.failure = none := hkeeps.failure.trans hfailure
  refine ⟨?_, ?_, hflow, .of_none hkept (h.mine.failed.1 hfailure), h.theirs⟩
  · rw [hsession]
    exact h.facing
  · refine h.outward.of_sender hkeeps (hgiven.trans (List.append_nil _).symm) ?_
    rw [hsession, List.append_nil]

/-- What is on its way has come in and is accepted. -/
theorem arrives {p : Performative} (h : Sound side mine theirs stage)
    (hfailure : mine.endpoint.failure = none) (hdue : stage.flightTo side = some p)
    (hkeeps : mine.endpoint.Keeps mine'.endpoint) (hgiven : mine'.given = mine.given)
    (haccepts : Session.Accepts mine.endpoint.session p mine'.endpoint.session)
    (hfacing : Facing side mine'.endpoint.session theirs.endpoint.session stage.arrived)
    (hflow : Flow theirs mine' none) : Sound side mine' theirs stage.arrived := by
  obtain ⟨hflight, hsender⟩ := Stage.flight_of_flightTo hdue
  obtain ⟨hnone, hloser⟩ := Stage.arrived_of_flight hflight
  have hkept : mine'.endpoint.failure = none := hkeeps.failure.trans hfailure
  have htheirs : theirs.endpoint.failure = none :=
    h.theirs.failed.2 (by simp [Stage.loser_of_flight hflight])
  refine ⟨hfacing, ?_, ?_, .of_none hkept (by simp [hloser]), .of_none htheirs (by simp [hloser])⟩
  · have houtward := h.outward
    have hother := Stage.flightTo_sender hflight
    rw [Role.eq_other hsender] at hother
    rw [hother] at houtward
    rw [Stage.flightTo_none hnone]
    exact houtward.of_sender hkeeps (hgiven.trans (List.append_nil _).symm)
      (haccepts.outbound.trans (List.append_nil _).symm)
  · rw [Stage.flightTo_none hnone]
    exact hflow

end

/-- Bytes that come in bring nothing yet, or what is on its way. -/
theorem deliver_cases (h : Sound side mine theirs stage) (hfailure : mine.endpoint.failure = none)
    (n : Nat) :
    (∃ count, (mine.endpoint.input (mine.wire.take n)).result = .ok count) ∧
      ((mine.deliver n).endpoint.session = mine.endpoint.session ∧
          Sound side (mine.deliver n) theirs stage ∨
        ∃ p, stage.flightTo side = some p ∧
          Session.Accepts mine.endpoint.session p (mine.deliver n).endpoint.session ∧
            Sound side (mine.deliver n) theirs stage.arrived) := by
  obtain ⟨s, haccepts⟩ := h.facing.input_flightTo
  obtain ⟨hresult, hkeeps, hcases⟩ :=
    h.inward.deliver hfailure h.facing.role (fun p hp => (haccepts p hp).1) n
  refine ⟨hresult, ?_⟩
  rcases hcases with ⟨hsession, hflow⟩ | ⟨rfl, hdue, hflow⟩
  · exact .inl ⟨hsession, h.waits hfailure hkeeps rfl hsession hflow⟩
  · obtain ⟨p, hp⟩ := Option.ne_none_iff_exists'.1 hdue
    obtain ⟨haccepts, hfacing⟩ := haccepts p hp
    exact .inr ⟨p, hp, haccepts, h.arrives hfailure hp hkeeps rfl haccepts hfacing hflow⟩

/-- Bytes that come in are no new fault. -/
theorem deliver (h : Sound side mine theirs stage) (n : Nat) :
    (∃ next, Sound side (mine.deliver n) theirs next) ∧
      ∀ fault, (mine.endpoint.input (mine.wire.take n)).result = .error fault →
        mine.endpoint.failure = some fault := by
  cases hfailure : mine.endpoint.failure with
  | some cause =>
    obtain ⟨hresult, hdeliver⟩ := Party.deliver_of_failure hfailure n
    rw [hdeliver, hresult]
    refine ⟨⟨stage, h.facing, ?_, h.inward.drops hfailure _, h.mine, h.theirs⟩, ?_⟩
    · exact h.outward.of_sender ⟨rfl, rfl, rfl⟩ (List.append_nil _).symm (List.append_nil _).symm
    · intro fault hfault
      cases hfault
      rfl
  | none =>
    obtain ⟨⟨count, hresult⟩, hcases⟩ := h.deliver_cases hfailure n
    rw [hresult]
    refine ⟨?_, by simp⟩
    rcases hcases with ⟨-, hsound⟩ | ⟨p, -, -, hsound⟩
    · exact ⟨stage, hsound⟩
    · exact ⟨stage.arrived, hsound⟩

end Sound

/-! ### Runs -/

namespace Link

theorem sound_fresh (clientName serverName : Bytes) (toServer toClient : Room) :
    Sound .client (fresh clientName serverName toServer toClient).client
      (fresh clientName serverName toServer toClient).server .opening where
  facing :=
    { client := ⟨rfl, rfl, rfl, rfl⟩
      server := ⟨rfl, rfl, rfl, rfl⟩
      agreed := by constructor <;> simp [fresh, Party.fresh]
      tells := trivial }
  outward := Flow.fresh toServer clientName serverName .client .server _ _
  inward := Flow.fresh toClient serverName clientName .server .client _ _
  mine := .of_none rfl (by simp [Stage.loser])
  theirs := .of_none rfl (by simp [Stage.loser])

theorem sound_step {l : Link} {stage : Stage} (h : Sound .client l.client l.server stage)
    (move : Move) : ∃ next, Sound .client (l.step move).client (l.step move).server next := by
  -- a move of the server is one of the client, seen from the other side
  have hflip := h.flip
  cases move with
  | call side call =>
    cases side with
    | client => exact ⟨stage, h.obey call⟩
    | server => exact ⟨stage, (hflip.obey call).flip⟩
  | receive side n =>
    cases side with
    | client => exact ⟨stage, h.receive n⟩
    | server => exact ⟨stage, (hflip.receive n).flip⟩
  | output side =>
    cases side with
    | client => exact h.output.1
    | server =>
      obtain ⟨next, hnext⟩ := hflip.output.1
      exact ⟨next, hnext.flip⟩
  | deliver side n =>
    cases side with
    | client => exact (h.deliver n).1
    | server =>
      obtain ⟨next, hnext⟩ := (hflip.deliver n).1
      exact ⟨next, hnext.flip⟩

theorem sound_run {l : Link} {stage : Stage} (h : Sound .client l.client l.server stage)
    (moves : List Move) : ∃ next, Sound .client (l.run moves).client (l.run moves).server next := by
  induction moves generalizing l stage with
  | nil => exact ⟨stage, h⟩
  | cons move moves ih =>
    obtain ⟨next, hnext⟩ := sound_step h move
    exact ih hnext

/-- After any moves in any order: no bytes that come in are a new fault, and an output can fail only
because an offer or an init does not fit. What the sides have of each other is the same on both: the
mechanisms, the host name and the outcome. -/
theorem run_agrees (clientName serverName : Bytes) (toServer toClient : Room)
    (moves : List Move) :
    let l := (fresh clientName serverName toServer toClient).run moves
    let c := l.client.endpoint.session
    let s := l.server.endpoint.session
    (∀ side n fault, ((l.party side).endpoint.input ((l.party side).wire.take n)).result =
        .error fault → (l.party side).endpoint.failure = some fault) ∧
      (∀ side fault, (l.party side).endpoint.output.result = .error fault →
        (l.party side).endpoint.failure = some fault ∨ (l.party side).endpoint.Overflows fault) ∧
      (∀ side fault, (l.party side).endpoint.failure = some fault →
        fault.kind = .frameTooLarge ∧ ∃ p : Performative,
          (p.kind = .mechanisms ∨ p.kind = .init) ∧
            p.Oversized (l.party side).endpoint.codec.peerLimit fault) ∧
      (c.outcome ≠ .undecided → c.outcome = s.outcome ∧ s.phase = .done) ∧
      (c.remoteMechanisms = [] ∨ c.remoteMechanisms = s.localMechanisms) ∧
      (s.remoteMechanisms = [] ∨
        ∃ mechanism, s.remoteMechanisms = [mechanism] ∧ c.localMechanisms = [mechanism]) ∧
      (s.initPassed = true → s.requestedHostname = .ok c.hostname) := by
  intro l c s
  obtain ⟨stage, h⟩ : ∃ stage, Sound .client l.client l.server stage :=
    sound_run (sound_fresh clientName serverName toServer toClient) moves
  have hflip := h.flip
  have hjoint : Joint c s stage := h.facing
  have hagreed := hjoint.agreed
  refine ⟨?_, ?_, ?_, ?_, ?_, ?_, ?_⟩
  · intro side n
    cases side with
    | client => exact (h.deliver n).2
    | server => exact (hflip.deliver n).2
  · intro side
    cases side with
    | client => exact h.output.2
    | server => exact hflip.output.2
  · intro side fault hfault
    have hcause : ∃ p : Performative, (p.kind = .mechanisms ∨ p.kind = .init) ∧
        p.Oversized (l.party side).endpoint.codec.peerLimit fault := by
      cases side with
      | client => exact h.mine.cause fault hfault
      | server => exact h.theirs.cause fault hfault
    obtain ⟨p, hkind, hoversized⟩ := hcause
    exact ⟨hoversized.kind, p, hkind, hoversized⟩
  · intro hdecided
    have hdone : c.phase = .done :=
      Decidable.byContradiction fun hnot => hdecided (hagreed.undecided hnot)
    exact ⟨(hagreed.decided hdone).1, hjoint.server_done hdone⟩
  · by_cases hphase : c.phase = .configuring
    · exact .inl (hagreed.unoffered hphase)
    · exact .inr (hagreed.offered hphase).1
  · cases hpassed : s.initPassed with
    | false => exact .inl (hagreed.unchosen hpassed)
    | true =>
      obtain ⟨-, hset, hsame, -⟩ := hagreed.chosen hpassed
      rcases hagreed.one with hnone | ⟨mechanism, -, hone⟩
      · exact absurd hnone hset
      · exact .inr ⟨mechanism, hsame.trans hone, hone⟩
  · intro hpassed
    obtain ⟨-, -, -, hhostname⟩ := hagreed.chosen hpassed
    rw [Session.requestedHostname, hjoint.server.role, hhostname]
    exact if_neg fun hrole => hrole rfl

end Link

end FramedSasl
