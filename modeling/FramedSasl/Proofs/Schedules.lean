import FramedSasl.Proofs.Quiescence
import Mathlib.Logic.Function.Basic
import Mathlib.Logic.Relation

/-! The order in which bytes move between two sides that their owners leave alone. It has no
influence on where they come to rest: seen from far enough (`Passage`) each transfer does nothing or
the one thing that can happen next, and a quiet link is known from there. -/

namespace FramedSasl

open Call

/-- Bytes out of a side, or into it. -/
inductive Transfer where
  | output
  | deliver (n : Nat)

def Transfer.act : Transfer → Party.Act
  | output => .output
  | deliver n => .deliver n

/-- Bytes move in this order. -/
def Link.transfers (l : Link) (schedule : List (Role × Transfer)) : Link :=
  l.after (schedule.map fun transfer => (transfer.1, transfer.2.act))

/-! ### What happens next -/

/-- Both sessions, the frames that each side has sent, and the performative on its way. -/
@[ext]
structure Passage where
  session : Role → Session
  framesSent : Role → Nat
  flight : Option Performative

namespace Passage

/-- A side sends what is due, when nothing is on its way, or takes in what is. -/
inductive Step (limit : Role → Nat) (a : Passage) : Passage → Prop
  | sends (side : Role) (p : Performative) (s : Session) (frames : List Frame)
      (idle : a.flight = none)
      (due : on (a.session side) Session.nextOutbound = (.ok (some p), s))
      (rests : on (a.session side.other) Session.nextOutbound =
        (.ok none, a.session side.other))
      (frames_eq : p.fragments (limit side) = .ok frames) :
      Step limit a ⟨Function.update a.session side s,
        Function.update a.framesSent side (a.framesSent side + frames.length), some p⟩
  | takes (side : Role) (p : Performative) (s : Session) (flight : a.flight = some p)
      (sender : p.kind.sender ≠ side)
      (accepted : on (a.session side) (Session.accept p) = (.ok (), s)) :
      Step limit a ⟨Function.update a.session side s, a.framesSent, none⟩

theorem step_rightUnique (limit : Role → Nat) : Relator.RightUnique (Step limit) := by
  intro a b c hb hc
  cases hb with
  | sends side p s frames hidle hdue hrests hframes =>
    cases hc with
    | sends side' p' s' frames' _ hdue' hrests' hframes' =>
      by_cases hside : side = side'
      · subst hside
        cases hdue.symm.trans hdue'
        cases hframes.symm.trans hframes'
        rfl
      · rw [← Role.eq_other hside] at hrests'
        cases hrests'.symm.trans hdue
    | takes side' p' s' hflight' => cases hidle.symm.trans hflight'
  | takes side p s hflight hsender haccept =>
    cases hc with
    | sends side' p' s' frames' hidle' => cases hidle'.symm.trans hflight
    | takes side' p' s' hflight' hsender' haccept' =>
      cases hflight.symm.trans hflight'
      cases (Role.eq_other hsender.symm).trans (Role.eq_other hsender'.symm).symm
      cases haccept.symm.trans haccept'
      rfl

/-- With nothing on its way and nothing due, nothing happens. -/
theorem not_step {limit : Role → Nat} {a b : Passage} (hidle : a.flight = none)
    (hrests : ∀ side, on (a.session side) Session.nextOutbound = (.ok none, a.session side)) :
    ¬Step limit a b := by
  intro hstep
  cases hstep with
  | sends side p s frames _ hdue => cases (hrests side).symm.trans hdue
  | takes side p s hflight => cases hidle.symm.trans hflight

end Passage

namespace Link

variable {l : Link} {stage : Stage}

def passage (l : Link) (stage : Stage) : Passage where
  session side := (l.party side).endpoint.session
  framesSent side := (l.party side).endpoint.framesSent
  flight := stage.flight

/-- The limit of each side on what goes out. -/
def peerLimit (l : Link) (side : Role) : Nat := (l.party side).endpoint.codec.peerLimit

/-- An act of one side leaves the session and the frames of the other as they are. -/
theorem passage_perform (stage next : Stage) {side : Role} {act : Party.Act} {s : Session}
    {n : Nat} (hsession : ((l.party side).perform act).endpoint.session = s)
    (hcount : ((l.party side).perform act).endpoint.framesSent = n) :
    (l.perform side act).passage next =
      ⟨Function.update (l.passage stage).session side s,
        Function.update (l.passage stage).framesSent side n, next.flight⟩ := by
  subst hsession hcount
  ext r
  · cases side <;> cases r <;> rfl
  · cases side <;> cases r <;> rfl
  · rfl

theorem passage_same (stage : Stage) {side : Role} {act : Party.Act}
    (hsession : ((l.party side).perform act).endpoint.session = (l.party side).endpoint.session)
    (hcount : ((l.party side).perform act).endpoint.framesSent =
      (l.party side).endpoint.framesSent) :
    (l.perform side act).passage stage = l.passage stage := by
  rw [passage_perform stage stage hsession hcount]
  exact Passage.ext (Function.update_eq_self side _) (Function.update_eq_self side _) rfl

/-- A transfer does nothing to a passage, or the one thing that can happen next. -/
theorem Steady.transfer {side : Role} {transfer : Transfer} (h : l.Steady stage)
    (hgoing : (l.perform side transfer.act).Going) :
    ∃ next, (l.perform side transfer.act).Steady next ∧
      Relation.ReflTransGen (Passage.Step l.peerLimit) (l.passage stage)
        ((l.perform side transfer.act).passage next) := by
  have hside := h.on side
  have hmine := hgoing.party side
  rw [party_perform] at hmine
  cases transfer with
  | output =>
    obtain ⟨houtput, hsent⟩ := (l.party side).output_wide
    have hkept : (l.party side).wide.output.endpoint.failure = none := by
      rw [← houtput]
      exact hmine
    have hcases := hside.output hkept
    rw [← houtput, hsent] at hcases
    rcases hcases with ⟨hsession, hcount, hlater⟩ |
      ⟨p, s, next, frames, hadvance, hframes, hsession, hcount, hlater⟩
    · refine ⟨stage, steady_perform hlater, ?_⟩
      have hsame : (l.perform side .output).passage stage = _ := passage_same stage hsession hcount
      rw [Transfer.act, hsame]
    · refine ⟨next, steady_perform hlater, .single ?_⟩
      have hpassage : (l.perform side .output).passage next = _ :=
        passage_perform stage next hsession hcount
      rw [Transfer.act, hpassage, hadvance.flight]
      have hother := hside.sound.facing.alternates.resolve_left fun hrests => by
        cases hrests.symm.trans hadvance.emits.due
      exact .sends side p s frames hadvance.idle hadvance.emits.due hother hframes
  | deliver n =>
    have hrole : (l.party side).endpoint.session.role = some side := hside.sound.facing.role
    have hdeliver := Party.deliver_wide hrole hmine
    obtain ⟨hcount, hcases⟩ := hside.deliver n
    rw [← hdeliver] at hcount hcases
    have hnothing : (l.party side.other).carry [] = l.party side.other := Party.carry_nil _
    rcases hcases with ⟨hsession, hlater⟩ | ⟨p, hdue, haccepts, hlater⟩
    · have hsame : (l.perform side (.deliver n)).passage stage = _ :=
        passage_same stage hsession hcount
      refine ⟨stage, steady_perform ?_, ?_⟩
      · simp only [Transfer.act, Party.puts, hnothing]
        exact hlater
      · rw [Transfer.act, hsame]
    · obtain ⟨hflight, hsender⟩ := Stage.flight_of_flightTo hdue
      have hpassage : (l.perform side (.deliver n)).passage stage.arrived = _ :=
        passage_perform stage stage.arrived rfl hcount
      refine ⟨stage.arrived, steady_perform ?_, .single ?_⟩
      · simp only [Transfer.act, Party.puts, hnothing]
        exact hlater
      · rw [Transfer.act, hpassage, (Stage.arrived_of_flight hflight).1]
        have hsame : Function.update (l.passage stage).framesSent side
            (l.party side).wide.endpoint.framesSent = (l.passage stage).framesSent :=
          Function.update_eq_self side _
        rw [hsame]
        exact .takes side p _ hflight hsender haccepts.accepted

/-! ### What no transfer changes -/

end Link

/-- What of a side no transfer changes. -/
structure Party.Lasting where
  name : Bytes
  limit : Nat
  peerLimit : Nat
  given : Bytes
  taken : Bytes

def Party.lasting (p : Party) : Party.Lasting :=
  ⟨p.endpoint.name, p.endpoint.codec.limit, p.endpoint.codec.peerLimit, p.given, p.taken⟩

theorem Party.lasting_deliver {p : Party} {side : Role} {n : Nat}
    (hrole : p.endpoint.session.role = some side)
    (hgoing : (p.deliver n).endpoint.failure = none) : (p.deliver n).lasting = p.lasting := by
  obtain ⟨matched, rest, s, -, -, -, hendpoint⟩ := Endpoint.input_of_going hrole hgoing
  obtain ⟨hlimit, hpeerLimit⟩ := (p.endpoint.codec.feed rest).pollAll_limits
  rw [Party.lasting, Party.deliver, hendpoint]
  simp only [hlimit, hpeerLimit]
  rfl

theorem Steady.lasting_output {side : Role} {mine theirs : Party} {stage : Stage}
    (h : Steady side mine.wide theirs.wide stage)
    (hgoing : mine.output.endpoint.failure = none) : mine.output.lasting = mine.lasting := by
  have hrole : mine.endpoint.session.role = some side := h.sound.facing.role
  have hmine : mine.endpoint.failure = none := h.going
  rcases h.sound.facing.output with hrests | ⟨p, s, next, hadvance⟩
  · rw [Party.lasting, Party.output, (Endpoint.output_rests hmine hrole hrests).2]
    rfl
  · have hemits := hadvance.emits
    rcases hframes : p.fragments mine.endpoint.codec.peerLimit with fault | frames
    · have hrefused := (Endpoint.output_refused hmine hrole hemits.due hframes).2
      rw [Party.output, hrefused] at hgoing
      cases hgoing
    · rw [Party.lasting, Party.output,
        (Endpoint.output_emits hmine hrole hemits.due hemits.last hframes).2]
      rfl

namespace Link

variable {l : Link} {stage : Stage}

theorem Steady.lasting {side : Role} {transfer : Transfer} (h : l.Steady stage)
    (hgoing : (l.perform side transfer.act).Going) (other : Role) :
    ((l.perform side transfer.act).party other).lasting = (l.party other).lasting := by
  by_cases hother : other = side
  · subst hother
    have hmine := hgoing.party other
    rw [party_perform] at hmine ⊢
    cases transfer with
    | output => exact (h.on other).lasting_output hmine
    | deliver n =>
      have hrole : (l.party other).endpoint.session.role = some other :=
        (h.on other).sound.facing.role
      exact Party.lasting_deliver hrole hmine
  · rw [Role.eq_other hother]
    cases side <;> rfl

/-- Transfers that lead to no failure go on as what can happen next says. -/
theorem Steady.transfers {schedule : List (Role × Transfer)} (h : l.Steady stage)
    (hgoing : (l.transfers schedule).Going) :
    ∃ next, (l.transfers schedule).Steady next ∧
      Relation.ReflTransGen (Passage.Step l.peerLimit) (l.passage stage)
          ((l.transfers schedule).passage next) ∧
        ∀ side, ((l.transfers schedule).party side).lasting = (l.party side).lasting := by
  induction schedule generalizing l stage with
  | nil => exact ⟨stage, h, .refl, fun side => rfl⟩
  | cons transfer schedule ih =>
    have hfirst : (l.perform transfer.1 transfer.2.act).Going := going_of_after hgoing
    obtain ⟨next, hnext, hstep⟩ := h.transfer hfirst
    have hlasting := h.lasting hfirst
    have hlimit : (l.perform transfer.1 transfer.2.act).peerLimit = l.peerLimit :=
      funext fun side => congrArg Party.Lasting.peerLimit (hlasting side)
    obtain ⟨last, hlast, hsteps, hkept⟩ := ih hnext hgoing
    rw [hlimit] at hsteps
    exact ⟨last, hlast, hstep.trans hsteps, fun side => (hkept side).trans (hlasting side)⟩

end Link

/-! ### A quiet link -/

/-- A side at rest, from what no transfer changes, the session and the frames of both sides. -/
def Party.settled (kept : Party.Lasting) (s : Session) (framesSent framesReceived : Nat) :
    Party where
  endpoint := {
    name := kept.name
    session := s
    codec := {
      limit := kept.limit
      peerLimit := kept.peerLimit
      started := decide (0 < framesSent + framesReceived) }
    headerSent := true
    headerMatched := protocolHeader.length
    framesSent
    framesReceived
    reported := decide (s.phase = .done) }
  given := kept.given
  taken := kept.taken

theorem Party.eq_settled {mine theirs : Party} (hwire : mine.wire = [])
    (hgoing : mine.endpoint.failure = none) (hcounted : mine.endpoint.Counted)
    (hforth : Drained mine theirs) (hback : Drained theirs mine) :
    mine = settled mine.lasting mine.endpoint.session mine.endpoint.framesSent
      theirs.endpoint.framesSent := by
  obtain ⟨⟨name, s, codec, headerSent, headerMatched, framesSent, framesReceived, reported,
    failure⟩, wire, given, taken⟩ := mine
  obtain ⟨limit, peerLimit, started, buffer, unfinished⟩ := codec
  cases hwire
  cases hgoing
  cases hback.buffer
  cases hback.unfinished
  cases hback.headerMatched
  cases hback.counted
  cases hforth.headerSent
  obtain ⟨hstarted, hreported⟩ := hcounted
  dsimp only at hstarted hreported
  rw [hstarted, hreported]
  rfl

namespace Link

variable {l : Link} {stage : Stage}

theorem Quiet.party_eq (h : l.Quiet) (hsteady : l.Steady stage) (side : Role) :
    l.party side = .settled (l.party side).lasting ((l.passage stage).session side)
      ((l.passage stage).framesSent side) ((l.passage stage).framesSent side.other) := by
  obtain ⟨-, hforth, hback⟩ := h.drained hsteady
  have hcounted := hsteady.counted
  have hcounted' := hsteady.theirsCounted
  -- what is known of the sides without their limits does not speak of the limits
  have hclient : Drained l.client l.server :=
    ⟨hforth.rests, hforth.headerSent, hforth.headerMatched, hforth.buffer, hforth.unfinished,
      hforth.counted⟩
  have hserver : Drained l.server l.client :=
    ⟨hback.rests, hback.headerSent, hback.headerMatched, hback.buffer, hback.unfinished,
      hback.counted⟩
  cases side with
  | client =>
    exact Party.eq_settled h.clientWire h.going.1 ⟨hcounted.started, hcounted.reported⟩
      hclient hserver
  | server =>
    exact Party.eq_settled h.serverWire h.going.2 ⟨hcounted'.started, hcounted'.reported⟩
      hserver hclient

/-- Where a link is quiet nothing can happen next. -/
theorem Quiet.not_step (h : l.Quiet) (hsteady : l.Steady stage) {limit : Role → Nat}
    {a : Passage} : ¬Passage.Step limit (l.passage stage) a := by
  obtain ⟨hflight, hforth, hback⟩ := h.drained hsteady
  refine Passage.not_step hflight fun side => ?_
  cases side with
  | client => exact hforth.rests
  | server => exact hback.rests

/-- After any acts of the owners, with any limits: when the owners leave both sides alone and bytes
move until the link is quiet, the link is the same whatever the order and the cuts. -/
theorem transfers_confluent (clientName serverName : Bytes) (acts : List (Role × Party.Act))
    (one two : List (Role × Transfer)) :
    let l := (fresh clientName serverName default default).after acts
    (l.transfers one).Quiet → (l.transfers two).Quiet → l.transfers one = l.transfers two := by
  intro l hone htwo
  have hgoing : l.Going := going_of_after hone.going
  obtain ⟨stage, hsteady⟩ : ∃ stage, l.Steady stage :=
    (steady_fresh clientName serverName).after acts hgoing
  obtain ⟨first, hfirst, hsteps, hkept⟩ := hsteady.transfers hone.going
  obtain ⟨second, hsecond, hsteps', hkept'⟩ := hsteady.transfers htwo.going
  -- both end where nothing can happen next, and before that only one thing can
  have hpassage : (l.transfers one).passage first = (l.transfers two).passage second := by
    rcases hsteps.total_of_right_unique (Passage.step_rightUnique _) hsteps' with hlater | hlater
    · rcases hlater.cases_head with hsame | ⟨a, hstep, -⟩
      · exact hsame
      · exact absurd hstep (hone.not_step hfirst)
    · rcases hlater.cases_head with hsame | ⟨a, hstep, -⟩
      · exact hsame.symm
      · exact absurd hstep (htwo.not_step hsecond)
  have hparty : ∀ side, (l.transfers one).party side = (l.transfers two).party side := by
    intro side
    rw [hone.party_eq hfirst side, htwo.party_eq hsecond side, hpassage, hkept side, hkept' side]
  exact congrArg₂ Link.mk (hparty .client) (hparty .server)

/-- The server begins or the client does, and the bytes are cut in two ways. -/
theorem transfers_confluent_both_begin :
    let l := (fresh [] [] default default).after
      [(.server, .call (.setMechanisms [text "PLAIN"])),
        (.client, .call (.setMechanisms [text "PLAIN"])), (.server, .call (.declare .ok none))]
    let one : List (Role × Transfer) :=
      [(.client, .output), (.server, .deliver 8), (.server, .output), (.client, .deliver 60),
        (.client, .output), (.server, .deliver 60), (.server, .output), (.client, .deliver 60)]
    let two : List (Role × Transfer) :=
      [(.server, .output), (.client, .deliver 11), (.client, .output), (.client, .deliver 50),
        (.client, .output), (.server, .deliver 3), (.server, .output), (.server, .deliver 60),
        (.server, .output), (.client, .deliver 60)]
    (l.transfers one).Quiet ∧ (l.transfers two).Quiet ∧ l.transfers one = l.transfers two := by
  intro l one two
  have hone : (l.transfers one).Quiet := by decide +kernel
  have htwo : (l.transfers two).Quiet := by decide +kernel
  exact ⟨hone, htwo, transfers_confluent [] [] _ one two hone htwo⟩

end Link

end FramedSasl
