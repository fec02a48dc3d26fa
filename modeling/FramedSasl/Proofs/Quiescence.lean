import FramedSasl.Proofs.Tallies
import Mathlib.Logic.ExistsUnique

/-! Where an exchange can stop. A link is quiet when both wires are empty and neither side has any
bytes to send. Whatever the owners did before, a quiet link has come to one of five pauses, and the
first four wait for an owner: so with all that the owners have to give, it has come to the end. -/

namespace FramedSasl

open Call

theorem Except.toOption_eq_some {α : Type} {result : Except Fault α} {a : α} :
    result.toOption = some a ↔ result = .ok a := by
  cases result with
  | error fault => exact ⟨nofun, nofun⟩
  | ok b => exact ⟨fun h => congrArg Except.ok (Option.some.inj h), fun h => congrArg _ h⟩

/-- Nothing is on its way, and neither side has anything to send. -/
structure Link.Quiet (l : Link) : Prop where
  clientWire : l.client.wire = []
  serverWire : l.server.wire = []
  clientOutput : l.client.endpoint.output.result = .ok []
  serverOutput : l.server.endpoint.output.result = .ok []

namespace Link.Quiet

variable {l : Link}

theorem iff_toOption : l.Quiet ↔ l.client.wire = [] ∧ l.server.wire = [] ∧
    l.client.endpoint.output.result.toOption = some [] ∧
      l.server.endpoint.output.result.toOption = some [] := by
  rw [Except.toOption_eq_some, Except.toOption_eq_some]
  exact ⟨fun h => ⟨h.clientWire, h.serverWire, h.clientOutput, h.serverOutput⟩,
    fun h => ⟨h.1, h.2.1, h.2.2.1, h.2.2.2⟩⟩

instance : Decidable l.Quiet := decidable_of_iff' _ iff_toOption

theorem going (h : l.Quiet) : l.Going := by
  have hgoing : ∀ e : Endpoint, e.output.result = .ok [] → e.failure = none := by
    intro e hresult
    rcases hfailure : e.failure with _ | fault
    · rfl
    · rw [Endpoint.output_of_failure hfailure] at hresult
      cases hresult
  exact ⟨hgoing _ h.clientOutput, hgoing _ h.serverOutput⟩

end Link.Quiet

/-! ### One direction -/

/-- All that `sender` sent has come in, and nothing is due. -/
structure Drained (sender receiver : Party) : Prop where
  rests : on sender.endpoint.session Session.nextOutbound = (.ok none, sender.endpoint.session)
  headerSent : sender.endpoint.headerSent = true
  headerMatched : receiver.endpoint.headerMatched = protocolHeader.length
  buffer : receiver.endpoint.codec.buffer = []
  unfinished : receiver.endpoint.codec.unfinished = none
  counted : receiver.endpoint.framesReceived = sender.endpoint.framesSent

namespace Steady

variable {side : Role} {mine theirs : Party} {stage : Stage}

/-- An endpoint with nothing to send has sent its header, and nothing is due. -/
theorem rests_of_output (h : Steady side mine theirs stage)
    (houtput : mine.endpoint.output.result = .ok []) :
    on mine.endpoint.session Session.nextOutbound = (.ok none, mine.endpoint.session) ∧
      mine.endpoint.headerSent = true := by
  have hrole := h.sound.facing.role
  rcases h.sound.facing.output with hrests | ⟨p, s, next, hadvance⟩
  · refine ⟨hrests, ?_⟩
    have hopening := (Endpoint.output_rests h.going hrole hrests).1.symm.trans houtput
    cases hsent : mine.endpoint.headerSent with
    | true => rfl
    | false =>
      rw [Endpoint.opening, hsent] at hopening
      cases hopening
  · have hemits := hadvance.emits
    rcases hframes : p.fragments mine.endpoint.codec.peerLimit with fault | frames
    · have hrefused := (Endpoint.output_refused h.going hrole hemits.due hframes).1
      cases hrefused.symm.trans houtput
    · have hbytes := (Endpoint.output_emits h.going hrole hemits.due hemits.last hframes).1
      rw [houtput, Except.ok.injEq] at hbytes
      exact absurd (List.append_eq_nil_iff.1 hbytes.symm).2
        (p.fragments_completes hframes).bytes_ne_nil

theorem drained (h : Steady side mine theirs stage) (hwire : theirs.wire = [])
    (houtput : mine.endpoint.output.result = .ok []) :
    stage.flightTo side.other = none ∧ Drained mine theirs := by
  obtain ⟨hrests, hsent⟩ := h.rests_of_output houtput
  obtain ⟨opened, body, hopened, hcarry⟩ := h.sound.outward.carries h.theirsGoing
  have hopen : opened = true := (hopened h.going).trans hsent
  subst hopen
  obtain ⟨hheader, hbody⟩ := List.append_eq_nil_iff.1 (hcarry.wire.symm.trans hwire)
  have hmatched : theirs.endpoint.headerMatched = protocolHeader.length :=
    Nat.le_antisymm hcarry.matched (List.drop_eq_nil_iff.1 hheader)
  have hdue : stage.flightTo side.other = none := by
    rcases hflight : stage.flightTo side.other with _ | p
    · rfl
    · rw [hflight] at hcarry
      exact absurd hbody hcarry.underway.1
  rw [hdue] at hcarry
  have hcounted : mine.endpoint.framesSent = _ := h.outward
  rw [hcarry.coming_none, List.length_nil, Nat.add_zero] at hcounted
  exact ⟨hdue, hrests, hsent, hmatched, hcarry.underway.2.1, hcarry.underway.2.2, hcounted.symm⟩

end Steady

theorem Stage.flight_of_flightTo_none {stage : Stage} {side : Role}
    (h : stage.flightTo side = none) (hother : stage.flightTo side.other = none) :
    stage.flight = none := by
  rcases hflight : stage.flight with _ | p
  · rfl
  · by_cases hsender : p.kind.sender = side
    · have hne : p.kind.sender ≠ side.other := by rw [hsender]; exact side.ne_other
      cases (Stage.flightTo_other hflight hne).symm.trans hother
    · cases (Stage.flightTo_other hflight hsender).symm.trans h

/-! ### Pauses -/

/-- What a quiet link waits for. -/
inductive Pause where
  /-- The server's mechanisms. -/
  | unoffered
  /-- The client's mechanism. -/
  | unchosen
  /-- A challenge or the outcome. -/
  | undecided
  /-- The response. -/
  | unanswered
  /-- Nothing. -/
  | finished

def Pause.Holds (c s : Session) : Pause → Prop
  | unoffered => s.localMechanisms = []
  | unchosen => s.localMechanisms ≠ [] ∧ c.localMechanisms = []
  | undecided => c.initPassed = true ∧ s.initPassed = true ∧ c.challengeOpen = false ∧
    s.challengeOpen = false ∧ s.queued = none ∧ s.outcome = .undecided
  | unanswered => c.challengeOpen = true ∧ s.challengeOpen = true ∧ c.queued = none
  | finished => c.phase = .done ∧ s.phase = .done ∧ c.outcome = s.outcome

/-- Where nothing is on its way or due, an exchange has come to one pause. -/
theorem Joint.pauses {c s : Session} {stage : Stage} (h : Joint c s stage)
    (hflight : stage.flight = none) (hloser : stage.loser = none)
    (hclient : on c Session.nextOutbound = (.ok none, c))
    (hserver : on s Session.nextOutbound = (.ok none, s)) :
    ∃! pause : Pause, pause.Holds c s := by
  have ⟨hc, hs, hagreed, _⟩ := h
  cases stage with
  | offering | choosing | challenging | responding | concluding => cases hflight
  | offerLost | choiceLost => cases hloser
  | opening =>
    have hunset : s.localMechanisms = [] := by
      refine Decidable.byContradiction fun hset => ?_
      obtain ⟨s', hemits, -⟩ := h.sends_mechanisms hset
      cases hserver.symm.trans hemits.due
    refine ⟨.unoffered, hunset, fun pause hpause => ?_⟩
    cases pause with
    | unoffered => rfl
    | unchosen => exact absurd hunset hpause.1
    | undecided => cases hs.initPassed.symm.trans hpause.2.1
    | unanswered => cases hs.challengeOpen.symm.trans hpause.2.1
    | finished => cases hs.phase.symm.trans hpause.2.1
  | offered =>
    have hoffer := (hagreed.offered (by rw [hc.phase]; exact nofun)).2
    have hunset : c.localMechanisms = [] := by
      rcases hagreed.one with hnone | ⟨mechanism, -, hone⟩
      · exact hnone
      · obtain ⟨c', hemits, -⟩ := h.sends_init hone
        cases hclient.symm.trans hemits.due
    refine ⟨.unchosen, ⟨hoffer, hunset⟩, fun pause hpause => ?_⟩
    cases pause with
    | unoffered => exact absurd hpause hoffer
    | unchosen => rfl
    | undecided => cases hs.initPassed.symm.trans hpause.2.1
    | unanswered => cases hs.challengeOpen.symm.trans hpause.2.1
    | finished => cases hs.phase.symm.trans hpause.2.1
  | serverTurn challenged =>
    have hengaged := Phase.engaged_ne_done challenged
    have hoffer := (hagreed.offered (by
      rw [hc.phase]
      exact Phase.engaged_ne_configuring challenged)).2
    have hchoice := (hagreed.chosen hs.initPassed).2.1
    have hundecided : s.outcome = .undecided := by
      refine Decidable.byContradiction fun hdecided => ?_
      obtain ⟨s', hemits, -⟩ := h.sends_outcome hdecided
      cases hserver.symm.trans hemits.due
    have hqueued : s.queued = none := by
      rcases hqueued : s.queued with _ | payload
      · rfl
      · obtain ⟨s', hemits, -⟩ := h.sends_challenge hundecided hqueued
        cases hserver.symm.trans hemits.due
    refine ⟨.undecided, ⟨hc.initPassed, hs.initPassed, hc.challengeOpen, hs.challengeOpen, hqueued,
      hundecided⟩, fun pause hpause => ?_⟩
    cases pause with
    | unoffered => exact absurd hpause hoffer
    | unchosen => exact absurd hpause.2 hchoice
    | undecided => rfl
    | unanswered => cases hs.challengeOpen.symm.trans hpause.2.1
    | finished => exact absurd (hs.phase.symm.trans hpause.2.1) hengaged
  | clientTurn =>
    have hoffer := (hagreed.offered (by rw [hc.phase]; exact nofun)).2
    have hchoice := (hagreed.chosen hs.initPassed).2.1
    have hqueued : c.queued = none := by
      rcases hqueued : c.queued with _ | payload
      · rfl
      · obtain ⟨c', hemits, -⟩ := h.sends_response hqueued
        cases hclient.symm.trans hemits.due
    refine ⟨.unanswered, ⟨hc.challengeOpen, hs.challengeOpen, hqueued⟩, fun pause hpause => ?_⟩
    cases pause with
    | unoffered => exact absurd hpause hoffer
    | unchosen => exact absurd hpause.2 hchoice
    | undecided => cases hc.challengeOpen.symm.trans hpause.2.2.1
    | unanswered => rfl
    | finished => cases hc.phase.symm.trans hpause.1
  | concluded =>
    have hoffer := (hagreed.offered (by rw [hc.phase]; exact nofun)).2
    have hchoice := (hagreed.chosen hs.initPassed).2.1
    obtain ⟨hsame, hdecided⟩ := hagreed.decided hc.phase
    refine ⟨.finished, ⟨hc.phase, hs.phase, hsame⟩, fun pause hpause => ?_⟩
    cases pause with
    | unoffered => exact absurd hpause hoffer
    | unchosen => exact absurd hpause.2 hchoice
    | undecided => exact absurd (hsame.trans hpause.2.2.2.2.2) hdecided
    | unanswered => cases hc.challengeOpen.symm.trans hpause.1
    | finished => rfl

/-- With all that the owners have to give, no pause but the last is left. -/
theorem Pause.finished_of_given {c s : Session} {pause : Pause} (h : pause.Holds c s)
    (hclient : c.localMechanisms ≠ []) (hserver : s.localMechanisms ≠ [])
    (hdecided : s.outcome ≠ .undecided)
    (hanswered : c.queued ≠ none ∨ c.challengeOpen = false ∨ s.challengeOpen = false) :
    pause = .finished := by
  cases pause with
  | unoffered => exact absurd h hserver
  | unchosen => exact absurd h.2 hclient
  | undecided => exact absurd h.2.2.2.2.2 hdecided
  | unanswered =>
    obtain ⟨hc, hs, hqueued⟩ := h
    rcases hanswered with hsome | hclosed | hclosed
    · exact absurd hqueued hsome
    · cases hclosed.symm.trans hc
    · cases hclosed.symm.trans hs
  | finished => rfl

namespace Link

/-- In a quiet link nothing is on its way, in either direction. -/
theorem Quiet.drained {l : Link} {stage : Stage} (h : l.Quiet) (hsteady : l.Steady stage) :
    stage.flight = none ∧ Drained l.client.wide l.server.wide ∧
      Drained l.server.wide l.client.wide := by
  have hclient : l.client.wide.endpoint.output.result = .ok [] :=
    (congrArg Turn.result l.client.endpoint.output_wide).trans h.clientOutput
  have hserver : l.server.wide.endpoint.output.result = .ok [] :=
    (congrArg Turn.result l.server.endpoint.output_wide).trans h.serverOutput
  obtain ⟨houtward, hforth⟩ := hsteady.drained h.serverWire hclient
  obtain ⟨hinward, hback⟩ := hsteady.flip.drained h.clientWire hserver
  exact ⟨Stage.flight_of_flightTo_none hinward houtward, hforth, hback⟩

/-- After any acts of the owners in any order, with any limits: a quiet link waits for one thing,
the server's mechanisms, the client's choice, a challenge or an outcome, a response, or it has come
to the end. If the owners have given all that, it has come to the end. -/
theorem quiet_pauses (clientName serverName : Bytes) (acts : List (Role × Party.Act)) :
    let l := (fresh clientName serverName default default).after acts
    let c := l.client.endpoint.session
    let s := l.server.endpoint.session
    l.Quiet →
      (∃! pause : Pause, pause.Holds c s) ∧
        (c.localMechanisms ≠ [] → s.localMechanisms ≠ [] → s.outcome ≠ .undecided →
          (c.queued ≠ none ∨ c.challengeOpen = false ∨ s.challengeOpen = false) →
            Pause.finished.Holds c s) := by
  intro l c s hquiet
  obtain ⟨stage, hsteady⟩ : ∃ stage, l.Steady stage :=
    (steady_fresh clientName serverName).after acts hquiet.going
  obtain ⟨hflight, hforth, hback⟩ := hquiet.drained hsteady
  have hloser : stage.loser = none := by
    rcases hloser : stage.loser with _ | side
    · rfl
    · have hmine := hsteady.sound.mine.failed.1 hsteady.going
      have htheirs := hsteady.sound.theirs.failed.1 hsteady.theirsGoing
      cases side with
      | client => exact absurd hloser hmine
      | server => exact absurd hloser htheirs
  have hjoint : Joint c s stage := hsteady.sound.facing
  obtain ⟨pause, hpause, hunique⟩ :=
    hjoint.pauses hflight hloser hforth.rests hback.rests
  refine ⟨⟨pause, hpause, hunique⟩, fun hclient hserver hdecided hanswered => ?_⟩
  rw [← Pause.finished_of_given hpause hclient hserver hdecided hanswered]
  exact hpause

/-- A server that has its outcome ready, and all that passes until the link is quiet. -/
theorem quiet_pauses_at_end :
    let acts : List (Role × Party.Act) :=
      [(.server, .call (.setMechanisms [text "PLAIN"])),
        (.client, .call (.setMechanisms [text "PLAIN"])), (.server, .call (.declare .ok none)),
        (.client, .output), (.server, .deliver 8), (.server, .output), (.client, .deliver 60),
        (.client, .output), (.server, .deliver 60), (.server, .output), (.client, .deliver 60)]
    let l := (fresh [] [] default default).after acts
    l.Quiet ∧ Pause.finished.Holds l.client.endpoint.session l.server.endpoint.session := by
  intro acts l
  have hquiet : l.Quiet := by decide +kernel
  exact ⟨hquiet, (quiet_pauses [] [] acts hquiet).2 (by decide +kernel) (by decide +kernel)
    (by decide +kernel) (by decide +kernel)⟩

end Link

end FramedSasl
