import FramedSasl.Proofs.FrameRoundTrip
import FramedSasl.Proofs.Refusals

/-! One side of an exchange. `Stands` has what of a session decides which performatives may pass; a
performative that is due leaves it as `Emits` says, one of the peer as `Accepts` says. Once it has a
role a session is `At` one of six places, whatever its owner and its peer do; `Place.next?` has the
kinds that lead from one to another. -/

namespace FramedSasl

open Call

namespace Role

theorem eq_server_of_ne {side : Role} (h : side ≠ .client) : side = .server := by
  cases side with
  | client => exact absurd rfl h
  | server => rfl

theorem eq_client_of_ne {side : Role} (h : side ≠ .server) : side = .client := by
  cases side with
  | client => rfl
  | server => exact absurd rfl h

end Role

/-- What of a session decides which performatives may pass. -/
structure Control where
  phase : Phase
  initPassed : Bool
  challengeOpen : Bool

/-- The flags let a performative of this kind come in. -/
def Control.readyFor (control : Control) : Kind → Bool
  | .mechanisms => true
  | .init => !control.initPassed
  | .challenge => control.initPassed && !control.challengeOpen
  | .response => control.challengeOpen
  | .outcome => control.initPassed

structure Session.Stands (s : Session) (side : Role) (control : Control) : Prop where
  role : s.role = some side
  phase : s.phase = control.phase
  initPassed : s.initPassed = control.initPassed
  challengeOpen : s.challengeOpen = control.challengeOpen

namespace Phase

theorem engaged_ne_configuring (challenged : Bool) : engaged challenged ≠ .configuring := by
  cases challenged <;> exact nofun

theorem engaged_ne_done (challenged : Bool) : engaged challenged ≠ .done := by
  cases challenged <;> exact nofun

variable {phase next : Phase} {side : Role} {kind : Kind} {fault : Fault}

theorem sender_ne_of_afterReceiving (h : phase.afterReceiving (some side) kind = .ok next) :
    kind.sender ≠ side := by
  simp only [afterReceiving] at h
  split at h
  · cases h
  · assumption

theorem afterReceiving_error (h : phase.afterReceiving (some side) kind = .error fault) :
    fault.kind.isProtocol = true := by
  simp only [afterReceiving] at h
  repeat' split at h
  all_goals cases h
  all_goals rfl

end Phase

/-- The outcome that a performative tells. -/
def Performative.verdict? : Performative → Option Outcome
  | outcome code _ => some code
  | _ => none

/-- `p` is the one performative that is due on `side`, and leaves the session as `after`. -/
structure Session.Emits (side : Role) (before : Session) (p : Performative)
    (after : Session) : Prop where
  due : on before nextOutbound = (.ok (some p), after)
  last : on after nextOutbound = (.ok none, after)
  sender : p.kind.sender = side
  decided : p.Decided
  payload : p.payload?.getD [] ++ after.outbound = before.outbound
  inbound : after.inbound = before.inbound
  outcome : after.outcome = before.outcome
  told : ∀ code, p.verdict? = some code → code = before.outcome

structure Session.Accepts (before : Session) (p : Performative) (after : Session) : Prop where
  accepted : on before (accept p) = (.ok (), after)
  inbound : after.inbound = before.inbound ++ p.payload?.getD []
  outbound : after.outbound = before.outbound
  outcome : after.outcome = p.verdict?.getD before.outcome

namespace Session.Stands

variable {s : Session} {challenged : Bool} {payload : Bytes}

/-! ### Performatives out -/

theorem emits_mechanisms (h : s.Stands .server ⟨.configuring, false, false⟩)
    (hset : s.localMechanisms ≠ []) :
    Emits .server s (.mechanisms s.localMechanisms) { s with phase := .mechanismExchange } where
  due := server_emits_mechanisms h.role h.phase hset
  last := server_rests h.role (.inr (.inr ⟨nofun, .inl h.initPassed⟩))
  sender := rfl
  decided := trivial
  payload := rfl
  inbound := rfl
  outcome := rfl
  told := nofun

theorem emits_init {mechanism : Bytes} {more : List Bytes}
    (h : s.Stands .client ⟨.mechanismExchange, false, false⟩)
    (hlocal : s.localMechanisms = mechanism :: more) (hremote : s.remoteMechanisms ≠ []) :
    Emits .client s (.init mechanism s.queued s.hostname)
      { s with initPassed := true, outbound := s.unflagged, hasOutbound := false } where
  due := client_emits_init h.role h.phase h.initPassed hlocal hremote
  last := client_rests h.role (.inr (.inr ⟨rfl, .inl h.challengeOpen⟩))
  sender := rfl
  decided := trivial
  payload := s.queued_append_unflagged
  inbound := rfl
  outcome := rfl
  told := nofun

theorem emits_challenge (h : s.Stands .server ⟨.engaged challenged, true, false⟩)
    (hundecided : s.outcome = .undecided) (hqueued : s.queued = some payload) :
    Emits .server s (.challenge payload)
      { s with
        phase := .challengeResponse, challengeOpen := true, outbound := []
        hasOutbound := false } where
  due := server_emits_challenge h.role h.phase h.initPassed h.challengeOpen hundecided hqueued
  last := server_rests h.role (.inr (.inr ⟨nofun, .inr (.inl rfl)⟩))
  sender := rfl
  decided := trivial
  payload := (List.append_nil payload).trans (flag_of_queued hqueued).2.symm
  inbound := rfl
  outcome := rfl
  told := nofun

theorem emits_response (h : s.Stands .client ⟨.challengeResponse, true, true⟩)
    (hqueued : s.queued = some payload) :
    Emits .client s (.response payload)
      { s with challengeOpen := false, outbound := [], hasOutbound := false } where
  due := client_emits_response h.role h.phase h.initPassed h.challengeOpen hqueued
  last := client_rests h.role (.inr (.inr ⟨h.initPassed, .inl rfl⟩))
  sender := rfl
  decided := trivial
  payload := (List.append_nil payload).trans (flag_of_queued hqueued).2.symm
  inbound := rfl
  outcome := rfl
  told := nofun

theorem emits_outcome (h : s.Stands .server ⟨.engaged challenged, true, false⟩)
    (hdecided : s.outcome ≠ .undecided) :
    Emits .server s (.outcome s.outcome s.queued)
      { s with phase := .done, outbound := s.unflagged, hasOutbound := false } where
  due := server_emits_outcome h.role h.phase h.initPassed h.challengeOpen hdecided
  last := server_rests h.role (.inl rfl)
  sender := rfl
  decided := hdecided
  payload := s.queued_append_unflagged
  inbound := rfl
  outcome := rfl
  told _ htold := (Option.some.inj htold).symm

/-! ### Performatives in -/

theorem accepts_mechanisms {names : List Bytes}
    (h : s.Stands .client ⟨.configuring, false, false⟩) (hne : names ≠ []) :
    Accepts s (.mechanisms names)
      { s with phase := .mechanismExchange, remoteMechanisms := names } where
  accepted := client_accepts_mechanisms h.role h.phase hne
  inbound := (List.append_nil _).symm
  outbound := rfl
  outcome := rfl

theorem accepts_init {mechanism : Bytes} {data hostname : Option Bytes}
    (h : s.Stands .server ⟨.mechanismExchange, false, false⟩) (hnamed : mechanism ≠ []) :
    Accepts s (.init mechanism data hostname) { s with
      remoteMechanisms := [mechanism], hostname, inbound := s.inbound ++ data.getD []
      initPassed := true } where
  accepted := server_accepts_init h.role h.phase h.initPassed hnamed
  inbound := rfl
  outbound := rfl
  outcome := rfl

theorem accepts_challenge (h : s.Stands .client ⟨.engaged challenged, true, false⟩) :
    Accepts s (.challenge payload) { s with
      phase := .challengeResponse, inbound := s.inbound ++ payload, challengeOpen := true } where
  accepted := client_accepts_challenge h.role h.phase h.initPassed h.challengeOpen
  inbound := rfl
  outbound := rfl
  outcome := rfl

theorem accepts_response (h : s.Stands .server ⟨.challengeResponse, true, true⟩) :
    Accepts s (.response payload)
      { s with inbound := s.inbound ++ payload, challengeOpen := false } where
  accepted := server_accepts_response h.role h.phase h.challengeOpen
  inbound := rfl
  outbound := rfl
  outcome := rfl

/-- An outcome comes in with a challenge open, too. -/
theorem accepts_outcome {isOpen : Bool} {code : Outcome} {data : Option Bytes}
    (h : s.Stands .client ⟨.engaged challenged, true, isOpen⟩) :
    Accepts s (.outcome code data) { s with
      phase := .done, inbound := s.inbound ++ data.getD [], challengeOpen := false
      outcome := code } where
  accepted := client_accepts_outcome h.role h.phase h.initPassed
  inbound := rfl
  outbound := rfl
  outcome := rfl

end Session.Stands

/-- A list of mechanisms has names, and an init names one. -/
def Performative.HasContent : Performative → Prop
  | mechanisms names => names ≠ []
  | init mechanism .. => mechanism ≠ []
  | _ => True

/-! ### Taking in, step by step -/

namespace Session

variable {s s' : Session} {side : Role} {p : Performative} {fault : Fault}

theorem on_accept (s : Session) (p : Performative) :
    on s (accept p) =
      match s.phase.afterReceiving s.role p.kind with
      | .error fault => (.error fault, s)
      | .ok phase =>
        match on s (apply p) with
        | (.error fault, s') => (.error fault, s')
        | (.ok (), after) => (.ok (), { after with phase }) := by
  rcases hphase : s.phase.afterReceiving s.role p.kind with fault | phase
  · simp only [accept, on_get_bind, on_ofExcept_bind, hphase]
  · simp only [accept, on_get_bind, on_ofExcept_bind, hphase]
    rw [on_bind]
    rcases on s (apply p) with ⟨fault | _, after⟩ <;> rfl

theorem accept_ok (h : on s (accept p) = (.ok (), s')) :
    ∃ phase after, s.phase.afterReceiving s.role p.kind = .ok phase ∧
      on s (apply p) = (.ok (), after) ∧ s' = { after with phase } := by
  rw [on_accept] at h
  split at h
  · cases h
  · next phase hphase =>
    split at h
    · cases h
    · next after hafter =>
      cases h
      exact ⟨phase, after, hphase, hafter, rfl⟩

/-- All that can come in, and what taking it in changes but for the phase. -/
inductive TakesIn (s : Session) : Performative → Session → Prop
  | mechanisms (names : List Bytes) (hrole : s.role = some .client) (hnames : names ≠ []) :
      TakesIn s (.mechanisms names) { s with remoteMechanisms := names }
  | init (mechanism : Bytes) (data hostname : Option Bytes) (hrole : s.role = some .server)
      (hearly : s.initPassed = false) (hnamed : mechanism ≠ []) :
      TakesIn s (.init mechanism data hostname) { s with
        remoteMechanisms := [mechanism], hostname, inbound := s.inbound ++ data.getD []
        initPassed := true }
  | challenge (payload : Bytes) (hrole : s.role = some .client) (hinit : s.initPassed = true)
      (hclosed : s.challengeOpen = false) :
      TakesIn s (.challenge payload)
        { s with inbound := s.inbound ++ payload, challengeOpen := true }
  | response (payload : Bytes) (hrole : s.role = some .server) (hopen : s.challengeOpen = true) :
      TakesIn s (.response payload)
        { s with inbound := s.inbound ++ payload, challengeOpen := false }
  | outcome (code : Outcome) (data : Option Bytes) (hrole : s.role = some .client)
      (hinit : s.initPassed = true) :
      TakesIn s (.outcome code data) { s with
        inbound := s.inbound ++ data.getD [], challengeOpen := false, outcome := code }

theorem takesIn_of_clientApply {after : Session} (hrole : s.role = some .client)
    (h : on s (clientApply p) = (.ok (), after)) : s.TakesIn p after := by
  simp only [clientApply, on_get_bind] at h
  split at h
  · split at h
    · cases h
    · next hnames =>
      cases h
      exact .mechanisms _ hrole hnames
  · split at h
    · cases h
    · next hinit =>
      split at h
      · cases h
      · next hclosed =>
        cases h
        exact .challenge _ hrole (Bool.of_not_eq_false hinit) (Bool.of_not_eq_true hclosed)
  · split at h
    · cases h
    · next hinit =>
      cases h
      exact .outcome _ _ hrole (Bool.of_not_eq_false hinit)
  · cases h

theorem takesIn_of_serverApply {after : Session} (hrole : s.role = some .server)
    (h : on s (serverApply p) = (.ok (), after)) : s.TakesIn p after := by
  simp only [serverApply, on_get_bind] at h
  split at h
  · split at h
    · cases h
    · next hearly =>
      split at h
      · cases h
      · next hnamed =>
        cases h
        exact .init _ _ _ hrole (Bool.of_not_eq_true hearly) hnamed
  · split at h
    · cases h
    · next hopen =>
      cases h
      exact .response _ hrole (Bool.of_not_eq_false hopen)
  · cases h

theorem takesIn_of_apply {after : Session} (hrole : s.role = some side)
    (h : on s (apply p) = (.ok (), after)) : s.TakesIn p after := by
  simp only [apply, on_get_bind, hrole] at h
  cases side with
  | client => exact takesIn_of_clientApply hrole h
  | server => exact takesIn_of_serverApply hrole h

theorem takesIn_of_accept (h : on s (accept p) = (.ok (), s')) :
    ∃ after phase, s.TakesIn p after ∧ s.phase.after? p.kind = some phase ∧
      s' = { after with phase } := by
  obtain ⟨phase, after, hreceiving, happly, rfl⟩ := accept_ok h
  rcases hrole : s.role with _ | side
  · rw [hrole] at hreceiving
    cases hreceiving
  · exact ⟨after, phase, takesIn_of_apply hrole happly,
      Phase.after?_of_afterReceiving hreceiving, rfl⟩

/-- Behind the end nothing is taken in. -/
theorem accept_done (hdone : s.phase = .done) (p : Performative) :
    ∃ fault, on s (accept p) = (.error fault, s) := by
  rcases haccept : on s (accept p) with ⟨fault | _, s'⟩
  · exact ⟨fault, by rw [atomic_accept p s fault s' haccept]⟩
  · obtain ⟨phase, after, hreceiving, -, -⟩ := accept_ok haccept
    have hafter := Phase.after?_of_afterReceiving hreceiving
    rw [hdone] at hafter
    cases hafter

theorem apply_error (hrole : s.role = some side) (hsender : p.kind.sender ≠ side)
    (h : on s (apply p) = (.error fault, s')) : fault.kind.isProtocol = true := by
  simp only [apply, on_get_bind, hrole] at h
  cases side <;> cases p <;> simp [Kind.sender, Performative.kind] at hsender <;>
    simp only [clientApply, serverApply, on_get_bind] at h <;> repeat' split at h
  all_goals cases h
  all_goals rfl

/-- A performative that is refused breaks the protocol, and changes nothing. -/
theorem accept_error (hrole : s.role = some side) (h : on s (accept p) = (.error fault, s')) :
    fault.kind.isProtocol = true ∧ s' = s := by
  refine ⟨?_, atomic_accept p s fault s' h⟩
  rw [on_accept, hrole] at h
  split at h
  · next hphase =>
    cases h
    exact Phase.afterReceiving_error hphase
  · next phase hphase =>
    split at h
    · next hafter =>
      cases h
      exact apply_error hrole (Phase.sender_ne_of_afterReceiving hphase) hafter
    · cases h

theorem Stands.of_apply {control : Control} {after : Session} (h : s.Stands side control)
    (happly : on s (apply p) = (.ok (), after)) :
    p.HasContent ∧ control.readyFor p.kind = true := by
  obtain ⟨hrole, -, hinit, hopen⟩ := h
  cases takesIn_of_apply hrole happly with
  | mechanisms names _ hnames => exact ⟨hnames, rfl⟩
  | init mechanism data hostname _ hearly hnamed =>
    exact ⟨hnamed, by simp [Control.readyFor, Performative.kind, ← hinit, hearly]⟩
  | challenge payload _ hpassed hclosed =>
    exact ⟨trivial, by
      simp [Control.readyFor, Performative.kind, ← hinit, ← hopen, hpassed, hclosed]⟩
  | response payload _ hasked => exact ⟨trivial, hopen.symm.trans hasked⟩
  | outcome code data _ hpassed => exact ⟨trivial, hinit.symm.trans hpassed⟩

end Session

/-! ### Places -/

/-- How far an exchange is, by what has passed. -/
inductive Place where
  | opening
  | offered
  | chosen
  | challenged
  | answered
  | finished
  deriving DecidableEq

namespace Place

/-- The place after a performative of this kind has passed, if it may. Only a client may see an
outcome while a challenge is open. -/
def next? (side : Role) : Place → Kind → Option Place
  | opening, .mechanisms => some offered
  | offered, .init => some chosen
  | chosen, .challenge | answered, .challenge => some challenged
  | challenged, .response => some answered
  | chosen, .outcome | answered, .outcome => some finished
  | challenged, .outcome => if side = .client then some finished else none
  | _, _ => none

def control : Place → Control
  | opening => ⟨.configuring, false, false⟩
  | offered => ⟨.mechanismExchange, false, false⟩
  | chosen => ⟨.mechanismExchange, true, false⟩
  | challenged => ⟨.challengeResponse, true, true⟩
  | answered => ⟨.challengeResponse, true, false⟩
  | finished => ⟨.done, true, false⟩

/-- Phase and flags together leave no other way on. -/
theorem next?_of_readyFor {side : Role} {place : Place} {kind : Kind} (hsender : kind.sender ≠ side)
    (hphase : (place.control.phase.after? kind).isSome = true)
    (hready : place.control.readyFor kind = true) : ∃ next, place.next? side kind = some next := by
  rw [← Option.isSome_iff_exists]
  revert hsender hphase hready
  cases side <;> cases place <;> cases kind <;> decide

theorem kind_of_finished {side : Role} {place : Place} {kind : Kind}
    (h : place.next? side kind = some .finished) : kind = .outcome := by
  revert h
  cases side <;> cases place <;> cases kind <;> decide

end Place

namespace Session

/-- A client knows what is offered from the offer on. -/
structure At (side : Role) (s : Session) (place : Place) : Prop where
  stands : s.Stands side place.control
  offer : side = .client → (s.remoteMechanisms = [] ↔ place = .opening)

namespace At

variable {s s' : Session} {side : Role} {place : Place}

theorem assigned (side : Role) :
    At side { role := some side, phase := .configuring } .opening where
  stands := ⟨rfl, rfl, rfl, rfl⟩
  offer := by simp

theorem done_iff (h : s.At side place) : s.phase = .done ↔ place = .finished := by
  rw [h.stands.phase]
  cases place <;> simp [Place.control]

/-- What does not decide which performatives may pass does not matter. -/
theorem of_same (h : s.At side place) (hrole : s'.role = s.role) (hphase : s'.phase = s.phase)
    (hinit : s'.initPassed = s.initPassed) (hopen : s'.challengeOpen = s.challengeOpen)
    (hremote : s'.remoteMechanisms = s.remoteMechanisms) : s'.At side place := by
  obtain ⟨⟨hrole', hphase', hinit', hopen'⟩, hoffer⟩ := h
  refine ⟨⟨hrole.trans hrole', hphase.trans hphase', hinit.trans hinit', hopen.trans hopen'⟩, ?_⟩
  rwa [hremote]

theorem obeys {call : OwnerCall} {result : Except Fault Unit} (h : s.At side place)
    (ho : Obeys side s call (result, s')) : s'.At side place := by
  cases ho with
  | refused | sameRole => exact h
  | named | asked | queued => exact h.of_same rfl rfl rfl rfl rfl
  | declared outcome data =>
    cases data <;> exact h.of_same rfl rfl rfl rfl rfl

theorem receive (h : s.At side place) (n : Nat) : (s.receive n).2.At side place :=
  h.of_same rfl rfl rfl rfl rfl

/-! ### Performatives out -/

theorem client_emits (h : s.At .client place) :
    on s nextOutbound = (.ok none, s) ∨ ∃ p s' next, Emits .client s p s' ∧
      place.next? .client p.kind = some next ∧ s'.At .client next := by
  obtain ⟨hstands, hoffer⟩ := h
  have hoffer := hoffer rfl
  cases place with
  | opening =>
    have hnone : s.remoteMechanisms = [] := hoffer.2 rfl
    exact .inl (client_rests hstands.role (.inr (.inl ⟨hstands.initPassed, .inr hnone⟩)))
  | offered =>
    have hremote : s.remoteMechanisms ≠ [] := by simp [hoffer]
    rcases hlocal : s.localMechanisms with _ | ⟨mechanism, more⟩
    · exact .inl (client_rests hstands.role (.inr (.inl ⟨hstands.initPassed, .inl hlocal⟩)))
    · refine .inr ⟨_, _, .chosen, hstands.emits_init hlocal hremote, rfl, ?_⟩
      exact ⟨⟨hstands.role, hstands.phase, rfl, hstands.challengeOpen⟩, fun _ => by simp [hremote]⟩
  | chosen | answered =>
    exact .inl (client_rests hstands.role
      (.inr (.inr ⟨hstands.initPassed, .inl hstands.challengeOpen⟩)))
  | challenged =>
    rcases hqueued : s.queued with _ | payload
    · exact .inl (client_rests hstands.role (.inr (.inr ⟨hstands.initPassed, .inr hqueued⟩)))
    · refine .inr ⟨_, _, .answered, hstands.emits_response hqueued, rfl, ?_⟩
      exact ⟨⟨hstands.role, hstands.phase, hstands.initPassed, rfl⟩, fun _ => by simp [hoffer]⟩
  | finished => exact .inl (client_rests hstands.role (.inl hstands.phase))

/-- Between challenges a server sends its outcome, else what is queued. -/
theorem server_engaged_emits {challenged : Bool}
    (hstands : s.Stands .server ⟨.engaged challenged, true, false⟩)
    (hchallenge : place.next? .server .challenge = some .challenged)
    (houtcome : place.next? .server .outcome = some .finished) :
    on s nextOutbound = (.ok none, s) ∨ ∃ p s' next, Emits .server s p s' ∧
      place.next? .server p.kind = some next ∧ s'.At .server next := by
  by_cases hundecided : s.outcome = .undecided
  · rcases hqueued : s.queued with _ | payload
    · have hlater : s.phase ≠ .configuring := by
        simpa [hstands.phase] using Phase.engaged_ne_configuring challenged
      exact .inl (server_rests hstands.role
        (.inr (.inr ⟨hlater, .inr (.inr ⟨hundecided, hqueued⟩)⟩)))
    · exact .inr ⟨_, _, .challenged, hstands.emits_challenge hundecided hqueued, hchallenge,
        ⟨hstands.role, rfl, hstands.initPassed, rfl⟩, nofun⟩
  · exact .inr ⟨_, _, .finished, hstands.emits_outcome hundecided, houtcome,
      ⟨hstands.role, rfl, hstands.initPassed, hstands.challengeOpen⟩, nofun⟩

theorem server_emits (h : s.At .server place) :
    on s nextOutbound = (.ok none, s) ∨ ∃ p s' next, Emits .server s p s' ∧
      place.next? .server p.kind = some next ∧ s'.At .server next := by
  obtain ⟨hstands, -⟩ := h
  cases place with
  | opening =>
    by_cases hset : s.localMechanisms = []
    · exact .inl (server_rests hstands.role (.inr (.inl ⟨hstands.phase, hset⟩)))
    · exact .inr ⟨_, _, .offered, hstands.emits_mechanisms hset, rfl,
        ⟨hstands.role, rfl, hstands.initPassed, hstands.challengeOpen⟩, nofun⟩
  | offered =>
    have hlater : s.phase ≠ .configuring := by simp [hstands.phase, Place.control]
    exact .inl (server_rests hstands.role (.inr (.inr ⟨hlater, .inl hstands.initPassed⟩)))
  | chosen =>
    have hengaged : s.Stands .server ⟨.engaged false, true, false⟩ := hstands
    exact server_engaged_emits hengaged rfl rfl
  | challenged =>
    have hlater : s.phase ≠ .configuring := by simp [hstands.phase, Place.control]
    exact .inl (server_rests hstands.role (.inr (.inr ⟨hlater, .inr (.inl hstands.challengeOpen)⟩)))
  | answered =>
    have hengaged : s.Stands .server ⟨.engaged true, true, false⟩ := hstands
    exact server_engaged_emits hengaged rfl rfl
  | finished => exact .inl (server_rests hstands.role (.inl hstands.phase))

/-- Nothing is due, or one performative that leads to the next place. -/
theorem emits (h : s.At side place) :
    on s nextOutbound = (.ok none, s) ∨ ∃ p s' next, Emits side s p s' ∧
      place.next? side p.kind = some next ∧ s'.At side next := by
  cases side with
  | client => exact h.client_emits
  | server => exact h.server_emits

/-! ### Performatives in -/

theorem client_takes_challenge {challenged : Bool} {payload : Bytes} (h : s.At .client place)
    (hstands : s.Stands .client ⟨.engaged challenged, true, false⟩) (hplace : place ≠ .opening) :
    ∃ s', Accepts s (.challenge payload) s' ∧ s'.At .client .challenged :=
  ⟨_, hstands.accepts_challenge, ⟨hstands.role, rfl, hstands.initPassed, rfl⟩,
    fun hside => by simpa [hplace] using h.offer hside⟩

theorem client_takes_outcome {challenged isOpen : Bool} {code : Outcome} {data : Option Bytes}
    (h : s.At .client place) (hstands : s.Stands .client ⟨.engaged challenged, true, isOpen⟩)
    (hplace : place ≠ .opening) :
    ∃ s', Accepts s (.outcome code data) s' ∧ s'.At .client .finished :=
  ⟨_, hstands.accepts_outcome, ⟨hstands.role, rfl, hstands.initPassed, rfl⟩,
    fun hside => by simpa [hplace] using h.offer hside⟩

theorem client_accepts {p : Performative} {next : Place} (h : s.At .client place)
    (hsender : p.kind.sender = .server) (hnext : place.next? .client p.kind = some next)
    (hcontent : p.HasContent) : ∃ s', Accepts s p s' ∧ s'.At .client next := by
  have hstands := h.stands
  cases p with
  | init | response => cases hsender
  | mechanisms names =>
    have hnames : names ≠ [] := hcontent
    cases place with
    | opening =>
      cases hnext
      exact ⟨_, hstands.accepts_mechanisms hnames,
        ⟨hstands.role, rfl, hstands.initPassed, hstands.challengeOpen⟩, fun _ => by simp [hnames]⟩
    | _ => cases hnext
  | challenge payload =>
    cases place with
    | chosen =>
      cases hnext
      have hengaged : s.Stands .client ⟨.engaged false, true, false⟩ := hstands
      exact h.client_takes_challenge hengaged nofun
    | answered =>
      cases hnext
      have hengaged : s.Stands .client ⟨.engaged true, true, false⟩ := hstands
      exact h.client_takes_challenge hengaged nofun
    | _ => cases hnext
  | outcome code data =>
    cases place with
    | chosen =>
      cases hnext
      have hengaged : s.Stands .client ⟨.engaged false, true, false⟩ := hstands
      exact h.client_takes_outcome hengaged nofun
    | answered =>
      cases hnext
      have hengaged : s.Stands .client ⟨.engaged true, true, false⟩ := hstands
      exact h.client_takes_outcome hengaged nofun
    | challenged =>
      cases hnext
      have hengaged : s.Stands .client ⟨.engaged true, true, true⟩ := hstands
      exact h.client_takes_outcome hengaged nofun
    | _ => cases hnext

theorem server_accepts {p : Performative} {next : Place} (h : s.At .server place)
    (hsender : p.kind.sender = .client) (hnext : place.next? .server p.kind = some next)
    (hcontent : p.HasContent) : ∃ s', Accepts s p s' ∧ s'.At .server next := by
  obtain ⟨hstands, -⟩ := h
  cases p with
  | mechanisms | challenge | outcome => cases hsender
  | init mechanism data hostname =>
    cases place with
    | offered =>
      cases hnext
      exact ⟨_, hstands.accepts_init hcontent,
        ⟨hstands.role, hstands.phase, rfl, hstands.challengeOpen⟩, nofun⟩
    | _ => cases hnext
  | response payload =>
    cases place with
    | challenged =>
      cases hnext
      exact ⟨_, hstands.accepts_response,
        ⟨hstands.role, hstands.phase, hstands.initPassed, rfl⟩, nofun⟩
    | _ => cases hnext

/-- What the peer may send here is taken in. -/
theorem accepts {p : Performative} {next : Place} (h : s.At side place)
    (hsender : p.kind.sender ≠ side) (hnext : place.next? side p.kind = some next)
    (hcontent : p.HasContent) : ∃ s', Accepts s p s' ∧ s'.At side next := by
  cases side with
  | client => exact h.client_accepts (Role.eq_server_of_ne hsender) hnext hcontent
  | server => exact h.server_accepts (Role.eq_client_of_ne hsender) hnext hcontent

/-- Nothing else is taken in. -/
theorem of_accepts {p : Performative} (h : s.At side place)
    (haccept : on s (accept p) = (.ok (), s')) :
    p.kind.sender ≠ side ∧ (∃ next, place.next? side p.kind = some next) ∧ p.HasContent := by
  obtain ⟨phase, after, hreceiving, happly, -⟩ := accept_ok haccept
  rw [h.stands.role] at hreceiving
  have hsender := Phase.sender_ne_of_afterReceiving hreceiving
  have hafter := Phase.after?_of_afterReceiving hreceiving
  rw [h.stands.phase] at hafter
  obtain ⟨hcontent, hready⟩ := h.stands.of_apply happly
  exact ⟨hsender, Place.next?_of_readyFor hsender (by simp [hafter]) hready, hcontent⟩

end At

end Session

end FramedSasl
