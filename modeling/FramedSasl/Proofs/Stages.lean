import FramedSasl.Proofs.Fragments
import FramedSasl.Proofs.Places

/-! The stages of an exchange, seen from both sides. A client and a server at a stage are `Joint`:
each stands as the stage says, at most one performative is on its way, and they agree on what has
passed. Each call of an owner keeps the stage; a performative that goes out or comes in moves both
sides on together. -/

namespace FramedSasl

open Call

inductive Stage where
  | opening
  | offering (names : List Bytes)
  /-- The list of mechanisms did not fit a frame. -/
  | offerLost
  | offered
  | choosing (mechanism : Bytes) (data hostname : Option Bytes)
  /-- The init did not fit a frame. -/
  | choiceLost
  | serverTurn (challenged : Bool)
  | challenging (challenged : Bool) (payload : Bytes)
  | clientTurn
  | responding (payload : Bytes)
  | concluding (challenged : Bool) (code : Outcome) (data : Option Bytes)
  | concluded

namespace Stage

/-- The performative on its way. -/
def flight : Stage → Option Performative
  | offering names => some (.mechanisms names)
  | choosing mechanism data hostname => some (.init mechanism data hostname)
  | challenging _ payload => some (.challenge payload)
  | responding payload => some (.response payload)
  | concluding _ code data => some (.outcome code data)
  | _ => none

/-- The performative on its way to `side`. -/
def flightTo (stage : Stage) (side : Role) : Option Performative :=
  stage.flight.filter fun p => p.kind.sender ≠ side

/-- The stage once the performative on its way has come in. -/
def arrived : Stage → Stage
  | offering _ => offered
  | choosing .. => serverTurn false
  | challenging .. => clientTurn
  | responding _ => serverTurn true
  | concluding .. => concluded
  | stage => stage

/-- The stage if the performative on its way did not fit a frame. -/
def lost : Stage → Stage
  | offering _ => offerLost
  | choosing .. => choiceLost
  | stage => stage

/-- The side whose performative did not fit. -/
def loser : Stage → Option Role
  | offerLost => some .server
  | choiceLost => some .client
  | _ => none

def client : Stage → Control
  | opening | offering _ | offerLost => ⟨.configuring, false, false⟩
  | offered => ⟨.mechanismExchange, false, false⟩
  | choosing .. | choiceLost => ⟨.mechanismExchange, true, false⟩
  | serverTurn challenged | challenging challenged _ | concluding challenged .. =>
    ⟨.engaged challenged, true, false⟩
  | clientTurn => ⟨.challengeResponse, true, true⟩
  | responding _ => ⟨.challengeResponse, true, false⟩
  | concluded => ⟨.done, true, false⟩

def server : Stage → Control
  | opening => ⟨.configuring, false, false⟩
  | offering _ | offerLost | offered | choosing .. | choiceLost =>
    ⟨.mechanismExchange, false, false⟩
  | serverTurn challenged => ⟨.engaged challenged, true, false⟩
  | challenging .. | clientTurn | responding _ => ⟨.challengeResponse, true, true⟩
  | concluding .. | concluded => ⟨.done, true, false⟩

/-- What the performative on its way tells is what its sender has. -/
def Tells (c s : Session) : Stage → Prop
  | offering names => s.localMechanisms = names ∧ names ≠ []
  | choosing mechanism _ hostname => c.localMechanisms = [mechanism] ∧ c.hostname = hostname
  | concluding _ code _ => s.outcome = code ∧ code ≠ .undecided
  | _ => True

end Stage

/-- A client and a server have the same view of all that has passed. -/
structure Agreed (c s : Session) : Prop where
  one : c.localMechanisms = [] ∨ ∃ mechanism, mechanism ≠ [] ∧ c.localMechanisms = [mechanism]
  unoffered : c.phase = .configuring → c.remoteMechanisms = []
  offered : c.phase ≠ .configuring →
    c.remoteMechanisms = s.localMechanisms ∧ s.localMechanisms ≠ []
  unchosen : s.initPassed = false → s.remoteMechanisms = []
  chosen : s.initPassed = true → c.initPassed = true ∧ c.localMechanisms ≠ [] ∧
    s.remoteMechanisms = c.localMechanisms ∧ s.hostname = c.hostname
  undecided : c.phase ≠ .done → c.outcome = .undecided
  decided : c.phase = .done → c.outcome = s.outcome ∧ c.outcome ≠ .undecided

structure Joint (c s : Session) (stage : Stage) : Prop where
  client : c.Stands .client stage.client
  server : s.Stands .server stage.server
  agreed : Agreed c s
  tells : stage.Tells c s

namespace Joint

variable {c s c' s' : Session} {stage : Stage} {call : OwnerCall} {result : Except Fault Unit}

/-! ### Calls of the owner -/

/-- Bytes that are queued or received make no difference. -/
theorem client_bytes (h : Joint c s stage) (outbound inbound : Bytes) (hasOutbound : Bool) :
    Joint { c with outbound, hasOutbound, inbound } s stage := by
  obtain ⟨⟨hrole, hphase, hinit, hopen⟩, hserver, hagreed, htells⟩ := h
  exact ⟨⟨hrole, hphase, hinit, hopen⟩, hserver,
    ⟨hagreed.one, hagreed.unoffered, hagreed.offered, hagreed.unchosen, hagreed.chosen,
      hagreed.undecided, hagreed.decided⟩, by cases stage <;> exact htells⟩

theorem server_bytes (h : Joint c s stage) (outbound inbound : Bytes) (hasOutbound : Bool) :
    Joint c { s with outbound, hasOutbound, inbound } stage := by
  obtain ⟨hclient, ⟨hrole, hphase, hinit, hopen⟩, hagreed, htells⟩ := h
  exact ⟨hclient, ⟨hrole, hphase, hinit, hopen⟩,
    ⟨hagreed.one, hagreed.unoffered, hagreed.offered, hagreed.unchosen, hagreed.chosen,
      hagreed.undecided, hagreed.decided⟩, by cases stage <;> exact htells⟩

theorem client_obeys (h : Joint c s stage) (ho : Session.Obeys .client c call (result, c')) :
    Joint c' s stage := by
  have ⟨hclient, hserver, hagreed, htells⟩ := h
  cases ho with
  | refused | sameRole => exact h
  | queued bytes => exact h.client_bytes (c.outbound ++ bytes) c.inbound true
  | named names hunset hne hnames hone =>
    -- a client that has named its mechanism cannot name another, so `hunset` rules out the rest
    obtain ⟨mechanism, rfl⟩ := List.length_eq_one_iff.1 (hone rfl)
    have hnamed : mechanism ≠ [] := hnames mechanism (List.mem_singleton.2 rfl)
    refine ⟨⟨hclient.role, hclient.phase, hclient.initPassed, hclient.challengeOpen⟩, hserver,
      ⟨.inr ⟨mechanism, hnamed, rfl⟩, hagreed.unoffered, hagreed.offered, hagreed.unchosen,
        fun hpassed => absurd hunset (hagreed.chosen hpassed).2.1, hagreed.undecided,
        hagreed.decided⟩, ?_⟩
    cases stage with
    | choosing mechanism' data hostname =>
      have hset := htells.1
      rw [hunset] at hset
      cases hset
    | _ => exact htells
  | asked name _ hearly =>
    refine ⟨⟨hclient.role, hclient.phase, hclient.initPassed, hclient.challengeOpen⟩, hserver,
      ⟨hagreed.one, hagreed.unoffered, hagreed.offered, hagreed.unchosen, fun hpassed => ?_,
        hagreed.undecided, hagreed.decided⟩, ?_⟩
    · have hinit := (hagreed.chosen hpassed).1
      rw [hearly] at hinit
      cases hinit
    · cases stage with
      | choosing mechanism data hostname =>
        have hinit := hclient.initPassed
        rw [hearly] at hinit
        cases hinit
      | _ => exact htells
  | declared _ _ hrole => cases hrole

theorem server_obeys (h : Joint c s stage) (ho : Session.Obeys .server s call (result, s')) :
    Joint c s' stage := by
  have ⟨hclient, hserver, hagreed, htells⟩ := h
  cases ho with
  | refused | sameRole => exact h
  | queued bytes => exact h.server_bytes (s.outbound ++ bytes) s.inbound true
  | named names hunset =>
    refine ⟨hclient, ⟨hserver.role, hserver.phase, hserver.initPassed, hserver.challengeOpen⟩,
      ⟨hagreed.one, hagreed.unoffered, fun hphase => absurd hunset (hagreed.offered hphase).2,
        hagreed.unchosen, hagreed.chosen, hagreed.undecided, hagreed.decided⟩, ?_⟩
    cases stage with
    | offering names' => exact absurd (htells.1.symm.trans hunset) htells.2
    | _ => exact htells
  | asked _ hrole => cases hrole
  | declared outcome data _ hfirst =>
    -- behind an outcome that was sent, `hfirst` is false
    have hfields : Joint c { s with outcome } stage := by
      refine ⟨hclient, ⟨hserver.role, hserver.phase, hserver.initPassed, hserver.challengeOpen⟩,
        ⟨hagreed.one, hagreed.unoffered, hagreed.offered, hagreed.unchosen, hagreed.chosen,
          hagreed.undecided, fun hdone => ?_⟩, ?_⟩
      · obtain ⟨heq, hdecided⟩ := hagreed.decided hdone
        exact absurd (heq.trans hfirst) hdecided
      · cases stage with
        | concluding challenged code data => exact absurd (htells.1.symm.trans hfirst) htells.2
        | _ => exact htells
    cases data with
    | none => exact hfields
    | some data => exact hfields.server_bytes (s.outbound ++ data) s.inbound true

/-! ### Performatives out -/

theorem sends_mechanisms (h : Joint c s .opening) (hset : s.localMechanisms ≠ []) :
    ∃ s', Session.Emits .server s (.mechanisms s.localMechanisms) s' ∧
      Joint c s' (.offering s.localMechanisms) := by
  obtain ⟨hclient, hserver, hagreed, -⟩ := h
  refine ⟨_, hserver.emits_mechanisms hset, ?_⟩
  exact ⟨hclient, ⟨hserver.role, rfl, hserver.initPassed, hserver.challengeOpen⟩,
    ⟨hagreed.one, hagreed.unoffered, hagreed.offered, hagreed.unchosen, hagreed.chosen,
      hagreed.undecided, hagreed.decided⟩, ⟨rfl, hset⟩⟩

theorem sends_init {mechanism : Bytes} (h : Joint c s .offered)
    (hlocal : c.localMechanisms = [mechanism]) :
    ∃ c', Session.Emits .client c (.init mechanism c.queued c.hostname) c' ∧
      Joint c' s (.choosing mechanism c.queued c.hostname) := by
  obtain ⟨hclient, hserver, hagreed, -⟩ := h
  have hoffer := hagreed.offered (by rw [hclient.phase]; exact nofun)
  have hremote : c.remoteMechanisms ≠ [] := by
    rw [hoffer.1]
    exact hoffer.2
  refine ⟨_, hclient.emits_init hlocal hremote, ?_⟩
  exact ⟨⟨hclient.role, hclient.phase, rfl, hclient.challengeOpen⟩, hserver,
    ⟨hagreed.one, hagreed.unoffered, hagreed.offered, hagreed.unchosen,
      fun hpassed => ⟨rfl, (hagreed.chosen hpassed).2⟩, hagreed.undecided, hagreed.decided⟩,
    ⟨hlocal, rfl⟩⟩

variable {challenged : Bool} {payload : Bytes}

theorem sends_challenge (h : Joint c s (.serverTurn challenged))
    (hundecided : s.outcome = .undecided) (hqueued : s.queued = some payload) :
    ∃ s', Session.Emits .server s (.challenge payload) s' ∧
      Joint c s' (.challenging challenged payload) := by
  obtain ⟨hclient, hserver, hagreed, -⟩ := h
  refine ⟨_, hserver.emits_challenge hundecided hqueued, ?_⟩
  exact ⟨hclient, ⟨hserver.role, rfl, hserver.initPassed, rfl⟩,
    ⟨hagreed.one, hagreed.unoffered, hagreed.offered, hagreed.unchosen, hagreed.chosen,
      hagreed.undecided, hagreed.decided⟩, trivial⟩

theorem sends_response (h : Joint c s .clientTurn) (hqueued : c.queued = some payload) :
    ∃ c', Session.Emits .client c (.response payload) c' ∧ Joint c' s (.responding payload) := by
  obtain ⟨hclient, hserver, hagreed, -⟩ := h
  refine ⟨_, hclient.emits_response hqueued, ?_⟩
  exact ⟨⟨hclient.role, hclient.phase, hclient.initPassed, rfl⟩, hserver,
    ⟨hagreed.one, hagreed.unoffered, hagreed.offered, hagreed.unchosen, hagreed.chosen,
      hagreed.undecided, hagreed.decided⟩, trivial⟩

theorem sends_outcome (h : Joint c s (.serverTurn challenged)) (hdecided : s.outcome ≠ .undecided) :
    ∃ s', Session.Emits .server s (.outcome s.outcome s.queued) s' ∧
      Joint c s' (.concluding challenged s.outcome s.queued) := by
  obtain ⟨hclient, hserver, hagreed, -⟩ := h
  refine ⟨_, hserver.emits_outcome hdecided, ?_⟩
  exact ⟨hclient, ⟨hserver.role, rfl, hserver.initPassed, hserver.challengeOpen⟩,
    ⟨hagreed.one, hagreed.unoffered, hagreed.offered, hagreed.unchosen, hagreed.chosen,
      hagreed.undecided, hagreed.decided⟩, ⟨rfl, hdecided⟩⟩

/-- Only behind the offer and behind a challenge can a client have anything to send. -/
theorem client_rests (h : Joint c s stage) (hoffered : stage ≠ .offered)
    (hturn : stage ≠ .clientTurn) : on c Session.nextOutbound = (.ok none, c) := by
  have ⟨hclient, _, hagreed, _⟩ := h
  cases stage with
  | opening | offering | offerLost =>
    have hunoffered := hagreed.unoffered hclient.phase
    exact Session.client_rests hclient.role (.inr (.inl ⟨hclient.initPassed, .inr hunoffered⟩))
  | offered => exact absurd rfl hoffered
  | clientTurn => exact absurd rfl hturn
  | choosing | choiceLost | serverTurn | challenging | responding | concluding =>
    exact Session.client_rests hclient.role
      (.inr (.inr ⟨hclient.initPassed, .inl hclient.challengeOpen⟩))
  | concluded => exact Session.client_rests hclient.role (.inl hclient.phase)

theorem client_output (h : Joint c s stage) :
    on c Session.nextOutbound = (.ok none, c) ∨
      stage.flight = none ∧ stage.loser = none ∧
      ∃ p c' next, Session.Emits .client c p c' ∧ Stage.flight next = some p ∧ Joint c' s next := by
  have ⟨hclient, _, hagreed, _⟩ := h
  cases stage with
  | offered =>
    rcases hagreed.one with hnone | ⟨mechanism, _, hlocal⟩
    · exact .inl (Session.client_rests hclient.role (.inr (.inl ⟨hclient.initPassed, .inl hnone⟩)))
    · obtain ⟨after, hemits, hjoint⟩ := h.sends_init hlocal
      exact .inr ⟨rfl, rfl, _, after, _, hemits, rfl, hjoint⟩
  | clientTurn =>
    cases hqueued : c.queued with
    | none =>
      exact .inl (Session.client_rests hclient.role
        (.inr (.inr ⟨hclient.initPassed, .inr hqueued⟩)))
    | some payload =>
      obtain ⟨after, hemits, hjoint⟩ := h.sends_response hqueued
      exact .inr ⟨rfl, rfl, _, after, _, hemits, rfl, hjoint⟩
  | _ => exact .inl (h.client_rests nofun nofun)

/-- At most one side has anything to send. -/
theorem alternates (h : Joint c s stage) :
    on c Session.nextOutbound = (.ok none, c) ∨ on s Session.nextOutbound = (.ok none, s) := by
  have ⟨_, hserver, _, _⟩ := h
  cases stage with
  | offered =>
    exact .inr (Session.server_rests hserver.role
      (.inr (.inr ⟨by rw [hserver.phase]; exact nofun, .inl hserver.initPassed⟩)))
  | clientTurn =>
    exact .inr (Session.server_rests hserver.role
      (.inr (.inr ⟨by rw [hserver.phase]; exact nofun, .inr (.inl hserver.challengeOpen)⟩)))
  | _ => exact .inl (h.client_rests nofun nofun)

theorem server_output (h : Joint c s stage) :
    on s Session.nextOutbound = (.ok none, s) ∨
      stage.flight = none ∧ stage.loser = none ∧
      ∃ p s' next, Session.Emits .server s p s' ∧ Stage.flight next = some p ∧ Joint c s' next := by
  have ⟨_, hserver, _, _⟩ := h
  cases stage with
  | opening =>
    by_cases hset : s.localMechanisms = []
    · exact .inl (Session.server_rests hserver.role (.inr (.inl ⟨hserver.phase, hset⟩)))
    · obtain ⟨after, hemits, hjoint⟩ := h.sends_mechanisms hset
      exact .inr ⟨rfl, rfl, _, after, _, hemits, rfl, hjoint⟩
  | offering | offerLost | offered | choosing | choiceLost =>
    exact .inl (Session.server_rests hserver.role
      (.inr (.inr ⟨by rw [hserver.phase]; exact nofun, .inl hserver.initPassed⟩)))
  | serverTurn challenged =>
    by_cases hundecided : s.outcome = .undecided
    · cases hqueued : s.queued with
      | none =>
        have hlater : s.phase ≠ .configuring := by
          rw [hserver.phase]
          exact Phase.engaged_ne_configuring challenged
        exact .inl (Session.server_rests hserver.role
          (.inr (.inr ⟨hlater, .inr (.inr ⟨hundecided, hqueued⟩)⟩)))
      | some payload =>
        obtain ⟨after, hemits, hjoint⟩ := h.sends_challenge hundecided hqueued
        exact .inr ⟨rfl, rfl, _, after, _, hemits, rfl, hjoint⟩
    · obtain ⟨after, hemits, hjoint⟩ := h.sends_outcome hundecided
      exact .inr ⟨rfl, rfl, _, after, _, hemits, rfl, hjoint⟩
  | challenging | clientTurn | responding =>
    exact .inl (Session.server_rests hserver.role
      (.inr (.inr ⟨by rw [hserver.phase]; exact nofun, .inr (.inl hserver.challengeOpen)⟩)))
  | concluding | concluded => exact .inl (Session.server_rests hserver.role (.inl hserver.phase))

/-! ### Performatives in -/

theorem takes_mechanisms {names : List Bytes} (h : Joint c s (.offering names)) :
    ∃ c', Session.Accepts c (.mechanisms names) c' ∧ Joint c' s .offered := by
  obtain ⟨hclient, hserver, hagreed, htold, hne⟩ := h
  have hset : s.localMechanisms ≠ [] := by
    rw [htold]
    exact hne
  refine ⟨_, hclient.accepts_mechanisms hne, ?_⟩
  exact ⟨⟨hclient.role, rfl, hclient.initPassed, hclient.challengeOpen⟩, hserver,
    ⟨hagreed.one, nofun, fun _ => ⟨htold.symm, hset⟩, hagreed.unchosen, hagreed.chosen,
      fun _ => hagreed.undecided (by rw [hclient.phase]; exact nofun), nofun⟩, trivial⟩

theorem takes_init {mechanism : Bytes} {data hostname : Option Bytes}
    (h : Joint c s (.choosing mechanism data hostname)) :
    ∃ s', Session.Accepts s (.init mechanism data hostname) s' ∧
      Joint c s' (.serverTurn false) := by
  obtain ⟨hclient, hserver, hagreed, hlocal, hhostname⟩ := h
  have hset : c.localMechanisms ≠ [] := by
    rw [hlocal]
    exact List.cons_ne_nil _ _
  have hnamed : mechanism ≠ [] := by
    rcases hagreed.one with hnone | ⟨mechanism', hnamed, hone⟩
    · exact absurd hnone hset
    · rw [hlocal] at hone
      cases hone
      exact hnamed
  refine ⟨_, hserver.accepts_init hnamed, ?_⟩
  exact ⟨hclient, ⟨hserver.role, hserver.phase, rfl, hserver.challengeOpen⟩,
    ⟨hagreed.one, hagreed.unoffered, hagreed.offered, nofun,
      fun _ => ⟨hclient.initPassed, hset, hlocal.symm, hhostname.symm⟩, hagreed.undecided,
      hagreed.decided⟩, trivial⟩

theorem takes_challenge (h : Joint c s (.challenging challenged payload)) :
    ∃ c', Session.Accepts c (.challenge payload) c' ∧ Joint c' s .clientTurn := by
  obtain ⟨hclient, hserver, hagreed, -⟩ := h
  have hengaged : c.phase ≠ .configuring := by
    rw [hclient.phase]
    exact Phase.engaged_ne_configuring challenged
  have hgoing : c.phase ≠ .done := by
    rw [hclient.phase]
    exact Phase.engaged_ne_done challenged
  refine ⟨_, hclient.accepts_challenge, ?_⟩
  exact ⟨⟨hclient.role, rfl, hclient.initPassed, rfl⟩, hserver,
    ⟨hagreed.one, nofun, fun _ => hagreed.offered hengaged, hagreed.unchosen, hagreed.chosen,
      fun _ => hagreed.undecided hgoing, nofun⟩, trivial⟩

theorem takes_response (h : Joint c s (.responding payload)) :
    ∃ s', Session.Accepts s (.response payload) s' ∧ Joint c s' (.serverTurn true) := by
  obtain ⟨hclient, hserver, hagreed, -⟩ := h
  refine ⟨_, hserver.accepts_response, ?_⟩
  exact ⟨hclient, ⟨hserver.role, hserver.phase, hserver.initPassed, rfl⟩,
    ⟨hagreed.one, hagreed.unoffered, hagreed.offered, hagreed.unchosen, hagreed.chosen,
      hagreed.undecided, hagreed.decided⟩, trivial⟩

theorem takes_outcome {code : Outcome} {data : Option Bytes}
    (h : Joint c s (.concluding challenged code data)) :
    ∃ c', Session.Accepts c (.outcome code data) c' ∧ Joint c' s .concluded := by
  obtain ⟨hclient, hserver, hagreed, htold, hdecided⟩ := h
  have hengaged : c.phase ≠ .configuring := by
    rw [hclient.phase]
    exact Phase.engaged_ne_configuring challenged
  refine ⟨_, hclient.accepts_outcome, ?_⟩
  exact ⟨⟨hclient.role, rfl, hclient.initPassed, rfl⟩, hserver,
    ⟨hagreed.one, nofun, fun _ => hagreed.offered hengaged, hagreed.unchosen, hagreed.chosen,
      fun hnot => absurd rfl hnot, fun _ => ⟨htold.symm, hdecided⟩⟩, trivial⟩

theorem client_input {p : Performative} (h : Joint c s stage)
    (hflight : stage.flight = some p) (hsender : p.kind.sender = .server) :
    ∃ c', Session.Accepts c p c' ∧ Joint c' s stage.arrived := by
  cases stage with
  | offering names =>
    cases hflight
    exact h.takes_mechanisms
  | challenging challenged payload =>
    cases hflight
    exact h.takes_challenge
  | concluding challenged code data =>
    cases hflight
    exact h.takes_outcome
  | choosing | responding =>
    cases hflight
    cases hsender
  | _ => cases hflight

theorem server_input {p : Performative} (h : Joint c s stage)
    (hflight : stage.flight = some p) (hsender : p.kind.sender = .client) :
    ∃ s', Session.Accepts s p s' ∧ Joint c s' stage.arrived := by
  cases stage with
  | choosing mechanism data hostname =>
    cases hflight
    exact h.takes_init
  | responding payload =>
    cases hflight
    exact h.takes_response
  | offering | challenging | concluding =>
    cases hflight
    cases hsender
  | _ => cases hflight

end Joint

end FramedSasl
