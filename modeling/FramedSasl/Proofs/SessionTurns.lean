import FramedSasl.Session.Backlog

/-! What each call does to a session that has a role. `obey_cases` has all that a call of the owner
can change; the rest says which performative is due and what taking one in changes. -/

namespace FramedSasl

open Call

theorem nameFlawAfter?_none {seen names : List Bytes} (h : nameFlawAfter? seen names = none) :
    ∀ name ∈ names, name ≠ [] := by
  induction names generalizing seen with
  | nil => exact fun name hmem => absurd hmem List.not_mem_nil
  | cons first rest ih =>
    rw [nameFlawAfter?] at h
    split at h
    · cases h
    · next hne =>
      split at h
      · cases h
      · exact List.forall_mem_cons.2 ⟨hne, ih h⟩

/-- A call of the owner that can be refused. -/
inductive OwnerCall where
  | assignRole (requested : Option Role)
  | setMechanisms (names : List Bytes)
  | setHostname (name : Bytes)
  | send (data : Bytes)
  | declare (outcome : Outcome) (data : Option Bytes)

namespace OwnerCall

def run : OwnerCall → Call Session Unit
  | assignRole requested => Session.assignRole requested
  | setMechanisms names => Session.setMechanisms names
  | setHostname name => Session.setHostname name
  | send data => Session.send data
  | declare outcome data => Session.declare outcome data

/-- The bytes that the call hands over for the peer. -/
def data : OwnerCall → Bytes
  | send data => data
  | declare _ data => data.getD []
  | _ => []

end OwnerCall

/-- The phase behind the init, without or with a challenge so far. -/
def Phase.engaged (challenged : Bool) : Phase :=
  if challenged then .challengeResponse else .mechanismExchange

namespace Session

/-! ### Calls of the owner -/

/-- All that a call of the owner can do once `side` has been assigned. -/
inductive Obeys (side : Role) (s : Session) : OwnerCall → Except Fault Unit × Session → Prop
  | refused (call : OwnerCall) (fault : Fault) : Obeys side s call (.error fault, s)
  | sameRole (requested : Option Role) : Obeys side s (.assignRole requested) (.ok (), s)
  | named (names : List Bytes) (hunset : s.localMechanisms = []) (hne : names ≠ [])
      (hnames : ∀ name ∈ names, name ≠ []) (hone : side = .client → names.length = 1) :
      Obeys side s (.setMechanisms names) (.ok (), { s with localMechanisms := names })
  | asked (name : Bytes) (hrole : side = .client) (hearly : s.initPassed = false) :
      Obeys side s (.setHostname name) (.ok (), { s with hostname := some name })
  | queued (bytes : Bytes) (hset : s.localMechanisms ≠ []) (hundecided : s.outcome = .undecided) :
      Obeys side s (.send bytes) (.ok (), s.enqueue bytes)
  | declared (outcome : Outcome) (data : Option Bytes) (hrole : side = .server)
      (hfirst : s.outcome = .undecided) (hdecided : outcome ≠ .undecided) :
      Obeys side s (.declare outcome data)
        (.ok (), data.elim { s with outcome } { s with outcome }.enqueue)

variable {s : Session} {side : Role}

theorem obey_cases (h : s.role = some side) (call : OwnerCall) :
    Obeys side s call (on s call.run) := by
  cases s
  cases h
  cases call with
  | assignRole requested =>
    cases requested with
    | none => exact .refused _ _
    | some role =>
      simp only [OwnerCall.run, assignRole, on_get_bind]
      split
      · exact .sameRole _
      · exact .refused _ _
  | setMechanisms names =>
    simp only [OwnerCall.run, setMechanisms, on_get_bind]
    rw [if_neg (by simp)]
    split
    · exact .refused _ _
    · next hunset =>
      split
      · exact .refused _ _
      · next hne =>
        split
        · exact .refused _ _
        · next hone =>
          split
          · exact .refused _ _
          · exact .refused _ _
          · next hflaw =>
            refine .named names (Decidable.not_not.1 hunset) hne (nameFlawAfter?_none hflaw) ?_
            rintro rfl
            exact Decidable.not_not.1 fun hlength => hone ⟨rfl, hlength⟩
  | setHostname name =>
    simp only [OwnerCall.run, setHostname, on_get_bind]
    split
    · exact .refused _ _
    · next hrole =>
      split
      · exact .refused _ _
      · next hearly =>
        exact .asked name (by simpa using hrole) (Bool.eq_false_iff.2 hearly)
  | send data =>
    simp only [OwnerCall.run, send, on_get_bind]
    split
    · exact .refused _ _
    · next hset =>
      split
      · exact .refused _ _
      · next hundecided => exact .queued data hset (Decidable.not_not.1 hundecided)
  | declare outcome data =>
    simp only [OwnerCall.run, declare, on_get_bind]
    split
    · exact .refused _ _
    · next hrole =>
      split
      · exact .refused _ _
      · next hdecided =>
        split
        · exact .refused _ _
        · next hfirst =>
          exact .declared outcome data (by simpa using hrole) (Decidable.not_not.1 hfirst) hdecided

theorem on_setMechanisms {names : List Bytes} (hrole : s.role = some side)
    (hunset : s.localMechanisms = []) (hne : names ≠ [])
    (hone : side = .client → names.length = 1) (hflaw : nameFlaw? names = none) :
    on s (setMechanisms names) = (.ok (), { s with localMechanisms := names }) := by
  simp only [setMechanisms, on_get_bind, hrole, hunset, hflaw]
  have hnamed : ¬ (some side = some Role.client ∧ names.length ≠ 1) :=
    fun h => h.2 (hone (Option.some.inj h.1))
  rw [if_neg (Option.some_ne_none side), if_neg (not_not_intro rfl), if_neg hne, if_neg hnamed]
  rfl

theorem on_send {data : Bytes} (hrole : s.role = some side) (hset : s.localMechanisms ≠ [])
    (hundecided : s.outcome = .undecided) : on s (send data) = (.ok (), s.enqueue data) := by
  simp only [send, on_get_bind, hrole, hundecided]
  rw [if_neg hset, if_neg (not_not_intro rfl)]
  rfl

theorem on_declare {outcome : Outcome} {data : Option Bytes} (hrole : s.role = some .server)
    (hundecided : s.outcome = .undecided) (hdecided : outcome ≠ .undecided) :
    on s (declare outcome data) =
      (.ok (), data.elim { s with outcome } { s with outcome }.enqueue) := by
  simp only [declare, on_get_bind, hrole, hundecided]
  rw [if_neg (not_not_intro rfl), if_neg hdecided, if_neg (not_not_intro rfl)]
  rfl

/-! ### Performatives out -/

theorem client_rests (hrole : s.role = some .client)
    (h : s.phase = .done ∨
      s.initPassed = false ∧ (s.localMechanisms = [] ∨ s.remoteMechanisms = []) ∨
        s.initPassed = true ∧ (s.challengeOpen = false ∨ s.queued = none)) :
    on s nextOutbound = (.ok none, s) := by
  simp only [nextOutbound, on_get_bind, hrole, clientOutbound, takeOutbound_eq]
  split
  · rfl
  · next hphase =>
    rcases h with hdone | ⟨hearly, hnone⟩ | ⟨hinit, hnone⟩
    · exact absurd hdone hphase
    · rw [hearly, if_neg Bool.false_ne_true]
      rcases hnone with hnone | hnone
      · rw [hnone]
        rfl
      · rw [hnone]
        cases s.localMechanisms <;> rfl
    · rw [hinit, if_pos rfl]
      refine congrArg (on s ·) (if_neg fun hdue => ?_)
      rcases hnone with hnone | hnone
      · exact absurd hdue.1 (Bool.eq_false_iff.1 hnone)
      · exact absurd hdue.2 (Bool.eq_false_iff.1 (queued_eq_none.1 hnone))

theorem server_rests (hrole : s.role = some .server)
    (h : s.phase = .done ∨ s.phase = .configuring ∧ s.localMechanisms = [] ∨
      s.phase ≠ .configuring ∧ (s.initPassed = false ∨ s.challengeOpen = true ∨
        s.outcome = .undecided ∧ s.queued = none)) :
    on s nextOutbound = (.ok none, s) := by
  simp only [nextOutbound, on_get_bind, hrole, serverOutbound, takeOutbound_eq]
  split
  · rfl
  · next hphase =>
    rcases h with hdone | ⟨hconfiguring, hunset⟩ | ⟨hlater, hwait⟩
    · exact absurd hdone hphase
    · rw [if_pos hconfiguring, if_pos hunset]
      rfl
    · rw [if_neg hlater]
      rcases hwait with hwait | hwait | ⟨hundecided, hnone⟩
      · rw [if_pos (.inl hwait)]
        rfl
      · rw [if_pos (.inr hwait)]
        rfl
      · split
        · rfl
        · rw [hundecided, if_neg (fun hne => hne rfl), queued_eq_none.1 hnone]
          rfl

/-- Behind the end nothing is due. -/
theorem rests_done (hrole : s.role = some side) (hdone : s.phase = .done) :
    on s nextOutbound = (.ok none, s) := by
  cases side with
  | client => exact client_rests hrole (.inl hdone)
  | server => exact server_rests hrole (.inl hdone)

/-- All that can be due, and what sending it changes but for the phase. -/
inductive Sends (s : Session) : Performative → Session → Prop
  | mechanisms (hrole : s.role = some .server) (hset : s.localMechanisms ≠ []) :
      Sends s (.mechanisms s.localMechanisms) s
  | init (mechanism : Bytes) (hrole : s.role = some .client) (hset : s.localMechanisms ≠ []) :
      Sends s (.init mechanism s.queued s.hostname)
        { s with initPassed := true, outbound := s.unflagged, hasOutbound := false }
  | challenge (payload : Bytes) (hrole : s.role = some .server)
      (hqueued : s.queued = some payload) :
      Sends s (.challenge payload)
        { s with challengeOpen := true, outbound := [], hasOutbound := false }
  | response (payload : Bytes) (hrole : s.role = some .client)
      (hqueued : s.queued = some payload) :
      Sends s (.response payload)
        { s with challengeOpen := false, outbound := [], hasOutbound := false }
  | outcome (hrole : s.role = some .server) (hdecided : s.outcome ≠ .undecided) :
      Sends s (.outcome s.outcome s.queued)
        { s with outbound := s.unflagged, hasOutbound := false }

theorem emit_ok {after s' : Session} {p q : Performative}
    (h : on s (emit q after) = (.ok (some p), s')) :
    p = q ∧ ∃ phase, s.phase.after? q.kind = some phase ∧ s' = { after with phase } := by
  refine ⟨?_, emit_some h⟩
  rw [on_emit] at h
  split at h
  · cases h
  · cases h
    rfl

theorem sends_of_next {s' : Session} {p : Performative}
    (h : on s nextOutbound = (.ok (some p), s')) :
    ∃ after phase, Sends s p after ∧ s.phase.after? p.kind = some phase ∧
      s' = { after with phase } := by
  simp only [nextOutbound, on_get_bind] at h
  split at h
  · cases h
  · next hrole =>
    simp only [clientOutbound, on_get_bind, takeOutbound_eq] at h
    split at h
    · cases h
    · split at h
      · split at h
        · next hdue =>
          have hqueued := queued_of_flag hdue.2
          rw [hqueued, unflagged_of_flag hdue.2] at h
          obtain ⟨rfl, phase, hphase, hs'⟩ := emit_ok h
          exact ⟨_, phase, .response _ hrole hqueued, hphase, hs'⟩
        · cases h
      · split at h
        · next hlocal _ =>
          obtain ⟨rfl, phase, hphase, hs'⟩ := emit_ok h
          exact ⟨_, phase, .init _ hrole (by rw [hlocal]; exact List.cons_ne_nil _ _), hphase, hs'⟩
        · cases h
  · next hrole =>
    simp only [serverOutbound, on_get_bind, takeOutbound_eq] at h
    split at h
    · cases h
    · split at h
      · split at h
        · cases h
        · next hset =>
          obtain ⟨rfl, phase, hphase, hs'⟩ := emit_ok h
          exact ⟨_, phase, .mechanisms hrole hset, hphase, hs'⟩
      · split at h
        · cases h
        · split at h
          · next hdecided =>
            obtain ⟨rfl, phase, hphase, hs'⟩ := emit_ok h
            exact ⟨_, phase, .outcome hrole hdecided, hphase, hs'⟩
          · split at h
            · next hflag =>
              have hqueued := queued_of_flag hflag
              rw [hqueued, unflagged_of_flag hflag] at h
              obtain ⟨rfl, phase, hphase, hs'⟩ := emit_ok h
              exact ⟨_, phase, .challenge _ hrole hqueued, hphase, hs'⟩
            · cases h

theorem client_emits_init {mechanism : Bytes} {more : List Bytes} (hrole : s.role = some .client)
    (hphase : s.phase = .mechanismExchange) (hearly : s.initPassed = false)
    (hlocal : s.localMechanisms = mechanism :: more) (hremote : s.remoteMechanisms ≠ []) :
    on s nextOutbound = (.ok (some (.init mechanism s.queued s.hostname)),
      { s with initPassed := true, outbound := s.unflagged, hasOutbound := false }) := by
  rcases s with ⟨_, _, _, _, _, _, _, _, flag, _, _⟩
  cases hrole
  cases hphase
  cases hearly
  cases hlocal
  obtain ⟨name, names, rfl⟩ := List.exists_cons_of_ne_nil hremote
  cases flag <;> rfl

theorem client_emits_response {payload : Bytes} (hrole : s.role = some .client)
    (hphase : s.phase = .challengeResponse) (hinit : s.initPassed = true)
    (hopen : s.challengeOpen = true) (hqueued : s.queued = some payload) :
    on s nextOutbound = (.ok (some (.response payload)),
      { s with challengeOpen := false, outbound := [], hasOutbound := false }) := by
  obtain ⟨hflag, rfl⟩ := flag_of_queued hqueued
  cases s
  cases hrole
  cases hphase
  cases hinit
  cases hopen
  cases hflag
  rfl

theorem server_emits_mechanisms (hrole : s.role = some .server) (hphase : s.phase = .configuring)
    (hset : s.localMechanisms ≠ []) :
    on s nextOutbound = (.ok (some (.mechanisms s.localMechanisms)),
      { s with phase := .mechanismExchange }) := by
  cases s
  cases hrole
  cases hphase
  obtain ⟨name, names, rfl⟩ := List.exists_cons_of_ne_nil hset
  rfl

variable {challenged : Bool}

theorem server_emits_outcome (hrole : s.role = some .server)
    (hphase : s.phase = .engaged challenged) (hinit : s.initPassed = true)
    (hclosed : s.challengeOpen = false) (hdecided : s.outcome ≠ .undecided) :
    on s nextOutbound = (.ok (some (.outcome s.outcome s.queued)),
      { s with phase := .done, outbound := s.unflagged, hasOutbound := false }) := by
  rcases s with ⟨_, _, _, _, _, _, _, _, flag, _, _⟩
  cases hrole
  cases hphase
  cases hinit
  cases hclosed
  simp only [nextOutbound, serverOutbound, on_get_bind]
  cases challenged <;> cases flag <;> exact congrArg _ (if_pos hdecided)

theorem server_emits_challenge {payload : Bytes} (hrole : s.role = some .server)
    (hphase : s.phase = .engaged challenged) (hinit : s.initPassed = true)
    (hclosed : s.challengeOpen = false) (hundecided : s.outcome = .undecided)
    (hqueued : s.queued = some payload) :
    on s nextOutbound = (.ok (some (.challenge payload)),
      { s with
        phase := .challengeResponse, challengeOpen := true, outbound := [],
        hasOutbound := false }) := by
  obtain ⟨hflag, rfl⟩ := flag_of_queued hqueued
  cases s
  cases hrole
  cases hphase
  cases hinit
  cases hclosed
  cases hundecided
  cases hflag
  cases challenged <;> rfl

/-! ### Performatives in -/

theorem client_accepts_mechanisms {names : List Bytes} (hrole : s.role = some .client)
    (hphase : s.phase = .configuring) (hne : names ≠ []) :
    on s (accept (.mechanisms names)) =
      (.ok (), { s with phase := .mechanismExchange, remoteMechanisms := names }) := by
  cases s
  cases hrole
  cases hphase
  obtain ⟨name, names, rfl⟩ := List.exists_cons_of_ne_nil hne
  rfl

theorem client_accepts_challenge {payload : Bytes} (hrole : s.role = some .client)
    (hphase : s.phase = .engaged challenged) (hinit : s.initPassed = true)
    (hclosed : s.challengeOpen = false) :
    on s (accept (.challenge payload)) = (.ok (), { s with
      phase := .challengeResponse, inbound := s.inbound ++ payload, challengeOpen := true }) := by
  cases s
  cases hrole
  cases hphase
  cases hinit
  cases hclosed
  cases challenged <;> rfl

theorem client_accepts_outcome {code : Outcome} {data : Option Bytes}
    (hrole : s.role = some .client) (hphase : s.phase = .engaged challenged)
    (hinit : s.initPassed = true) :
    on s (accept (.outcome code data)) = (.ok (), { s with
      phase := .done, inbound := s.inbound ++ data.getD [], challengeOpen := false
      outcome := code }) := by
  cases s
  cases hrole
  cases hphase
  cases hinit
  cases challenged <;> rfl

theorem server_accepts_init {mechanism : Bytes} {data hostname : Option Bytes}
    (hrole : s.role = some .server) (hphase : s.phase = .mechanismExchange)
    (hearly : s.initPassed = false) (hnamed : mechanism ≠ []) :
    on s (accept (.init mechanism data hostname)) = (.ok (), { s with
      remoteMechanisms := [mechanism], hostname, inbound := s.inbound ++ data.getD []
      initPassed := true }) := by
  cases s
  cases hrole
  cases hphase
  cases hearly
  obtain ⟨byte, bytes, rfl⟩ := List.exists_cons_of_ne_nil hnamed
  rfl

theorem server_accepts_response {payload : Bytes} (hrole : s.role = some .server)
    (hphase : s.phase = .challengeResponse) (hopen : s.challengeOpen = true) :
    on s (accept (.response payload)) =
      (.ok (), { s with inbound := s.inbound ++ payload, challengeOpen := false }) := by
  cases s
  cases hrole
  cases hphase
  cases hopen
  rfl

end Session

end FramedSasl
