import FramedSasl.Proofs.Relays

/-! The course of a scenario between two fresh endpoints. The sessions are known at each of its
stops, and each part of it leads from one stop to the next. Only the offer and the init can be too
large; where both fit, the scenario ends with its outcome. -/

namespace FramedSasl

open Call

namespace Codec

variable {c : Codec} {size : Nat}

theorem on_setLimit (hfresh : c.started = false) (hleast : minimumLimit ≤ size) :
    on c (setLimit size) = (.ok (), { c with limit := size }) := by
  simp only [setLimit, on_get_bind, on_ofExcept_bind, checkLimit, hfresh]
  rw [if_neg (Nat.not_lt.2 hleast)]
  rfl

theorem on_setPeerLimit (hfresh : c.started = false) (hleast : minimumLimit ≤ size) :
    on c (setPeerLimit size) = (.ok (), { c with peerLimit := size }) := by
  simp only [setPeerLimit, on_get_bind, on_ofExcept_bind, checkLimit, hfresh]
  rw [if_neg (Nat.not_lt.2 hleast)]
  rfl

end Codec

namespace Session

/-- With this payload queued, if there is one, and no other. -/
def holding (s : Session) (payload : Option Bytes) : Session :=
  { s with outbound := payload.getD [], hasOutbound := payload.isSome }

theorem queued_holding (s : Session) (payload : Option Bytes) :
    (s.holding payload).queued = payload := by
  cases payload <;> rfl

theorem unflagged_holding (s : Session) (payload : Option Bytes) :
    (s.holding payload).unflagged = [] := by
  cases payload <;> rfl

end Session

namespace Scenario

def offer (s : Scenario) : Performative := .mechanisms s.server.mechanisms

def choice (s : Scenario) : Performative :=
  .init s.client.mechanism s.client.initialResponse s.client.hostname

/-- Both performatives that can be too large fit. -/
def Fits (s : Scenario) (limit : Nat) : Prop := s.offer.Fits limit ∧ s.choice.Fits limit

instance (s : Scenario) (limit : Nat) : Decidable (s.Fits limit) :=
  inferInstanceAs (Decidable (_ ∧ _))

/-- Nothing in the scenario is refused by the sessions, and a challenge is answered. -/
structure Runnable (s : Scenario) : Prop where
  offered : s.server.mechanisms ≠ []
  unflawed : nameFlaw? s.server.mechanisms = none
  chosen : s.client.mechanism ≠ []
  answered : s.server.challenge.isSome → s.client.response.isSome
  decided : s.server.outcome ≠ .undecided

/-! ### The stops -/

variable (s : Scenario)

def configuredClient : Session where
  role := some .client
  phase := .configuring
  hostname := s.client.hostname

def configuredServer : Session where
  role := some .server
  phase := .configuring
  localMechanisms := s.server.mechanisms

def offeredClient : Session :=
  { s.configuredClient with
    phase := .mechanismExchange, remoteMechanisms := s.server.mechanisms }

def offeredServer : Session := { s.configuredServer with phase := .mechanismExchange }

/-- With its mechanism and its initial response, if it has one. -/
def choosingClient : Session :=
  { s.offeredClient with localMechanisms := [s.client.mechanism] }.holding s.client.initialResponse

/-- Behind the init and perhaps a challenge with its response. -/
def engagedClient (challenged : Bool) : Session :=
  { s.offeredClient with
    phase := .engaged challenged, localMechanisms := [s.client.mechanism], initPassed := true }

def engagedServer (challenged : Bool) : Session :=
  { s.offeredServer with
    phase := .engaged challenged, remoteMechanisms := [s.client.mechanism]
    hostname := s.client.hostname, initPassed := true }

/-- The client has a challenge and no response yet. -/
def challengedClient : Session :=
  { s.engagedClient true with challengeOpen := true }

def challengedServer : Session :=
  { s.engagedServer true with challengeOpen := true }

/-- With its outcome, and the data for the client if there are any. -/
def decidedServer (challenged : Bool) : Session :=
  { s.engagedServer challenged with outcome := s.server.outcome }.holding s.server.additionalData

def finishedClient : Session :=
  { s.engagedClient false with phase := .done, outcome := s.server.outcome }

def finishedServer : Session :=
  { s.engagedServer false with phase := .done, outcome := s.server.outcome }

/-! ### From stop to stop -/

variable {s}

open Session (Emits Accepts)

theorem configuredClient_rests :
    on s.configuredClient Session.nextOutbound = (.ok none, s.configuredClient) :=
  Session.client_rests rfl (.inr (.inl ⟨rfl, .inl rfl⟩))

theorem offeredClient_rests :
    on s.offeredClient Session.nextOutbound = (.ok none, s.offeredClient) :=
  Session.client_rests rfl (.inr (.inl ⟨rfl, .inl rfl⟩))

theorem Runnable.emits_offer (h : s.Runnable) :
    Emits .server s.configuredServer s.offer s.offeredServer :=
  Session.Stands.emits_mechanisms ⟨rfl, rfl, rfl, rfl⟩ h.offered

theorem Runnable.accepts_offer (h : s.Runnable) :
    Accepts s.configuredClient s.offer s.offeredClient :=
  Session.Stands.accepts_mechanisms ⟨rfl, rfl, rfl, rfl⟩ h.offered

theorem Runnable.emits_choice (h : s.Runnable) :
    Emits .client s.choosingClient s.choice (s.engagedClient false) := by
  have hstands : s.choosingClient.Stands .client ⟨.mechanismExchange, false, false⟩ :=
    ⟨rfl, rfl, rfl, rfl⟩
  have hemits := hstands.emits_init rfl h.offered
  rw [choosingClient, Session.queued_holding, Session.unflagged_holding] at hemits
  exact hemits

theorem Runnable.accepts_choice (h : s.Runnable) :
    Accepts s.offeredServer s.choice
      { s.engagedServer false with inbound := s.client.initialResponse.getD [] } :=
  Session.Stands.accepts_init ⟨rfl, rfl, rfl, rfl⟩ h.chosen

theorem emits_challenge (s : Scenario) (payload : Bytes) :
    Emits .server ((s.engagedServer false).enqueue payload) (.challenge payload)
      s.challengedServer :=
  have hstands : ((s.engagedServer false).enqueue payload).Stands .server
      ⟨.engaged false, true, false⟩ := ⟨rfl, rfl, rfl, rfl⟩
  hstands.emits_challenge rfl rfl

theorem accepts_challenge (s : Scenario) (payload : Bytes) :
    Accepts (s.engagedClient false) (.challenge payload)
      { s.challengedClient with inbound := payload } :=
  have hstands : (s.engagedClient false).Stands .client ⟨.engaged false, true, false⟩ :=
    ⟨rfl, rfl, rfl, rfl⟩
  hstands.accepts_challenge

theorem challengedClient_rests (inbound : Bytes) :
    on { s.challengedClient with inbound } Session.nextOutbound =
      (.ok none, { s.challengedClient with inbound }) :=
  Session.client_rests rfl (.inr (.inr ⟨rfl, .inr rfl⟩))

theorem emits_response (s : Scenario) (payload : Bytes) :
    Emits .client (s.challengedClient.enqueue payload) (.response payload)
      (s.engagedClient true) :=
  Session.Stands.emits_response ⟨rfl, rfl, rfl, rfl⟩ rfl

theorem accepts_response (s : Scenario) (payload : Bytes) :
    Accepts s.challengedServer (.response payload)
      { s.engagedServer true with inbound := payload } :=
  Session.Stands.accepts_response ⟨rfl, rfl, rfl, rfl⟩

theorem Runnable.emits_outcome (h : s.Runnable) (challenged : Bool) :
    Emits .server (s.decidedServer challenged) (.outcome s.server.outcome s.server.additionalData)
      s.finishedServer := by
  have hstands : (s.decidedServer challenged).Stands .server ⟨.engaged challenged, true, false⟩ :=
    ⟨rfl, rfl, rfl, rfl⟩
  have hemits := hstands.emits_outcome h.decided
  rw [decidedServer, Session.queued_holding, Session.unflagged_holding] at hemits
  exact hemits

theorem accepts_outcome (s : Scenario) (challenged : Bool) :
    Accepts (s.engagedClient challenged) (.outcome s.server.outcome s.server.additionalData)
      { s.finishedClient with inbound := s.server.additionalData.getD [] } :=
  have hstands : (s.engagedClient challenged).Stands .client ⟨.engaged challenged, true, false⟩ :=
    ⟨rfl, rfl, rfl, rfl⟩
  hstands.accepts_outcome

theorem finishedClient_rests (inbound : Bytes) :
    on { s.finishedClient with inbound } Session.nextOutbound =
      (.ok none, { s.finishedClient with inbound }) :=
  Session.client_rests rfl (.inl rfl)

theorem engagedClient_rests (challenged : Bool) :
    on (s.engagedClient challenged) Session.nextOutbound =
      (.ok none, s.engagedClient challenged) :=
  Session.client_rests rfl (.inr (.inr ⟨rfl, .inl rfl⟩))

theorem engagedServer_rests (challenged : Bool) (inbound : Bytes) :
    on { s.engagedServer challenged with inbound } Session.nextOutbound =
      (.ok none, { s.engagedServer challenged with inbound }) :=
  Session.server_rests rfl (.inr (.inr ⟨Phase.engaged_ne_configuring challenged,
    .inr (.inr ⟨rfl, rfl⟩)⟩))

end Scenario

namespace Endpoint

variable {mine theirs : Endpoint} {limit : Nat} {opened openedBack : Bool} {s t : Session}

/-- What the owner does to a session is seen by that session alone. -/
theorem Joined.with_session (h : Joined mine theirs limit opened openedBack s t) (s' : Session) :
    Joined { mine with session := s' } theirs limit opened openedBack s' t where
  session := rfl
  theirSession := h.theirSession
  going := h.going
  theirsGoing := h.theirsGoing
  forth := ⟨h.forth.peerLimit, h.forth.limit, h.forth.headerSent, h.forth.carries⟩
  back :=
    have hcarries := h.back.carries
    ⟨h.back.peerLimit, h.back.limit, h.back.headerSent,
      ⟨hcarries.wire, hcarries.matched, hcarries.closed, hcarries.underway⟩⟩

theorem joined_unopened (client server : Bytes) (limit : Nat) (s t : Session) :
    Joined { name := client, session := s, codec := { limit, peerLimit := limit } }
      { name := server, session := t, codec := { limit, peerLimit := limit } }
      limit false false s t where
  session := rfl
  theirSession := rfl
  going := rfl
  theirsGoing := rfl
  forth := ⟨rfl, rfl, rfl, ⟨rfl, Nat.zero_le _, fun _ => ⟨rfl, rfl⟩, ⟨rfl, rfl, rfl⟩⟩⟩
  back := ⟨rfl, rfl, rfl, ⟨rfl, Nat.zero_le _, fun _ => ⟨rfl, rfl⟩, ⟨rfl, rfl, rfl⟩⟩⟩

end Endpoint

namespace Pair

/-- Two endpoints that nothing has happened to. -/
def fresh (client server : Bytes) : Pair where
  client := { name := client }
  server := { name := server }

variable {p : Pair} {limit : Nat} {opened openedBack : Bool} {c s c' s' : Session}

/-! ### Calls on one side -/

theorem on_session {α : Type} {a : α} {call : Call Session α} {side : Role} {after : Session}
    (h : on (p.endpoint side).session call = (.ok a, after)) :
    on p (session side call) =
      (.ok a, p.put side { p.endpoint side with session := after }) := by
  change ((on (p.endpoint side).session call).1, p.put side
    { p.endpoint side with session := (on (p.endpoint side).session call).2 }) = _
  rw [h]

theorem on_codec {α : Type} {a : α} {call : Call Codec α} {side : Role} {after : Codec}
    (h : on (p.endpoint side).codec call = (.ok a, after)) :
    on p (ask side (Endpoint.inCodec call)) =
      (.ok a, p.put side { p.endpoint side with codec := after }) := by
  change ((on (p.endpoint side).codec call).1, p.put side
    { p.endpoint side with codec := (on (p.endpoint side).codec call).2 }) = _
  rw [h]

theorem At.asks_client {α : Type} {a : α} {call : Call Session α}
    (h : p.At limit opened openedBack c s) (hcall : on c call = (.ok a, c')) :
    Ends p (session .client call) fun _ p' => p'.At limit opened openedBack c' s := by
  obtain rfl := h.session
  exact ⟨a, _, on_session hcall, h.with_session c'⟩

theorem At.asks_server {α : Type} {a : α} {call : Call Session α}
    (h : p.At limit opened openedBack c s) (hcall : on s call = (.ok a, s')) :
    Ends p (session .server call) fun _ p' => p'.At limit opened openedBack c s' := by
  obtain rfl := h.theirSession
  exact ⟨a, _, on_session hcall, (h.flip.with_session s').flip⟩

theorem receive_pending (s : Session) : (s.receive s.pending).2 = { s with inbound := [] } := by
  rw [Session.receive, Session.pending, List.drop_length]

theorem At.collects_client (h : p.At limit opened openedBack c s) :
    Ends p (collect .client) fun _ p' =>
      p'.At limit opened openedBack { c with inbound := [] } s := by
  obtain rfl := h.session
  rw [← receive_pending]
  exact ⟨_, _, rfl, h.with_session _⟩

theorem At.collects_server (h : p.At limit opened openedBack c s) :
    Ends p (collect .server) fun _ p' =>
      p'.At limit opened openedBack c { s with inbound := [] } := by
  obtain rfl := h.theirSession
  rw [← receive_pending]
  exact ⟨_, _, rfl, (h.flip.with_session _).flip⟩

theorem At.speaks (h : p.At limit opened openedBack c s) (level : Level) (line : Bytes) :
    Ends p (say level line) fun _ p' => p'.At limit opened openedBack c s :=
  ⟨(), { p with notes := p.notes ++ [.say level line] }, rfl, h⟩

/-! ### The parts of the course -/

section

variable {plan : Scenario} {fault : Fault}

/-- Both sides have their roles, and the same limit for both directions. -/
def limited (client server : Bytes) (limit : Nat) : Pair where
  client :=
    { name := client, codec := { limit, peerLimit := limit }
      session := { role := some .client, phase := .configuring } }
  server :=
    { name := server, codec := { limit, peerLimit := limit }
      session := { role := some .server, phase := .configuring } }

/-- The last steps of the configuration. -/
def naming (s : Scenario) : Call Pair Unit := together <|
  session .server (Session.setMechanisms s.server.mechanisms) ::
    s.client.hostname.toList.map fun name => session .client (Session.setHostname name)

/-- With a limit that is large enough, the first steps go well. -/
theorem on_configure (client server : Bytes) (hleast : minimumLimit ≤ plan.frameLimit) :
    on (fresh client server) (configure plan) =
      on (limited client server plan.frameLimit) (naming plan) := by
  rw [configure]
  refine Eq.trans (on_together_of_ok (on_session rfl)) ?_
  refine Eq.trans (on_together_of_ok (on_session rfl)) ?_
  refine Eq.trans (on_together_of_ok (on_codec (Codec.on_setLimit rfl hleast))) ?_
  refine Eq.trans (on_together_of_ok (on_codec (Codec.on_setLimit rfl hleast))) ?_
  refine Eq.trans (on_together_of_ok (on_codec (Codec.on_setPeerLimit rfl hleast))) ?_
  exact on_together_of_ok (on_codec (Codec.on_setPeerLimit rfl hleast))

/-- The last step of the configuration. -/
theorem hostname_ends
    (hat : p.At limit opened openedBack { plan.configuredClient with hostname := none } s) :
    Ends p (together (plan.client.hostname.toList.map fun name =>
      session .client (Session.setHostname name))) fun _ p' =>
        p'.At limit opened openedBack plan.configuredClient s := by
  rw [Scenario.configuredClient]
  cases plan.client.hostname with
  | none => exact ⟨(), p, rfl, hat⟩
  | some name =>
    refine Ends.together (hat.asks_client rfl) ?_
    rintro _ p hat
    exact ⟨(), p, rfl, hat⟩

theorem configure_ends (client server : Bytes) (h : plan.Runnable)
    (hleast : minimumLimit ≤ plan.frameLimit) :
    Ends (fresh client server) (configure plan) fun _ p =>
      p.At plan.frameLimit false false plan.configuredClient plan.configuredServer := by
  rw [Ends, on_configure client server hleast]
  -- the two sides are joined once all four limits are set
  have hat : (limited client server plan.frameLimit).At plan.frameLimit false false _ _ :=
    Endpoint.joined_unopened client server plan.frameLimit _ _
  have hother : Role.server ≠ .client := by decide
  have hset := hat.asks_server
    (Session.on_setMechanisms rfl rfl h.offered (absurd · hother) h.unflawed)
  exact hset.together fun _ p hat => hostname_ends hat

theorem offer_ends (h : plan.Runnable) (hword : limit < wordCount)
    (hat : p.At limit false false plan.configuredClient plan.configuredServer)
    (hfits : plan.offer.Fits limit) :
    Ends p Pair.offer fun _ p' => p'.At limit true true plan.offeredClient plan.offeredServer := by
  obtain ⟨frames, hframes⟩ := Performative.fragments_of_fits_limit hfits
  refine (pump_back hat rfl rfl hword Scenario.configuredClient_rests h.emits_offer h.accepts_offer
    hframes rfl rfl Scenario.offeredClient_rests).bind fun _ p hat => ?_
  exact hat.speaks _ _

theorem offer_fails (h : plan.Runnable)
    (hat : p.At limit false false plan.configuredClient plan.configuredServer)
    (hframes : plan.offer.fragments limit = .error fault) :
    Fails p Pair.offer fault :=
  (pump_back_refused hat rfl rfl Scenario.configuredClient_rests h.emits_offer hframes).bind

/-- The mechanism is set, and the initial response queued if there is one. -/
def prepare (s : Scenario) : Call Pair Unit := do
  session .client (Session.setMechanisms [s.client.mechanism])
  match s.client.initialResponse with
  | none => return ()
  | some data => session .client (Session.send data)

/-- The server sees the choice. -/
def takeChoice : Call Pair Unit := do
  let server := (← get).server.session
  say .info (text "server: client selected " ++ server.selectedMechanism ++
    text ", initial response " ++ decimal server.pending ++ text " bytes")
  let _ ← collect .server

theorem takeChoice_ends (h : p.At limit opened openedBack c s) :
    Ends p takeChoice fun _ p' => p'.At limit opened openedBack c { s with inbound := [] } := by
  rw [takeChoice, Ends, on_get_bind]
  refine (h.speaks .info _).bind fun _ p hat => ?_
  exact hat.collects_server.bind fun _ p hat => ⟨(), p, rfl, hat⟩

theorem choose_eq (s : Scenario) :
    choose s = prepare s >>= fun _ => pump >>= fun _ => takeChoice := by
  unfold choose prepare
  cases s.client.initialResponse <;> simp only [bind_assoc, pure_bind] <;> rfl

theorem prepare_ends (h : plan.Runnable)
    (hat : p.At limit true true plan.offeredClient plan.offeredServer) :
    Ends p (prepare plan) fun _ p' =>
      p'.At limit true true plan.choosingClient plan.offeredServer := by
  have hflaw : nameFlaw? [plan.client.mechanism] = none := by
    simp [nameFlaw?, nameFlawAfter?, h.chosen]
  refine (hat.asks_client (Session.on_setMechanisms rfl rfl (List.cons_ne_nil _ _) (fun _ => rfl)
    hflaw)).bind fun _ p hat => ?_
  rw [Scenario.choosingClient]
  cases plan.client.initialResponse with
  | none => exact ⟨(), p, rfl, hat⟩
  | some data => exact hat.asks_client (Session.on_send rfl (List.cons_ne_nil _ _) rfl)

theorem choose_ends (h : plan.Runnable) (hword : limit < wordCount)
    (hat : p.At limit true true plan.offeredClient plan.offeredServer)
    (hfits : plan.choice.Fits limit) :
    Ends p (choose plan) fun _ p' =>
      p'.At limit true true (plan.engagedClient false) (plan.engagedServer false) := by
  obtain ⟨frames, hframes⟩ := Performative.fragments_of_fits_limit hfits
  rw [choose_eq]
  refine (prepare_ends h hat).bind fun _ p hat => ?_
  refine (pump_forth hat rfl rfl hword h.emits_choice h.accepts_choice hframes rfl rfl
    (Scenario.engagedServer_rests false _)).bind fun _ p hat => ?_
  exact takeChoice_ends hat

theorem choose_fails (h : plan.Runnable)
    (hat : p.At limit true true plan.offeredClient plan.offeredServer)
    (hframes : plan.choice.fragments limit = .error fault) : Fails p (choose plan) fault := by
  rw [choose_eq]
  exact (prepare_ends h hat).bind_fails fun _ p hat =>
    (pump_forth_refused hat rfl h.emits_choice hframes).bind

theorem respond_ends {data : Bytes} (hresponse : plan.client.response = some data)
    (hleast : minimumLimit ≤ limit) (hword : limit < wordCount)
    (hat : p.At limit true true plan.challengedClient plan.challengedServer) :
    Ends p (respond plan) fun _ p' =>
      p'.At limit true true (plan.engagedClient true) (plan.engagedServer true) := by
  obtain ⟨frames, hframes⟩ := Performative.fragments_of_least (.response data) hleast nofun nofun
  rw [respond, hresponse]
  refine (hat.asks_client (Session.on_send rfl (List.cons_ne_nil _ _) rfl)).bind fun _ p hat => ?_
  refine (pump_forth hat rfl rfl hword (plan.emits_response data) (plan.accepts_response data)
    hframes rfl rfl (Scenario.engagedServer_rests true data)).bind fun _ p hat => ?_
  refine hat.collects_server.bind fun _ p hat => ?_
  exact hat.speaks .info _

theorem challenge_ends (h : plan.Runnable) (hleast : minimumLimit ≤ limit)
    (hword : limit < wordCount)
    (hat : p.At limit true true (plan.engagedClient false) (plan.engagedServer false)) :
    Ends p (challenge plan) fun _ p' => p'.At limit true true
      (plan.engagedClient plan.server.challenge.isSome)
      (plan.engagedServer plan.server.challenge.isSome) := by
  have hanswered := h.answered
  rw [challenge]
  -- a challenge that stays open would hold the outcome back
  cases hchallenge : plan.server.challenge with
  | none => exact ⟨(), p, rfl, hat⟩
  | some data =>
    rw [hchallenge] at hanswered
    obtain ⟨response, hresponse⟩ := Option.isSome_iff_exists.1 (hanswered rfl)
    obtain ⟨frames, hframes⟩ := Performative.fragments_of_least (.challenge data) hleast nofun nofun
    refine (hat.asks_server (Session.on_send rfl h.offered rfl)).bind fun _ p hat => ?_
    refine (pump_back hat rfl rfl hword (Scenario.engagedClient_rests false)
      (plan.emits_challenge data) (plan.accepts_challenge data) hframes rfl rfl
      (Scenario.challengedClient_rests data)).bind fun _ p hat => ?_
    refine hat.collects_client.bind fun _ p hat => ?_
    refine (hat.speaks .info _).bind fun _ p hat => ?_
    exact respond_ends hresponse hleast hword hat

theorem conclude_ends (h : plan.Runnable) (hleast : minimumLimit ≤ limit)
    (hword : limit < wordCount) {challenged : Bool}
    (hat : p.At limit true true (plan.engagedClient challenged) (plan.engagedServer challenged)) :
    Ends p (conclude plan) fun outcome p' => outcome = plan.server.outcome ∧
      p'.At limit true true plan.finishedClient plan.finishedServer := by
  obtain ⟨frames, hframes⟩ := Performative.fragments_of_least
    (.outcome plan.server.outcome plan.server.additionalData) hleast nofun nofun
  have hdeclare : on (plan.engagedServer challenged)
      (Session.declare plan.server.outcome plan.server.additionalData) =
        (.ok (), plan.decidedServer challenged) := by
    rw [Session.on_declare rfl rfl h.decided, Scenario.decidedServer]
    cases plan.server.additionalData <;> rfl
  have hanswer : ∀ {p : Pair}, p.At limit true true plan.finishedClient plan.finishedServer →
      Ends p (get >>= fun p => pure p.client.session.outcome) fun outcome p' =>
        outcome = plan.server.outcome ∧
          p'.At limit true true plan.finishedClient plan.finishedServer :=
    fun {p} hat => ⟨_, p, rfl, by rw [hat.session]; rfl, hat⟩
  refine (hat.asks_server hdeclare).bind fun _ p hat => ?_
  refine (pump_back hat rfl rfl hword (Scenario.engagedClient_rests challenged)
    (h.emits_outcome challenged) (plan.accepts_outcome challenged) hframes rfl rfl
    (Scenario.finishedClient_rests _)).bind fun _ p hat => ?_
  refine hat.collects_client.bind fun count p hat => ?_
  split
  · exact (hat.speaks .info _).bind fun _ p hat => hanswer hat
  · exact hanswer hat

/-! ### The whole course -/

theorem negotiate_ends (client server : Bytes) (h : plan.Runnable)
    (hleast : minimumLimit ≤ plan.frameLimit) (hword : plan.frameLimit < wordCount)
    (hfits : plan.Fits plan.frameLimit) :
    Ends (fresh client server) (negotiate plan) fun outcome p => outcome = plan.server.outcome ∧
      p.At plan.frameLimit true true plan.finishedClient plan.finishedServer := by
  refine (configure_ends client server h hleast).bind fun _ p hat => ?_
  refine (offer_ends h hword hat hfits.1).bind fun _ p hat => ?_
  refine (choose_ends h hword hat hfits.2).bind fun _ p hat => ?_
  refine (challenge_ends h hleast hword hat).bind fun _ p hat => ?_
  exact conclude_ends h hleast hword hat

theorem negotiate_fails (client server : Bytes) (h : plan.Runnable)
    (hleast : minimumLimit ≤ plan.frameLimit) (hword : plan.frameLimit < wordCount)
    (hnot : ¬ plan.Fits plan.frameLimit) :
    ∃ fault, Fails (fresh client server) (negotiate plan) fault ∧ fault.kind = .frameTooLarge := by
  rcases hoffer : plan.offer.fragments plan.frameLimit with fault | frames
  · refine ⟨fault, ?_, (Performative.fragments_error hoffer).kind⟩
    exact (configure_ends client server h hleast).bind_fails fun _ p hat =>
      (offer_fails h hat hoffer).bind
  · rcases hchoice : plan.choice.fragments plan.frameLimit with fault | frames'
    · refine ⟨fault, ?_, (Performative.fragments_error hchoice).kind⟩
      refine (configure_ends client server h hleast).bind_fails fun _ p hat => ?_
      refine (offer_ends h hword hat (Performative.fits_of_fragments hoffer)).bind_fails
        fun _ p hat => ?_
      exact (choose_fails h hat hchoice).bind
    · exact absurd ⟨Performative.fits_of_fragments hoffer,
        Performative.fits_of_fragments hchoice⟩ hnot

end

end Pair

end FramedSasl
