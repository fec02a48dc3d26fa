import FramedSasl.Loopback.Run
import FramedSasl.Proofs.Negotiation
import FramedSasl.Scenario.Yaml

/-! Scenarios that could be loaded. What the checks of a load leave out is what a session would
refuse, and a challenge without a response; so that a run ends with the outcome that the scenario
names, unless its offer or its init does not fit a frame. All of it holds however the numbers of a
document are read. -/

namespace FramedSasl

open Call

namespace Loading

variable {α β : Type} {load : Loading α} {next : α → Loading β} {a : α} {b : β}
  {fault : ScenarioFault}

theorem run_bind (load : Loading α) (next : α → Loading β) (notes : List Note) :
    (load >>= next).run notes = match load.run notes with
      | (.ok a, notes') => (next a).run notes'
      | (.error fault, notes') => (.error fault, notes') := by
  change (match load.run notes with | (a, notes') => ExceptT.bindCont next a notes') = _
  rcases load.run notes with ⟨fault | a, notes'⟩ <;> rfl

/-- Behind some notes, the load gives `a`. -/
def Gives (load : Loading α) (a : α) : Prop := ∃ notes, (load.run notes).1 = .ok a

theorem Gives.bind (h : Gives (load >>= next) b) : ∃ a, Gives load a ∧ Gives (next a) b := by
  obtain ⟨notes, h⟩ := h
  rw [run_bind] at h
  split at h
  · next a notes' hload => exact ⟨a, ⟨notes, congrArg Prod.fst hload⟩, ⟨notes', h⟩⟩
  · cases h

theorem Gives.pure {a' : α} (h : Gives (Pure.pure a) a') : a = a' := by
  obtain ⟨notes, h⟩ := h
  cases h
  rfl

theorem not_gives_throw : ¬ Gives (throw fault : Loading α) a := by
  rintro ⟨notes, h⟩
  cases h

theorem Gives.ofExcept {value : Except ScenarioFault α} (h : Gives (ofExcept value) a) :
    value = .ok a := by
  obtain ⟨notes, h⟩ := h
  cases value with
  | error fault => cases h
  | ok a' =>
    cases h
    rfl

end Loading

theorem Outcome.ofName?_ne_undecided {name : Bytes} {outcome : Outcome}
    (h : ofName? name = some outcome) : outcome ≠ .undecided := by
  rintro rfl
  exact absurd (List.mem_of_find?_eq_some h) (by decide)

namespace Scenario

variable {word? : Bytes → Option UInt32} {s : Scenario} {root : Tree}

open Loading (Gives)

/-! ### What a load checks -/

theorem readLimit_lt {node : Option Tree} {fallback limit : Nat} (hfallback : fallback < wordCount)
    (h : Gives (readLimit word? node fallback) limit) : limit < wordCount := by
  unfold readLimit at h
  split at h
  · cases h.pure
    exact hfallback
  · split at h
    · cases h.pure
      exact UInt32.toNat_lt _
    · obtain ⟨_, -, h⟩ := h.bind
      cases h.pure
      exact hfallback

theorem readServer_decided {node : Tree} {plan : ServerPlan} (h : readServer node = .ok plan) :
    plan.outcome ≠ .undecided := by
  unfold readServer at h
  dsimp only at h
  split at h
  · cases h
  · next hname =>
    cases h
    exact Outcome.ofName?_ne_undecided hname

theorem read_gives (h : Gives (read word? root) s) :
    s.frameLimit < wordCount ∧ s.server.outcome ≠ .undecided := by
  unfold read at h
  dsimp only at h
  obtain ⟨limit, hlimit, h⟩ := h.bind
  obtain ⟨server, hserver, h⟩ := h.bind
  cases h.pure
  exact ⟨readLimit_lt (by decide) hlimit, readServer_decided hserver.ofExcept⟩

theorem checkMechanisms_ok {names : List Bytes} (h : checkMechanisms names = .ok ()) :
    names ≠ [] ∧ nameFlaw? names = none := by
  unfold checkMechanisms at h
  split at h
  · cases h
  · next hne =>
    split at h
    · cases h
    · cases h
    · next hflaw => exact ⟨hne, hflaw⟩

theorem check_gives (h : Gives (check s) ()) :
    checkMechanisms s.server.mechanisms = .ok () ∧ s.client.mechanism ≠ [] ∧
      (s.server.challenge.isSome → s.client.response.isSome) := by
  have hanswered : Gives (if s.server.challenge.isSome ∧ s.client.response = none then
      throw .challengeUnanswered else pure ()) () →
        s.server.challenge.isSome → s.client.response.isSome := by
    intro h hchallenge
    split at h
    · exact absurd h Loading.not_gives_throw
    · next hnot => exact Option.isSome_iff_ne_none.2 fun hnone => hnot ⟨hchallenge, hnone⟩
  unfold check at h
  dsimp only at h
  split at h
  · obtain ⟨_, h, -⟩ := h.bind
    exact absurd h Loading.not_gives_throw
  · obtain ⟨_, hmechanisms, h⟩ := h.bind
    split at h
    · obtain ⟨_, h, -⟩ := h.bind
      exact absurd h Loading.not_gives_throw
    · next hchosen =>
      refine ⟨hmechanisms.ofExcept, hchosen, hanswered ?_⟩
      split at h
      · obtain ⟨_, -, h⟩ := h.bind
        exact h
      · exact h

theorem ofDocument_gives {path file : Bytes}
    (h : Gives (ofDocument word? path (.loaded file root)) s) :
    Gives (read word? root) s ∧ Gives (check s) () := by
  unfold ofDocument at h
  dsimp only at h
  obtain ⟨_, -, h⟩ := h.bind
  split at h
  · obtain ⟨s', hread, h⟩ := h.bind
    obtain ⟨_, hcheck, h⟩ := h.bind
    obtain ⟨_, -, h⟩ := h.bind
    cases h.pure
    exact ⟨hread, hcheck⟩
  · exact absurd h Loading.not_gives_throw

theorem load_gives {path : Bytes} {document : Document}
    (h : (load word? path document).1 = .ok s) : Gives (ofDocument word? path document) s := by
  unfold load at h
  split at h
  · next notes hrun =>
    cases h
    exact ⟨[], congrArg Prod.fst hrun⟩
  · cases h

theorem load_runnable {path file : Bytes} (h : (load word? path (.loaded file root)).1 = .ok s) :
    s.Runnable ∧ s.frameLimit < wordCount := by
  obtain ⟨hread, hcheck⟩ := ofDocument_gives (load_gives h)
  obtain ⟨hlimit, hdecided⟩ := read_gives hread
  obtain ⟨hmechanisms, hchosen, hanswered⟩ := check_gives hcheck
  obtain ⟨hoffered, hunflawed⟩ := checkMechanisms_ok hmechanisms
  exact ⟨⟨hoffered, hunflawed, hchosen, hanswered, hdecided⟩, hlimit⟩

theorem Runnable.with_limit (h : s.Runnable) (limit : Nat) :
    Runnable { s with frameLimit := limit } :=
  ⟨h.offered, h.unflawed, h.chosen, h.answered, h.decided⟩

end Scenario

/-! ### The end of a negotiation -/

/-- Both sides are done and agree on what the scenario says. -/
structure Pair.Settled (p : Pair) (s : Scenario) : Prop where
  clientDone : p.client.session.phase = .done
  serverDone : p.server.session.phase = .done
  clientOutcome : p.client.session.outcome = s.server.outcome
  serverOutcome : p.server.session.outcome = s.server.outcome
  mechanism : p.server.session.selectedMechanism = s.client.mechanism
  hostname : p.server.session.requestedHostname = .ok s.client.hostname

theorem Pair.At.settled {p : Pair} {s : Scenario} {limit : Nat} {opened openedBack : Bool}
    (h : p.At limit opened openedBack s.finishedClient s.finishedServer) : p.Settled s where
  clientDone := by rw [h.session]; rfl
  serverDone := by rw [h.theirSession]; rfl
  clientOutcome := by rw [h.session]; rfl
  serverOutcome := by rw [h.theirSession]; rfl
  mechanism := by rw [h.theirSession]; rfl
  hostname := by rw [h.theirSession]; rfl

/-- How a negotiation ends at this limit: as the scenario says, or with a frame too large. -/
structure Scenario.Carried (s : Scenario) (limit : Nat)
    (run : Except Fault Outcome × Pair) : Prop where
  settles : s.Fits limit → run.1 = .ok s.server.outcome ∧ run.2.Settled s
  fails : ¬ s.Fits limit → ∃ fault, run.1 = .error fault ∧ fault.kind = .frameTooLarge

theorem Scenario.Runnable.carried {s : Scenario} {limit : Nat} (h : s.Runnable)
    (hleast : minimumLimit ≤ limit) (hword : limit < wordCount) (client server : Bytes) :
    s.Carried limit
      (on (Pair.fresh client server) (Pair.negotiate { s with frameLimit := limit })) where
  settles hfits := by
    obtain ⟨outcome, p, hrun, houtcome, hat⟩ :=
      Pair.negotiate_ends client server (h.with_limit limit) hleast hword hfits
    have hsettled : p.Settled s := Pair.At.settled hat
    rw [hrun, houtcome]
    exact ⟨rfl, hsettled⟩
  fails hnot := by
    obtain ⟨fault, ⟨p, hrun⟩, hkind⟩ :=
      Pair.negotiate_fails client server (h.with_limit limit) hleast hword hnot
    rw [hrun]
    exact ⟨fault, rfl, hkind⟩

/-! ### The end of a run -/

theorem Settings.limit_lt {settings : Settings} {fallback : Nat} (h : fallback < wordCount) :
    (settings.limit fallback).1 < wordCount := by
  unfold limit
  split
  · exact h
  · split
    · exact h
    · split
      · exact h
      · exact Nat.mod_lt _ (by decide)

namespace Run

variable {word? : Bytes → Option UInt32} {settings : Settings} {document : Document} {s : Scenario}
  {limit : Nat} {journalFault : Bytes → Option Bytes}

theorem prepare_eq (h : (Scenario.load word? settings.path document).1 = .ok s) :
    prepare word? settings document = (some (settings.override s).1,
      (Scenario.load word? settings.path document).2 ++ (settings.override s).2) := by
  unfold prepare
  generalize Scenario.load word? settings.path document = loaded at h
  obtain ⟨_, notes⟩ := loaded
  cases h
  rfl

theorem prepare_of_load (h : (Scenario.load word? settings.path document).1 = .ok s) :
    (prepare word? settings document).1 = some (settings.override s).1 :=
  congrArg Prod.fst (prepare_eq h)

theorem run_exit (h : (prepare word? settings document).1 = some s)
    (hjournal : journalFault s.logPath = none) (stamp : Bytes) :
    (run word? settings document journalFault stamp).1 = (perform s).1 := by
  unfold run
  split
  · next hprepare =>
    rw [hprepare] at h
    cases h
  · next hprepare =>
    rw [hprepare] at h
    cases h
    simp only [hjournal]

theorem perform_settled {outcome : Outcome} (h : (on {} (Pair.negotiate s)).1 = .ok outcome) :
    (perform s).1 = exitOf outcome := by
  unfold perform
  split
  · next hrun =>
    rw [hrun] at h
    cases h
    rfl
  · next hrun =>
    rw [hrun] at h
    cases h

theorem perform_failed {fault : Fault} (h : (on {} (Pair.negotiate s)).1 = .error fault) :
    (perform s).1 = .failed := by
  unfold perform
  split
  · next hrun =>
    rw [hrun] at h
    cases h
  · rfl

/-- The exit code tells the outcome of a scenario that fits, and nothing else. -/
theorem perform_code (h : s.Carried limit (on {} (Pair.negotiate s))) :
    ((perform s).1.code = 0 ↔ s.server.outcome = .ok ∧ s.Fits limit) ∧
      ((perform s).1.code = 1 ↔ s.server.outcome ≠ .ok ∧ s.Fits limit) := by
  by_cases hfits : s.Fits limit
  · rw [perform_settled (h.settles hfits).1, exitOf]
    by_cases hok : s.server.outcome = .ok <;> simp [hok, hfits, Exit.code]
  · obtain ⟨fault, hrun, -⟩ := h.fails hfits
    simp [perform_failed hrun, hfits, Exit.code]

end Run

/-- What a run of a scenario that could be loaded comes to, at every frame limit that the endpoints
take: the outcome that the scenario names, or a frame too large. -/
theorem Scenario.load_carries (word? : Bytes → Option UInt32) {path file : Bytes} {root : Tree}
    {s : Scenario} (h : (load word? path (.loaded file root)).1 = .ok s) :
    (∀ limit client server, minimumLimit ≤ limit → limit < wordCount →
      s.Carried limit
        (on (Pair.fresh client server) (Pair.negotiate { s with frameLimit := limit }))) ∧
    ∀ (settings : Settings) (journalFault : Bytes → Option Bytes) (stamp : Bytes),
      minimumLimit ≤ (settings.limit s.frameLimit).1 →
      journalFault (settings.override s).1.logPath = none →
      let exit := (Run.run word? settings (.loaded file root) journalFault stamp).1
      (exit.code = 0 ↔ s.server.outcome = .ok ∧ s.Fits (settings.limit s.frameLimit).1) ∧
      (exit.code = 1 ↔ s.server.outcome ≠ .ok ∧ s.Fits (settings.limit s.frameLimit).1) := by
  obtain ⟨hrunnable, hlimit⟩ := load_runnable h
  refine ⟨fun limit client server hleast hword => hrunnable.carried hleast hword client server, ?_⟩
  intro settings journalFault stamp hleast hjournal
  have hoverride : (settings.override s).1.Runnable :=
    ⟨hrunnable.offered, hrunnable.unflawed, hrunnable.chosen, hrunnable.answered, hrunnable.decided⟩
  have hprepare : (Run.prepare word? settings (.loaded file root)).1 =
      some (settings.override s).1 := Run.prepare_of_load h
  rw [Run.run_exit hprepare hjournal stamp]
  exact Run.perform_code (hoverride.carried hleast (Settings.limit_lt hlimit) _ _)

/-- A server that challenges and then refuses, a client with an empty initial response, and frames
of at most 1024 bytes. -/
def Tree.refusal : Tree := .map
  [(text "transport", .map [(text "max_frame_size", .scalar (text "0x400"))]),
    (text "server", .map
      [(text "mechanisms", .sequence [.scalar (text "PLAIN"), .scalar (text "ANONYMOUS")]),
        (text "challenge", .scalar (text "nonce")), (text "outcome", .scalar (text "auth"))]),
    (text "client", .map
      [(text "mechanism", .scalar (text "PLAIN")), (text "hostname", .scalar (text "host")),
        (text "initial_response", .scalar []), (text "response", .scalar (text "proof"))])]

def Scenario.refusal : Scenario where
  frameLimit := 1024
  server :=
    { mechanisms := [text "PLAIN", text "ANONYMOUS"], challenge := some (text "nonce")
      outcome := .auth }
  client :=
    { mechanism := text "PLAIN", hostname := some (text "host"), initialResponse := some []
      response := some (text "proof") }

theorem Scenario.load_carries_refusal :
    (load Yaml.word? [] (.loaded [] .refusal)).1 = .ok refusal ∧ refusal.Fits 1024 ∧
      (on {} (Pair.negotiate refusal)).1 = .ok .auth ∧
      (on {} (Pair.negotiate refusal)).2.Settled refusal ∧
      (Run.run Yaml.word? {} (.loaded [] .refusal) (fun _ => none) []).1.code = 1 := by
  have hload : (load Yaml.word? [] (.loaded [] .refusal)).1 = .ok refusal := rfl
  have hfits : refusal.Fits 1024 := by decide
  obtain ⟨hcarries, hruns⟩ := load_carries Yaml.word? hload
  obtain ⟨hrun, hsettled⟩ :=
    (hcarries 1024 (text "client") (text "server") (by decide) (by decide)).settles hfits
  have hcode := (hruns {} (fun _ => none) [] (by decide) rfl).2.2 ⟨by decide, hfits⟩
  exact ⟨hload, hfits, hrun, hsettled, hcode⟩

end FramedSasl
