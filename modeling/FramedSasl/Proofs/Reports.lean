import FramedSasl.Proofs.Tallies
import Mathlib.Data.List.Induction

/-! What an endpoint reports of the end of its negotiation. Every call that goes well and finds the
end there reports it, unless an earlier one has; a call that fails reports no end. So the end is
reported once, but never if the call that comes to it fails on what lies behind: then how the bytes
of the peer were cut decides whether there is a report. -/

namespace FramedSasl

open Call

namespace Event

/-- The end that an event reports. -/
def verdict? : Event → Option Verdict
  | finished verdict => some verdict
  | _ => none

def verdicts (events : List Event) : List Verdict := events.filterMap verdict?

@[simp] theorem verdicts_nil : verdicts [] = [] := rfl

@[simp] theorem verdicts_append (front back : List Event) :
    verdicts (front ++ back) = verdicts front ++ verdicts back :=
  List.filterMap_append

@[simp] theorem verdicts_failed (fault : Fault) : verdicts [.failed fault] = [] := rfl

@[simp] theorem verdicts_sent (frames : List Frame) : verdicts (frames.map Endpoint.sent) = [] := by
  simp [verdicts, Endpoint.sent, verdict?]

@[simp] theorem verdicts_received (arrivals : List Arrival) :
    verdicts (arrivals.map Endpoint.received) = [] := by
  simp [verdicts, Endpoint.received, verdict?]

end Event

open Event

namespace Endpoint

variable {e : Endpoint} {side : Role} {place : Place} {α : Type}

/-! ### One turn -/

/-- A turn but for its report: nothing is said of the end. -/
structure Silent (e : Endpoint) (turn : Turn α) : Prop where
  verdicts : verdicts turn.events = []
  reported : turn.endpoint.reported = e.reported
  refused : ∀ fault, turn.result = .error fault → turn.endpoint.failure = some fault
  going : ∀ a, turn.result = .ok a → turn.endpoint.failure = e.failure

theorem drain_silent (e : Endpoint) : Silent e (drain e) := by
  fun_induction drain e with
  | case1 e fault session hdue =>
    exact ⟨rfl, rfl, fun _ h => by cases h; rfl, fun _ h => by cases h⟩
  | case2 e session hdue => exact ⟨rfl, rfl, fun _ h => (by cases h), fun _ _ => rfl⟩
  | case3 e session p hdue fault codec hframes =>
    exact ⟨rfl, rfl, fun _ h => by cases h; rfl, fun _ h => by cases h⟩
  | case4 e session p hdue frames codec hframes later ih =>
    refine ⟨by simpa using ih.verdicts, ih.reported, fun fault hfault => ?_, fun bytes hbytes => ?_⟩
    · exact ih.refused fault (Except.error_of_map hfault)
    · obtain ⟨rest, hrest, -⟩ := Except.ok_of_map hbytes
      exact ih.going rest hrest

theorem absorb_verdicts (e : Endpoint) : verdicts (absorb e).events = [] := by
  induction e using absorb_induction with
  | breaks e fault hresult => simp [absorb_of_error hresult]
  | waits e hresult => simp [absorb_of_none hresult]
  | refuses e p fault s hresult haccept => simp [absorb_of_refused hresult haccept]
  | takes e p s hresult haccept ih => simp [absorb_of_some hresult haccept, ih]

theorem intake_silent (e : Endpoint) (data : Bytes) : Silent e (e.intake data) where
  verdicts := by
    rw [intake]
    rcases matchHeader e.headerMatched data with ⟨matched, fault | rest⟩
    · rfl
    · exact absorb_verdicts _
  reported := congrArg (fun turn => turn.endpoint.reported) (intake_reported e e.reported data)
  refused fault hfault := by
    rw [intake_failure, hfault]
  going count hcount := by
    rw [intake_failure, hcount]

/-- What a turn says of the end: nothing when it fails, else what has not been reported. -/
inductive Closes (e : Endpoint) (turn : Turn α) : Prop
  | failed {fault : Fault} (result : turn.result = .error fault)
      (failure : turn.endpoint.failure = some fault)
      (reported : turn.endpoint.reported = e.reported) (verdicts : verdicts turn.events = [])
  | went {answer : α} (result : turn.result = .ok answer) (failure : turn.endpoint.failure = none)
      (reported : turn.endpoint.reported =
        (e.reported || decide (turn.endpoint.session.phase = .done)))
      (verdicts : verdicts turn.events =
        if e.reported = true ∨ turn.endpoint.session.phase ≠ .done then []
        else [turn.endpoint.verdict])

theorem conclude_verdicts (e : Endpoint) (answer : α) {events : List Event}
    (h : verdicts events = []) :
    verdicts (e.conclude answer events).events =
      if e.reported = true ∨ e.session.phase ≠ .done then [] else [e.verdict] := by
  unfold conclude
  split
  · exact h
  · rw [verdicts_append, h]
    rfl

namespace Silent

variable {turn : Turn α} {fault : Fault}

theorem closes_failed (h : Silent e turn) (hresult : turn.result = .error fault) :
    Closes e turn :=
  .failed hresult (h.refused fault hresult) h.reported h.verdicts

theorem closes_concluded {a : α} (h : Silent e turn) (hfailure : e.failure = none)
    (hresult : turn.result = .ok a) (answer : α) :
    Closes e (turn.endpoint.conclude answer turn.events) := by
  have hsaid := conclude_verdicts turn.endpoint answer h.verdicts
  have hthere := conclude_reported turn.endpoint answer turn.events
  rw [h.reported] at hsaid hthere
  refine .went (conclude_result _ _ _) ?_ ?_ ?_
  · rw [hthere]
    exact (h.going a hresult).trans hfailure
  · rw [hthere]
  · rw [hsaid, hthere]
    rfl

end Silent

theorem output_closes (hfailure : e.failure = none) (hrole : e.session.role = some side) :
    Closes e e.output := by
  obtain ⟨hverdicts, hreported, hrefused, hgoing⟩ := drain_silent { e with headerSent := true }
  have hsilent : Silent e (drain { e with headerSent := true }) :=
    ⟨hverdicts, hreported, hrefused, hgoing⟩
  rw [output, guarded_eq hfailure hrole]
  dsimp only
  split
  · next hresult => exact hsilent.closes_failed hresult
  · next hresult => exact hsilent.closes_concluded hfailure hresult _

theorem input_closes (hfailure : e.failure = none) (hrole : e.session.role = some side)
    (data : Bytes) : Closes e (e.input data) := by
  have hsilent := intake_silent e data
  rw [input_eq_intake hfailure hrole]
  split
  · next hresult => exact hsilent.closes_failed hresult
  · next hresult => exact hsilent.closes_concluded hfailure hresult _

end Endpoint

/-! ### Where a session ends -/

namespace Session

variable {s s' : Session} {side : Role} {place : Place}

/-- The exchange has ended, and a server has the outcome that it declared. -/
structure Over (s : Session) : Prop where
  done : s.phase = .done
  declared : s.role = some .server → s.outcome ≠ .undecided

/-- What does not decide how the exchange ended does not matter. -/
theorem Over.of_same (h : s.Over) (hrole : s'.role = s.role) (hphase : s'.phase = s.phase)
    (houtcome : s'.outcome = s.outcome) : s'.Over where
  done := hphase.trans h.done
  declared hserver := by
    rw [houtcome]
    exact h.declared (hrole.symm.trans hserver)

/-- No call of the owner leads to the end, and behind it none changes the outcome. -/
theorem Obeys.over {call : OwnerCall} {answer : Except Fault Unit × Session}
    (h : Obeys side s call answer) (hrole : s.role = some side) :
    answer.2.phase = s.phase ∧ (s.Over → answer.2.Over ∧ answer.2.outcome = s.outcome) := by
  cases h with
  | refused | sameRole => exact ⟨rfl, fun hover => ⟨hover, rfl⟩⟩
  | named | asked | queued => exact ⟨rfl, fun hover => ⟨hover.of_same rfl rfl rfl, rfl⟩⟩
  | declared outcome data hserver hfirst =>
    refine ⟨by cases data <;> rfl, fun hover => ?_⟩
    exact absurd hfirst (hover.declared (hrole.trans (congrArg some hserver)))

/-- What a server takes in does not end the exchange. -/
theorem At.acceptAll_server (h : s.At .server place) (hgoing : s.phase ≠ .done)
    (ps : List Performative) : (s.acceptAll ps).1.phase ≠ .done := by
  induction ps generalizing s place with
  | nil => exact hgoing
  | cons p ps ih =>
    rw [acceptAll]
    split
    · exact hgoing
    · next s' haccept =>
      obtain ⟨hsender, ⟨next, hnext⟩, hcontent⟩ := h.of_accepts haccept
      obtain ⟨after, haccepts, hafter⟩ := h.accepts hsender hnext hcontent
      cases haccept.symm.trans haccepts.accepted
      refine ih hafter fun hdone => hsender ?_
      rw [hafter.done_iff.1 hdone] at hnext
      rw [Place.kind_of_finished hnext]
      rfl

end Session

namespace Endpoint

variable {e : Endpoint} {side : Role} {place : Place}

/-- Output behind the end changes nothing. It ends with an outcome that was declared, and that
fits. -/
theorem Valid.output_over (h : e.Valid) (hrole : e.session.role = some side)
    (hfailure : e.failure = none) :
    (e.session.phase = .done → e.output.endpoint.session = e.session) ∧
      (e.session.phase ≠ .done → e.output.endpoint.session.phase = .done →
        e.output.endpoint.session.Over ∧ e.output.endpoint.failure = none) := by
  obtain ⟨place, hat⟩ := h.at_of_role hrole
  rcases hat.emits with hrests | ⟨p, s, next, hemits, hnext, hafter⟩
  · rw [(output_rests hfailure hrole hrests).2]
    exact ⟨fun _ => rfl, fun hgoing hdone => absurd hdone hgoing⟩
  · refine ⟨fun hdone => ?_, fun _ hdone => ?_⟩
    · cases (Session.rests_done hrole hdone).symm.trans hemits.due
    · have hlast : s.phase = .done → p.kind = .outcome := by
        intro hdone
        rw [hafter.done_iff.1 hdone] at hnext
        exact Place.kind_of_finished hnext
      rcases hframes : p.fragments e.codec.peerLimit with fault | frames
      · rw [(output_refused hfailure hrole hemits.due hframes).2] at hdone
        have hkind := (Performative.fragments_error hframes).sender h.codec.peerLimit_ge
        rw [hlast hdone] at hkind
        cases hkind <;> contradiction
      · rw [(output_emits hfailure hrole hemits.due hemits.last hframes).2] at hdone ⊢
        refine ⟨⟨hdone, fun _ => ?_⟩, hfailure⟩
        have hdecided := hemits.decided
        have htold := hemits.told
        rw [hemits.outcome]
        cases p with
        | outcome code data => exact htold code rfl ▸ hdecided
        | _ => cases hlast hdone

theorem input_endpoint (hfailure : e.failure = none) (hrole : e.session.role = some side)
    (data : Bytes) :
    ∃ reported, (e.input data).endpoint = { (e.intake data).endpoint with reported } := by
  rw [input_eq_intake hfailure hrole]
  split
  · exact ⟨_, rfl⟩
  · exact conclude_endpoint _ _ _

theorem input_session (hfailure : e.failure = none) (hrole : e.session.role = some side)
    (data : Bytes) : ∃ ps, (e.input data).endpoint.session = (e.session.acceptAll ps).1 := by
  obtain ⟨reported, hinput⟩ := input_endpoint hfailure hrole data
  have hreference := congrArg Prod.fst (intake_reference hfailure data)
  rw [hinput]
  rw [reference] at hreference
  rcases hmatch : matchHeader e.headerMatched data with ⟨matched, fault | rest⟩
  · rw [hmatch] at hreference
    exact ⟨[], hreference⟩
  · rw [hmatch] at hreference
    exact ⟨_, hreference⟩

/-- Input behind the end changes nothing, and a server does not come to the end by it. -/
theorem Valid.input_over (h : e.Valid) (hrole : e.session.role = some side)
    (hfailure : e.failure = none) (data : Bytes) :
    (e.session.phase = .done → (e.input data).endpoint.session = e.session) ∧
      (e.session.phase ≠ .done → (e.input data).endpoint.session.phase = .done →
        (e.input data).endpoint.session.Over) := by
  obtain ⟨place, hat⟩ := h.at_of_role hrole
  obtain ⟨-, ⟨next, hnext⟩, -⟩ := h.input_of_at hat hfailure data
  obtain ⟨ps, hsession⟩ := input_session hfailure hrole data
  refine ⟨fun hdone => hsession.trans (Session.acceptAll_done hdone ps),
    fun hgoing hdone => ?_⟩
  refine ⟨hdone, fun hserver => ?_⟩
  cases hnext.stands.role.symm.trans hserver
  rw [hsession] at hdone
  exact absurd hdone (hat.acceptAll_server hgoing ps)

/-! ### One act -/

/-- Performatives go through `output` and `input` only. -/
def Act.Carried : Act → Prop
  | .session .next | .session (.accept _) => False
  | _ => True

/-- What one act reports. -/
def reports (e : Endpoint) : Act → List Event
  | .output => e.output.events
  | .input data => (e.input data).events
  | _ => []

/-- The act leads to the end, and fails. -/
def Misses (e : Endpoint) (act : Act) : Prop :=
  e.session.phase ≠ .done ∧ (e.perform act).session.phase = .done ∧ (e.perform act).failure ≠ none

/-- All that one act can do about the end, and what it reports. -/
inductive Moves (e e' : Endpoint) : List Verdict → Prop
  | rests (done : e'.session.phase = .done ↔ e.session.phase = .done)
      (ended : e.session.Over → e'.session.Over ∧ e'.session.outcome = e.session.outcome)
      (reported : e'.reported = e.reported) (failure : e'.failure = e.failure) : Moves e e' []
  | failed (failure : e'.failure ≠ none) (reported : e'.reported = e.reported)
      (stays : e.session.phase = .done → e'.session = e.session) : Moves e e' []
  | went (going : e.failure = none) (failure : e'.failure = none)
      (reported : e'.reported = (e.reported || decide (e'.session.phase = .done)))
      (stays : e.session.phase = .done → e'.session = e.session)
      (ended : e.session.phase ≠ .done → e'.session.phase = .done → e'.session.Over) :
      Moves e e' (if e.reported = true ∨ e'.session.phase ≠ .done then [] else [e'.verdict])

theorem guarded_rests {α : Type} {turn : Turn α} (traffic : Traffic)
    (h : e.failure ≠ none ∨ e.session.role = none) :
    (e.guarded traffic turn).endpoint = e ∧ (e.guarded traffic turn).events = [] := by
  unfold guarded
  split
  · exact ⟨rfl, rfl⟩
  · next hfailure =>
    rw [if_pos (h.resolve_left (not_not_intro hfailure))]
    exact ⟨rfl, rfl⟩

theorem Closes.moves {α : Type} {turn : Turn α} (h : Closes e turn) (hfailure : e.failure = none)
    (hstays : e.session.phase = .done → turn.endpoint.session = e.session)
    (hover : e.session.phase ≠ .done → turn.endpoint.session.phase = .done →
      turn.endpoint.session.Over) : Moves e turn.endpoint (verdicts turn.events) := by
  cases h with
  | failed _ hfailed hreported hverdicts =>
    rw [hverdicts]
    exact .failed (by simp [hfailed]) hreported hstays
  | went _ hgoing hreported hverdicts =>
    rw [hverdicts]
    exact .went hfailure hgoing hreported hstays hover

/-- No call on the session leads to the end, and behind it none changes the outcome. -/
theorem Valid.session_over (h : e.Valid) {act : Session.Act}
    (hcarried : (Act.session act).Carried) :
    ((e.session.perform act).1.phase = .done ↔ e.session.phase = .done) ∧
      (e.session.Over → (e.session.perform act).1.Over ∧
        (e.session.perform act).1.outcome = e.session.outcome) := by
  rcases h.session with hnew | ⟨side, place, hat⟩
  · have hgoing : e.session.phase ≠ .done := by
      rw [hnew]
      exact nofun
    have hgoing' : (e.session.perform act).1.phase ≠ .done := by
      rw [hnew]
      rcases Session.perform_unassigned act with hsame | ⟨side, hassigned⟩
      · rw [hsame]
        exact nofun
      · rw [hassigned]
        exact nofun
    exact ⟨iff_of_false hgoing' hgoing, fun hover => absurd hover.done hgoing⟩
  · cases act with
    | call call =>
      have hobeys := Session.obey_cases hat.stands.role call
      obtain ⟨hphase, hover⟩ := hobeys.over hat.stands.role
      have hsession : (e.session.perform (.call call)).1 = (on e.session call.run).2 := by
        rw [Session.perform]
        split <;> next hrun => rw [hrun]
      rw [← hsession] at hphase hover
      exact ⟨by rw [hphase], hover⟩
    | receive n => exact ⟨Iff.rfl, fun hover => ⟨hover.of_same rfl rfl rfl, rfl⟩⟩
    | next | accept => exact hcarried.elim

theorem Valid.moves (h : e.Valid) {act : Act} (hcarried : act.Carried) :
    Moves e (e.perform act) (verdicts (e.reports act)) := by
  have hidle : Moves e e [] := .rests Iff.rfl (fun hover => ⟨hover, rfl⟩) rfl rfl
  have hcases : e.failure ≠ none ∨ e.session.role = none ∨
      e.failure = none ∧ ∃ side, e.session.role = some side := by
    rcases hfailure : e.failure with _ | fault
    · rcases hrole : e.session.role with _ | side
      · exact .inr (.inl rfl)
      · exact .inr (.inr ⟨rfl, side, rfl⟩)
    · exact .inl nofun
  cases act with
  | session act =>
    obtain ⟨hdone, hover⟩ := h.session_over hcarried
    exact .rests hdone hover rfl rfl
  | setLimit size => exact .rests Iff.rfl (fun hover => ⟨hover, rfl⟩) rfl rfl
  | setPeerLimit size => exact .rests Iff.rfl (fun hover => ⟨hover, rfl⟩) rfl rfl
  | output =>
    rw [Endpoint.perform, reports]
    rcases or_assoc.2 hcases with hrests | ⟨hfailure, side, hrole⟩
    · obtain ⟨hthere, hnothing⟩ := guarded_rests .output hrests
      rw [Endpoint.output, hthere, hnothing]
      exact hidle
    · obtain ⟨hstays, hover⟩ := h.output_over hrole hfailure
      exact (output_closes hfailure hrole).moves hfailure hstays
        fun hgoing hdone => (hover hgoing hdone).1
  | input data =>
    rw [Endpoint.perform, reports]
    rcases or_assoc.2 hcases with hrests | ⟨hfailure, side, hrole⟩
    · obtain ⟨hthere, hnothing⟩ := guarded_rests .input hrests
      rw [Endpoint.input, hthere, hnothing]
      exact hidle
    · obtain ⟨hstays, hover⟩ := h.input_over hrole hfailure data
      exact (input_closes hfailure hrole data).moves hfailure hstays hover

/-- Only what comes in leads to the end and fails behind it. -/
theorem Valid.exists_input (h : e.Valid) {act : Act} (hcarried : act.Carried)
    (hmisses : e.Misses act) : ∃ data, act = .input data := by
  obtain ⟨hgoing, hdone, hfails⟩ := hmisses
  cases act with
  | input data => exact ⟨data, rfl⟩
  | setLimit | setPeerLimit => exact absurd hdone hgoing
  | session act => exact absurd ((h.session_over hcarried).1.1 hdone) hgoing
  | output =>
    rcases guarded_cases e .output _ with hsame | ⟨hfailure, side, hrole⟩
    · rw [Endpoint.perform, Endpoint.output, hsame] at hdone
      exact absurd hdone hgoing
    · exact absurd ((h.output_over hrole hfailure).2 hgoing hdone).2 hfails

end Endpoint

/-! ### Where the bytes are cut -/

namespace Session

variable {s : Session} {side : Role}

/-- Behind the end everything is refused. -/
theorem acceptAll_refuses {ps : List Performative} (hrole : s.role = some side)
    (hdone : s.phase = .done) (hsome : ps ≠ []) : (s.acceptAll ps).2 ≠ none := by
  cases ps with
  | nil => exact absurd rfl hsome
  | cons p ps =>
    rw [acceptAll]
    split
    · exact Option.some_ne_none _
    · next haccept =>
      obtain ⟨phase, after, hreceiving, -, -⟩ := accept_ok haccept
      have hafter := Phase.after?_of_afterReceiving (hrole ▸ hreceiving)
      rw [hdone] at hafter
      cases hkind : p.kind <;> rw [hkind] at hafter <;> cases hafter

end Session

namespace Endpoint

variable {e : Endpoint} {place : Place}

/-- A client that has come to where an outcome may come, with no bytes left over. -/
structure Awaits (e : Endpoint) : Prop where
  valid : e.Valid
  session : ∃ place, e.session.At .client place ∧
    place.next? .client .outcome = some .finished
  going : e.failure = none
  header : e.headerMatched = protocolHeader.length
  idle : e.codec.buffer = [] ∧ e.codec.unfinished = none

/-- What the codec finds in bytes behind the outcome. -/
def behind (e : Endpoint) (more : Bytes) : Harvest :=
  Codec.pollAll { e.codec with buffer := more, started := true, unfinished := none }

/-- Something lies behind the outcome that will be refused. -/
def Spoils (e : Endpoint) (more : Bytes) : Prop :=
  (e.behind more).performatives ≠ [] ∨ (e.behind more).fault ≠ none

namespace Awaits

variable {code : Outcome} {data : Option Bytes} {more : Bytes}

/-- The outcome is taken in, whatever lies behind it, and what lies behind it is refused. -/
theorem input_outcome (h : e.Awaits)
    (hfits : Codec.Fits e.codec.limit ⟨.outcome code data, false⟩) :
    ∃ s : Session, s.At .client .finished ∧ ∀ more,
      let after := (e.input ((Frame.mk (.outcome code data) false).serialize ++ more)).endpoint
      after.session = s ∧ after.failure =
        (s.acceptAll (e.behind more).performatives).2.or (e.behind more).fault := by
  let p : Performative := .outcome code data
  let bytes := (Frame.mk p false).serialize
  obtain ⟨place, hat, hnext⟩ := h.session
  obtain ⟨s, haccepts, hfinished⟩ := hat.accepts (p := p) nofun hnext trivial
  refine ⟨s, hfinished, fun more => ?_⟩
  intro after
  obtain ⟨reported, hinput⟩ := input_endpoint h.going hat.stands.role (bytes ++ more)
  have hbehind : protocolHeader[e.headerMatched]? = none := by
    rw [h.header]
    rfl
  have hpolls : (e.codec.feed (bytes ++ more)).pollAll =
      (e.behind more).after
        ⟨[p], [⟨⟨p, false⟩, bytes.length⟩], none, e.codec.feed (bytes ++ more)⟩ := by
    have hcompletes : Completes (e.codec.feed (bytes ++ more)).unfinished [⟨p, false⟩] p :=
      h.idle.2 ▸ .last rfl
    have hbuffer : (e.codec.feed (bytes ++ more)).buffer =
        [Frame.mk p false].flatMap Frame.serialize ++ more := by
      simp [Codec.feed, h.idle.1, bytes]
    exact Codec.pollAll_of_completes hcompletes (List.forall_mem_singleton.2 hfits) hbuffer
  have hintake : e.intake (bytes ++ more) =
      absorb { e with codec := e.codec.feed (bytes ++ more) } := by
    rw [intake, matchHeader_behind hbehind]
  have haccept : e.session.acceptAll (p :: (e.behind more).performatives) =
      s.acceptAll (e.behind more).performatives := by
    rw [Session.acceptAll, haccepts.accepted]
  obtain ⟨hsession, hfailure⟩ :=
    absorb_session (e := { e with codec := e.codec.feed (bytes ++ more) }) h.going
  rw [← hintake] at hsession hfailure
  simp only [hpolls, Harvest.after, List.singleton_append, haccept] at hsession hfailure
  rw [Session.acceptAll_done (hfinished.done_iff.2 rfl)] at hsession
  have hafter : after = { (e.intake (bytes ++ more)).endpoint with reported } := hinput
  rw [hafter]
  exact ⟨hsession, hfailure⟩

/-- The outcome with something behind it that is wrong: in one call of `input` the end is missed,
in two it is not. The session is the same. -/
theorem cut_decides (h : e.Awaits)
    (hfits : Codec.Fits e.codec.limit ⟨.outcome code data, false⟩) (hwrong : e.Spoils more) :
    let bytes := (Frame.mk (.outcome code data) false).serialize
    e.session.phase ≠ .done ∧ e.Misses (.input (bytes ++ more)) ∧ ¬ e.Misses (.input bytes) ∧
      ¬ (e.input bytes).endpoint.Misses (.input more) ∧
      ((e.input bytes).endpoint.input more).endpoint.session =
        (e.input (bytes ++ more)).endpoint.session := by
  intro bytes
  obtain ⟨place, hat, hnext⟩ := h.session
  have hgoing : e.session.phase ≠ .done := by
    intro hdone
    rw [hat.done_iff.1 hdone] at hnext
    cases hnext
  obtain ⟨s, hfinished, hinput⟩ := h.input_outcome hfits
  have hdone : s.phase = .done := hfinished.done_iff.2 rfl
  obtain ⟨hsession, hfailure⟩ := hinput more
  obtain ⟨halone, hwell⟩ := hinput []
  have hnothing : e.behind [] = ⟨[], [], none, _⟩ := Codec.pollAll_of_cut_none rfl
  rw [List.append_nil] at halone hwell
  rw [hnothing] at hwell
  have hthere : (e.input bytes).endpoint.session.phase = .done := halone ▸ hdone
  have hvalid : (e.input bytes).endpoint.Valid := (h.valid.input_of_at hat h.going bytes).1
  have hrole : (e.input bytes).endpoint.session.role = some .client :=
    halone ▸ hfinished.stands.role
  have hstays := (hvalid.input_over hrole hwell more).1 hthere
  refine ⟨hgoing, ⟨hgoing, hsession ▸ hdone, ?_⟩, fun hmisses => hmisses.2.2 hwell,
    fun hmisses => hmisses.1 hthere, hstays.trans (halone.trans hsession.symm)⟩
  rw [Endpoint.perform, hfailure, ne_eq, Option.or_eq_none_iff]
  rintro ⟨htaken, hread⟩
  rcases hwrong with hsome | hfault
  · exact Session.acceptAll_refuses hfinished.stands.role hdone hsome htaken
  · exact hfault hread

end Awaits

end Endpoint

open Endpoint

/-! ### Runs -/

/-- An endpoint, and all that it reported. -/
structure Chronicle where
  endpoint : Endpoint
  events : List Event := []

namespace Chronicle

def perform (c : Chronicle) (act : Act) : Chronicle :=
  ⟨c.endpoint.perform act, c.events ++ c.endpoint.reports act⟩

/-- What a new endpoint leads to. -/
def run (name : Bytes) (acts : List Act) : Chronicle := acts.foldl perform ⟨{ name }, []⟩

/-- The ends that it reported. -/
def verdicts (c : Chronicle) : List Verdict := Event.verdicts c.events

variable {c : Chronicle} {name : Bytes} {acts : List Act}

theorem run_concat (name : Bytes) (acts : List Act) (act : Act) :
    run name (acts ++ [act]) = (run name acts).perform act := by
  rw [run, List.foldl_append]
  rfl

theorem endpoint_run (name : Bytes) (acts : List Act) :
    (run name acts).endpoint = Endpoint.run name acts := by
  induction acts using List.reverseRecOn with
  | nil => rfl
  | append_singleton acts act ih =>
    rw [run_concat, perform, ih, Endpoint.run_concat]

/-- An act came to the end and failed. -/
def Missed (name : Bytes) (acts : List Act) : Prop :=
  ∃ front act back, acts = front ++ act :: back ∧ (Endpoint.run name front).Misses act

theorem missed_concat (name : Bytes) (acts : List Act) (act : Act) :
    Missed name (acts ++ [act]) ↔ Missed name acts ∨ (Endpoint.run name acts).Misses act := by
  constructor
  · rintro ⟨front, other, back, hsplit, hmisses⟩
    rcases split_concat hsplit with ⟨rfl, rfl, -⟩ | ⟨back', -, hacts⟩
    · exact .inr hmisses
    · exact .inl ⟨front, other, back', hacts, hmisses⟩
  · rintro (⟨front, other, back, rfl, hmisses⟩ | hmisses)
    · exact ⟨front, other, back ++ [act], by simp, hmisses⟩
    · exact ⟨acts, act, [], rfl, hmisses⟩

/-- What has been reported of the end: nothing before it; behind it the outcome, or nothing if it
was missed. -/
inductive Tells (c : Chronicle) (missed : Prop) : Prop
  | going (phase : c.endpoint.session.phase ≠ .done) (reported : c.endpoint.reported = false)
      (verdicts : c.verdicts = []) (seen : ¬ missed)
  | told (ended : c.endpoint.session.Over) (reported : c.endpoint.reported = true)
      (verdicts : c.verdicts.map Verdict.outcome = [c.endpoint.session.outcome]) (seen : ¬ missed)
  | untold (done : c.endpoint.session.phase = .done) (failure : c.endpoint.failure ≠ none)
      (verdicts : c.verdicts = []) (unseen : missed)

theorem verdicts_perform (c : Chronicle) (act : Act) :
    (c.perform act).verdicts = c.verdicts ++ Event.verdicts (c.endpoint.reports act) :=
  Event.verdicts_append _ _

theorem Tells.perform {missed : Prop} {act : Act} (h : c.Tells missed) (hvalid : c.endpoint.Valid)
    (hcarried : act.Carried) : (c.perform act).Tells (missed ∨ c.endpoint.Misses act) := by
  have hmoves := hvalid.moves hcarried
  have hverdicts := c.verdicts_perform act
  generalize Event.verdicts (c.endpoint.reports act) = more at hmoves hverdicts
  cases h with
  | going hphase hreported hnothing hseen =>
    rw [hnothing, List.nil_append] at hverdicts
    cases hmoves with
    | rests hdone _ hreported' _ =>
      have hstill := mt hdone.1 hphase
      exact .going hstill (hreported'.trans hreported) hverdicts
        (not_or_intro hseen fun hmisses => hstill hmisses.2.1)
    | failed hfailure hreported' _ =>
      by_cases hdone : (c.perform act).endpoint.session.phase = .done
      · exact .untold hdone hfailure hverdicts (.inr ⟨hphase, hdone, hfailure⟩)
      · exact .going hdone (hreported'.trans hreported) hverdicts
          (not_or_intro hseen fun hmisses => hdone hmisses.2.1)
    | went _ hfailure hreported' _ hover =>
      have hseen' : ¬ (missed ∨ c.endpoint.Misses act) :=
        not_or_intro hseen fun hmisses => hmisses.2.2 hfailure
      rw [hreported, Bool.false_or] at hreported'
      by_cases hdone : (c.perform act).endpoint.session.phase = .done
      · have hfirst : ¬ (c.endpoint.reported = true ∨
            (c.perform act).endpoint.session.phase ≠ .done) := by
          rw [hreported]
          exact not_or_intro Bool.false_ne_true (not_not_intro hdone)
        have hone : (c.perform act).verdicts = [(c.perform act).endpoint.verdict] :=
          hverdicts.trans (if_neg hfirst)
        refine .told (hover hphase hdone) (hreported'.trans (decide_eq_true hdone)) ?_ hseen'
        rw [hone]
        rfl
      · exact .going hdone (hreported'.trans (decide_eq_false hdone))
          (hverdicts.trans (if_pos (.inr hdone))) hseen'
  | told hover hreported htold hseen =>
    have hseen' : ¬ (missed ∨ c.endpoint.Misses act) :=
      not_or_intro hseen fun hmisses => hmisses.1 hover.done
    -- nothing more is reported, and the outcome stays
    have htold' : more = [] → (c.perform act).endpoint.session.outcome =
        c.endpoint.session.outcome → (c.perform act).verdicts.map Verdict.outcome =
          [(c.perform act).endpoint.session.outcome] := by
      intro hmore houtcome
      rw [hverdicts, hmore, List.append_nil, htold, houtcome]
    cases hmoves with
    | rests _ hover' hreported' _ =>
      obtain ⟨hstill, houtcome⟩ := hover' hover
      exact .told hstill (hreported'.trans hreported) (htold' rfl houtcome) hseen'
    | failed _ hreported' hstays =>
      have hsame : (c.perform act).endpoint.session = c.endpoint.session := hstays hover.done
      exact .told (hsame ▸ hover) (hreported'.trans hreported) (htold' rfl (by rw [hsame])) hseen'
    | went _ _ hreported' hstays _ =>
      have hsame : (c.perform act).endpoint.session = c.endpoint.session := hstays hover.done
      rw [hreported, Bool.true_or] at hreported'
      exact .told (hsame ▸ hover) hreported'
        (htold' (if_pos (.inl hreported)) (by rw [hsame])) hseen'
  | untold hdone hfails hnothing hunseen =>
    rw [hnothing, List.nil_append] at hverdicts
    cases hmoves with
    | rests hdone' _ _ hfailure =>
      exact .untold (hdone'.2 hdone) (hfailure ▸ hfails) hverdicts (.inl hunseen)
    | failed hfailure _ hstays =>
      refine .untold ?_ hfailure hverdicts (.inl hunseen)
      exact (congrArg Session.phase (hstays hdone)).trans hdone
    | went hgoing => exact absurd hgoing hfails

theorem run_tells (name : Bytes) {acts : List Act} (hcarried : ∀ act ∈ acts, act.Carried) :
    (run name acts).Tells (Missed name acts) := by
  induction acts using List.reverseRecOn with
  | nil =>
    refine .going nofun rfl rfl ?_
    rintro ⟨front, act, back, hsplit, -⟩
    cases front <;> cases hsplit
  | append_singleton acts act ih =>
    have hvalid := run_valid name acts
    rw [← endpoint_run] at hvalid
    rw [run_concat, missed_concat, ← endpoint_run]
    exact (ih fun act hmem => hcarried act (List.mem_append_left _ hmem)).perform hvalid
      (hcarried act (by simp))

/-- An act that misses the end is an input. -/
theorem Missed.exists_input (h : Missed name acts) (hcarried : ∀ act ∈ acts, act.Carried) :
    ∃ front data back, acts = front ++ .input data :: back ∧
      (Endpoint.run name front).Misses (.input data) := by
  obtain ⟨front, act, back, rfl, hmisses⟩ := h
  obtain ⟨data, rfl⟩ := (run_valid name front).exists_input (hcarried act (by simp)) hmisses
  exact ⟨front, data, back, rfl, hmisses⟩

/-- After any calls of the owner and any bytes of the peer, however they are cut: the end has been
reported once, with the outcome of the session, if it has come, else not at all. Only where the
call of `input` that came to the end failed behind it has the end never been reported. -/
theorem run_reports (name : Bytes) (acts : List Act) (hcarried : ∀ act ∈ acts, act.Carried) :
    let c := run name acts
    let missed := ∃ front data back, acts = front ++ .input data :: back ∧
      (Endpoint.run name front).Misses (.input data)
    c.endpoint = Endpoint.run name acts ∧
      (¬ missed → c.verdicts.map Verdict.outcome =
        if c.endpoint.session.phase = .done then [c.endpoint.session.outcome] else []) ∧
      (missed → c.endpoint.session.phase = .done ∧ c.endpoint.failure ≠ none ∧
        c.verdicts = []) := by
  intro c missed
  have hmissed : missed ↔ Missed name acts := by
    constructor
    · rintro ⟨front, data, back, hsplit, hmisses⟩
      exact ⟨front, _, back, hsplit, hmisses⟩
    · exact fun h => h.exists_input hcarried
  have htells : c.Tells missed := by
    rw [hmissed]
    exact run_tells name hcarried
  refine ⟨endpoint_run name acts, fun hseen => ?_, fun hunseen => ?_⟩
  · cases htells with
    | going hphase _ hnothing _ => rw [hnothing, if_neg hphase, List.map_nil]
    | told hover _ htold _ => rw [htold, if_pos hover.done]
    | untold _ _ _ hunseen => exact absurd hunseen hseen
  · cases htells with
    | going _ _ _ hseen => exact absurd hunseen hseen
    | told _ _ _ hseen => exact absurd hunseen hseen
    | untold hdone hfails hnothing _ => exact ⟨hdone, hfails, hnothing⟩

/-- Where the end has not come, it has not been missed. -/
theorem not_missed_of_going (hcarried : ∀ act ∈ acts, act.Carried)
    (hgoing : (Endpoint.run name acts).session.phase ≠ .done) : ¬ Missed name acts := by
  rw [← endpoint_run] at hgoing
  cases run_tells name hcarried with
  | going _ _ _ hseen => exact hseen
  | told hover _ _ _ => exact absurd hover.done hgoing
  | untold hdone _ _ _ => exact absurd hdone hgoing

/-- A client that has the outcome come with something behind it that is wrong: in one call of
`input` there is no report, in two there is one. The session is the same. -/
theorem reports_cut {code : Outcome} {data : Option Bytes} {more : Bytes}
    (hcarried : ∀ act ∈ acts, act.Carried) (hawaits : (Endpoint.run name acts).Awaits)
    (hfits : Codec.Fits (Endpoint.run name acts).codec.limit ⟨.outcome code data, false⟩)
    (hwrong : (Endpoint.run name acts).Spoils more) :
    let bytes := (Frame.mk (.outcome code data) false).serialize
    let whole := run name (acts ++ [.input (bytes ++ more)])
    let cut := run name (acts ++ [.input bytes] ++ [.input more])
    whole.endpoint.session.phase = .done ∧ whole.verdicts = [] ∧
      cut.endpoint.session = whole.endpoint.session ∧
      cut.verdicts.map Verdict.outcome = [cut.endpoint.session.outcome] := by
  intro bytes whole cut
  obtain ⟨hgoing, hmisses, hkeeps, hkeeps', hsame⟩ := hawaits.cut_decides hfits hwrong
  have hinputs {acts : List Act} (hacts : ∀ act ∈ acts, act.Carried) (data : Bytes) :
      ∀ act ∈ acts ++ [.input data], act.Carried := by
    simpa [or_imp, forall_and, Act.Carried] using hacts
  have hwhole := run_tells name (hinputs hcarried (bytes ++ more))
  have hcut := run_tells name (hinputs (hinputs hcarried bytes) more)
  have hmissed : Missed name (acts ++ [.input (bytes ++ more)]) :=
    (missed_concat _ _ _).2 (.inr hmisses)
  have hunmissed : ¬ Missed name (acts ++ [.input bytes] ++ [.input more]) := by
    rw [missed_concat, missed_concat, Endpoint.run_concat]
    exact not_or_intro (not_or_intro (not_missed_of_going hcarried hgoing) hkeeps) hkeeps'
  have hsession : cut.endpoint.session = whole.endpoint.session := by
    simp only [cut, whole, endpoint_run, Endpoint.run_concat]
    exact hsame
  cases hwhole with
  | going _ _ _ hseen | told _ _ _ hseen => exact absurd hmissed hseen
  | untold hdone _ hnothing _ =>
    refine ⟨hdone, hnothing, hsession, ?_⟩
    cases hcut with
    | going hphase _ _ _ => exact absurd (hsession ▸ hdone) hphase
    | told _ _ htold _ => exact htold
    | untold _ _ _ hunseen => exact absurd hunseen hunmissed

/-- A client up to its init. -/
def asking : List Act :=
  [.session (.call (.assignRole (some .client))), .session (.call (.setMechanisms [text "P"])),
    .input (protocolHeader ++ (Frame.mk (.mechanisms [text "P"]) false).serialize), .output]

def outcomeBytes : Bytes := (Frame.mk (.outcome .ok none) false).serialize

/-- The outcome of its server, and in the same call a size that no frame has. -/
theorem run_reports_misses :
    (run (text "c") (asking ++ [.input (outcomeBytes ++ be32 0)])).verdicts = [] := by
  have hcarried : ∀ act ∈ asking ++ [.input (outcomeBytes ++ be32 0)], act.Carried := by
    simp [asking, Act.Carried]
  have hmisses : (Endpoint.run (text "c") asking).Misses (.input (outcomeBytes ++ be32 0)) :=
    ⟨by decide +kernel, by decide +kernel, by decide +kernel⟩
  exact ((run_reports (text "c") _ hcarried).2.2 ⟨asking, _, [], rfl, hmisses⟩).2.2

theorem asking_awaits : (Endpoint.run (text "c") asking).Awaits where
  valid := run_valid _ _
  session := by
    have hstands : (Endpoint.run (text "c") asking).session.Stands .client Place.chosen.control :=
      ⟨by decide +kernel, by decide +kernel, by decide +kernel, by decide +kernel⟩
    have hoffer : (Endpoint.run (text "c") asking).session.remoteMechanisms ≠ [] := by
      decide +kernel
    exact ⟨.chosen, ⟨hstands, fun _ => iff_of_false hoffer nofun⟩, rfl⟩
  going := by decide +kernel
  header := by decide +kernel
  idle := ⟨by decide +kernel, by decide +kernel⟩

/-- The same bytes in one call and in two: the session is at its end either way, with no report and
with one. -/
theorem reports_cut_ne_reports_whole :
    let whole := run (text "c") (asking ++ [.input (outcomeBytes ++ be32 0)])
    let cut := run (text "c") (asking ++ [.input outcomeBytes, .input (be32 0)])
    whole.endpoint.session.phase = .done ∧ whole.verdicts.length = 0 ∧
      cut.endpoint.session = whole.endpoint.session ∧ cut.verdicts.length = 1 := by
  have hcarried : ∀ act ∈ asking, act.Carried := by simp [asking, Act.Carried]
  have hfits : Codec.Fits (Endpoint.run (text "c") asking).codec.limit ⟨.outcome .ok none, false⟩ :=
    ⟨⟨nofun, nofun, by decide⟩, by decide +kernel⟩
  have hwrong : (Endpoint.run (text "c") asking).Spoils (be32 0) := .inr (by decide +kernel)
  obtain ⟨hdone, hnothing, hsame, hone⟩ := reports_cut hcarried asking_awaits hfits hwrong
  have hlength := congrArg List.length hone
  rw [List.length_map] at hlength
  exact ⟨hdone, congrArg List.length hnothing, hsame, hlength⟩

end Chronicle

end FramedSasl
