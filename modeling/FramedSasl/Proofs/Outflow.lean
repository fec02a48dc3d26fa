import FramedSasl.Proofs.ChunkedInput
import FramedSasl.Proofs.FrameLimits
import FramedSasl.Proofs.Payloads

/-! What an endpoint sends. One call of `output` takes at most one performative from its session and
leaves nothing due, so that a failure never comes behind frames that were counted. Over a whole run
what the calls answered is the header once, and then the frames of the performatives in order; these
are the frames that were counted. -/

namespace FramedSasl

open Call

/-- The frames that carry `p`; none if it does not fit the limit. -/
def Performative.framesWithin (limit : Nat) (p : Performative) : List Frame :=
  (p.fragments limit).toOption.getD []

/-- The performatives that a drain takes from the session, with one that does not fit. -/
def Session.drawn (s : Session) (c : Codec) : List Performative :=
  match _h : on s nextOutbound with
  | (.ok (some p), s') =>
    match on c (Codec.encode p) with
    | (.ok _, c') => p :: s'.drawn c'
    | (.error _, _) => [p]
  | _ => []
termination_by s.backlog
decreasing_by exact nextOutbound_backlog _h

section

variable {s s' : Session} {p : Performative}

theorem Session.drawn_rests {result : Except Fault (Option Performative)}
    (hdue : on s nextOutbound = (result, s')) (hnone : ∀ p, result ≠ .ok (some p)) (c : Codec) :
    s.drawn c = [] := by
  rw [drawn]
  split
  · next p _ hdue' =>
    cases hdue.symm.trans hdue'
    exact absurd rfl (hnone p)
  · rfl

theorem Session.drawn_unassigned (hrole : s.role = none) (c : Codec) : s.drawn c = [] := by
  have hrefused : on s nextOutbound = (.error (.session .framesUnassigned), s) := by
    simp only [nextOutbound, on_get_bind, hrole]
    rfl
  exact drawn_rests hrefused (by rintro _ ⟨⟩) c

theorem Session.drawn_due (hdue : on s nextOutbound = (.ok (some p), s')) (c : Codec) :
    s.drawn c = p :: match p.fragments c.peerLimit with
      | .error _ => []
      | .ok _ => s'.drawn { c with started := true } := by
  rw [drawn]
  split
  · next hdue' =>
    cases hdue'.symm.trans hdue
    rw [Codec.on_encode]
    rcases p.fragments c.peerLimit with fault | frames <;> rfl
  · next hnone => exact absurd hdue (hnone p s')

theorem Session.drawn_emits (hdue : on s nextOutbound = (.ok (some p), s'))
    (hlast : on s' nextOutbound = (.ok none, s')) (c : Codec) : s.drawn c = [p] := by
  rw [drawn_due hdue]
  split
  · rfl
  · rw [drawn_rests hlast (by rintro _ ⟨⟩)]

/-- No other call takes a performative from the session. -/
theorem Session.sent_of_ne_next {act : Session.Act} (h : act ≠ .next) :
    (s.perform act).2.filterMap Deed.sent? = [] := by
  cases act with
  | next => exact absurd rfl h
  | receive n => rfl
  | call call =>
    rw [perform]
    split <;> rfl
  | accept p =>
    rw [perform]
    split <;> rfl

end

namespace Endpoint

variable {e e' e'' : Endpoint} {side : Role} {place : Place}

/-! ### The loop -/

/-- A drain of at most `turns` turns, each of which asks the session once; none if they are not
enough. -/
def drainWithin : Nat → Endpoint → Option (Turn Bytes)
  | 0, _ => none
  | turns + 1, e =>
    match on e.session Session.nextOutbound with
    | (.error fault, session) => some ({ e with session }.fail fault)
    | (.ok none, session) => some ⟨.ok [], { e with session }, []⟩
    | (.ok (some p), session) =>
      match on e.codec (Codec.encode p) with
      | (.error fault, codec) => some ({ e with session, codec }.fail fault)
      | (.ok frames, codec) =>
        let later := drainWithin turns
          { e with session, codec, framesSent := e.framesSent + frames.length }
        later.map fun later => { later with
          result := later.result.map (frames.flatMap Frame.serialize ++ ·)
          events := frames.map sent ++ later.events }

/-- Each turn but the last takes from the backlog, so a drain ends. -/
theorem drainWithin_eq (e : Endpoint) (turns : Nat) (h : e.session.backlog < turns) :
    drainWithin turns e = some (drain e) := by
  induction turns generalizing e with
  | zero => exact absurd h (Nat.not_lt_zero _)
  | succ turns ih =>
    rw [drainWithin]
    rcases hdue : on e.session Session.nextOutbound with ⟨fault | _ | p, s⟩
    · rw [drain_of_error hdue]
    · rw [drain_rests hdue]
    · have hless := Session.nextOutbound_backlog hdue
      dsimp only
      rw [Codec.on_encode]
      rcases hframes : p.fragments e.codec.peerLimit with fault | frames
      · rw [drain_refused hdue hframes]
      · rw [drain_emits hdue hframes]
        dsimp only
        rw [ih _ (by dsimp only; omega)]
        rfl

/-- Where at most one performative is due two turns are enough. -/
theorem drainWithin_two (h : e.Valid) : drainWithin 2 e = some (drain e) := by
  rcases h.session with hnew | ⟨side, place, hat⟩
  · have hrefused : on e.session Session.nextOutbound =
        (.error (.session .framesUnassigned), e.session) := by
      rw [hnew]
      rfl
    simp only [drainWithin, hrefused, drain_of_error hrefused]
  · rcases hat.emits with hrests | ⟨p, s, next, hemits, -⟩
    · simp only [drainWithin, hrests, drain_rests hrests]
    · rcases hframes : p.fragments e.codec.peerLimit with fault | frames
      · simp only [drainWithin, hemits.due, Codec.on_encode, hframes,
          drain_refused hemits.due hframes]
      · have hlast : drain { e with
            session := s, codec := { e.codec with started := true }
            framesSent := e.framesSent + frames.length } = _ := drain_rests hemits.last
        simp only [drainWithin, hemits.due, hemits.last, Codec.on_encode, hframes,
          drain_emits hemits.due hframes, hlast, Option.map_some]

/-! ### One act -/

/-- The performatives that one act takes from the session. -/
def emits (e : Endpoint) : Act → List Performative
  | .output => if e.failure = none then e.session.drawn e.codec else []
  | .session act => (e.session.perform act).2.filterMap Session.Deed.sent?
  | _ => []

/-- What one act sends, when it goes well. -/
def answers (e : Endpoint) : Act → List Bytes
  | .output => e.output.result.toOption.toList
  | _ => []

/-- All that one call of `output` can do, what it answers and which performatives it takes. -/
inductive Outputs (e e' : Endpoint) : List Bytes → List Performative → Prop
  | idle (same : e' = e) : Outputs e e' [] []
  | rests {reported : Bool} (going : e.failure = none)
      (after : e' = { e with headerSent := true, reported }) : Outputs e e' [e.opening] []
  | emits {p : Performative} {frames : List Frame} {session : Session} {reported : Bool}
      (going : e.failure = none) (fits : p.fragments e.codec.peerLimit = .ok frames)
      (after : e' = { e with
        session, codec := { e.codec with started := true }, headerSent := true
        framesSent := e.framesSent + frames.length, reported }) :
      Outputs e e' [e.opening ++ frames.flatMap Frame.serialize] [p]
  | refused {p : Performative} {fault : Fault} {session : Session} (going : e.failure = none)
      (large : p.fragments e.codec.peerLimit = .error fault)
      (after : e' = { e with
        session, codec := { e.codec with started := true }, headerSent := true
        failure := some fault }) : Outputs e e' [] [p]

theorem outputs_of_failure {fault : Fault} (h : e.failure = some fault) :
    Outputs e e.output.endpoint (e.answers .output) (e.emits .output) := by
  rw [answers, emits, output_of_failure h, if_neg (by simp [h])]
  exact .idle rfl

theorem output_of_unassigned (hfailure : e.failure = none) (hrole : e.session.role = none) :
    e.output = ⟨.error (.endpoint (.unassigned .output e.name)), e, []⟩ := by
  rw [output, guarded, hfailure, hrole]
  rfl

theorem outputs_of_unassigned (hfailure : e.failure = none) (hrole : e.session.role = none) :
    Outputs e e.output.endpoint (e.answers .output) (e.emits .output) := by
  rw [answers, emits, output_of_unassigned hfailure hrole, if_pos hfailure,
    Session.drawn_unassigned hrole]
  exact .idle rfl

theorem Valid.outputs (h : e.Valid) :
    Outputs e e.output.endpoint (e.answers .output) (e.emits .output) := by
  rcases hfailure : e.failure with _ | fault
  · rcases hrole : e.session.role with _ | side
    · exact outputs_of_unassigned hfailure hrole
    · obtain ⟨place, hat⟩ := h.at_of_role hrole
      rw [answers, emits, if_pos hfailure]
      rcases hat.emits with hrests | ⟨p, s, next, hemits, -⟩
      · obtain ⟨hresult, hendpoint⟩ := output_rests hfailure hrole hrests
        rw [hresult, Session.drawn_rests hrests (by rintro _ ⟨⟩)]
        exact .rests hfailure hendpoint
      · rw [Session.drawn_emits hemits.due hemits.last]
        rcases hframes : p.fragments e.codec.peerLimit with fault | frames
        · obtain ⟨hresult, hendpoint⟩ := output_refused hfailure hrole hemits.due hframes
          rw [hresult]
          exact .refused hfailure hframes hendpoint
        · obtain ⟨hresult, hendpoint⟩ :=
            output_emits hfailure hrole hemits.due hemits.last hframes
          rw [hresult]
          exact .emits hfailure hframes hendpoint
  · exact outputs_of_failure hfailure

/-! ### Twice -/

/-- An endpoint that has nothing to send, and nothing to report, stays as it is. -/
theorem output_idle (hfailure : e.failure = none) (hrole : e.session.role = some side)
    (hrests : on e.session Session.nextOutbound = (.ok none, e.session))
    (hheader : e.headerSent = true) (hreported : e.session.phase = .done → e.reported = true) :
    e.output = ⟨.ok [], e, []⟩ := by
  have hsame : { e with headerSent := true } = e := by rw [← hheader]
  have hsilent : e.reported = true ∨ e.session.phase ≠ .done := by
    by_cases hdone : e.session.phase = .done
    · exact .inl (hreported hdone)
    · exact .inr hdone
  have hdrain : drain e = ⟨.ok [], e, []⟩ := drain_rests hrests
  rw [output, guarded_eq hfailure hrole, hsame, hdrain]
  simp only [hheader, if_true, List.nil_append, conclude]
  exact if_pos hsilent

/-- Behind an output that went well there is nothing more to send. -/
theorem Valid.output_output {bytes : Bytes} (h : e.Valid) (hwell : e.output.result = .ok bytes) :
    e.output.endpoint.output = ⟨.ok [], e.output.endpoint, []⟩ := by
  rcases hfailure : e.failure with _ | fault
  · rcases hrole : e.session.role with _ | side
    · rw [output_of_unassigned hfailure hrole] at hwell
      cases hwell
    · obtain ⟨place, hat⟩ := h.at_of_role hrole
      rcases hat.emits with hrests | ⟨p, s, next, hemits, -, hnext⟩
      · rw [(output_rests hfailure hrole hrests).2]
        refine output_idle hfailure hrole hrests rfl fun hdone => ?_
        exact Bool.or_eq_true_iff.2 (.inr (decide_eq_true hdone))
      · rcases hframes : p.fragments e.codec.peerLimit with fault | frames
        · rw [(output_refused hfailure hrole hemits.due hframes).1] at hwell
          cases hwell
        · rw [(output_emits hfailure hrole hemits.due hemits.last hframes).2]
          refine output_idle hfailure hnext.stands.role hemits.last rfl fun hdone => ?_
          exact Bool.or_eq_true_iff.2 (.inr (decide_eq_true hdone))
  · rw [output_of_failure hfailure] at hwell
    cases hwell

/-! ### The other acts -/

/-- What every act but `output` leaves as it is. -/
structure Spares (e e' : Endpoint) : Prop where
  framesSent : e'.framesSent = e.framesSent
  headerSent : e'.headerSent = e.headerSent
  codec : e.codec.Holds e'.codec
  failure : e'.failure = none → e.failure = none

theorem Spares.refl (e : Endpoint) : e.Spares e := ⟨rfl, rfl, .refl _, id⟩

theorem Spares.trans (h : e.Spares e') (h' : e'.Spares e'') : e.Spares e'' where
  framesSent := h'.framesSent.trans h.framesSent
  headerSent := h'.headerSent.trans h.headerSent
  codec := h.codec.trans h'.codec
  failure := h.failure ∘ h'.failure

theorem absorb_spares (e : Endpoint) : e.Spares (absorb e).endpoint := by
  induction e using absorb_induction with
  | breaks e fault hresult =>
    rw [absorb_of_error hresult]
    exact ⟨rfl, rfl, e.codec.poll_holds, by rintro ⟨⟩⟩
  | waits e hresult =>
    rw [absorb_of_none hresult]
    exact ⟨rfl, rfl, e.codec.poll_holds, id⟩
  | refuses e p fault s hresult haccept =>
    rw [absorb_of_refused hresult haccept]
    exact ⟨rfl, rfl, e.codec.poll_holds, by rintro ⟨⟩⟩
  | takes e p s hresult haccept ih =>
    rw [absorb_of_some hresult haccept]
    have hstep : e.Spares { e with
        session := s, codec := e.codec.poll.codec
        framesReceived := e.framesReceived + e.codec.poll.arrivals.length } :=
      ⟨rfl, rfl, e.codec.poll_holds, id⟩
    exact hstep.trans ih

theorem intake_spares (e : Endpoint) (data : Bytes) : e.Spares (e.intake data).endpoint := by
  rw [intake]
  rcases matchHeader e.headerMatched data with ⟨matched, fault | rest⟩
  · exact ⟨rfl, rfl, .refl _, by rintro ⟨⟩⟩
  · have hfed : e.Spares { e with headerMatched := matched, codec := e.codec.feed rest } :=
      ⟨rfl, rfl, ⟨id, fun _ => rfl, fun _ => rfl⟩, id⟩
    exact hfed.trans (absorb_spares _)

theorem input_spares (e : Endpoint) (data : Bytes) : e.Spares (e.input data).endpoint := by
  rcases guarded_cases e .input _ with hsame | ⟨hfailure, side, hrole⟩
  · rw [input, hsame]
    exact .refl e
  · have hspares := intake_spares e data
    rw [input_eq_intake hfailure hrole]
    split
    · exact hspares
    · next count _ =>
      obtain ⟨reported, hconclude⟩ :=
        conclude_endpoint (e.intake data).endpoint count (e.intake data).events
      rw [hconclude]
      exact ⟨hspares.framesSent, hspares.headerSent, hspares.codec, hspares.failure⟩

theorem perform_spares {act : Act} (h : act ≠ .output) : e.Spares (e.perform act) := by
  cases act with
  | output => exact absurd rfl h
  | session act => exact ⟨rfl, rfl, .refl _, id⟩
  | input data => exact input_spares e data
  | setLimit size =>
    refine ⟨rfl, rfl, ?_, id⟩
    rcases e.codec.setLimit_cases size.toNat with ⟨fault, hrefused⟩ | ⟨hfresh, -, -⟩
    · rw [perform, on_inCodec, hrefused]
      exact .refl _
    · exact .of_fresh hfresh
  | setPeerLimit size =>
    refine ⟨rfl, rfl, ?_, id⟩
    rcases e.codec.setPeerLimit_cases size.toNat with ⟨fault, hrefused⟩ | ⟨hfresh, -, -⟩
    · rw [perform, on_inCodec, hrefused]
      exact .refl _
    · exact .of_fresh hfresh

end Endpoint

open Endpoint

/-! ### Runs -/

/-- An endpoint, what its calls of `output` answered when they went well, and the performatives
that were taken from its session. -/
structure Outflow where
  endpoint : Endpoint
  answers : List Bytes := []
  emitted : List Performative := []

namespace Outflow

def perform (o : Outflow) (act : Act) : Outflow where
  endpoint := o.endpoint.perform act
  answers := o.answers ++ o.endpoint.answers act
  emitted := o.emitted ++ o.endpoint.emits act

/-- What a new endpoint leads to. -/
def run (name : Bytes) (acts : List Act) : Outflow := acts.foldl perform ⟨{ name }, [], []⟩

/-- The frames of all that was taken. -/
def frames (o : Outflow) : List Frame :=
  o.emitted.flatMap (Performative.framesWithin o.endpoint.codec.peerLimit)

/-- The answers are the header and the frames, and these have been counted. The limit they were made
for stays; before the header nothing was taken that fits. -/
structure Written (o : Outflow) : Prop where
  bytes : o.answers.flatten =
    if o.answers = [] then [] else protocolHeader ++ o.frames.flatMap Frame.serialize
  unsent : o.answers = [] → o.frames = []
  counted : o.endpoint.framesSent = o.frames.length
  fresh : o.endpoint.codec.started = false → o.emitted = []
  opened : o.endpoint.failure = none → (o.endpoint.headerSent = true ↔ o.answers ≠ [])
  fits : o.endpoint.failure = none →
    ∀ p ∈ o.emitted, ∃ frames, p.fragments o.endpoint.codec.peerLimit = .ok frames

variable {o : Outflow}

theorem Written.new (name : Bytes) : Written ⟨{ name }, [], []⟩ where
  bytes := rfl
  unsent _ := rfl
  counted := rfl
  fresh _ := rfl
  opened _ := by simp
  fits _ _ hp := absurd hp List.not_mem_nil

theorem Written.spared {e : Endpoint} (h : o.Written) (hspares : o.endpoint.Spares e) :
    Written { o with endpoint := e } := by
  have hlimit : o.emitted = [] ∨ e.codec.peerLimit = o.endpoint.codec.peerLimit := by
    cases hstarted : o.endpoint.codec.started with
    | false => exact .inl (h.fresh hstarted)
    | true => exact .inr (hspares.codec.peerLimit hstarted)
  have hframes : frames { o with endpoint := e } = o.frames := by
    rcases hlimit with hnone | hsame
    · simp only [frames, hnone, List.flatMap_nil]
    · simp only [frames, hsame]
  refine ⟨?_, ?_, ?_, fun hfresh => ?_, fun hgoing => ?_, fun hgoing p hp => ?_⟩
  · rw [hframes]
    exact h.bytes
  · rw [hframes]
    exact h.unsent
  · rw [hframes]
    exact hspares.framesSent.trans h.counted
  · refine h.fresh (Bool.eq_false_iff.2 fun hstarted => ?_)
    cases hfresh.symm.trans (hspares.codec.started hstarted)
  · dsimp only
    rw [hspares.headerSent]
    exact h.opened (hspares.failure hgoing)
  · rcases hlimit with hnone | hsame
    · have hp : p ∈ o.emitted := hp
      rw [hnone] at hp
      cases hp
    · dsimp only
      rw [hsame]
      exact h.fits (hspares.failure hgoing) p hp

theorem Written.opening (h : o.Written) (hgoing : o.endpoint.failure = none) :
    o.answers.flatten ++ o.endpoint.opening =
      protocolHeader ++ o.frames.flatMap Frame.serialize := by
  have hopened := h.opened hgoing
  rw [h.bytes, Endpoint.opening]
  by_cases hnone : o.answers = []
  · rw [if_pos hnone, if_neg (by simpa [hnone] using hopened), h.unsent hnone]
    exact (List.append_nil _).symm
  · rw [if_neg hnone, if_pos (hopened.2 hnone), List.append_nil]

/-- A call of `output` sends the header before all else, and counts what it sends. -/
theorem Written.output (h : o.Written) (hvalid : o.endpoint.Valid) :
    (o.perform .output).Written := by
  have houtputs := hvalid.outputs
  rw [Outflow.perform, Endpoint.perform]
  generalize o.endpoint.output.endpoint = e at houtputs ⊢
  generalize o.endpoint.answers .output = answers at houtputs ⊢
  generalize o.endpoint.emits .output = emitted at houtputs ⊢
  cases houtputs with
  | idle hsame =>
    rw [hsame, List.append_nil, List.append_nil]
    exact h
  | rests hgoing hafter =>
    rw [hafter, List.append_nil]
    refine ⟨?_, by simp, h.counted, h.fresh, by simp, h.fits⟩
    rw [if_neg (by simp), List.flatten_append, List.flatten_singleton]
    exact h.opening hgoing
  | @emits p sent session reported hgoing hfits hafter =>
    rw [hafter]
    have hframes : frames ⟨{ o.endpoint with
        session, codec := { o.endpoint.codec with started := true }, headerSent := true
        framesSent := o.endpoint.framesSent + sent.length, reported },
        o.answers ++ [o.endpoint.opening ++ sent.flatMap Frame.serialize],
        o.emitted ++ [p]⟩ = o.frames ++ sent := by
      simp [frames, Performative.framesWithin, hfits, Except.toOption]
    refine ⟨?_, by simp, ?_, by rintro ⟨⟩, by simp, fun _ q hq => ?_⟩
    · have hopening := h.opening hgoing
      rw [hframes]
      simp [← hopening, ← List.append_assoc]
    · rw [hframes, List.length_append, ← h.counted]
    · rcases List.mem_append.1 hq with hq | hq
      · exact h.fits hgoing q hq
      · rw [List.mem_singleton.1 hq]
        exact ⟨sent, hfits⟩
  | @refused p fault session hgoing hlarge hafter =>
    rw [hafter, List.append_nil]
    have hframes : frames ⟨{ o.endpoint with
        session, codec := { o.endpoint.codec with started := true }, headerSent := true
        failure := some fault }, o.answers, o.emitted ++ [p]⟩ = o.frames := by
      simp [frames, Performative.framesWithin, hlarge, Except.toOption]
    refine ⟨?_, ?_, ?_, by rintro ⟨⟩, by rintro ⟨⟩, by rintro ⟨⟩⟩
    · rw [hframes]
      exact h.bytes
    · rw [hframes]
      exact h.unsent
    · rw [hframes]
      exact h.counted

theorem Written.perform (h : o.Written) (hvalid : o.endpoint.Valid) {act : Act}
    (hpulled : act ≠ .session .next) : (o.perform act).Written := by
  by_cases houtput : act = .output
  · rw [houtput]
    exact h.output hvalid
  · have hspared := h.spared (perform_spares (e := o.endpoint) houtput)
    have hnothing : o.endpoint.answers act = [] ∧ o.endpoint.emits act = [] := by
      cases act with
      | output => exact absurd rfl houtput
      | session act => exact ⟨rfl, Session.sent_of_ne_next fun hnext => hpulled (by rw [hnext])⟩
      | setLimit | setPeerLimit | input => exact ⟨rfl, rfl⟩
    rw [Outflow.perform, hnothing.1, hnothing.2, List.append_nil, List.append_nil]
    exact hspared

theorem run_concat (name : Bytes) (acts : List Act) (act : Act) :
    run name (acts ++ [act]) = (run name acts).perform act := by
  rw [run, List.foldl_append]
  rfl

theorem endpoint_run (name : Bytes) (acts : List Act) :
    (run name acts).endpoint = Endpoint.run name acts := by
  induction acts using List.reverseRecOn with
  | nil => rfl
  | append_singleton acts act ih =>
    rw [run_concat, perform, ih, Endpoint.run_concat]

theorem run_written (name : Bytes) {acts : List Act} (hpulled : .session .next ∉ acts) :
    (run name acts).Written := by
  induction acts using List.reverseRecOn with
  | nil => exact .new name
  | append_singleton acts act ih =>
    have hvalid : (run name acts).endpoint.Valid := by
      rw [endpoint_run]
      exact run_valid name acts
    rw [List.mem_append, List.mem_singleton, not_or] at hpulled
    rw [run_concat]
    exact (ih hpulled.1).perform hvalid (Ne.symm hpulled.2)

/-- After any calls of the owner and any bytes of the peer, where performatives are taken from the
session by `output` only. A call of `output` ends: its loop has at most two turns and takes at most
one performative. If it goes well, another one sends nothing, changes nothing and reports nothing.
What all the calls that went well answered is the header, once, and then the frames of the
performatives taken, in order, or nothing at all before there was such a call. The frames counted
are these, whether the last call went well or not. Only an endpoint that has failed can have taken
one that does not fit. -/
theorem run_drains (name : Bytes) (acts : List Act) (hpulled : .session .next ∉ acts) :
    let o := run name acts
    let e := o.endpoint
    e = Endpoint.run name acts ∧
      drainWithin 2 { e with headerSent := true } = some (drain { e with headerSent := true }) ∧
      (e.emits .output).length ≤ 1 ∧
      (∀ bytes, e.output.result = .ok bytes →
        e.output.endpoint.output = ⟨.ok [], e.output.endpoint, []⟩) ∧
      o.answers.flatten =
        (if o.answers = [] then [] else protocolHeader ++ o.frames.flatMap Frame.serialize) ∧
      (o.answers = [] → o.frames = []) ∧
      e.framesSent = o.frames.length ∧
      (e.failure = none →
        ∀ p ∈ o.emitted, ∃ frames, p.fragments e.codec.peerLimit = .ok frames) := by
  intro o e
  have hwritten : o.Written := run_written name hpulled
  have hvalid : e.Valid := by
    change o.endpoint.Valid
    rw [endpoint_run]
    exact run_valid name acts
  have hopened : Valid { e with headerSent := true } :=
    ⟨hvalid.session, hvalid.codec, hvalid.header, hvalid.early⟩
  refine ⟨endpoint_run name acts, drainWithin_two hopened, ?_,
    fun bytes hbytes => hvalid.output_output hbytes, hwritten.bytes, hwritten.unsent,
    hwritten.counted, hwritten.fits⟩
  have houtputs := hvalid.outputs
  generalize e.answers .output = answers at houtputs
  generalize e.emits .output = emitted at houtputs ⊢
  cases houtputs with
  | idle | rests => exact Nat.zero_le _
  | emits | refused => exact Nat.le_refl _

/-- A server up to its first challenge, with an output more than it needs. -/
def challenging : List Act :=
  [.session (.call (.assignRole (some .server))), .session (.call (.setMechanisms [text "P"])),
    .output, .input (protocolHeader ++ (Frame.mk (.init (text "P") none none) false).serialize),
    .session (.call (.send [7])), .output, .output]

/-- Its three answers are the header and two frames. -/
theorem run_drains_challenging :
    let o := run (text "s") challenging
    .session .next ∉ challenging ∧ o.answers.length = 3 ∧
      o.answers.flatten = protocolHeader ++
        ((Frame.mk (.mechanisms [text "P"]) false).serialize ++
          (Frame.mk (.challenge [7]) false).serialize) ∧
      o.endpoint.framesSent = 2 := by
  intro o
  have hpulled : .session .next ∉ challenging := by simp [challenging]
  obtain ⟨-, -, -, -, hbytes, -, hcounted, -⟩ := run_drains (text "s") challenging hpulled
  have hframes : o.frames = [⟨.mechanisms [text "P"], false⟩, ⟨.challenge [7], false⟩] := by
    decide +kernel
  have hanswers : o.answers.length = 3 := by decide +kernel
  have hsome : o.answers ≠ [] := by
    rintro hnone
    rw [hnone] at hanswers
    cases hanswers
  refine ⟨hpulled, hanswers, hbytes.trans ?_, hcounted.trans (by rw [hframes]; rfl)⟩
  rw [if_neg hsome, hframes]
  rfl

end Outflow

end FramedSasl
