import FramedSasl.Proofs.WideLimits

/-! The counters of two sides that have not failed. A receiver has counted the frames of the sender
but for those that are still coming; the limits stay from the first frame on, and the end has been
reported if it has come. Every act of either owner keeps this, whatever the limits, until a side
fails. -/

namespace FramedSasl

open Call

/-! ### What came in -/

theorem Codec.pollAll_started {c : Codec} (h : c.pollAll.fault = none) :
    c.pollAll.codec.started = (c.started || decide (0 < c.pollAll.arrivals.length)) := by
  induction c using frame_induction with
  | cut_error c cause hcut =>
    rw [pollAll_of_cut_error hcut] at h
    cases h
  | cut_none c hcut =>
    rw [pollAll_of_cut_none hcut]
    exact (Bool.or_false _).symm
  | parse_error c bytes rest cause hcut hparse =>
    rw [pollAll_of_parse_error hcut hparse] at h
    cases h
  | join_error c bytes rest frame cause hcut hparse hjoin =>
    rw [pollAll_of_join_error hcut hparse hjoin] at h
    cases h
  | more c bytes rest frame body hcut hparse hjoin hmore ih =>
    rw [pollAll_of_more hcut hparse hjoin hmore] at h ⊢
    simpa [Harvest.after] using ih h
  | last c bytes rest frame body hcut hparse hjoin hmore ih =>
    rw [pollAll_of_last hcut hparse hjoin hmore] at h ⊢
    simpa [Harvest.after] using ih h

namespace Session

/-- Behind the end nothing is taken in. -/
theorem acceptAll_done {s : Session} (hdone : s.phase = .done) (ps : List Performative) :
    (s.acceptAll ps).1 = s := by
  cases ps with
  | nil => rfl
  | cons p ps =>
    obtain ⟨fault, hfault⟩ := accept_done hdone p
    simp only [acceptAll, hfault]

end Session

namespace Endpoint

variable {e : Endpoint} {side : Role} {n : Nat}

theorem absorb_of_ok (h : (absorb e).result = .ok n) :
    e.codec.pollAll.fault = none ∧ (absorb e).endpoint = { e with
      session := (absorb e).endpoint.session
      codec := e.codec.pollAll.codec
      framesReceived := e.framesReceived + e.codec.pollAll.arrivals.length } := by
  induction e using absorb_induction generalizing n with
  | breaks e fault hresult =>
    rw [absorb_of_error hresult] at h
    cases h
  | waits e hresult =>
    rw [absorb_of_none hresult, Codec.pollAll_of_none hresult]
    exact ⟨rfl, rfl⟩
  | refuses e p fault s hresult haccept =>
    rw [absorb_of_refused hresult haccept] at h
    cases h
  | takes e p s hresult haccept ih =>
    rw [absorb_of_some hresult haccept] at h ⊢
    obtain ⟨m, hm, -⟩ := Except.ok_of_map h
    obtain ⟨hfault, hendpoint⟩ := ih hm
    rw [Codec.pollAll_of_some hresult]
    refine ⟨hfault, hendpoint.trans ?_⟩
    simp only [Harvest.after, List.length_append, Nat.add_assoc]

/-- What an endpoint that has not failed takes in: all that the polls give. -/
theorem input_of_going (hrole : e.session.role = some side) {data : Bytes}
    (h : (e.input data).endpoint.failure = none) :
    ∃ matched rest s, matchHeader e.headerMatched data = (matched, .ok rest) ∧
      (e.codec.feed rest).pollAll.fault = none ∧
        (e.session.phase = .done → s.phase = .done) ∧
          (e.input data).endpoint = { e with
            session := s
            codec := (e.codec.feed rest).pollAll.codec
            headerMatched := matched
            framesReceived := e.framesReceived + (e.codec.feed rest).pollAll.arrivals.length
            reported := e.reported || decide (s.phase = .done) } := by
  have hfailure : e.failure = none := by
    rcases hfailure : e.failure with _ | fault
    · rfl
    · rw [input_of_failure hfailure] at h
      exact hfailure.symm.trans h
  have hinput := input_eq_intake hfailure hrole data
  have hfails := intake_failure (e := e) data
  rcases hresult : (e.intake data).result with fault | n
  · rw [hresult] at hinput hfails
    rw [hinput] at h
    cases hfails.symm.trans h
  · rw [hresult] at hinput
    rcases hmatch : matchHeader e.headerMatched data with ⟨matched, fault | rest⟩
    · simp only [intake, hmatch] at hresult
      cases hresult
    · have hintake : e.intake data =
          absorb { e with headerMatched := matched, codec := e.codec.feed rest } := by
        simp only [intake, hmatch]
      rw [hintake] at hresult hinput
      obtain ⟨hfault, hendpoint⟩ := absorb_of_ok hresult
      have hsession := (absorb_session (e := { e with
        headerMatched := matched, codec := e.codec.feed rest }) hfailure).1
      generalize absorb { e with headerMatched := matched, codec := e.codec.feed rest } = absorbed
        at hinput hendpoint hsession
      refine ⟨matched, rest, absorbed.endpoint.session, rfl, hfault, fun hdone => ?_, ?_⟩
      · rw [hsession]
        exact (congrArg Session.phase (Session.acceptAll_done hdone _)).trans hdone
      · rw [hinput, conclude_reported, hendpoint]

/-- The limits stay from the first frame on, and the end has been reported if it has come. -/
structure Counted (e : Endpoint) : Prop where
  started : e.codec.started = decide (0 < e.framesSent + e.framesReceived)
  reported : e.reported = decide (e.session.phase = .done)

namespace Counted

theorem with_session {s : Session} (h : e.Counted) (hphase : s.phase = e.session.phase) :
    Counted { e with session := s } where
  started := h.started
  reported := by rw [hphase]; exact h.reported

theorem output_rests (h : e.Counted) (hfailure : e.failure = none)
    (hrole : e.session.role = some side)
    (hrests : on e.session Session.nextOutbound = (.ok none, e.session)) :
    e.output.endpoint.Counted := by
  rw [(Endpoint.output_rests hfailure hrole hrests).2]
  exact ⟨h.started, by simp only [h.reported, Bool.or_self]⟩

theorem output_emits {p : Performative} {s : Session} {frames : List Frame} (h : e.Counted)
    (hfailure : e.failure = none) (hrole : e.session.role = some side)
    (hemits : Session.Emits side e.session p s)
    (hframes : p.fragments e.codec.peerLimit = .ok frames) : e.output.endpoint.Counted := by
  have hgoing : e.session.phase ≠ .done := by
    intro hdone
    cases (Session.rests_done hrole hdone).symm.trans hemits.due
  have hsome : 0 < frames.length := by
    rw [List.length_pos_iff]
    rintro rfl
    exact (p.fragments_completes hframes).bytes_ne_nil rfl
  rw [(Endpoint.output_emits hfailure hrole hemits.due hemits.last hframes).2]
  refine ⟨(decide_eq_true ?_).symm, ?_⟩
  · dsimp only
    omega
  · simp only [h.reported, decide_eq_false hgoing, Bool.false_or]

theorem input (h : e.Counted) (hrole : e.session.role = some side) {data : Bytes}
    (hgoing : (e.input data).endpoint.failure = none) : (e.input data).endpoint.Counted := by
  obtain ⟨matched, rest, s, -, hfault, hdone, hendpoint⟩ := input_of_going hrole hgoing
  rw [hendpoint]
  refine ⟨?_, ?_⟩
  · have hstarted : (e.codec.feed rest).started = _ := h.started
    dsimp only
    rw [Codec.pollAll_started hfault, hstarted, ← Bool.decide_or, decide_eq_decide]
    omega
  · rw [h.reported]
    by_cases hphase : e.session.phase = .done
    · simp only [decide_eq_true (hdone hphase), Bool.or_true]
    · simp only [decide_eq_false hphase, Bool.false_or]

end Counted

end Endpoint

/-! ### What is coming -/

/-- The frames on their way to this side. -/
def Party.coming (p : Party) : List Arrival :=
  (p.endpoint.codec.feed (p.wire.drop
    (protocolHeader.length - p.endpoint.headerMatched))).reading.arrivals

/-- The receiver has counted the frames of the sender but for those that are coming. -/
def Tally (sender receiver : Party) : Prop :=
  sender.endpoint.framesSent = receiver.endpoint.framesReceived + receiver.coming.length

theorem drop_headerRest {opened : Bool} {rest : Bytes} (h : opened = false → rest = [])
    (matched : Nat) :
    (headerRest opened matched ++ rest).drop (protocolHeader.length - matched) = rest := by
  cases opened with
  | false => rw [h rfl, headerRest, if_neg Bool.false_ne_true, List.nil_append, List.drop_nil]
  | true => rw [headerRest, if_pos rfl, ← List.length_drop, List.drop_left]

theorem Codec.reading_feed {c : Codec} {first : Bytes} (h : (c.feed first).pollAll.fault = none)
    (next : Bytes) :
    (c.feed (first ++ next)).reading.arrivals = (c.feed first).pollAll.arrivals ++
      ((c.feed first).pollAll.codec.feed next).reading.arrivals := by
  rw [← (Codec.pollAll_reads _).arrivals, ← (Codec.pollAll_reads _).arrivals, ← feed_feed,
    pollAll_feed h]
  rfl

/-- All frames that a sender made of `p` are read. -/
theorem Codec.reading_fragments {c : Codec} {p : Performative} {limit : Nat} {frames : List Frame}
    (hidle : c.buffer = [] ∧ c.unfinished = none) (h : p.fragments limit = .ok frames)
    (hdecided : p.Decided) (hword : limit < wordCount) (hlimit : limit ≤ c.limit) :
    (c.feed (frames.flatMap Frame.serialize)).reading.arrivals.length = frames.length := by
  let fed := c.feed (frames.flatMap Frame.serialize)
  have hcompletes : Completes fed.unfinished frames p := by
    have hnone : fed.unfinished = none := hidle.2
    rw [hnone]
    exact p.fragments_completes h
  have hbytes : fed.buffer = frames.flatMap Frame.serialize ++ [] := by
    rw [List.append_nil]
    exact (congrArg (· ++ _) hidle.1).trans (List.nil_append _)
  rw [← (Codec.pollAll_reads _).arrivals,
    pollAll_of_completes hcompletes (fits_fragments h hdecided hword hlimit) hbytes,
    pollAll_of_cut_none rfl]
  simp only [Harvest.after, List.append_nil, List.length_map]

section

variable {sender receiver : Party} {opened : Bool} {due : Option Performative} {body : Bytes}

theorem Carries.nothing (h : Carries receiver opened due body) (hclosed : opened = false) :
    body = [] := by
  obtain ⟨-, rfl⟩ := h.closed hclosed
  exact h.underway.1

theorem Carries.coming (h : Carries receiver opened due body) :
    receiver.coming = (receiver.endpoint.codec.feed body).reading.arrivals := by
  rw [Party.coming, h.wire, drop_headerRest h.nothing]

theorem Carries.coming_none (h : Carries receiver opened none body) : receiver.coming = [] := by
  obtain ⟨hbody, hbuffer, -⟩ := h.underway
  rw [h.coming, hbody, Codec.feed_nil, ← (Codec.pollAll_reads _).arrivals,
    Codec.pollAll_empty hbuffer]

/-- What comes in is counted. -/
theorem Tally.deliver {side : Role} {n : Nat} (h : Tally sender receiver)
    (hcarry : Carries receiver opened due body)
    (hrole : receiver.endpoint.session.role = some side)
    (hgoing : (receiver.deliver n).endpoint.failure = none) :
    Tally sender (receiver.deliver n) := by
  obtain ⟨matched, k, hheader, hrest, -⟩ := hcarry.header n
  obtain ⟨matched', rest, s, hmatch, hfault, -, hendpoint⟩ :=
    Endpoint.input_of_going hrole hgoing
  cases hheader.symm.trans hmatch
  have hnothing : opened = false → body.drop k = [] := by
    intro hclosed
    rw [hcarry.nothing hclosed, List.drop_nil]
  rw [Tally, hcarry.coming, ← List.take_append_drop k body, Codec.reading_feed hfault,
    List.length_append] at h
  rw [Tally, Party.coming, Party.deliver, hendpoint, hrest, drop_headerRest hnothing, h,
    Nat.add_assoc]

end

/-- What goes out of a receiver has no influence on what comes in. -/
theorem Flow.with_peerLimit {sender receiver : Party} {due : Option Performative}
    (h : Flow sender receiver due) (peerLimit : Nat) :
    Flow sender (receiver.limited peerLimit) due := by
  refine ⟨h.least, h.word, h.fits, fun hgoing => ?_, h.ledger⟩
  obtain ⟨opened, body, hopened, hcarry⟩ := h.carries hgoing
  refine ⟨opened, body, hopened, hcarry.wire, hcarry.matched, hcarry.closed, ?_⟩
  cases due <;> exact hcarry.underway

/-! ### Acts -/

/-- Two sides that have not failed, seen from `side`. -/
structure Steady (side : Role) (mine theirs : Party) (stage : Stage) : Prop where
  sound : Sound side mine theirs stage
  going : mine.endpoint.failure = none
  theirsGoing : theirs.endpoint.failure = none
  outward : Tally mine theirs
  inward : Tally theirs mine
  counted : mine.endpoint.Counted
  theirsCounted : theirs.endpoint.Counted

namespace Steady

variable {side : Role} {mine theirs : Party} {stage : Stage}

theorem flip (h : Steady side mine theirs stage) : Steady side.other theirs mine stage where
  sound := h.sound.flip
  going := h.theirsGoing
  theirsGoing := h.going
  outward := h.inward
  inward := h.outward
  counted := h.theirsCounted
  theirsCounted := h.counted

theorem obey (h : Steady side mine theirs stage) (call : OwnerCall) :
    Steady side (mine.obey call) theirs stage := by
  have hsound := h.sound.obey call
  obtain ⟨result, s, more, hobeys, -, -, hobey⟩ := Party.obey_cases h.sound.facing.role call
  rw [hobey] at hsound ⊢
  refine ⟨hsound, h.going, h.theirsGoing, h.outward, h.inward, ?_, h.theirsCounted⟩
  apply h.counted.with_session
  cases hobeys with
  | declared outcome data => cases data <;> rfl
  | _ => rfl

theorem receive (h : Steady side mine theirs stage) (n : Nat) :
    Steady side (mine.receive n) theirs stage :=
  ⟨h.sound.receive n, h.going, h.theirsGoing, h.outward, h.inward,
    ⟨h.counted.started, h.counted.reported⟩, h.theirsCounted⟩

/-- Another limit on what goes out. -/
theorem limited (h : Steady side mine theirs stage) {peerLimit : Nat}
    (hleast : minimumLimit ≤ peerLimit) (hword : peerLimit < wordCount)
    (hfits : peerLimit ≤ theirs.endpoint.codec.limit) :
    Steady side (mine.limited peerLimit) theirs stage where
  sound :=
    { facing := h.sound.facing
      outward := ⟨hleast, hword, hfits, h.sound.outward.carries, h.sound.outward.ledger⟩
      inward := h.sound.inward.with_peerLimit peerLimit
      mine := .of_none h.going (h.sound.mine.failed.1 h.going)
      theirs := h.sound.theirs }
  going := h.going
  theirsGoing := h.theirsGoing
  outward := h.outward
  inward := h.inward
  counted := ⟨h.counted.started, h.counted.reported⟩
  theirsCounted := h.theirsCounted

/-- Bytes that come in bring nothing yet, or what is on its way. -/
theorem deliver (h : Steady side mine theirs stage) (n : Nat) :
    (mine.deliver n).endpoint.framesSent = mine.endpoint.framesSent ∧
      ((mine.deliver n).endpoint.session = mine.endpoint.session ∧
          Steady side (mine.deliver n) theirs stage ∨
        ∃ p, stage.flightTo side = some p ∧
          Session.Accepts mine.endpoint.session p (mine.deliver n).endpoint.session ∧
            Steady side (mine.deliver n) theirs stage.arrived) := by
  have hrole := h.sound.facing.role
  obtain ⟨opened, body, -, hcarry⟩ := h.sound.inward.carries h.going
  have hsteady : ∀ next, next.loser ≠ some side → Sound side (mine.deliver n) theirs next →
      (mine.deliver n).endpoint.framesSent = mine.endpoint.framesSent ∧
        Steady side (mine.deliver n) theirs next := by
    intro next hloser hsound
    have hgoing : (mine.deliver n).endpoint.failure = none := hsound.mine.failed.2 hloser
    obtain ⟨matched, rest, s, -, -, -, hendpoint⟩ := Endpoint.input_of_going hrole hgoing
    have hsent : (mine.deliver n).endpoint.framesSent = mine.endpoint.framesSent := by
      rw [Party.deliver, hendpoint]
    refine ⟨hsent, hsound, hgoing, h.theirsGoing, ?_, h.inward.deliver hcarry hrole hgoing,
      h.counted.input hrole hgoing, h.theirsCounted⟩
    rw [Tally, hsent]
    exact h.outward
  obtain ⟨-, ⟨hsession, hsound⟩ | ⟨p, hdue, haccepts, hsound⟩⟩ := h.sound.deliver_cases h.going n
  · obtain ⟨hsent, hlater⟩ := hsteady stage (h.sound.mine.failed.1 h.going) hsound
    exact ⟨hsent, .inl ⟨hsession, hlater⟩⟩
  · have hloser := (Stage.arrived_of_flight (Stage.flight_of_flightTo hdue).1).2
    obtain ⟨hsent, hlater⟩ := hsteady stage.arrived (by simp [hloser]) hsound
    exact ⟨hsent, .inr ⟨p, hdue, haccepts, hlater⟩⟩

/-- With nothing due no frame goes out. -/
theorem output_rests (h : Steady side mine theirs stage)
    (hrests : on mine.endpoint.session Session.nextOutbound =
      (.ok none, mine.endpoint.session)) :
    mine.output.endpoint.session = mine.endpoint.session ∧
      mine.output.endpoint.framesSent = mine.endpoint.framesSent ∧
        Steady side mine.output (theirs.carry mine.sent) stage := by
  have hrole := h.sound.facing.role
  obtain ⟨hresult, hendpoint⟩ := Endpoint.output_rests h.going hrole hrests
  obtain ⟨opened, body, hopened, hcarry⟩ := h.sound.outward.carries h.theirsGoing
  have hsound := (h.sound.output_rests h.going hrests).2
  have hcounted := h.counted.output_rests h.going hrole hrests
  have hsent : mine.sent = if opened then [] else protocolHeader := by
    rw [Party.sent, hresult, hopened h.going]
    rfl
  have houtward := h.outward
  rw [Tally, hcarry.coming] at houtward
  rw [hsent] at hsound ⊢
  simp only [Party.output, hendpoint] at hsound hcounted ⊢
  exact ⟨trivial, trivial, hsound, h.going, h.theirsGoing,
    by rw [Tally, hcarry.opens.coming]; exact houtward, h.inward, hcounted, h.theirsCounted⟩

theorem output_emits {p : Performative} {s : Session} {next : Stage} {frames : List Frame}
    (h : Steady side mine theirs stage)
    (hadvance : Advance side mine.endpoint.session theirs.endpoint.session stage p s next)
    (hframes : p.fragments mine.endpoint.codec.peerLimit = .ok frames) :
    mine.output.endpoint.session = s ∧
      mine.output.endpoint.framesSent = mine.endpoint.framesSent + frames.length ∧
        Steady side mine.output (theirs.carry mine.sent) next := by
  have hrole := h.sound.facing.role
  have hemits := hadvance.emits
  obtain ⟨hresult, hendpoint⟩ :=
    Endpoint.output_emits h.going hrole hemits.due hemits.last hframes
  have houtflow := h.sound.outward
  rw [Stage.flightTo_none hadvance.idle] at houtflow
  obtain ⟨opened, body, hopened, hcarry⟩ := houtflow.carries h.theirsGoing
  have hsound := (h.sound.output_emits h.going hadvance hframes).2
  have hcounted := h.counted.output_emits h.going hrole hemits hframes
  have hsent : theirs.carry mine.sent =
      (theirs.carry (if opened then [] else protocolHeader)).carry
        (frames.flatMap Frame.serialize) := by
    simp only [Party.sent, hresult, Party.carry, List.append_assoc, hopened h.going]
    rfl
  have hword := h.sound.outward.word
  have hfits := h.sound.outward.fits
  have houtward : mine.endpoint.framesSent = _ := h.outward
  rw [hcarry.coming_none, List.length_nil, Nat.add_zero] at houtward
  rw [hsent] at hsound ⊢
  simp only [Party.output, hendpoint] at hsound hcounted ⊢
  refine ⟨trivial, trivial, hsound, h.going, h.theirsGoing, ?_, h.inward, hcounted,
    h.theirsCounted⟩
  have hcarried := hcarry.opens.puts hframes hemits.decided hword hfits
  have hread := Codec.reading_fragments hcarry.underway.2 hframes hemits.decided hword hfits
  rw [Tally, hcarried.coming]
  exact congrArg₂ (· + ·) houtward hread.symm

/-- Nothing is due, or one performative goes out. -/
theorem output (h : Steady side mine theirs stage)
    (hgoing : mine.output.endpoint.failure = none) :
    (mine.output.endpoint.session = mine.endpoint.session ∧
        mine.output.endpoint.framesSent = mine.endpoint.framesSent ∧
          Steady side mine.output (theirs.carry mine.sent) stage) ∨
      ∃ p s next frames,
        Advance side mine.endpoint.session theirs.endpoint.session stage p s next ∧
          p.fragments mine.endpoint.codec.peerLimit = .ok frames ∧
            mine.output.endpoint.session = s ∧
              mine.output.endpoint.framesSent = mine.endpoint.framesSent + frames.length ∧
                Steady side mine.output (theirs.carry mine.sent) next := by
  rcases h.sound.facing.output with hrests | ⟨p, s, next, hadvance⟩
  · exact .inl (h.output_rests hrests)
  · rcases hframes : p.fragments mine.endpoint.codec.peerLimit with fault | frames
    · have hfailed := (Endpoint.output_refused h.going h.sound.facing.role hadvance.emits.due
        hframes).2
      rw [Party.output, hfailed] at hgoing
      cases hgoing
    · exact .inr ⟨p, s, next, frames, hadvance, hframes, h.output_emits hadvance hframes⟩

/-- Every act of an owner that is no failure, whatever the limits. -/
theorem perform (h : Steady side mine.wide theirs.wide stage) (act : Party.Act)
    (hgoing : (mine.perform act).endpoint.failure = none) :
    ∃ next, Steady side (mine.perform act).wide (theirs.carry (mine.puts act)).wide next := by
  have hnothing : theirs.carry [] = theirs := theirs.carry_nil
  cases act with
  | call call =>
    simp only [Party.puts, hnothing, Party.perform, Party.obey_wide]
    exact ⟨stage, h.obey call⟩
  | limit call =>
    obtain ⟨peerLimit, hadjust, hlimit⟩ := mine.adjust_wide call
    simp only [Party.puts, hnothing, Party.perform, hadjust]
    have houtward := h.sound.outward
    have hbounds : minimumLimit ≤ peerLimit ∧ peerLimit < wordCount := by
      rcases hlimit with rfl | hbounds
      · exact ⟨houtward.least, houtward.word⟩
      · exact hbounds
    exact ⟨stage, h.limited hbounds.1 hbounds.2 (Nat.le_pred_of_lt hbounds.2)⟩
  | receive n =>
    simp only [Party.puts, hnothing]
    exact ⟨stage, h.receive n⟩
  | output =>
    obtain ⟨houtput, hsent⟩ := mine.output_wide
    have hkept : mine.wide.output.endpoint.failure = none := by
      rw [← houtput]
      exact hgoing
    have hcarry : (theirs.carry (mine.puts .output)).wide = theirs.wide.carry mine.wide.sent := by
      rw [hsent]
      rfl
    rw [hcarry, Party.perform, houtput]
    rcases h.output hkept with ⟨-, -, hlater⟩ | ⟨p, s, next, frames, -, -, -, -, hlater⟩
    · exact ⟨stage, hlater⟩
    · exact ⟨next, hlater⟩
  | deliver n =>
    have hrole : mine.endpoint.session.role = some side := h.sound.facing.role
    simp only [Party.puts, hnothing, Party.perform, Party.deliver_wide hrole hgoing]
    rcases (h.deliver n).2 with ⟨-, hlater⟩ | ⟨p, -, -, hlater⟩
    · exact ⟨stage, hlater⟩
    · exact ⟨stage.arrived, hlater⟩

end Steady

namespace Link

/-- No side has failed. -/
def Going (l : Link) : Prop :=
  l.client.endpoint.failure = none ∧ l.server.endpoint.failure = none

/-- The owners act in this order. -/
def after (l : Link) (acts : List (Role × Party.Act)) : Link :=
  acts.foldl (fun l act => l.perform act.1 act.2) l

theorem going_of_perform {l : Link} {side : Role} {act : Party.Act}
    (h : (l.perform side act).Going) : l.Going := by
  cases side with
  | client => exact ⟨Party.failure_of_perform h.1, h.2⟩
  | server => exact ⟨h.1, Party.failure_of_perform h.2⟩

theorem going_of_after {l : Link} {acts : List (Role × Party.Act)} (h : (l.after acts).Going) :
    l.Going := by
  induction acts generalizing l with
  | nil => exact h
  | cons act acts ih => exact going_of_perform (ih h)

/-- A link without the limits on what comes in, with its frames counted. -/
def Steady (l : Link) (stage : Stage) : Prop :=
  FramedSasl.Steady .client l.client.wide l.server.wide stage

/-- A direction with the least limit for the sender and the largest for the receiver. -/
def wideRoom : Room where
  sender := minimumLimit
  receiver := wordCount - 1
  least := Nat.le_refl _
  word := Nat.le_of_ble_eq_true rfl
  fits := Nat.le_of_ble_eq_true rfl

theorem steady_fresh (clientName serverName : Bytes) :
    (fresh clientName serverName default default).Steady .opening := by
  have hsound : Sound .client (fresh clientName serverName default default).client.wide
      (fresh clientName serverName default default).server.wide .opening :=
    sound_fresh clientName serverName wideRoom wideRoom
  obtain ⟨_, _, -, hserver⟩ := hsound.outward.carries rfl
  obtain ⟨_, _, -, hclient⟩ := hsound.inward.carries rfl
  refine ⟨hsound, rfl, rfl, ?_, ?_, ⟨rfl, rfl⟩, ⟨rfl, rfl⟩⟩
  · rw [Tally, hserver.coming_none]
    rfl
  · rw [Tally, hclient.coming_none]
    rfl

section

variable {l : Link} {stage : Stage} {side : Role} {act : Party.Act}

theorem party_perform (l : Link) (side : Role) (act : Party.Act) :
    (l.perform side act).party side = (l.party side).perform act := by
  cases side <;> rfl

theorem Going.party (h : l.Going) (side : Role) : (l.party side).endpoint.failure = none := by
  cases side with
  | client => exact h.1
  | server => exact h.2

theorem Steady.on (h : l.Steady stage) (side : Role) :
    FramedSasl.Steady side (l.party side).wide (l.party side.other).wide stage := by
  cases side with
  | client => exact h
  | server => exact h.flip

theorem steady_perform (h : FramedSasl.Steady side ((l.party side).perform act).wide
    ((l.party side.other).carry ((l.party side).puts act)).wide stage) :
    (l.perform side act).Steady stage := by
  cases side with
  | client => exact h
  | server => exact h.flip

theorem Steady.perform (h : l.Steady stage) (hgoing : (l.perform side act).Going) :
    ∃ next, (l.perform side act).Steady next := by
  have hmine := hgoing.party side
  rw [party_perform] at hmine
  obtain ⟨next, hnext⟩ := FramedSasl.Steady.perform (h.on side) act hmine
  exact ⟨next, steady_perform hnext⟩

end

theorem Steady.after {l : Link} {stage : Stage} (h : l.Steady stage)
    (acts : List (Role × Party.Act)) (hgoing : (l.after acts).Going) :
    ∃ next, (l.after acts).Steady next := by
  induction acts generalizing l stage with
  | nil => exact ⟨stage, h⟩
  | cons act acts ih =>
    obtain ⟨next, hnext⟩ := h.perform (going_of_after hgoing)
    exact ih hnext hgoing

end Link

end FramedSasl
