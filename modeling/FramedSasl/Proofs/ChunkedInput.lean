import FramedSasl.Proofs.EndpointRuns
import Mathlib.Algebra.GroupWithZero.Nat

/-! Bytes of the peer in chunks. Where they are cut has no influence on the session, the header, the
frames counted and the failure: one or more calls of `input` lead where one call with all the bytes
leads, and that is what the whole stream says. -/

namespace FramedSasl

open Call

theorem Except.error_of_map {α β : Type} {f : α → β} {result : Except Fault α} {fault : Fault}
    (h : result.map f = .error fault) : result = .error fault := by
  cases result with
  | error cause => cases h; rfl
  | ok a => cases h

theorem Except.ok_of_map {α β : Type} {f : α → β} {result : Except Fault α} {b : β}
    (h : result.map f = .ok b) : ∃ a, result = .ok a ∧ f a = b := by
  cases result with
  | error cause => cases h
  | ok a => cases h; exact ⟨a, rfl, rfl⟩

theorem Except.map_add_zero (result : Except Fault Nat) : result.map (· + 0) = result := by
  cases result <;> rfl

theorem Except.map_add_map_add (result : Except Fault Nat) (m n : Nat) :
    (result.map (· + m)).map (· + n) = result.map (· + (m + n)) := by
  cases result with
  | error fault => rfl
  | ok count => exact congrArg Except.ok (Nat.add_assoc count m n)

/-! ### Polls -/

namespace Codec

theorem feed_nil (c : Codec) : c.feed [] = c := by rw [feed, List.append_nil]

/-- Behind a fragment that is not the last a poll goes on. -/
theorem poll_of_more {c : Codec} {bytes rest : Bytes} {frame : Frame} {body : Performative}
    (hcut : cutFrame c.limit c.buffer = .ok (some (bytes, rest)))
    (hparse : Frame.parse bytes = .ok frame)
    (hjoin : Performative.joinTo c.unfinished frame.body = .ok body) (hmore : frame.more = true) :
    c.poll =
      let later := poll { c with buffer := rest, started := true, unfinished := some body }
      { later with arrivals := ⟨frame, bytes.length⟩ :: later.arrivals } := by
  simp only [poll_eq_turn c, turn, hcut, hparse, hjoin, hmore, if_true]

/-- More bytes behind a whole performative or a fault change nothing. -/
theorem poll_feed (c : Codec) (more : Bytes) (h : c.poll.result ≠ .ok none) :
    (c.feed more).poll = { c.poll with codec := c.poll.codec.feed more } := by
  fun_induction poll c with
  | case1 c fault hcut =>
    have hcut' := cutFrame_append_error hcut more
    rw [poll_eq_turn]
    simp only [turn, feed, hcut']
  | case2 => exact absurd rfl h
  | case3 c bytes rest hcut fault hparse =>
    have hcut' := cutFrame_append_some hcut more
    rw [poll_eq_turn]
    simp only [turn, feed, hcut', hparse]
  | case4 c bytes rest hcut frame hparse _ _ fault hjoin =>
    have hcut' := cutFrame_append_some hcut more
    rw [poll_eq_turn]
    simp only [turn, feed, hcut', hparse, hjoin]
    rfl
  | case5 c bytes rest hcut frame hparse _ _ body hjoin hmore later ih =>
    have hcut' := cutFrame_append_some hcut more
    have hlater := ih h
    rw [feed] at hlater
    rw [poll_of_more (c := c.feed more) hcut' hparse hjoin hmore]
    simp only [feed] at hlater ⊢
    rw [hlater]
  | case6 c bytes rest hcut frame hparse _ _ body hjoin hmore =>
    have hcut' := cutFrame_append_some hcut more
    rw [poll_eq_turn]
    simp only [turn, feed, hcut', hparse, hjoin, hmore]
    rfl

/-- Where a poll found nothing, the next goes on. -/
theorem poll_feed_of_none (c : Codec) (more : Bytes) (h : c.poll.result = .ok none) :
    (c.feed more).poll = { (c.poll.codec.feed more).poll with
      arrivals := c.poll.arrivals ++ (c.poll.codec.feed more).poll.arrivals } := by
  fun_induction poll c with
  | case1 | case3 | case4 | case6 => cases h
  | case2 c hcut => rfl
  | case5 c bytes rest hcut frame hparse _ _ body hjoin hmore later ih =>
    have hcut' := cutFrame_append_some hcut more
    have hlater := ih h
    rw [poll_of_more (c := c.feed more) hcut' hparse hjoin hmore]
    simp only [feed] at hlater ⊢
    rw [hlater]
    rfl

end Codec

/-! ### Performatives of the peer -/

/-- Takes in performatives in order up to the first that is refused. -/
def Session.acceptAll (s : Session) : List Performative → Session × Option Fault
  | [] => (s, none)
  | p :: ps =>
    match on s (accept p) with
    | (.error fault, _) => (s, some fault)
    | (.ok (), s') => s'.acceptAll ps

namespace Endpoint

variable {e : Endpoint} {fault : Fault} {n : Nat}

/-- More bytes for the codec. -/
def feed (e : Endpoint) (more : Bytes) : Endpoint := { e with codec := e.codec.feed more }

theorem absorb_of_error (hresult : e.codec.poll.result = .error fault) :
    absorb e = ⟨.error fault,
      { e with
        codec := e.codec.poll.codec
        framesReceived := e.framesReceived + e.codec.poll.arrivals.length
        failure := some fault },
      e.codec.poll.arrivals.map received ++ [.failed fault]⟩ := by
  rw [absorb]
  split
  · next h =>
    cases h.symm.trans hresult
    rfl
  · next h => cases h.symm.trans hresult
  · next h => cases h.symm.trans hresult

theorem absorb_of_refused {p : Performative} {s : Session}
    (hresult : e.codec.poll.result = .ok (some p))
    (haccept : on e.session (Session.accept p) = (.error fault, s)) :
    absorb e = ⟨.error fault,
      { e with
        session := s, codec := e.codec.poll.codec
        framesReceived := e.framesReceived + e.codec.poll.arrivals.length
        failure := some fault },
      e.codec.poll.arrivals.map received ++ [.failed fault]⟩ := by
  rw [absorb]
  split
  · next h => cases h.symm.trans hresult
  · next h => cases h.symm.trans hresult
  · next h =>
    cases h.symm.trans hresult
    simp only [haccept]
    rfl

/-- Induction over the performatives that come in: they end at a fault of the stream or with the
bytes, at one that is refused, or go on behind one that is taken in. -/
theorem absorb_induction {motive : Endpoint → Prop}
    (breaks : ∀ (e : Endpoint) fault, e.codec.poll.result = .error fault → motive e)
    (waits : ∀ e : Endpoint, e.codec.poll.result = .ok none → motive e)
    (refuses : ∀ (e : Endpoint) p fault s, e.codec.poll.result = .ok (some p) →
      on e.session (Session.accept p) = (.error fault, s) → motive e)
    (takes : ∀ (e : Endpoint) p s, e.codec.poll.result = .ok (some p) →
      on e.session (Session.accept p) = (.ok (), s) →
        motive { e with
          session := s, codec := e.codec.poll.codec
          framesReceived := e.framesReceived + e.codec.poll.arrivals.length } → motive e)
    (e : Endpoint) : motive e := by
  induction e using absorb.induct with
  | case1 e polled fault hresult => exact breaks e fault hresult
  | case2 e polled hresult => exact waits e hresult
  | case3 e polled p hresult fault s haccept => exact refuses e p fault s hresult haccept
  | case4 e polled e' p hresult s haccept ih => exact takes e p s hresult haccept ih

/-- Bytes behind a failure stay where they are. -/
theorem absorb_feed_of_error (more : Bytes) (h : (absorb e).result = .error fault) :
    absorb (e.feed more) = { absorb e with endpoint := (absorb e).endpoint.feed more } := by
  induction e using absorb_induction with
  | breaks e cause hresult =>
    have hpoll := e.codec.poll_feed more (by simp [hresult])
    have hresult' : (e.feed more).codec.poll.result = .error cause := by simp [feed, hpoll, hresult]
    rw [absorb_of_error hresult, absorb_of_error hresult']
    simp only [feed, hpoll]
  | waits e hresult =>
    rw [absorb_of_none hresult] at h
    cases h
  | refuses e p cause s hresult haccept =>
    have hpoll := e.codec.poll_feed more (by simp [hresult])
    have hresult' : (e.feed more).codec.poll.result = .ok (some p) := by simp [feed, hpoll, hresult]
    rw [absorb_of_refused hresult haccept, absorb_of_refused hresult' haccept]
    simp only [feed, hpoll]
  | takes e p s hresult haccept ih =>
    have hpoll := e.codec.poll_feed more (by simp [hresult])
    have hresult' : (e.feed more).codec.poll.result = .ok (some p) := by simp [feed, hpoll, hresult]
    rw [absorb_of_some hresult haccept] at h ⊢
    rw [absorb_of_some hresult' haccept]
    have hlater := ih (Except.error_of_map h)
    simp only [feed, hpoll] at hlater ⊢
    rw [hlater]

/-- Frames of a performative that is not complete come in front of what comes with more bytes. -/
theorem absorb_feed_of_none (more : Bytes) (h : e.codec.poll.result = .ok none) :
    absorb (e.feed more) =
      let later := absorb { e with
        codec := e.codec.poll.codec.feed more
        framesReceived := e.framesReceived + e.codec.poll.arrivals.length }
      { later with events := e.codec.poll.arrivals.map received ++ later.events } := by
  have hpoll := e.codec.poll_feed_of_none more h
  generalize e.codec.poll.codec.feed more = c at hpoll ⊢
  rcases hresult : c.poll.result with fault | _ | p
  · have hresult' : (e.feed more).codec.poll.result = .error fault := by simp [feed, hpoll, hresult]
    rw [absorb_of_error hresult', absorb_of_error hresult]
    simp only [feed, hpoll, List.length_append, List.map_append, Nat.add_assoc, List.append_assoc]
  · have hresult' : (e.feed more).codec.poll.result = .ok none := by simp [feed, hpoll, hresult]
    rw [absorb_of_none hresult', absorb_of_none hresult]
    simp only [feed, hpoll, List.length_append, List.map_append, Nat.add_assoc]
  · have hresult' : (e.feed more).codec.poll.result = .ok (some p) := by
      simp [feed, hpoll, hresult]
    rcases haccept : on e.session (Session.accept p) with ⟨fault | _, s⟩
    · have hlater := absorb_of_refused (e := { e with
        codec := c, framesReceived := e.framesReceived + e.codec.poll.arrivals.length })
        hresult haccept
      rw [absorb_of_refused hresult' haccept, hlater]
      simp only [feed, hpoll, List.length_append, List.map_append, Nat.add_assoc, List.append_assoc]
    · have hlater := absorb_of_some (e := { e with
        codec := c, framesReceived := e.framesReceived + e.codec.poll.arrivals.length })
        hresult haccept
      rw [absorb_of_some hresult' haccept, hlater]
      simp only [feed, hpoll, List.length_append, List.map_append, Nat.add_assoc, List.append_assoc]

/-- What came in goes on with the bytes behind it. -/
theorem absorb_feed_of_ok (more : Bytes) (h : (absorb e).result = .ok n) :
    absorb (e.feed more) =
      let later := absorb ((absorb e).endpoint.feed more)
      { later with
        result := later.result.map (· + n)
        events := (absorb e).events ++ later.events } := by
  induction e using absorb_induction generalizing n with
  | breaks e cause hresult =>
    rw [absorb_of_error hresult] at h
    cases h
  | waits e hresult =>
    rw [absorb_feed_of_none more hresult]
    rw [absorb_of_none hresult] at h ⊢
    cases h
    simp only [feed, Except.map_add_zero]
  | refuses e p cause s hresult haccept =>
    rw [absorb_of_refused hresult haccept] at h
    cases h
  | takes e p s hresult haccept ih =>
    have hpoll := e.codec.poll_feed more (by simp [hresult])
    have hresult' : (e.feed more).codec.poll.result = .ok (some p) := by simp [feed, hpoll, hresult]
    rw [absorb_of_some hresult haccept] at h ⊢
    obtain ⟨m, hresult, rfl⟩ := Except.ok_of_map h
    have hlater := ih hresult
    rw [absorb_of_some hresult' haccept]
    simp only [feed, hpoll] at hlater ⊢
    rw [hlater]
    simp only [Except.map_add_map_add, List.append_assoc]

/-- Whether the end has been reported makes no difference. -/
theorem absorb_reported (e : Endpoint) (reported : Bool) :
    absorb { e with reported } =
      { absorb e with endpoint := { (absorb e).endpoint with reported } } := by
  induction e using absorb_induction with
  | breaks e fault hresult =>
    rw [absorb_of_error hresult, absorb_of_error (e := { e with reported }) hresult]
  | waits e hresult =>
    rw [absorb_of_none hresult, absorb_of_none (e := { e with reported }) hresult]
  | refuses e p fault s hresult haccept =>
    rw [absorb_of_refused hresult haccept,
      absorb_of_refused (e := { e with reported }) hresult haccept]
  | takes e p s hresult haccept ih =>
    rw [absorb_of_some hresult haccept,
      absorb_of_some (e := { e with reported }) hresult haccept, ih]

theorem absorb_headerMatched (e : Endpoint) :
    (absorb e).endpoint.headerMatched = e.headerMatched := by
  induction e using absorb_induction with
  | breaks e fault hresult => rw [absorb_of_error hresult]
  | waits e hresult => rw [absorb_of_none hresult]
  | refuses e p fault s hresult haccept => rw [absorb_of_refused hresult haccept]
  | takes e p s hresult haccept ih =>
    rw [absorb_of_some hresult haccept]
    exact ih

theorem absorb_failure (e : Endpoint) :
    (absorb e).endpoint.failure = match (absorb e).result with
      | .error fault => some fault
      | .ok _ => e.failure := by
  induction e using absorb_induction with
  | breaks e fault hresult => rw [absorb_of_error hresult]
  | waits e hresult => rw [absorb_of_none hresult]
  | refuses e p fault s hresult haccept => rw [absorb_of_refused hresult haccept]
  | takes e p s hresult haccept ih =>
    rw [absorb_of_some hresult haccept]
    dsimp only at ih ⊢
    rw [ih]
    split <;> simp_all [Except.map]

/-- The session takes in what the polls give, up to the first performative that it refuses. -/
theorem absorb_session (hfailure : e.failure = none) :
    (absorb e).endpoint.session = (e.session.acceptAll e.codec.pollAll.performatives).1 ∧
      (absorb e).endpoint.failure =
        (e.session.acceptAll e.codec.pollAll.performatives).2.or e.codec.pollAll.fault := by
  induction e using absorb_induction with
  | breaks e fault hresult =>
    rw [absorb_of_error hresult, Codec.pollAll_of_error hresult]
    exact ⟨rfl, rfl⟩
  | waits e hresult =>
    rw [absorb_of_none hresult, Codec.pollAll_of_none hresult]
    exact ⟨rfl, hfailure⟩
  | refuses e p fault s hresult haccept =>
    rw [absorb_of_refused hresult haccept, Codec.pollAll_of_some hresult]
    simp only [Harvest.after, List.singleton_append, Session.acceptAll, haccept]
    exact ⟨Session.atomic_accept _ _ _ _ haccept, rfl⟩
  | takes e p s hresult haccept ih =>
    rw [absorb_of_some hresult haccept, Codec.pollAll_of_some hresult]
    simp only [Harvest.after, List.singleton_append, Session.acceptAll, haccept]
    exact ih hfailure

/-! ### The header -/

theorem matchHeader_behind {matched : Nat} (h : protocolHeader[matched]? = none) (data : Bytes) :
    matchHeader matched data = (matched, .ok data) := by
  cases data with
  | nil => rfl
  | cons b rest => rw [matchHeader, h]

theorem matchHeader_append (matched : Nat) (first next : Bytes) :
    matchHeader matched (first ++ next) =
      match matchHeader matched first with
      | (matched', .error fault) => (matched', .error fault)
      | (matched', .ok rest) =>
        ((matchHeader matched' next).1, (matchHeader matched' next).2.map (rest ++ ·)) := by
  fun_induction matchHeader matched first with
  | case1 matched =>
    simp only [List.nil_append]
    rcases matchHeader matched next with ⟨matched', fault | rest⟩ <;> rfl
  | case2 matched b rest hbehind =>
    simp only [matchHeader_behind hbehind]
    rfl
  | case3 matched rest expected hexpected ih =>
    rw [List.cons_append, matchHeader, hexpected]
    simpa only [if_true] using ih
  | case4 matched b rest expected hexpected hne =>
    rw [List.cons_append, matchHeader, hexpected]
    simp only [if_neg hne]

/-! ### A turn but for its report -/

/-- What `input` does when the endpoint has a role and has not failed, but for the report. -/
def intake (e : Endpoint) (data : Bytes) : Turn Nat :=
  match matchHeader e.headerMatched data with
  | (matched, .error fault) => { e with headerMatched := matched }.fail fault
  | (matched, .ok rest) => absorb { e with headerMatched := matched, codec := e.codec.feed rest }

theorem input_eq_intake {side : Role} (hfailure : e.failure = none)
    (hrole : e.session.role = some side) (data : Bytes) :
    e.input data = match (e.intake data).result with
      | .error _ => e.intake data
      | .ok count => (e.intake data).endpoint.conclude count (e.intake data).events := by
  rw [input, guarded_eq hfailure hrole, intake]
  rcases matchHeader e.headerMatched data with ⟨matched, fault | rest⟩
  · rfl
  · rfl

theorem intake_failure (data : Bytes) :
    (e.intake data).endpoint.failure = match (e.intake data).result with
      | .error fault => some fault
      | .ok _ => e.failure := by
  rw [intake]
  rcases matchHeader e.headerMatched data with ⟨matched, fault | rest⟩
  · rfl
  · exact absorb_failure _

theorem intake_reported (e : Endpoint) (reported : Bool) (data : Bytes) :
    intake { e with reported } data =
      { e.intake data with endpoint := { (e.intake data).endpoint with reported } } := by
  simp only [intake]
  rcases matchHeader e.headerMatched data with ⟨matched, fault | rest⟩
  · rfl
  · exact absorb_reported { e with headerMatched := matched, codec := e.codec.feed rest } reported

theorem absorb_empty (h : e.codec.buffer = []) : absorb e = ⟨.ok 0, e, []⟩ := by
  have hpoll : e.codec.poll = ⟨.ok none, [], e.codec⟩ := by
    rw [Codec.poll_eq_turn, Codec.turn, h]
    rfl
  rw [absorb_of_none (by rw [hpoll]), hpoll]
  rfl

/-- Either nothing is left over and nothing is in the buffer, or all of the header is in. -/
theorem Valid.matchHeader_ok {data rest : Bytes} {matched : Nat} (h : e.Valid)
    (hmatch : matchHeader e.headerMatched data = (matched, .ok rest)) :
    rest = [] ∧ e.codec.buffer = [] ∨ protocolHeader[matched]? = none := by
  obtain ⟨hmono, -, -, hleft⟩ := matchHeader_cases e.headerMatched data
  rw [hmatch] at hmono hleft
  by_cases hlt : matched < protocolHeader.length
  · exact .inl ⟨hleft rest rfl hlt, h.early (Nat.lt_of_le_of_lt hmono hlt)⟩
  · exact .inr (List.getElem?_eq_none (Nat.le_of_not_lt hlt))

/-- Bytes behind a failure are not looked at. -/
theorem Valid.intake_append_of_error {first : Bytes} (he : e.Valid) (next : Bytes)
    (h : (e.intake first).result = .error fault) :
    (e.intake (first ++ next)).result = .error fault ∧
      ∃ codec, (e.intake (first ++ next)).endpoint =
        { (e.intake first).endpoint with codec } := by
  simp only [intake, matchHeader_append] at h ⊢
  rcases hmatch : matchHeader e.headerMatched first with ⟨matched, cause | rest⟩
  · rw [hmatch] at h
    exact ⟨h, e.codec, rfl⟩
  · rw [hmatch] at h
    dsimp only at h ⊢
    rcases he.matchHeader_ok hmatch with ⟨rfl, hbuffer⟩ | hbehind
    · rw [absorb_empty (by simp [Codec.feed, hbuffer])] at h
      cases h
    · have hfeed := absorb_feed_of_error next h
      simp only [feed, Codec.feed_feed] at hfeed
      simp only [matchHeader_behind hbehind, Except.map, hfeed]
      exact ⟨h, _, rfl⟩

/-- Bytes behind those that went well are taken in behind them. -/
theorem Valid.intake_append_of_ok {first : Bytes} (he : e.Valid) (next : Bytes)
    (h : (e.intake first).result = .ok n) :
    e.intake (first ++ next) =
      let later := (e.intake first).endpoint.intake next
      { later with
        result := later.result.map (· + n)
        events := (e.intake first).events ++ later.events } := by
  simp only [intake, matchHeader_append] at h ⊢
  rcases hmatch : matchHeader e.headerMatched first with ⟨matched, cause | rest⟩
  · rw [hmatch] at h
    cases h
  · rw [hmatch] at h
    dsimp only at h ⊢
    rcases he.matchHeader_ok hmatch with ⟨rfl, hbuffer⟩ | hbehind
    · have hnothing : absorb { e with headerMatched := matched, codec := e.codec.feed [] } =
          ⟨.ok 0, { e with headerMatched := matched, codec := e.codec.feed [] }, []⟩ :=
        absorb_empty (by simp [Codec.feed, hbuffer])
      rw [hnothing] at h ⊢
      cases h
      simp only [Codec.feed_nil, Except.map_add_zero, List.nil_append]
      rcases matchHeader matched next with ⟨matched', fault | rest'⟩ <;> rfl
    · have hkept := absorb_headerMatched { e with
        headerMatched := matched, codec := e.codec.feed rest }
      have hfeed := absorb_feed_of_ok next h
      simp only [feed, Codec.feed_feed] at hfeed
      simp only [matchHeader_behind hbehind, Except.map]
      rw [hfeed]
      generalize absorb { e with headerMatched := matched, codec := e.codec.feed rest } = absorbed
        at hkept ⊢
      dsimp only at hkept
      rw [hkept, matchHeader_behind hbehind, ← hkept]
      rfl

/-! ### Chunks -/

/-- What `input` answers to each of some chunks, and where they lead. -/
def inputs (e : Endpoint) : List Bytes → List (Except Fault Nat) × Endpoint
  | [] => ([], e)
  | chunk :: chunks =>
    let turn := e.input chunk
    let later := turn.endpoint.inputs chunks
    (turn.result :: later.1, later.2)

theorem inputs_of_failure (h : e.failure = some fault) (chunks : List Bytes) :
    e.inputs chunks = (chunks.map fun _ => .error fault, e) := by
  induction chunks with
  | nil => rfl
  | cons chunk chunks ih =>
    simp only [inputs, input_of_failure h, ih, List.map_cons]

/-- Chunks lead where all their bytes at once lead, and count the same. Behind a failure the codec
may have been fed less. -/
theorem Valid.inputs_eq_intake {side : Role} (he : e.Valid) (hrole : e.session.role = some side)
    (hfailure : e.failure = none) {chunks : List Bytes} (hne : chunks ≠ []) :
    ∃ codec reported,
      (e.inputs chunks).2 = { (e.intake chunks.flatten).endpoint with codec, reported } ∧
        ∀ n, (e.intake chunks.flatten).result = .ok n →
          codec = (e.intake chunks.flatten).endpoint.codec ∧
            ∃ counts : List Nat, (e.inputs chunks).1 = counts.map .ok ∧ counts.sum = n := by
  induction chunks generalizing e with
  | nil => exact absurd rfl hne
  | cons chunk chunks ih =>
    have hinput := input_eq_intake hfailure hrole chunk
    have hfails := intake_failure (e := e) chunk
    rw [List.flatten_cons]
    simp only [inputs]
    rcases hresult : (e.intake chunk).result with fault | n
    · rw [hresult] at hinput hfails
      obtain ⟨hwhole, codec, hendpoint⟩ := he.intake_append_of_error chunks.flatten hresult
      have hlater := inputs_of_failure hfails chunks
      simp only [hinput, hlater, hendpoint, hwhole]
      refine ⟨_, _, rfl, fun n hn => ?_⟩
      cases hn
    · rw [hresult] at hinput hfails
      dsimp only at hinput hfails
      obtain ⟨reported, hconclude⟩ :=
        conclude_endpoint (e.intake chunk).endpoint n (e.intake chunk).events
      have hanswer : (e.input chunk).result = .ok n := by rw [hinput, conclude_result]
      have hthere : (e.input chunk).endpoint = { (e.intake chunk).endpoint with reported } := by
        rw [hinput, hconclude]
      by_cases hlast : chunks = []
      · subst hlast
        simp only [List.flatten_nil, List.append_nil, inputs, hthere, hanswer, hresult]
        refine ⟨_, reported, rfl, fun m hm => ⟨rfl, [n], rfl, ?_⟩⟩
        cases hm
        rfl
      · obtain ⟨place, hat⟩ := he.at_of_role hrole
        obtain ⟨hvalid, ⟨next, hnext⟩, -⟩ := he.input_of_at hat hfailure chunk
        have hgoing : (e.input chunk).endpoint.failure = none := by
          rw [hthere]
          exact hfails.trans hfailure
        obtain ⟨codec, reported', hend, hcounts⟩ := ih hvalid hnext.stands.role hgoing hlast
        have hreported : (e.input chunk).endpoint.intake chunks.flatten = _ :=
          hthere ▸ intake_reported (e.intake chunk).endpoint reported chunks.flatten
        rw [hreported] at hend hcounts
        rw [he.intake_append_of_ok chunks.flatten hresult]
        refine ⟨codec, reported', hend, fun m hm => ?_⟩
        obtain ⟨k, hk, rfl⟩ := Except.ok_of_map hm
        obtain ⟨hcodec, counts, hanswers, hsum⟩ := hcounts k hk
        exact ⟨hcodec, n :: counts, by simp [hanswer, hanswers], by simp [hsum, Nat.add_comm]⟩

theorem inputs_append (e : Endpoint) (front back : List Bytes) :
    e.inputs (front ++ back) =
      let (answers, e') := e.inputs front
      (answers ++ (e'.inputs back).1, (e'.inputs back).2) := by
  induction front generalizing e with
  | nil => rfl
  | cons chunk front ih => simp only [List.cons_append, inputs, ih]

/-- A failure is there to stay. -/
theorem input_failure {side : Role} (hrole : e.session.role = some side) {data : Bytes}
    (h : (e.input data).result = .error fault) :
    (e.input data).endpoint.failure = some fault := by
  rcases hfailure : e.failure with _ | cause
  · have hinput := input_eq_intake hfailure hrole data
    have hfails := intake_failure (e := e) data
    rcases hresult : (e.intake data).result with cause | count
    · rw [hresult] at hinput hfails
      rw [hinput] at h ⊢
      cases hresult.symm.trans h
      exact hfails
    · rw [hresult] at hinput
      rw [hinput] at h
      cases (conclude_result _ _ _).symm.trans h
  · rw [input_of_failure hfailure] at h ⊢
    cases h
    exact hfailure

theorem Valid.inputs {side : Role} (he : e.Valid) (hrole : e.session.role = some side)
    (chunks : List Bytes) :
    (e.inputs chunks).2.Valid ∧ (e.inputs chunks).2.session.role = some side := by
  induction chunks generalizing e with
  | nil => exact ⟨he, hrole⟩
  | cons chunk chunks ih =>
    rcases hfailure : e.failure with _ | fault
    · obtain ⟨place, hat⟩ := he.at_of_role hrole
      obtain ⟨hvalid, ⟨next, hnext⟩, -⟩ := he.input_of_at hat hfailure chunk
      exact ih hvalid hnext.stands.role
    · rw [inputs_of_failure hfailure]
      exact ⟨he, hrole⟩

/-- The session and the failure behind a whole stream: what comes in front of the first fault is
taken in, up to a performative that is refused. -/
def reference (e : Endpoint) (stream : Bytes) : Session × Option Fault :=
  match matchHeader e.headerMatched stream with
  | (_, .error fault) => (e.session, some fault)
  | (_, .ok rest) =>
    let reading := (e.codec.feed rest).reading
    let (s, refused) := e.session.acceptAll reading.performatives
    (s, refused.or reading.fault)

theorem intake_reference (hfailure : e.failure = none) (stream : Bytes) :
    ((e.intake stream).endpoint.session, (e.intake stream).endpoint.failure) =
      e.reference stream := by
  simp only [intake, reference]
  rcases matchHeader e.headerMatched stream with ⟨matched, fault | rest⟩
  · rfl
  · have habsorb := absorb_session (e := { e with
      headerMatched := matched, codec := e.codec.feed rest }) hfailure
    have hreads := (e.codec.feed rest).pollAll_reads
    dsimp only at habsorb ⊢
    rw [hreads.performatives, hreads.fault] at habsorb
    exact Prod.ext habsorb.1 habsorb.2

/-- One or more chunks lead to the same session, header, count of frames and failure as any others
with the same bytes, and these are what the whole stream says. Behind the first failure nothing
changes; without one the answers count the same and the codecs are the same. -/
theorem inputs_eq_of_flatten (name : Bytes) (acts : List Act) (side : Role)
    (chunks chunks' : List Bytes) (hrole : (run name acts).session.role = some side)
    (hfailure : (run name acts).failure = none) (hne : chunks ≠ []) (hne' : chunks' ≠ [])
    (hsame : chunks.flatten = chunks'.flatten) :
    let e := run name acts
    let (answers, after) := e.inputs chunks
    let (answers', after') := e.inputs chunks'
    after.session = after'.session ∧ after.headerMatched = after'.headerMatched ∧
      after.framesReceived = after'.framesReceived ∧ after.failure = after'.failure ∧
      (after.session, after.failure) = e.reference chunks.flatten ∧
      (after.failure = none → after.codec = after'.codec ∧ ∃ counts counts' : List Nat,
        answers = counts.map .ok ∧ answers' = counts'.map .ok ∧ counts.sum = counts'.sum) ∧
      ∀ front chunk back fault, chunks = front ++ chunk :: back →
        ((e.inputs front).2.input chunk).result = .error fault →
          after = ((e.inputs front).2.input chunk).endpoint ∧ after.failure = some fault ∧
            answers = (e.inputs front).1 ++ (chunk :: back).map fun _ => .error fault := by
  intro e
  have he : e.Valid := run_valid name acts
  obtain ⟨codec, reported, hafter, hcounts⟩ := he.inputs_eq_intake hrole hfailure hne
  obtain ⟨codec', reported', hafter', hcounts'⟩ := he.inputs_eq_intake hrole hfailure hne'
  rw [← hsame] at hafter' hcounts'
  have hfails := intake_failure (e := e) chunks.flatten
  dsimp only
  refine ⟨by rw [hafter, hafter'], by rw [hafter, hafter'], by rw [hafter, hafter'],
    by rw [hafter, hafter'], ?_, ?_, ?_⟩
  · rw [hafter]
    exact intake_reference hfailure chunks.flatten
  · intro hnone
    rw [hafter] at hnone
    rcases hresult : (e.intake chunks.flatten).result with fault | n
    · rw [hresult] at hfails
      cases hfails.symm.trans hnone
    · obtain ⟨hcodec, counts, hanswers, hsum⟩ := hcounts n hresult
      obtain ⟨hcodec', counts', hanswers', hsum'⟩ := hcounts' n hresult
      refine ⟨?_, counts, counts', hanswers, hanswers', hsum.trans hsum'.symm⟩
      rw [hafter, hafter']
      exact hcodec.trans hcodec'.symm
  · intro front chunk back fault hchunks hfault
    have hsticks := input_failure (he.inputs hrole front).2 hfault
    have hsplit := e.inputs_append front (chunk :: back)
    rw [← hchunks] at hsplit
    simp only [inputs, inputs_of_failure hsticks] at hsplit
    rw [hsplit]
    exact ⟨rfl, hsticks, by rw [hfault]; rfl⟩

/-- The header, an offer, a size that no frame has and a byte behind it, cut inside of each. -/
def cutOffer : List Bytes :=
  [[65, 77, 81], [80, 3, 1, 0, 0, 0, 0], [], [0, 24, 2, 1, 0, 0, 0, 83, 64, 192, 11, 1, 224, 8],
    [1, 163, 5, 80, 76, 65, 73, 78, 0, 0], [0, 0], [7]]

/-- The offer is taken in however it comes, the size behind it is refused, and what comes after that
gets the same answer. -/
theorem inputs_eq_of_flatten_offer :
    let e := run (text "a") [.session (.call (.assignRole (some .client)))]
    let whole := (e.inputs [cutOffer.flatten]).2
    let cut := (e.inputs cutOffer).2
    let refused := Fault.frame (.sizeBelowHeader 0)
    cut.session = whole.session ∧ cut.headerMatched = whole.headerMatched ∧
      cut.framesReceived = whole.framesReceived ∧ cut.failure = whole.failure ∧
      cut.session.remoteMechanisms = [text "PLAIN"] ∧ cut.framesReceived = 1 ∧
      cut.failure = some refused ∧
      (e.inputs cutOffer).1.drop 5 = [.error refused, .error refused] := by
  intro e whole cut refused
  obtain ⟨hsession, hheader, hframes, hfailure, -, -, hbehind⟩ :=
    inputs_eq_of_flatten (text "a") [.session (.call (.assignRole (some .client)))] .client
      cutOffer [cutOffer.flatten] rfl rfl (List.cons_ne_nil _ _) (List.cons_ne_nil _ _)
      List.flatten_singleton.symm
  have hrefused : ((e.inputs (cutOffer.take 5)).2.input [0, 0]).result = .error refused := by
    decide +kernel
  have hlength : (e.inputs (cutOffer.take 5)).1.length = 5 := by decide +kernel
  obtain ⟨-, hsticks, hlater⟩ := hbehind (cutOffer.take 5) [0, 0] [[7]] refused rfl hrefused
  have hanswers : (e.inputs cutOffer).1 = (e.inputs (cutOffer.take 5)).1 ++ _ := hlater
  refine ⟨hsession, hheader, hframes, hfailure, by decide +kernel, by decide +kernel, hsticks, ?_⟩
  rw [hanswers, List.drop_left' hlength]
  rfl

/-- No chunk and one without bytes are the same bytes, but with a chunk the codec looks at its
buffer, and a limit that was lowered meanwhile refuses what was in it. -/
theorem inputs_nil_ne_inputs_empty :
    let e := run (text "a") [.session (.call (.assignRole (some .client))), .setLimit 1024,
      .input (protocolHeader ++ be32 600), .setLimit 512]
    e.session.role = some .client ∧ e.failure = none ∧
      ([] : List Bytes).flatten = [[]].flatten ∧
        (e.inputs []).2.failure = none ∧
          (e.inputs [[]]).2.failure = some (.codec (.inboundTooLarge 600 512)) := by
  intro e
  have hpeek : Frame.peekSize (be32 600) = some 600 := congrArg some (readBE_be32 (by decide))
  have hpart : Codec.cutFrame 1024 (be32 600) = .ok none := by
    simp [Codec.cutFrame, hpeek, Frame.headerSize, length_be32]
  have hlarge : Codec.cutFrame 512 (be32 600) = .error (.codec (.inboundTooLarge 600 512)) := by
    simp [Codec.cutFrame, hpeek, Frame.headerSize]
  let client := run (text "a") [.session (.call (.assignRole (some .client))), .setLimit 1024]
  have hfed : (client.codec.feed (be32 600)).pollAll =
      ⟨[], [], none, client.codec.feed (be32 600)⟩ := Codec.pollAll_of_cut_none hpart
  have hheader : matchHeader client.headerMatched (protocolHeader ++ be32 600) =
      (8, .ok (be32 600)) := rfl
  obtain ⟨-, framesReceived, reported, hinput⟩ := input_eq (e := client) rfl rfl hheader hfed rfl
  have he : e = (client.input (protocolHeader ++ be32 600)).endpoint.perform (.setLimit 512) := rfl
  rw [hinput] at he
  have hlimit : e.codec.limit = 512 := by rw [he]; rfl
  have hbuffer : e.codec.buffer = be32 600 := by rw [he]; rfl
  have hpoll : e.codec.poll = ⟨.error (.codec (.inboundTooLarge 600 512)), [], e.codec⟩ := by
    rw [Codec.poll_eq_turn, Codec.turn, hlimit, hbuffer, hlarge]
  have hrole : e.session.role = some .client := by rw [he]; rfl
  have hfailure : e.failure = none := by rw [he]; rfl
  refine ⟨hrole, hfailure, rfl, hfailure, ?_⟩
  have habsorb := absorb_of_error (e := e) (by rw [hpoll])
  simp only [inputs]
  rw [input_eq_intake hfailure hrole, intake, matchHeader]
  simp [Codec.feed_nil, habsorb]

end Endpoint

end FramedSasl
