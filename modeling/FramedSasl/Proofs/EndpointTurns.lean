import FramedSasl.Endpoint.Credit
import FramedSasl.Proofs.StreamRoundTrip

/-! Whole turns of an endpoint that has not failed. `output` sends the header once and the one
performative that is due; `input` takes the header in and then what the codec's polls give. -/

namespace FramedSasl.Endpoint

open Call

theorem on_inSession {α : Type} (e : Endpoint) (call : Call Session α) :
    on e (inSession call) = ((on e.session call).1, { e with session := (on e.session call).2 }) :=
  rfl

/-- Behind a call that went well the end has been reported if it has come. -/
theorem conclude_reported {α : Type} (e : Endpoint) (answer : α) (events : List Event) :
    (e.conclude answer events).endpoint =
      { e with reported := e.reported || decide (e.session.phase = .done) } := by
  unfold conclude
  split
  · next h =>
    have hsame : (e.reported || decide (e.session.phase = .done)) = e.reported := by
      rcases h with hreported | hgoing
      · rw [hreported, Bool.true_or]
      · rw [decide_eq_false hgoing, Bool.or_false]
    rw [hsame]
  · next h =>
    have hdone : e.session.phase = .done := Decidable.byContradiction fun hgoing => h (.inr hgoing)
    simp [hdone]

theorem conclude_endpoint {α : Type} (e : Endpoint) (answer : α) (events : List Event) :
    ∃ reported, (e.conclude answer events).endpoint = { e with reported } :=
  ⟨_, conclude_reported e answer events⟩

theorem guarded_eq {α : Type} {e : Endpoint} {side : Role} (hfailure : e.failure = none)
    (hrole : e.session.role = some side) (traffic : Traffic) (call : Turn α) :
    e.guarded traffic call = call := by
  rw [guarded, hfailure, hrole]
  rfl

theorem output_of_failure {e : Endpoint} {fault : Fault} (h : e.failure = some fault) :
    e.output = ⟨.error fault, e, []⟩ := by
  rw [output, guarded, h]

theorem input_of_failure {e : Endpoint} {fault : Fault} (h : e.failure = some fault)
    (data : Bytes) : e.input data = ⟨.error fault, e, []⟩ := by
  rw [input, guarded, h]

/-! ### Out -/

/-- The performative that is due does not fit; only an offer or an init can be so large. -/
def Overflows (e : Endpoint) (fault : Fault) : Prop :=
  ∃ p s, on e.session Session.nextOutbound = (.ok (some p), s) ∧
    (p.kind = .mechanisms ∨ p.kind = .init) ∧ p.Oversized e.codec.peerLimit fault

/-- The header, unless it has been sent. -/
def opening (e : Endpoint) : Bytes := if e.headerSent then [] else protocolHeader

section

variable {e : Endpoint} {s : Session} {p : Performative} {frames : List Frame} {fault : Fault}

theorem drain_of_error (h : on e.session Session.nextOutbound = (.error fault, s)) :
    drain e = { e with session := s }.fail fault := by
  rw [drain]
  split
  · next hdue => cases hdue.symm.trans h; rfl
  · next hdue => cases hdue.symm.trans h
  · next hdue => cases hdue.symm.trans h

theorem drain_rests (h : on e.session Session.nextOutbound = (.ok none, s)) :
    drain e = ⟨.ok [], { e with session := s }, []⟩ := by
  rw [drain]
  split
  · next hdue => cases hdue.symm.trans h
  · next hdue => cases hdue.symm.trans h; rfl
  · next hdue => cases hdue.symm.trans h

theorem drain_refused (h : on e.session Session.nextOutbound = (.ok (some p), s))
    (hframes : p.fragments e.codec.peerLimit = .error fault) :
    drain e = fail { e with session := s, codec := { e.codec with started := true } } fault := by
  rw [drain]
  split
  · next hdue => cases hdue.symm.trans h
  · next hdue => cases hdue.symm.trans h
  · next hdue =>
    cases hdue.symm.trans h
    simp only [Codec.on_encode, hframes]

theorem drain_emits (h : on e.session Session.nextOutbound = (.ok (some p), s))
    (hframes : p.fragments e.codec.peerLimit = .ok frames) :
    drain e =
      let later := drain { e with
        session := s, codec := { e.codec with started := true }
        framesSent := e.framesSent + frames.length }
      { later with
        result := later.result.map (frames.flatMap Frame.serialize ++ ·)
        events := frames.map sent ++ later.events } := by
  rw [drain]
  split
  · next hdue => cases hdue.symm.trans h
  · next hdue => cases hdue.symm.trans h
  · next hdue =>
    cases hdue.symm.trans h
    simp only [Codec.on_encode, hframes]

variable {side : Role}

theorem output_rests (hfailure : e.failure = none) (hrole : e.session.role = some side)
    (h : on e.session Session.nextOutbound = (.ok none, e.session)) :
    e.output.result = .ok e.opening ∧ e.output.endpoint = { e with
      headerSent := true, reported := e.reported || decide (e.session.phase = .done) } := by
  have hdrain : drain { e with headerSent := true } = _ := drain_rests h
  rw [output, guarded_eq hfailure hrole]
  simp only [hdrain]
  refine ⟨?_, conclude_reported _ _ _⟩
  rw [conclude_result, List.append_nil]
  rfl

theorem output_emits (hfailure : e.failure = none) (hrole : e.session.role = some side)
    (hdue : on e.session Session.nextOutbound = (.ok (some p), s))
    (hlast : on s Session.nextOutbound = (.ok none, s))
    (hframes : p.fragments e.codec.peerLimit = .ok frames) :
    e.output.result = .ok (e.opening ++ frames.flatMap Frame.serialize) ∧ e.output.endpoint =
      { e with
        session := s, codec := { e.codec with started := true }, headerSent := true
        framesSent := e.framesSent + frames.length
        reported := e.reported || decide (s.phase = .done) } := by
  have hdrain : drain { e with headerSent := true } = _ := drain_emits hdue hframes
  have hlater : drain { e with
      session := s, codec := { e.codec with started := true }, headerSent := true
      framesSent := e.framesSent + frames.length } = _ := drain_rests hlast
  rw [hlater] at hdrain
  rw [output, guarded_eq hfailure hrole]
  simp only [hdrain, Except.map]
  refine ⟨?_, conclude_reported _ _ _⟩
  rw [conclude_result, List.append_nil]
  rfl

theorem output_refused (hfailure : e.failure = none) (hrole : e.session.role = some side)
    (hdue : on e.session Session.nextOutbound = (.ok (some p), s))
    (hframes : p.fragments e.codec.peerLimit = .error fault) :
    e.output.result = .error fault ∧ e.output.endpoint = { e with
      session := s, codec := { e.codec with started := true }, headerSent := true
      failure := some fault } := by
  have hdrain : drain { e with headerSent := true } = _ := drain_refused hdue hframes
  rw [output, guarded_eq hfailure hrole]
  simp only [hdrain, fail]
  exact ⟨trivial, trivial⟩

end

/-! ### In -/

/-- Behind `matched` bytes of the header, from the rest of the header and some bytes behind it. -/
theorem matchHeader_drop {matched : Nat} (h : matched ≤ protocolHeader.length) (body : Bytes)
    (n : Nat) :
    matchHeader matched ((protocolHeader.drop matched ++ body).take n) =
      (min (matched + n) protocolHeader.length,
        .ok (body.take (n - (protocolHeader.length - matched)))) := by
  -- byte by byte; behind the header none is matched any more
  induction n generalizing matched with
  | zero =>
    rw [List.take_zero, matchHeader, Nat.zero_sub, List.take_zero, Nat.add_zero, Nat.min_eq_left h]
  | succ n ih =>
    by_cases hlt : matched < protocolHeader.length
    · have hmatched : matched + 1 + n = matched + (n + 1) := by omega
      have hbehind : n - (protocolHeader.length - (matched + 1)) =
          n + 1 - (protocolHeader.length - matched) := by omega
      rw [List.drop_eq_getElem_cons hlt, List.cons_append, List.take_succ_cons, matchHeader,
        List.getElem?_eq_getElem hlt]
      simp only [if_true]
      rw [ih hlt, hmatched, hbehind]
    · have hall : matched = protocolHeader.length := by omega
      rw [hall, List.drop_length, List.nil_append, Nat.sub_self, Nat.sub_zero,
        Nat.min_eq_right (by omega)]
      cases body with
      | nil => rfl
      | cons b rest =>
        rw [List.take_succ_cons, matchHeader, List.getElem?_eq_none (Nat.le_refl _)]

section

variable {e : Endpoint} {s : Session} {p : Performative}

theorem absorb_of_none (hresult : e.codec.poll.result = .ok none) :
    absorb e = ⟨.ok 0,
      { e with
        codec := e.codec.poll.codec
        framesReceived := e.framesReceived + e.codec.poll.arrivals.length },
      e.codec.poll.arrivals.map received⟩ := by
  rw [absorb]
  split
  · next h => cases h.symm.trans hresult
  · rfl
  · next h => cases h.symm.trans hresult

theorem absorb_of_some (hresult : e.codec.poll.result = .ok (some p))
    (haccept : on e.session (Session.accept p) = (.ok (), s)) :
    absorb e =
      let later := absorb { e with
        session := s, codec := e.codec.poll.codec
        framesReceived := e.framesReceived + e.codec.poll.arrivals.length }
      { later with
        result := later.result.map (· + 1)
        events := e.codec.poll.arrivals.map received ++ later.events } := by
  rw [absorb]
  split
  · next h => cases h.symm.trans hresult
  · next h => cases h.symm.trans hresult
  · next h =>
    cases h.symm.trans hresult
    simp only [haccept]

end

theorem absorb_eq {e : Endpoint} {ps : List Performative} {arrivals : List Arrival} {c : Codec}
    {s : Session} (hpolls : e.codec.pollAll = ⟨ps, arrivals, none, c⟩)
    (haccepts : on e.session (forM ps Session.accept) = (.ok (), s)) :
    absorb e = ⟨.ok ps.length,
      { e with codec := c, session := s, framesReceived := e.framesReceived + arrivals.length },
      arrivals.map received⟩ := by
  induction ps generalizing e arrivals with
  | nil =>
    cases haccepts
    rcases hresult : e.codec.poll.result with fault | _ | p
    · rw [Codec.pollAll_of_error hresult] at hpolls
      cases hpolls
    · rw [Codec.pollAll_of_none hresult] at hpolls
      cases hpolls
      exact absorb_of_none hresult
    · rw [Codec.pollAll_of_some hresult] at hpolls
      cases hpolls
  | cons p ps ih =>
    rcases hresult : e.codec.poll.result with fault | _ | q
    · rw [Codec.pollAll_of_error hresult] at hpolls
      cases hpolls
    · rw [Codec.pollAll_of_none hresult] at hpolls
      cases hpolls
    · rw [Codec.pollAll_of_some hresult] at hpolls
      rw [List.forM_cons, on_bind] at haccepts
      split at haccepts
      · cases haccepts
      · next answer s' haccept =>
        rcases hlater : e.codec.poll.codec.pollAll with ⟨ps', arrivals', fault', c'⟩
        rw [hlater] at hpolls
        cases hpolls
        rw [absorb_of_some hresult haccept, ih (e := { e with
          session := s', codec := e.codec.poll.codec
          framesReceived := e.framesReceived + e.codec.poll.arrivals.length }) hlater haccepts]
        simp only [Except.map, List.map_append, List.length_cons, List.length_append,
          Nat.add_assoc]

theorem input_eq {e : Endpoint} {side : Role} {data rest : Bytes} {matched : Nat}
    {ps : List Performative} {arrivals : List Arrival} {c : Codec} {s : Session}
    (hfailure : e.failure = none) (hrole : e.session.role = some side)
    (hheader : matchHeader e.headerMatched data = (matched, .ok rest))
    (hpolls : (e.codec.feed rest).pollAll = ⟨ps, arrivals, none, c⟩)
    (haccepts : on e.session (forM ps Session.accept) = (.ok (), s)) :
    (e.input data).result = .ok ps.length ∧
      ∃ framesReceived reported, (e.input data).endpoint = { e with
        headerMatched := matched, codec := c, session := s, framesReceived, reported } := by
  have habsorb : absorb { e with headerMatched := matched, codec := e.codec.feed rest } = _ :=
    absorb_eq hpolls haccepts
  rw [input, guarded_eq hfailure hrole]
  simp only [hheader, habsorb]
  exact ⟨conclude_result _ _ _, e.framesReceived + arrivals.length, conclude_endpoint _ _ _⟩

end FramedSasl.Endpoint
