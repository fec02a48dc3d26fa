import FramedSasl.Proofs.Outflow
import FramedSasl.Proofs.Relays

/-! A pump ends, whatever the two endpoints are: their roles may be the same or not chosen, payloads
may be queued, frames half way in. Each round that moves anything takes from the credit of one of
the two, and what comes in never adds to it; no state has more than five. The loops inside end too,
one turn for each performative or for each frame header that the bytes have room for. -/

namespace FramedSasl

open Call

/-! ### What is left to send -/

namespace Session

variable {s s' : Session}

/-- Where nothing is due the session stays as it is. -/
theorem eq_of_rests {result : Except Fault (Option Performative)}
    (hdue : on s nextOutbound = (result, s')) (hnone : ∀ p, result ≠ .ok (some p)) : s' = s := by
  have hidle := s.nextOutbound_idle
  rw [hdue] at hidle
  rcases hidle with hsame | ⟨p, hsome⟩
  · exact hsame
  · exact absurd hsome (hnone p)

theorem backlog_le (s : Session) : s.backlog ≤ 4 := by
  have hphase : s.phase.ahead ≤ 2 := by cases s.phase <;> decide
  have hinit := Bool.toNat_le (!s.initPassed)
  have hflag := Bool.toNat_le s.hasOutbound
  rw [backlog]
  omega

end Session

namespace Codec

variable {c : Codec} {p : Performative}

/-- A performative takes a frame header or more from the buffer. -/
theorem length_of_poll (h : c.poll.result = .ok (some p)) :
    c.poll.codec.buffer.length + Frame.headerSize ≤ c.buffer.length := by
  fun_induction poll c with
  | case1 | case2 | case3 | case4 => cases h
  | case5 c bytes rest hcut frame hparse arrival c' body hjoin hmore later ih =>
    have hlength := cutFrame_length hcut
    have hlater := ih h
    simp +zetaDelta only at hlater ⊢
    omega
  | case6 c bytes rest hcut =>
    have hlength := cutFrame_length hcut
    simp +zetaDelta only
    omega

end Codec

namespace Endpoint

variable {e : Endpoint}

theorem credit_le (e : Endpoint) : e.credit ≤ 5 := by
  have hheader := Bool.toNat_le (!e.headerSent)
  have hbacklog := e.session.backlog_le
  rw [credit]
  omega

/-- At most `turns` turns of `absorb`, each of which polls once; none if they are not enough. -/
def absorbWithin : Nat → Endpoint → Option (Turn Nat)
  | 0, _ => none
  | turns + 1, e =>
    let polled := e.codec.poll
    let e' := { e with
      codec := polled.codec, framesReceived := e.framesReceived + polled.arrivals.length }
    let arrived := polled.arrivals.map received
    match polled.result with
    | .error fault => some { e'.fail fault with events := arrived ++ [.failed fault] }
    | .ok none => some ⟨.ok 0, e', arrived⟩
    | .ok (some p) =>
      match on e.session (Session.accept p) with
      | (.error fault, session) =>
        some { { e' with session }.fail fault with events := arrived ++ [.failed fault] }
      | (.ok (), session) =>
        (absorbWithin turns { e' with session }).map fun later =>
          { later with result := later.result.map (· + 1), events := arrived ++ later.events }

theorem absorbWithin_eq (e : Endpoint) (turns : Nat)
    (h : e.codec.buffer.length < Frame.headerSize * turns) :
    absorbWithin turns e = some (absorb e) := by
  induction turns generalizing e with
  | zero => exact absurd h (Nat.not_lt_zero _)
  | succ turns ih =>
    rw [absorbWithin]
    rcases hresult : e.codec.poll.result with fault | _ | p
    · rw [absorb_of_error hresult]
      rfl
    · rw [absorb_of_none hresult]
    · dsimp only
      rcases haccept : on e.session (Session.accept p) with ⟨fault | _, s⟩
      · rw [absorb_of_refused hresult haccept]
        rfl
      · have hless := Codec.length_of_poll hresult
        rw [absorb_of_some hresult haccept]
        dsimp only
        rw [ih _ (by dsimp only; rw [Nat.mul_succ] at h; omega)]
        rfl

/-! ### Traffic -/

/-- An act that moves bytes. All others are calls of the owner. -/
def Act.Traffic : Act → Prop
  | .output | .input _ => True
  | _ => False

/-- Every performative that a drain takes lowers the backlog. -/
theorem drain_backlog (e : Endpoint) :
    (e.session.drawn e.codec).length + (drain e).endpoint.session.backlog ≤ e.session.backlog := by
  fun_induction drain e with
  | case1 e fault s hdue =>
    rw [Session.drawn_rests hdue (by rintro _ ⟨⟩), Session.eq_of_rests hdue (by rintro _ ⟨⟩)]
    exact Nat.le_of_eq (Nat.zero_add _)
  | case2 e s hdue =>
    rw [Session.drawn_rests hdue (by rintro _ ⟨⟩), Session.eq_of_rests hdue (by rintro _ ⟨⟩)]
    exact Nat.le_of_eq (Nat.zero_add _)
  | case3 e s p hdue fault c hencode =>
    have hless := Session.nextOutbound_backlog hdue
    rw [Codec.on_encode, Prod.mk.injEq] at hencode
    simp only [Session.drawn_due hdue, hencode.1, fail, List.length_singleton]
    omega
  | case4 e s p hdue frames c hencode later ih =>
    have hless := Session.nextOutbound_backlog hdue
    rw [Codec.on_encode, Prod.mk.injEq] at hencode
    simp +zetaDelta only [← hencode.2] at ih ⊢
    simp only [Session.drawn_due hdue, hencode.1, List.length_cons]
    omega

theorem output_session (hfailure : e.failure = none) (hrole : e.session.role ≠ none) :
    e.output.endpoint.session = (drain { e with headerSent := true }).endpoint.session := by
  obtain ⟨side, hside⟩ := Option.ne_none_iff_exists'.1 hrole
  rw [output, guarded_eq hfailure hside]
  dsimp only
  split
  · rfl
  · rw [conclude_reported]

theorem output_backlog (e : Endpoint) :
    (e.emits .output).length + e.output.endpoint.session.backlog ≤ e.session.backlog := by
  rcases hfailure : e.failure with _ | fault
  · rw [emits, if_pos hfailure]
    by_cases hrole : e.session.role = none
    · rw [Session.drawn_unassigned hrole, output_of_unassigned hfailure hrole]
      exact Nat.le_of_eq (Nat.zero_add _)
    · rw [output_session hfailure hrole]
      exact drain_backlog { e with headerSent := true }
  · rw [emits, if_neg (by simp [hfailure]), output_of_failure hfailure]
    exact Nat.le_of_eq (Nat.zero_add _)

theorem input_backlog (e : Endpoint) (data : Bytes) :
    (e.input data).endpoint.session.backlog ≤ e.session.backlog := by
  have hcredit := e.input_credit data
  rw [credit, credit, (e.input_spares data).headerSent] at hcredit
  omega

/-- An answer with any bytes takes from the credit. -/
theorem answers_credit (e : Endpoint) :
    ((e.answers .output).filter (· ≠ [])).length + e.output.endpoint.credit ≤ e.credit := by
  have hle := e.output_credit_le
  rw [answers]
  rcases hresult : e.output.result with fault | bytes
  · exact (Nat.zero_add _).trans_le hle
  · by_cases hsome : bytes = []
    · rw [hsome]
      exact (Nat.zero_add _).trans_le hle
    · have hless := output_credit hresult hsome
      have hone : [bytes].filter (· ≠ []) = [bytes] := List.filter_eq_self.2 (by simp [hsome])
      change ([bytes].filter (· ≠ [])).length + _ ≤ _
      rw [hone, List.length_singleton]
      omega

end Endpoint

open Endpoint

namespace Outflow

/-- What was taken and what was answered, as far as it came out of this much backlog and credit. -/
structure Within (o : Outflow) (backlog credit : Nat) : Prop where
  taken : o.emitted.length + o.endpoint.session.backlog ≤ backlog
  answered : (o.answers.filter (· ≠ [])).length + o.endpoint.credit ≤ credit

theorem Within.perform {o : Outflow} {backlog credit : Nat} (h : o.Within backlog credit)
    {act : Act} (htraffic : act.Traffic) : (o.perform act).Within backlog credit := by
  obtain ⟨htaken, hanswered⟩ := h
  cases act with
  | session | setLimit | setPeerLimit => cases htraffic
  | output =>
    have hbacklog := o.endpoint.output_backlog
    have hcredit := o.endpoint.answers_credit
    refine ⟨?_, ?_⟩
    · simp only [Outflow.perform, Endpoint.perform, List.length_append]
      omega
    · simp only [Outflow.perform, Endpoint.perform, List.filter_append, List.length_append]
      omega
  | input data =>
    have hbacklog := o.endpoint.input_backlog data
    have hcredit := o.endpoint.input_credit data
    refine ⟨?_, ?_⟩
    · simp only [Outflow.perform, Endpoint.perform, emits, List.append_nil]
      omega
    · simp only [Outflow.perform, Endpoint.perform, Endpoint.answers, List.append_nil]
      omega

/-- Left alone by its owner an endpoint has only so much to send. -/
theorem traffic_within (e : Endpoint) {acts : List Act} (htraffic : ∀ act ∈ acts, act.Traffic) :
    (acts.foldl perform ⟨e, [], []⟩).Within e.session.backlog e.credit := by
  have hfold : ∀ o : Outflow, o.Within e.session.backlog e.credit →
      (acts.foldl perform o).Within e.session.backlog e.credit := by
    induction acts with
    | nil => exact fun o h => h
    | cons act acts ih =>
      obtain ⟨hact, hacts⟩ := List.forall_mem_cons.1 htraffic
      exact fun o h => ih hacts _ (h.perform hact)
  exact hfold _ ⟨Nat.le_of_eq (Nat.zero_add _), Nat.le_of_eq (Nat.zero_add _)⟩

end Outflow

namespace Pair

variable {p p' q : Pair}

/-! ### Rounds -/

/-- From `p` to `q` by so many rounds, each of which moved something. -/
inductive Rounds : Nat → Pair → Pair → Prop
  | none (p : Pair) : Rounds 0 p p
  | next {n : Nat} {p p' q : Pair} (moved : on p round = (.ok true, p')) (later : Rounds n p' q) :
      Rounds (n + 1) p q

/-- A round that moved nothing found both outputs empty. -/
theorem round_still (h : on p round = (.ok false, p')) :
    p.client.output.result = .ok [] ∧ (p.server.input []).endpoint.output.result = .ok [] := by
  simp only [round, on_pass_bind, on_pure, passed, put, endpoint] at h
  split at h
  · cases h
  · next forth hforth =>
    split at h
    · cases h
    · split at h
      · cases h
      · next back hback =>
        split at h
        · cases h
        · simp only [Prod.mk.injEq, Except.ok.injEq, decide_eq_false_iff_not, not_or,
            not_not] at h
          obtain ⟨⟨rfl, rfl⟩, -⟩ := h
          exact ⟨hforth, hback⟩

/-- A last round, and with it a pump, fails or finds that there is nothing to move. -/
inductive Stops (q : Pair) : Except Fault Unit × Pair → Prop
  | failed {fault : Fault} {q' : Pair} (fails : on q round = (.error fault, q')) :
      Stops q (.error fault, q')
  | still {q' : Pair} (rests : on q round = (.ok false, q'))
      (forth : q.client.output.result = .ok [])
      (back : (q.server.input []).endpoint.output.result = .ok []) : Stops q (.ok (), q')

/-- Each round that moves something takes from the credit. -/
theorem pump_stops (p : Pair) :
    ∃ n q, n + q.credit ≤ p.credit ∧ Rounds n p q ∧ Stops q (on p pump) := by
  induction p using pumpFrom.induct with
  | case1 p fault p' hround =>
    have hpump := on_pump p
    rw [hround] at hpump
    exact ⟨0, p, Nat.le_of_eq (Nat.zero_add _), .none p, hpump ▸ .failed hround⟩
  | case2 p p' hround =>
    have hpump := on_pump p
    rw [hround] at hpump
    obtain ⟨hforth, hback⟩ := round_still hround
    exact ⟨0, p, Nat.le_of_eq (Nat.zero_add _), .none p, hpump ▸ .still hround hforth hback⟩
  | case3 p p' hround ih =>
    have hpump := on_pump p
    rw [hround] at hpump
    have hless := round_credit hround
    obtain ⟨n, q, hcredit, hrounds, hstops⟩ := ih
    exact ⟨n + 1, q, by omega, .next hround hrounds, hpump ▸ hstops⟩

/-- Whatever the two endpoints are, a pump between them ends behind at most ten rounds that moved
something, with a fault or with both outputs empty: left alone by its owner an endpoint takes at
most four performatives from its session and answers with bytes at most five times. The loops in a
round end as well: that of an output behind at most five turns, those of an input and of a poll
behind at most one turn more than the bytes have room for frame headers. -/
theorem pump_ends (p : Pair) :
    (∃ n q, n ≤ 10 ∧ Rounds n p q ∧ Stops q (on p pump)) ∧
      (∀ (e : Endpoint) (acts : List Act), (∀ act ∈ acts, act.Traffic) →
        let o := acts.foldl Outflow.perform ⟨e, [], []⟩
        o.emitted.length ≤ 4 ∧ (o.answers.filter (· ≠ [])).length ≤ 5) ∧
      (∀ e : Endpoint, drainWithin 5 e = some (drain e)) ∧
      (∀ e : Endpoint,
        absorbWithin (e.codec.buffer.length / Frame.headerSize + 1) e = some (absorb e)) ∧
      ∀ c : Codec, Codec.pollWithin (c.buffer.length / Frame.headerSize + 1) c = some c.poll := by
  have hroom (n : Nat) : n < Frame.headerSize * (n / Frame.headerSize + 1) :=
    Nat.lt_mul_div_succ _ (by decide)
  refine ⟨?_, fun e acts htraffic => ?_, fun e => ?_, fun e => e.absorbWithin_eq _ (hroom _),
    fun c => c.pollWithin_eq _ (hroom _)⟩
  · obtain ⟨n, q, hcredit, hrounds, hstops⟩ := p.pump_stops
    have hclient := p.client.credit_le
    have hserver := p.server.credit_le
    rw [credit, credit] at hcredit
    exact ⟨n, q, by omega, hrounds, hstops⟩
  · obtain ⟨htaken, hanswered⟩ := Outflow.traffic_within e htraffic
    have hbacklog := e.session.backlog_le
    have hcredit := e.credit_le
    exact ⟨by omega, by omega⟩
  · exact e.drainWithin_eq 5 (Nat.lt_succ_of_le e.session.backlog_le)

end Pair

end FramedSasl
