import FramedSasl.Proofs.Agreement
import FramedSasl.Proofs.Secrecy

/-! The limit on what comes in can refuse a frame and nothing else. So an endpoint that has not
failed does what it would do without that limit (`wide`), and a link that has not failed is at a
stage, whatever the owners made of the limits. -/

namespace FramedSasl

open Call

theorem Frame.peekSize_lt {stream : Bytes} {size : Nat} (h : Frame.peekSize stream = some size) :
    size < wordCount := by
  unfold Frame.peekSize at h
  split at h
  · next b₀ b₁ b₂ b₃ _ =>
    cases h
    have h₀ := b₀.toNat_lt
    have h₁ := b₁.toNat_lt
    have h₂ := b₂.toNat_lt
    have h₃ := b₃.toNat_lt
    simp only [readBE, List.foldl_cons, List.foldl_nil, wordCount]
    omega
  · cases h

namespace Codec

/-- The same with the largest limit on what comes in. -/
def wide (c : Codec) : Codec := { c with limit := wordCount - 1 }

theorem cutFrame_wide {limit : Nat} {stream : Bytes} {cut : Option (Bytes × Bytes)}
    (h : cutFrame limit stream = .ok cut) : cutFrame (wordCount - 1) stream = .ok cut := by
  unfold cutFrame at h ⊢
  split at h
  · exact h
  · next size hsize =>
    have := Frame.peekSize_lt hsize
    split at h
    · cases h
    · next hheader =>
      split at h
      · cases h
      · simpa only [if_neg hheader, if_neg (show ¬wordCount - 1 < size by omega)] using h

theorem poll_wide {c : Codec} {found : Option Performative} (h : c.poll.result = .ok found) :
    c.wide.poll = { c.poll with codec := c.poll.codec.wide } := by
  fun_induction poll c with
  | case1 => cases h
  | case2 c hcut =>
    have hcut' := cutFrame_wide hcut
    rw [poll_eq_turn]
    simp only [turn, wide, hcut']
  | case3 => cases h
  | case4 => cases h
  | case5 c bytes rest hcut frame hparse _ _ body hjoin hmore later ih =>
    have hcut' := cutFrame_wide hcut
    have hlater := ih h
    rw [wide] at hlater
    rw [poll_of_more (c := c.wide) hcut' hparse hjoin hmore]
    simp only [wide] at hlater ⊢
    rw [hlater]
  | case6 c bytes rest hcut frame hparse _ _ body hjoin hmore =>
    have hcut' := cutFrame_wide hcut
    rw [poll_eq_turn]
    simp only [turn, wide, hcut', hparse, hjoin, hmore]
    rfl

end Codec

namespace Endpoint

variable {e : Endpoint} {n : Nat}

def wide (e : Endpoint) : Endpoint := { e with codec := e.codec.wide }

theorem absorb_wide (h : (absorb e).result = .ok n) :
    absorb e.wide = { absorb e with endpoint := (absorb e).endpoint.wide } := by
  induction e using absorb_induction generalizing n with
  | breaks e fault hresult =>
    rw [absorb_of_error hresult] at h
    cases h
  | waits e hresult =>
    have hpoll := Codec.poll_wide hresult
    have hresult' : e.wide.codec.poll.result = .ok none := by simp [wide, hpoll, hresult]
    rw [absorb_of_none hresult, absorb_of_none hresult']
    simp only [wide, hpoll]
  | refuses e p fault s hresult haccept =>
    rw [absorb_of_refused hresult haccept] at h
    cases h
  | takes e p s hresult haccept ih =>
    have hpoll := Codec.poll_wide hresult
    have hresult' : e.wide.codec.poll.result = .ok (some p) := by simp [wide, hpoll, hresult]
    rw [absorb_of_some hresult haccept] at h ⊢
    rw [absorb_of_some hresult' haccept]
    obtain ⟨m, hm, -⟩ := Except.ok_of_map h
    have hlater := ih hm
    simp only [wide, hpoll] at hlater ⊢
    rw [hlater]

theorem conclude_wide {α : Type} (e : Endpoint) (answer : α) (events : List Event) :
    e.wide.conclude answer events =
      { e.conclude answer events with endpoint := (e.conclude answer events).endpoint.wide } := by
  unfold conclude
  by_cases h : e.reported ∨ e.session.phase ≠ .done
  · rw [if_pos h, if_pos (show e.wide.reported ∨ e.wide.session.phase ≠ .done from h)]
  · rw [if_neg h, if_neg (show ¬(e.wide.reported ∨ e.wide.session.phase ≠ .done) from h)]
    rfl

theorem intake_wide {data : Bytes} (h : (e.intake data).result = .ok n) :
    e.wide.intake data = { e.intake data with endpoint := (e.intake data).endpoint.wide } := by
  rcases hheader : matchHeader e.headerMatched data with ⟨matched, fault | rest⟩
  · simp only [intake, hheader] at h
    cases h
  · have hheader' : matchHeader e.wide.headerMatched data = (matched, .ok rest) := hheader
    simp only [intake, hheader, hheader'] at h ⊢
    exact absorb_wide h

/-- What went well goes as well without the limit. -/
theorem input_wide {side : Role} {data : Bytes} (hfailure : e.failure = none)
    (hrole : e.session.role = some side) (h : (e.input data).endpoint.failure = none) :
    e.wide.input data = { e.input data with endpoint := (e.input data).endpoint.wide } := by
  have hfails := intake_failure (e := e) data
  have hinput := input_eq_intake hfailure hrole data
  rcases hresult : (e.intake data).result with fault | count
  · rw [hresult] at hinput hfails
    rw [hinput] at h
    cases hfails.symm.trans h
  · rw [hresult] at hinput
    rw [input_eq_intake (e := e.wide) hfailure hrole, intake_wide hresult, hinput, hresult]
    exact conclude_wide _ _ _

theorem drain_wide (e : Endpoint) :
    drain e.wide = { drain e with endpoint := (drain e).endpoint.wide } := by
  induction e using drain.induct with
  | case1 e fault s h =>
    rw [drain_of_error h, drain_of_error (e := e.wide) h]
    rfl
  | case2 e s h =>
    rw [drain_rests h, drain_rests (e := e.wide) h]
    rfl
  | case3 e p s h fault codec hencode =>
    have hframes := congrArg Prod.fst ((Codec.on_encode e.codec p).symm.trans hencode)
    rw [drain_refused h hframes, drain_refused (e := e.wide) h hframes]
    rfl
  | case4 e p s h frames codec hencode ih =>
    have hframes := congrArg Prod.fst ((Codec.on_encode e.codec p).symm.trans hencode)
    cases (congrArg Prod.snd (Codec.on_encode e.codec p)).symm.trans (congrArg Prod.snd hencode)
    rw [drain_emits h hframes, drain_emits (e := e.wide) h hframes]
    simp only [wide, Codec.wide] at ih ⊢
    rw [ih]

theorem output_wide (e : Endpoint) :
    e.wide.output = { e.output with endpoint := e.output.endpoint.wide } := by
  have hdrain : drain { e.wide with headerSent := true } = _ :=
    drain_wide { e with headerSent := true }
  rcases hfailure : e.failure with _ | fault
  · rcases hrole : e.session.role with _ | side
    · simp only [output, guarded, wide, hfailure, hrole, if_true]
    · rw [output, output, guarded_eq (e := e.wide) hfailure hrole, guarded_eq hfailure hrole,
        hdrain]
      rcases (drain { e with headerSent := true }) with ⟨fault | bytes, e', events⟩
      · rfl
      · exact conclude_wide _ _ _
  · rw [output_of_failure hfailure, output_of_failure (e := e.wide) hfailure]

end Endpoint

/-! ### Acts of an owner -/

namespace Party

variable {p : Party}

def wide (p : Party) : Party := { p with endpoint := p.endpoint.wide }

/-- The same with another limit on what goes out. -/
def limited (p : Party) (peerLimit : Nat) : Party :=
  { p with endpoint := { p.endpoint with codec := { p.endpoint.codec with peerLimit } } }

/-- A failure is there to stay. -/
theorem failure_of_perform {act : Act} (h : (p.perform act).endpoint.failure = none) :
    p.endpoint.failure = none := by
  rcases hfailure : p.endpoint.failure with _ | fault
  · rfl
  · rw [← hfailure, ← h]
    cases act with
    | call call =>
      obtain ⟨given, hobey⟩ := p.obey_eq call
      rw [perform, hobey]
    | limit call => rfl
    | receive n => rfl
    | output => rw [perform, (output_of_failure hfailure).2.1]
    | deliver n => rw [perform, (deliver_of_failure hfailure n).2]

theorem obey_wide (p : Party) (call : OwnerCall) : (p.obey call).wide = p.wide.obey call := by
  have hon : (Endpoint.inSession call.run).on p.wide.endpoint =
      (((Endpoint.inSession call.run).on p.endpoint).1,
        ((Endpoint.inSession call.run).on p.endpoint).2.wide) := rfl
  rw [obey, obey, hon]
  rcases (Endpoint.inSession call.run).on p.endpoint with ⟨fault | _, e⟩ <;> rfl

theorem output_wide (p : Party) : p.output.wide = p.wide.output ∧ p.wide.sent = p.sent := by
  have houtput : p.wide.endpoint.output = _ := p.endpoint.output_wide
  refine ⟨?_, ?_⟩
  · rw [output, output, houtput]
    rfl
  · rw [sent, sent, houtput]

theorem deliver_wide {side : Role} (hrole : p.endpoint.session.role = some side) {n : Nat}
    (h : (p.deliver n).endpoint.failure = none) : (p.deliver n).wide = p.wide.deliver n := by
  have hperform : (p.perform (.deliver n)).endpoint.failure = none := h
  have hfailure := failure_of_perform hperform
  have hinput : p.wide.endpoint.input (p.wide.wire.take n) = _ :=
    Endpoint.input_wide hfailure hrole h
  rw [deliver, deliver, hinput]
  rfl

/-- A limit that is set is in bounds; the one on what comes in does not count. -/
theorem adjust_wide (p : Party) (call : LimitCall) :
    ∃ peerLimit, (p.adjust call).wide = p.wide.limited peerLimit ∧
      (peerLimit = p.endpoint.codec.peerLimit ∨
        minimumLimit ≤ peerLimit ∧ peerLimit < wordCount) := by
  have hon : on p.endpoint (Endpoint.inCodec call.run) =
      ((on p.endpoint.codec call.run).1,
        { p.endpoint with codec := (on p.endpoint.codec call.run).2 }) := rfl
  rw [adjust, hon]
  cases call with
  | own size =>
    refine ⟨p.endpoint.codec.peerLimit, ?_, .inl rfl⟩
    rw [LimitCall.run]
    rcases p.endpoint.codec.setLimit_cases size.toNat with ⟨fault, hrefused⟩ | ⟨-, -, hset⟩
    · rw [hrefused]
      rfl
    · rw [hset]
      rfl
  | peer size =>
    rw [LimitCall.run]
    rcases p.endpoint.codec.setPeerLimit_cases size.toNat with
      ⟨fault, hrefused⟩ | ⟨-, hleast, hset⟩
    · exact ⟨p.endpoint.codec.peerLimit, by rw [hrefused]; rfl, .inl rfl⟩
    · exact ⟨size.toNat, by rw [hset]; rfl, .inr ⟨hleast, size.toNat_lt⟩⟩

end Party

end FramedSasl
