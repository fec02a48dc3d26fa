import FramedSasl.Endpoint

/-! A bound on how often an endpoint can still have bytes to send when its owner leaves it alone:
an `output` with any bytes lowers it (`output_credit`) and no `input` raises it (`input_credit`). -/

namespace FramedSasl.Endpoint

def credit (e : Endpoint) : Nat := (!e.headerSent).toNat + e.session.backlog

theorem conclude_credit {α : Type} (e : Endpoint) (answer : α) (events : List Event) :
    (e.conclude answer events).endpoint.credit = e.credit := by
  unfold conclude
  split <;> rfl

theorem drain_credit (e : Endpoint) :
    (drain e).endpoint.headerSent = e.headerSent ∧
      (drain e).endpoint.session.backlog ≤ e.session.backlog ∧
        ∀ bytes, (drain e).result = .ok bytes → bytes ≠ [] →
          (drain e).endpoint.session.backlog < e.session.backlog := by
  fun_induction drain e with
  | case1 e fault session h =>
    have idle := Session.nextOutbound_idle e.session
    rw [h] at idle
    simp_all [Session.Idle, fail]
  | case2 e session h =>
    have idle := Session.nextOutbound_idle e.session
    rw [h] at idle
    simp_all [Session.Idle]
  | case3 e session p h fault codec =>
    have := Session.nextOutbound_backlog h
    simp only [fail]
    refine ⟨trivial, by omega, fun _ hr => by cases hr⟩
  | case4 e session p h frames codec _ later ih =>
    have := Session.nextOutbound_backlog h
    simp +zetaDelta only at ih ⊢
    exact ⟨ih.1, by omega, fun _ _ _ => by omega⟩

theorem absorb_credit (e : Endpoint) :
    (absorb e).endpoint.headerSent = e.headerSent ∧
      (absorb e).endpoint.session.backlog ≤ e.session.backlog := by
  fun_induction absorb e with
  | case1 => simp +zetaDelta [fail]
  | case2 => simp +zetaDelta
  | case3 e polled e' arrived p hp fault session hs =>
    have := Session.accept_backlog e.session p
    rw [hs] at this
    simpa +zetaDelta [fail] using this
  | case4 e polled e' arrived p hp session hs later ih =>
    have := Session.accept_backlog e.session p
    rw [hs] at this
    simp +zetaDelta only at this ih ⊢
    exact ⟨ih.1, by omega⟩

theorem output_credit_le (e : Endpoint) : e.output.endpoint.credit ≤ e.credit := by
  have h := drain_credit { e with headerSent := true }
  simp only [output, guarded]
  split
  · exact Nat.le_refl _
  · split
    · exact Nat.le_refl _
    · have hle : _ ≤ e.session.backlog := h.2.1
      split
      · simp only [credit, h.1, Bool.not_true, Bool.toNat_false]
        omega
      · rw [conclude_credit]
        simp only [credit, h.1, Bool.not_true, Bool.toNat_false]
        omega

theorem conclude_result {α : Type} (e : Endpoint) (answer : α) (events : List Event) :
    (e.conclude answer events).result = .ok answer := by
  unfold conclude
  split <;> rfl

theorem output_credit {e : Endpoint} {bytes : Bytes} (h : e.output.result = .ok bytes)
    (hne : bytes ≠ []) : e.output.endpoint.credit < e.credit := by
  obtain ⟨hsent, hle, hlt⟩ := drain_credit { e with headerSent := true }
  simp only [output, guarded] at h ⊢
  generalize drain { e with headerSent := true } = drained at *
  split at h
  · cases h
  · split at h
    · cases h
    · next hrole =>
      simp only [hrole, if_false]
      split at h
      · next hresult => rw [hresult] at h; cases h
      · next body hresult =>
        rw [conclude_result, Except.ok.injEq] at h
        rw [conclude_credit]
        simp only [credit, hsent]
        cases hs : e.headerSent with
        | false =>
          have : _ ≤ e.session.backlog := hle
          simp only [Bool.not_true, Bool.not_false, Bool.toNat_false, Bool.toNat_true]
          omega
        | true =>
          simp only [hs, if_true, List.nil_append] at h
          exact Nat.add_lt_add_left (hlt body hresult (h ▸ hne)) _

theorem input_credit (e : Endpoint) (data : Bytes) :
    (e.input data).endpoint.credit ≤ e.credit := by
  simp only [input, guarded]
  split
  · exact Nat.le_refl _
  · split
    · exact Nat.le_refl _
    · split
      · exact Nat.le_refl _
      · next matched rest _ =>
        have h := absorb_credit { e with headerMatched := matched, codec := e.codec.feed rest }
        split
        · simp only [credit, h.1]
          exact Nat.add_le_add_left h.2 _
        · rw [conclude_credit]
          simp only [credit, h.1]
          exact Nat.add_le_add_left h.2 _

end FramedSasl.Endpoint
