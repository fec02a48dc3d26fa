import FramedSasl.Session

/-! A bound on what a session can still send without its owner: every performative that goes out
lowers it (`nextOutbound_backlog`) and none that comes in raises it (`accept_backlog`). -/

namespace FramedSasl

open Call

namespace Phase

/-- The phase changes that lie ahead. -/
def ahead : Phase → Nat
  | unconfigured | configuring => 2
  | mechanismExchange | challengeResponse => 1
  | done => 0

theorem ahead_after? {phase next : Phase} {kind : Kind} (h : phase.after? kind = some next) :
    next.ahead ≤ phase.ahead ∧
      (kind = .mechanisms ∨ kind = .outcome → next.ahead < phase.ahead) := by
  revert h
  cases phase <;> cases kind <;> simp [after?] <;> rintro rfl <;> decide

theorem after?_of_afterSending {phase next : Phase} {role : Option Role} {kind : Kind}
    (h : phase.afterSending role kind = .ok next) : phase.after? kind = some next := by
  unfold afterSending at h
  split at h
  · cases h
  · split at h
    · cases h
    · split at h
      · cases h; assumption
      · cases h

theorem after?_of_afterReceiving {phase next : Phase} {role : Option Role} {kind : Kind}
    (h : phase.afterReceiving role kind = .ok next) : phase.after? kind = some next := by
  unfold afterReceiving at h
  split at h
  · cases h
  · split at h
    · cases h
    · split at h
      · cases h
      · split at h
        · cases h; assumption
        · cases h

end Phase

namespace Session

/-- Phase changes, an init not passed, a payload queued. -/
def backlog (s : Session) : Nat :=
  s.phase.ahead + (!s.initPassed).toNat + s.hasOutbound.toNat

theorem on_emit (s after : Session) (p : Performative) :
    on s (emit p after) =
      match s.phase.afterSending s.role p.kind with
      | .error fault => (.error fault, s)
      | .ok phase => (.ok (some p), { after with phase }) := by
  cases h : s.phase.afterSending s.role p.kind <;>
    simp only [emit, on_get_bind, on_ofExcept_bind, on_set_bind, on_pure, h]

theorem emit_some {s s' after : Session} {p q : Performative}
    (h : on s (emit q after) = (.ok (some p), s')) :
    ∃ phase, s.phase.after? q.kind = some phase ∧ s' = { after with phase } := by
  rw [on_emit] at h
  split at h
  · cases h
  · next phase hphase =>
    cases h
    exact ⟨phase, Phase.after?_of_afterSending hphase, rfl⟩

theorem clientOutbound_backlog {s s' : Session} {p : Performative}
    (h : on s clientOutbound = (.ok (some p), s')) : s'.backlog < s.backlog := by
  simp only [clientOutbound, on_get_bind, takeOutbound_eq] at h
  split at h
  · cases h
  · split at h
    · split at h
      · next hqueued =>
        obtain ⟨phase, hphase, rfl⟩ := emit_some h
        have := (Phase.ahead_after? hphase).1
        simp [backlog, hqueued.2]
        omega
      · cases h
    · next hinit =>
      split at h
      · obtain ⟨phase, hphase, rfl⟩ := emit_some h
        have := (Phase.ahead_after? hphase).1
        simp [backlog, hinit]
        omega
      · cases h

theorem serverOutbound_backlog {s s' : Session} {p : Performative}
    (h : on s serverOutbound = (.ok (some p), s')) : s'.backlog < s.backlog := by
  simp only [serverOutbound, on_get_bind, takeOutbound_eq] at h
  split at h
  · cases h
  · split at h
    · split at h
      · cases h
      · obtain ⟨phase, hphase, rfl⟩ := emit_some h
        have := (Phase.ahead_after? hphase).2 (.inl rfl)
        simp only [backlog]
        omega
    · split at h
      · cases h
      · split at h
        · obtain ⟨phase, hphase, rfl⟩ := emit_some h
          have := (Phase.ahead_after? hphase).2 (.inr rfl)
          simp [backlog]
          omega
        · split at h
          · next hqueued =>
            obtain ⟨phase, hphase, rfl⟩ := emit_some h
            have := (Phase.ahead_after? hphase).1
            simp [backlog, hqueued]
            omega
          · cases h

theorem nextOutbound_backlog {s s' : Session} {p : Performative}
    (h : on s nextOutbound = (.ok (some p), s')) : s'.backlog < s.backlog := by
  simp only [nextOutbound, on_get_bind] at h
  split at h
  · cases h
  · exact clientOutbound_backlog h
  · exact serverOutbound_backlog h

/-- A performative went out, or the session is as it was. -/
def Idle (s : Session) (after : Except Fault (Option Performative) × Session) : Prop :=
  after.2 = s ∨ ∃ p, after.1 = .ok (some p)

@[simp] theorem idle_self (s : Session) (r : Except Fault (Option Performative)) :
    Idle s (r, s) := .inl rfl

@[simp] theorem emit_idle (s after : Session) (p : Performative) :
    Idle s (on s (emit p after)) := by
  rw [on_emit]
  split <;> simp [Idle]

theorem clientOutbound_idle (s : Session) : Idle s (on s clientOutbound) := by
  simp only [clientOutbound, on_get_bind]
  repeat' split
  all_goals simp

theorem serverOutbound_idle (s : Session) : Idle s (on s serverOutbound) := by
  simp only [serverOutbound, on_get_bind]
  repeat' split
  all_goals simp

theorem nextOutbound_idle (s : Session) : Idle s (on s nextOutbound) := by
  simp only [nextOutbound, on_get_bind]
  split
  · simp [Idle, refuse]
  · exact clientOutbound_idle s
  · exact serverOutbound_idle s

theorem apply_backlog {s after : Session} {p : Performative} {result : Except Fault Unit}
    (h : on s (apply p) = (result, after)) :
    after.phase = s.phase ∧ after.hasOutbound = s.hasOutbound ∧
      (s.initPassed → after.initPassed) := by
  simp only [apply, on_get_bind] at h
  split at h
  all_goals simp only [clientApply, serverApply, on_get_bind, refuse, on_pure] at h
  all_goals repeat' split at h
  all_goals cases h
  all_goals simp_all

theorem accept_backlog (s : Session) (p : Performative) :
    (on s (accept p)).2.backlog ≤ s.backlog := by
  simp only [accept, on_get_bind, on_ofExcept_bind]
  split
  · exact Nat.le_refl _
  · next phase hnext =>
    have hahead := (Phase.ahead_after? (Phase.after?_of_afterReceiving hnext)).1
    rw [on_bind]
    rcases hrun : on s (apply p) with ⟨fault | _, after⟩
    all_goals
      obtain ⟨hphase, hflag, hinit⟩ := apply_backlog hrun
      simp only [on_modify, backlog, hphase, hflag]
      cases h : s.initPassed <;> cases h' : after.initPassed <;> simp_all
    all_goals omega

end Session

end FramedSasl
