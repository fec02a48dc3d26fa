import FramedSasl.Proofs.SessionTurns

/-! A call that is refused leaves the session as it was, in whatever state it is. `Atomic` says so
of a call. It goes through looking at the state, checks and choices, and ends at a change behind
which nothing can fail: every call of a session is made of these. -/

namespace FramedSasl

namespace Call

variable {σ α β : Type}

/-- Where `call` fails, the state is as it was. -/
def Atomic (call : Call σ α) : Prop :=
  ∀ s fault s', on s call = (.error fault, s') → s' = s

namespace Atomic

theorem pure (a : α) : Atomic (Pure.pure a : Call σ α) := by
  intro s fault s' h
  cases h

theorem throw (fault : Fault) : Atomic (throw fault : Call σ α) := by
  intro s cause s' h
  cases h
  rfl

theorem get_bind {next : σ → Call σ α} (h : ∀ s, Atomic (next s)) : Atomic (get >>= next) :=
  fun s => h s s

theorem ofExcept_bind (value : Except Fault α) {next : α → Call σ β} (h : ∀ a, Atomic (next a)) :
    Atomic (ofExcept value >>= next) := by
  intro s fault s' hrun
  rw [on_ofExcept_bind] at hrun
  cases value with
  | error cause =>
    cases hrun
    rfl
  | ok a => exact h a s fault s' hrun

theorem ite {condition : Prop} [Decidable condition] {first second : Call σ α}
    (hfirst : Atomic first) (hsecond : Atomic second) :
    Atomic (if condition then first else second) := by
  split
  · exact hfirst
  · exact hsecond

/-- A change cannot fail. -/
theorem set (s : σ) : Atomic (set s : Call σ Unit) := by
  intro s₀ fault s' h
  cases h

/-- Behind a change there is only the answer. -/
theorem set_bind_pure (s : σ) (answer : α) :
    Atomic (do MonadStateOf.set s; return answer : Call σ α) := by
  intro s₀ fault s' h
  cases h

/-- Nor can a change that follows. -/
theorem bind_modify {call : Call σ α} (h : Atomic call) (f : σ → σ) :
    Atomic (call >>= fun _ => modify f) := by
  intro s fault s' hrun
  rw [on_bind] at hrun
  split at hrun
  · next hcall =>
    cases hrun
    exact h s _ _ hcall
  · cases hrun

end Atomic

end Call

open Call

namespace Session

theorem atomic_refuse {α : Type} (fault : SessionFault) : Atomic (refuse fault : Call Session α) :=
  .throw (.session fault)

/-! ### Calls of the owner -/

theorem atomic_assignRole (requested : Option Role) : Atomic (assignRole requested) := by
  refine .get_bind fun s => ?_
  cases requested with
  | none => exact atomic_refuse _
  | some role =>
    cases s.role with
    | none => exact .set _
    | some current => exact .ite (.pure ()) (atomic_refuse _)

theorem atomic_setMechanisms (names : List Bytes) : Atomic (setMechanisms names) := by
  refine .get_bind fun s => .ite (atomic_refuse _) (.ite (atomic_refuse _) ?_)
  refine .ite (atomic_refuse _) (.ite (atomic_refuse _) ?_)
  rcases nameFlaw? names with _ | _ | name
  · exact .set _
  · exact atomic_refuse _
  · exact atomic_refuse _

theorem atomic_setHostname (name : Bytes) : Atomic (setHostname name) :=
  .get_bind fun _ => .ite (atomic_refuse _) (.ite (atomic_refuse _) (.set _))

theorem atomic_send (data : Bytes) : Atomic (send data) := by
  refine .get_bind fun s => ?_
  cases s.role with
  | none => exact atomic_refuse _
  | some role => exact .ite (atomic_refuse _) (.ite (atomic_refuse _) (.set _))

/-- With data and without: the outcome and the data change together. -/
theorem atomic_declare (outcome : Outcome) (data : Option Bytes) : Atomic (declare outcome data) :=
  .get_bind fun _ =>
    .ite (atomic_refuse _) (.ite (atomic_refuse _) (.ite (atomic_refuse _) (.set _)))

theorem atomic_run (call : OwnerCall) : Atomic call.run := by
  cases call with
  | assignRole requested => exact atomic_assignRole requested
  | setMechanisms names => exact atomic_setMechanisms names
  | setHostname name => exact atomic_setHostname name
  | send data => exact atomic_send data
  | declare outcome data => exact atomic_declare outcome data

/-! ### Performatives -/

theorem atomic_emit (p : Performative) (after : Session) : Atomic (emit p after) :=
  .get_bind fun _ => .ofExcept_bind _ fun _ => .set_bind_pure _ _

theorem atomic_clientOutbound : Atomic clientOutbound := by
  refine .get_bind fun s => ?_
  rcases s.takeOutbound with ⟨payload, rest⟩
  refine .ite (.pure none) (.ite (.ite (atomic_emit _ _) (.pure none)) ?_)
  rcases s.localMechanisms with _ | ⟨mechanism, more⟩
  · exact .pure none
  · rcases s.remoteMechanisms with _ | ⟨name, names⟩
    · exact .pure none
    · exact atomic_emit _ _

theorem atomic_serverOutbound : Atomic serverOutbound := by
  refine .get_bind fun s => ?_
  rcases s.takeOutbound with ⟨payload, rest⟩
  refine .ite (.pure none) (.ite (.ite (.pure none) (atomic_emit _ _)) ?_)
  exact .ite (.pure none) (.ite (atomic_emit _ _) (.ite (atomic_emit _ _) (.pure none)))

theorem atomic_nextOutbound : Atomic nextOutbound := by
  refine .get_bind fun s => ?_
  cases s.role with
  | none => exact atomic_refuse _
  | some side =>
    cases side with
    | client => exact atomic_clientOutbound
    | server => exact atomic_serverOutbound

theorem atomic_clientApply (p : Performative) : Atomic (clientApply p) := by
  refine .get_bind fun s => ?_
  cases p with
  | mechanisms names => exact .ite (atomic_refuse _) (.set _)
  | challenge payload => exact .ite (atomic_refuse _) (.ite (atomic_refuse _) (.set _))
  | outcome code data => exact .ite (atomic_refuse _) (.set _)
  | init | response => exact atomic_refuse _

theorem atomic_serverApply (p : Performative) : Atomic (serverApply p) := by
  refine .get_bind fun s => ?_
  cases p with
  | init mechanism data hostname => exact .ite (atomic_refuse _) (.ite (atomic_refuse _) (.set _))
  | response payload => exact .ite (atomic_refuse _) (.set _)
  | mechanisms | challenge | outcome => exact atomic_refuse _

theorem atomic_apply (p : Performative) : Atomic (apply p) := by
  refine .get_bind fun s => ?_
  cases s.role with
  | none => exact .pure ()
  | some side =>
    cases side with
    | client => exact atomic_clientApply p
    | server => exact atomic_serverApply p

/-- Only the phase changes behind what the performative does, and that cannot fail. -/
theorem atomic_accept (p : Performative) : Atomic (accept p) :=
  .get_bind fun _ => .ofExcept_bind _ fun _ => (atomic_apply p).bind_modify _

/-- In any state: a call of the owner that is refused, a performative that cannot be sent and one
of the peer that is not taken in leave all of the session as it was. -/
theorem unchanged_of_refused (s s' : Session) (fault : Fault) :
    (∀ call : OwnerCall, on s call.run = (.error fault, s') → s' = s) ∧
      (on s nextOutbound = (.error fault, s') → s' = s) ∧
      ∀ p, on s (accept p) = (.error fault, s') → s' = s :=
  ⟨fun call => atomic_run call s fault s', atomic_nextOutbound s fault s',
    fun p => atomic_accept p s fault s'⟩

/-- A server that waits for a response, with a verdict declared and data queued, refuses another
verdict with more data and an init; one without a role has nothing to send. -/
theorem unchanged_of_refused_waiting :
    let s : Session := {
      role := some .server, phase := .challengeResponse, localMechanisms := [text "A"]
      remoteMechanisms := [text "A"], initPassed := true, challengeOpen := true
      outbound := [1], hasOutbound := true, inbound := [2], outcome := .auth }
    (∃ fault, on s (OwnerCall.declare .ok (some [3])).run = (.error fault, s)) ∧
      (∃ fault, on {} nextOutbound = (.error fault, {})) ∧
      ∃ fault, on s (accept (.init (text "B") (some [4]) none)) = (.error fault, s) := by
  intro s
  have hdeclare : on s (OwnerCall.declare .ok (some [3])).run =
      (.error (.session (.outcomeDeclared .auth .ok)), _) := rfl
  have hnext : on {} nextOutbound = (.error (.session .framesUnassigned), _) := rfl
  have haccept : on s (accept (.init (text "B") (some [4]) none)) =
      (.error (.order .receiveOutOfSequence (some .server) .challengeResponse .init), _) := rfl
  refine ⟨⟨_, hdeclare.trans (congrArg _ ?_)⟩, ⟨_, hnext.trans (congrArg _ ?_)⟩,
    ⟨_, haccept.trans (congrArg _ ?_)⟩⟩
  · exact (unchanged_of_refused s _ _).1 _ hdeclare
  · exact (unchanged_of_refused {} _ _).2.1 hnext
  · exact (unchanged_of_refused s _ _).2.2 _ haccept

end Session

end FramedSasl
