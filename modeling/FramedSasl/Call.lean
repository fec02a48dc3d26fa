import FramedSasl.Fault

/-! Calls on a state. A call answers or fails; in both cases the state it leaves behind stays. The
lemmas run a call step by step. -/

namespace FramedSasl

abbrev Call (σ : Type) := ExceptT Fault (StateM σ)

namespace Call

variable {σ α β : Type}

/-- The answer of a call and the state after it. -/
def on (s : σ) (call : Call σ α) : Except Fault α × σ := call.run s

theorem on_bind (s : σ) (call : Call σ α) (next : α → Call σ β) :
    on s (call >>= next) =
      match on s call with
      | (.error fault, s') => (.error fault, s')
      | (.ok a, s') => on s' (next a) := by
  change (match call s with | (a, s') => ExceptT.bindCont next a s') = _
  unfold on ExceptT.run
  rcases call s with ⟨_ | a, s'⟩ <;> rfl

@[simp] theorem on_pure (s : σ) (a : α) : on s (pure a) = (.ok a, s) := rfl

@[simp] theorem on_throw (s : σ) (fault : Fault) :
    on s (throw fault : Call σ α) = (.error fault, s) := rfl

@[simp] theorem on_set (s s' : σ) : on s (set s' : Call σ Unit) = (.ok (), s') := rfl

@[simp] theorem on_modify (s : σ) (f : σ → σ) :
    on s (modify f : Call σ Unit) = (.ok (), f s) := rfl

@[simp] theorem on_get_bind (s : σ) (next : σ → Call σ α) :
    on s (get >>= next) = on s (next s) := rfl

@[simp] theorem on_set_bind (s s' : σ) (next : Unit → Call σ α) :
    on s (set s' >>= next) = on s' (next ()) := rfl

@[simp] theorem on_ofExcept (s : σ) (value : Except Fault α) :
    on s (ofExcept value) = (value, s) := by
  cases value <;> rfl

@[simp] theorem on_ofExcept_bind (s : σ) (value : Except Fault α) (next : α → Call σ β) :
    on s (ofExcept value >>= next) =
      match value with
      | .error fault => (.error fault, s)
      | .ok a => on s (next a) := by
  cases value <;> rfl

/-- The answers of all the calls, each made whatever became of those before it. -/
def answers (s : σ) : List (Call σ Unit) → List (Except Fault Unit) × σ
  | [] => ([], s)
  | call :: calls =>
    let (answer, s') := on s call
    let (more, s'') := answers s' calls
    (answer :: more, s'')

/-- Makes all the calls before it looks at any answer, and fails with the first fault of these. -/
def together (calls : List (Call σ Unit)) : Call σ Unit := ExceptT.mk fun s =>
  let (all, s') := answers s calls
  (all.forM id, s')

theorem on_together_cons (s : σ) (call : Call σ Unit) (calls : List (Call σ Unit)) :
    on s (together (call :: calls)) =
      let first := on s call
      let others := on first.2 (together calls)
      (first.1.bind fun _ => others.1, others.2) := rfl

theorem on_together_of_ok {s s' : σ} {call : Call σ Unit} {calls : List (Call σ Unit)} {a : Unit}
    (h : on s call = (.ok a, s')) : on s (together (call :: calls)) = on s' (together calls) := by
  rw [on_together_cons, h]
  rfl

end Call

end FramedSasl
