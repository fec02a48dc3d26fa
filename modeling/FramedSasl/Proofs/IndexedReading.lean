import FramedSasl.Frame

/-! Readers and the bytes they look at. A `Scan` keeps all bytes and looks at them by index; where
an index lies outside there is no result. `Indexed` pairs what every reader of a frame is made of
with such looks, each behind the check that stands in front of it. So no reader of a frame looks
outside (`scan_eq`), none depends on what lies behind the bytes it takes (`append`), and what it
takes is the front of what is left (`consumes`). -/

namespace FramedSasl

namespace Wire

/-- Reads by index from bytes that stay, at a position that moves. There is no result once it has
looked outside of them. -/
def Scan (α : Type) : Type := Bytes → Nat → Option (Except Fault (α × Nat))

namespace Scan

variable {α : Type}

instance : Monad Scan where
  pure value := fun _ position => some (.ok (value, position))
  bind first next := fun data position =>
    match first data position with
    | none => none
    | some (.error fault) => some (.error fault)
    | some (.ok (value, position')) => next value data position'

theorem bind_eq {β : Type} (first : Scan α) (next : α → Scan β) (data : Bytes) (position : Nat) :
    (first >>= next) data position = match first data position with
      | none => none
      | some (.error fault) => some (.error fault)
      | some (.ok (value, position')) => next value data position' := rfl

theorem bind_ok {β : Type} {first : Scan α} {next : α → Scan β} {data : Bytes}
    {position position' : Nat} {value : α}
    (h : first data position = some (.ok (value, position'))) :
    (first >>= next) data position = next value data position' := by
  rw [bind_eq, h]

def refuse (fault : Fault) : Scan α := fun _ _ => some (.error fault)

def position : Scan Nat := fun _ position => some (.ok (position, position))

def advance (n : Nat) : Scan Unit := fun _ position => some (.ok ((), position + n))

/-- How many bytes there are from the position on, which must not lie behind the end. -/
def remaining : Scan Nat := fun data position =>
  if position ≤ data.length then some (.ok (data.length - position, position)) else none

def look (index : Nat) : Scan UInt8 := fun data position =>
  data[index]?.map fun b => .ok (b, position)

/-- `n` bytes from `start` on, all of which must be there. -/
def slice? (data : Bytes) (start n : Nat) : Option Bytes :=
  if start + n ≤ data.length then some ((data.drop start).take n) else none

def slice (n : Nat) : Scan Bytes := fun data position =>
  (slice? data position n).map fun taken => .ok (taken, position)

def peek : Scan UInt8 := do
  let start ← position
  if (← remaining) < 1 then refuse (.read (.endOfBody start)) else look start

def byte : Scan UInt8 := do
  let b ← peek
  advance 1
  return b

def word : Scan Nat := do
  let start ← position
  let left ← remaining
  if left < 4 then refuse (.read (.truncatedWord start left))
  else
    let b₀ ← look start
    let b₁ ← look (start + 1)
    let b₂ ← look (start + 2)
    let b₃ ← look (start + 3)
    advance 4
    return readBE [b₀, b₁, b₂, b₃]

def bytes (n : Nat) : Scan Bytes := do
  let left ← remaining
  if left < n then refuse (.read (.lengthTooLong n left))
  else
    let taken ← slice n
    advance n
    return taken

end Scan

namespace Cursor

/-- It lies in `data`, and what is left reaches to its end. -/
structure Within (c : Cursor) (data : Bytes) : Prop where
  span_eq : c.position + c.remaining = data.length
  rest_eq : c.rest = data.drop c.position

/-- The next one behind `taken`. -/
structure Moves (c : Cursor) (taken : Bytes) (c' : Cursor) : Prop where
  rest_eq : c.rest = taken ++ c'.rest
  position_eq : c'.position = c.position + taken.length

/-- The same in front of more bytes. -/
def extend (c : Cursor) (tail : Bytes) : Cursor := ⟨c.position, c.rest ++ tail⟩

variable {c c' c'' : Cursor} {data taken taken' : Bytes}

theorem Moves.refl (c : Cursor) : c.Moves [] c := ⟨rfl, rfl⟩

theorem Moves.trans (h : c.Moves taken c') (h' : c'.Moves taken' c'') :
    c.Moves (taken ++ taken') c'' where
  rest_eq := by rw [h.rest_eq, h'.rest_eq, List.append_assoc]
  position_eq := by rw [h'.position_eq, h.position_eq, List.length_append, Nat.add_assoc]

theorem Within.start (data : Bytes) : Within { rest := data } data := ⟨Nat.zero_add _, rfl⟩

theorem Within.moves (h : c.Within data) (hmoves : c.Moves taken c') : c'.Within data where
  span_eq := by
    rw [← h.span_eq, hmoves.position_eq, remaining, remaining, hmoves.rest_eq,
      List.length_append, Nat.add_assoc]
  rest_eq := by
    rw [hmoves.position_eq, ← List.drop_drop, ← h.rest_eq, hmoves.rest_eq, List.drop_left]

/-- What stands in front of the cursor stands at its position. -/
theorem Within.getElem?_eq (h : c.Within data) (i : Nat) :
    data[c.position + i]? = c.rest[i]? := by
  rw [h.rest_eq, List.getElem?_drop]

end Cursor

namespace Reader

variable {α β : Type}

theorem run_bind_ok {first : Reader α} {next : α → Reader β} {cursor cursor' : Cursor}
    {b : β} (h : (first >>= next).run cursor = .ok (b, cursor')) :
    ∃ a middle, first.run cursor = .ok (a, middle) ∧ (next a).run middle = .ok (b, cursor') := by
  rw [StateT.run_bind] at h
  rcases hrun : first.run cursor with fault | ⟨a, middle⟩
  · rw [hrun] at h
    cases h
  · rw [hrun] at h
    exact ⟨a, middle, rfl, h⟩

/-! ### What is taken -/

/-- What `reader` takes is the front of what is left, and is related to what it answers. -/
def Consumes (reader : Reader α) (spec : Bytes → α → Prop) : Prop :=
  ∀ c value c', reader.run c = .ok (value, c') → ∃ taken, c.Moves taken c' ∧ spec taken value

namespace Consumes

variable {spec : Bytes → α → Prop} {spec' : Bytes → β → Prop} {reader : Reader α}

theorem pure {value : α} (h : spec [] value) : Consumes (Pure.pure value) spec := by
  rintro c _ _ ⟨⟩
  exact ⟨[], .refl c, h⟩

theorem throw (fault : Fault) : Consumes (throw fault) spec := by
  rintro c _ _ ⟨⟩

theorem bind {mid : α → Bytes → β → Prop} {next : α → Reader β} (h : Consumes reader spec)
    (hnext : ∀ value, Consumes (next value) (mid value))
    (hspec : ∀ taken value taken' value', spec taken value → mid value taken' value' →
      spec' (taken ++ taken') value') :
    Consumes (reader >>= next) spec' := by
  intro c value' c'' hrun
  obtain ⟨value, c', hfirst, hsecond⟩ := run_bind_ok hrun
  obtain ⟨taken, hmoves, hvalue⟩ := h c value c' hfirst
  obtain ⟨taken', hmoves', hvalue'⟩ := hnext value c' value' c'' hsecond
  exact ⟨taken ++ taken', hmoves.trans hmoves', hspec _ _ _ _ hvalue hvalue'⟩

theorem mono {other : Bytes → α → Prop} (h : Consumes reader spec)
    (hspec : ∀ taken value, spec taken value → other taken value) : Consumes reader other := by
  intro c value c' hrun
  obtain ⟨taken, hmoves, hvalue⟩ := h c value c' hrun
  exact ⟨taken, hmoves, hspec taken value hvalue⟩

theorem map {f : α → β} (h : Consumes reader spec)
    (hspec : ∀ taken value, spec taken value → spec' taken (f value)) :
    Consumes (f <$> reader) spec' := by
  rw [← bind_pure_comp]
  let mid (value : α) (taken : Bytes) (value' : β) : Prop := taken = [] ∧ value' = f value
  have hpure (value : α) : Consumes (Pure.pure (f value)) (mid value) := pure ⟨rfl, rfl⟩
  refine h.bind hpure ?_
  rintro taken value _ _ hvalue ⟨rfl, rfl⟩
  rw [List.append_nil]
  exact hspec taken value hvalue

theorem ite {condition : Prop} [Decidable condition] {other : Reader α}
    (h : Consumes reader spec) (hother : Consumes other spec) :
    Consumes (if condition then reader else other) spec := by
  split
  · exact h
  · exact hother

end Consumes

theorem consumes_byte : Consumes byte fun taken b => taken = [b] := by
  rintro ⟨position, _ | ⟨b, rest⟩⟩ _ _ ⟨⟩
  exact ⟨[b], ⟨rfl, rfl⟩, rfl⟩

theorem consumes_word : Consumes word fun taken n => readBE taken = n ∧ taken.length = 4 := by
  rintro ⟨position, _ | ⟨b₀, _ | ⟨b₁, _ | ⟨b₂, _ | ⟨b₃, rest⟩⟩⟩⟩⟩ _ _ ⟨⟩
  exact ⟨[b₀, b₁, b₂, b₃], ⟨rfl, rfl⟩, rfl, rfl⟩

theorem run_bytes (n : Nat) (c : Cursor) : (bytes n).run c =
    if c.remaining < n then .error (.read (.lengthTooLong n c.remaining))
    else .ok (c.rest.take n, ⟨c.position + n, c.rest.drop n⟩) := by
  change (if _ then _ else _) = _
  have hiff : (c.rest.take n).length < n ↔ c.remaining < n := by
    rw [List.length_take, Cursor.remaining]
    omega
  simp only [hiff]

theorem consumes_bytes (n : Nat) : Consumes (bytes n) fun taken value => taken = value := by
  intro c value c' h
  rw [run_bytes] at h
  split at h
  · cases h
  · next hroom =>
    cases h
    refine ⟨c.rest.take n, ⟨(List.take_append_drop n c.rest).symm, ?_⟩, rfl⟩
    rw [List.length_take_of_le (Nat.le_of_not_lt hroom)]

/-! ### Looks by index -/

/-- A reader, and the same by index: it is made of taking bytes, of checks of what remains, and of
refusals that call the frame malformed. A check that lets some length pass lets every larger one
pass. -/
inductive Indexed : {α : Type} → Reader α → Scan α → Prop
  | pure {α : Type} (value : α) : Indexed (Pure.pure value) (Pure.pure value)
  | throw {α : Type} {fault : Fault} (malformed : fault.kind = .malformedFrame) :
      Indexed (throw fault : Reader α) (Scan.refuse fault)
  | throwAt {α : Type} {fault : Nat → Fault}
      (malformed : ∀ position, (fault position).kind = .malformedFrame) :
      Indexed (get >>= fun c => throw (fault c.position) : Reader α)
        (Scan.position >>= fun position => Scan.refuse (fault position))
  | byte : Indexed byte Scan.byte
  | word : Indexed word Scan.word
  | bytes (n : Nat) : Indexed (bytes n) (Scan.bytes n)
  | peek {α : Type} (next : Option UInt8 → Reader α) {next' : UInt8 → Scan α}
      (hnone : ∀ position, (next none).run ⟨position, []⟩ = .error (.read (.endOfBody position)))
      (hsome : ∀ b, Indexed (next (some b)) (next' b)) :
      Indexed (get >>= fun c => next c.rest.head?) (Scan.peek >>= next')
  | check {α : Type} {short : Nat → Prop} [DecidablePred short] {fault : Nat → Fault}
      {next : Reader α} {next' : Scan α} (mono : ∀ m n, m ≤ n → short n → short m)
      (malformed : ∀ left, (fault left).kind = .malformedFrame) (hnext : Indexed next next') :
      Indexed (remaining >>= fun left => if short left then throw (fault left) else next)
        (Scan.remaining >>= fun left => if short left then Scan.refuse (fault left) else next')
  | bind {α β : Type} {first : Reader α} {first' : Scan α} {next : α → Reader β}
      {next' : α → Scan β} (hfirst : Indexed first first')
      (hnext : ∀ value, Indexed (next value) (next' value)) :
      Indexed (first >>= next) (first' >>= next')

namespace Indexed

variable {reader : Reader α} {scan : Scan α} {c c' : Cursor} {data : Bytes} {value : α}

theorem consumes (h : Indexed reader scan) : Consumes reader fun _ _ => True := by
  induction h with
  | pure value => exact .pure trivial
  | throw => exact .throw _
  | throwAt =>
    rintro c _ _ ⟨⟩
  | byte => exact consumes_byte.mono fun _ _ _ => trivial
  | word => exact consumes_word.mono fun _ _ _ => trivial
  | bytes n => exact (consumes_bytes n).mono fun _ _ _ => trivial
  | peek next hnone hsome ih =>
    rintro ⟨position, rest⟩ value c' h
    change (next rest.head?).run _ = _ at h
    cases rest with
    | nil => cases (hnone position).symm.trans h
    | cons b rest => exact ih b _ value c' h
  | @check α short _ fault next next' mono malformed hnext ih =>
    intro c value c' h
    change (if short c.remaining then _ else _ : Reader α).run c = _ at h
    split at h
    · cases h
    · exact ih c value c' h
  | bind _ _ hfirst hnext => exact hfirst.bind hnext fun _ _ _ _ _ _ => trivial

/-- What lies behind the bytes that are taken is not looked at. -/
theorem append (h : Indexed reader scan) (hrun : reader.run c = .ok (value, c')) (tail : Bytes) :
    reader.run (c.extend tail) = .ok (value, c'.extend tail) := by
  induction h generalizing c c' with
  | pure value =>
    cases hrun
    rfl
  | throw | throwAt => cases hrun
  | byte =>
    obtain ⟨position, _ | ⟨b, rest⟩⟩ := c <;> cases hrun
    rfl
  | word =>
    obtain ⟨position, _ | ⟨b₀, _ | ⟨b₁, _ | ⟨b₂, _ | ⟨b₃, rest⟩⟩⟩⟩⟩ := c <;> cases hrun
    rfl
  | bytes n =>
    rw [run_bytes] at hrun ⊢
    split at hrun
    · cases hrun
    · next hroom =>
      cases hrun
      have hle : n ≤ c.rest.length := Nat.le_of_not_lt hroom
      rw [if_neg (by simp only [Cursor.extend, Cursor.remaining, List.length_append]; omega)]
      simp only [Cursor.extend, List.take_append_of_le_length hle,
        List.drop_append_of_le_length hle]
  | peek next hnone hsome ih =>
    obtain ⟨position, _ | ⟨b, rest⟩⟩ := c
    · cases (hnone position).symm.trans hrun
    · exact ih b hrun
  | @check α short _ fault next next' mono malformed hnext ih =>
    change (if short c.remaining then _ else _ : Reader α).run c = _ at hrun
    change (if short (c.extend tail).remaining then _ else _ : Reader α).run (c.extend tail) = _
    split at hrun
    · cases hrun
    · next hroom =>
      have hle : c.remaining ≤ (c.extend tail).remaining := by
        simp only [Cursor.extend, Cursor.remaining, List.length_append]
        omega
      -- what was long enough still is
      rw [if_neg fun hshort => hroom (mono _ _ hle hshort)]
      exact ih hrun
  | bind _ _ hfirst hnext =>
    obtain ⟨a, middle, hrun, hrest⟩ := run_bind_ok hrun
    rw [StateT.run_bind, hfirst hrun]
    exact hnext a hrest

theorem scan_remaining (hc : c.Within data) :
    Scan.remaining data c.position = some (.ok (c.remaining, c.position)) := by
  rw [Scan.remaining, ← hc.span_eq, if_pos (Nat.le_add_right _ _), Nat.add_sub_cancel_left]

theorem scan_look (hc : c.Within data) {i : Nat} {b : UInt8} (h : c.rest[i]? = some b) :
    Scan.look (c.position + i) data c.position = some (.ok (b, c.position)) := by
  rw [Scan.look, hc.getElem?_eq, h]
  rfl

theorem scan_slice (hc : c.Within data) {n : Nat} (h : n ≤ c.remaining) :
    Scan.slice n data c.position = some (.ok (c.rest.take n, c.position)) := by
  rw [Scan.slice, Scan.slice?, ← hc.span_eq, if_pos (Nat.add_le_add_left h _), hc.rest_eq]
  rfl

theorem scan_peek (hc : c.Within data) : Scan.peek data c.position = match c.rest with
    | [] => some (.error (.read (.endOfBody c.position)))
    | b :: _ => some (.ok (b, c.position)) := by
  change (Scan.remaining >>= fun left => if left < 1 then _ else _) data c.position = _
  rw [Scan.bind_eq, scan_remaining hc]
  obtain ⟨position, _ | ⟨b, rest⟩⟩ := c
  · rfl
  · exact scan_look hc (i := 0) rfl

/-- No look is outside of the bytes. -/
theorem scan_eq (h : Indexed reader scan) (hc : c.Within data) : scan data c.position =
    some ((reader.run c).map fun (value, c') => (value, c'.position)) := by
  induction h generalizing c with
  | pure | throw | throwAt => rfl
  | byte =>
    rw [Scan.byte, Scan.bind_eq, scan_peek hc]
    obtain ⟨position, _ | ⟨b, rest⟩⟩ := c <;> rfl
  | word =>
    change (Scan.remaining >>= fun left => if left < 4 then _ else _) data c.position = _
    rw [Scan.bind_eq, scan_remaining hc]
    obtain ⟨position, _ | ⟨b₀, _ | ⟨b₁, _ | ⟨b₂, _ | ⟨b₃, rest⟩⟩⟩⟩⟩ := c
    case cons.cons.cons.cons =>
      refine (Scan.bind_ok (scan_look hc (i := 0) rfl)).trans ?_
      refine (Scan.bind_ok (scan_look hc (i := 1) rfl)).trans ?_
      refine (Scan.bind_ok (scan_look hc (i := 2) rfl)).trans ?_
      exact Scan.bind_ok (scan_look hc (i := 3) rfl)
    all_goals rfl
  | bytes n =>
    rw [Scan.bytes, Scan.bind_eq, scan_remaining hc, run_bytes]
    dsimp only
    split
    · rfl
    · next hroom => exact Scan.bind_ok (scan_slice hc (Nat.le_of_not_lt hroom))
  | peek next hnone hsome ih =>
    rw [Scan.bind_eq, scan_peek hc]
    obtain ⟨position, _ | ⟨b, rest⟩⟩ := c
    · change _ = some (((next none).run ⟨position, []⟩).map _)
      rw [hnone]
      rfl
    · exact ih b hc
  | @check α short _ fault next next' mono malformed hnext ih =>
    rw [Scan.bind_eq, scan_remaining hc]
    dsimp only
    change _ = some (((if short c.remaining then _ else _ : Reader α).run c).map _)
    split
    · rfl
    · exact ih hc
  | @bind α β first first' next next' hfirst hnext ihfirst ihnext =>
    rw [Scan.bind_eq, ihfirst hc, StateT.run_bind]
    rcases hrun : first.run c with fault | ⟨a, middle⟩
    · rfl
    · -- the second reader starts where the first one stopped, which is still within
      obtain ⟨taken, hmoves, -⟩ := hfirst.consumes c a middle hrun
      exact ihnext a (hc.moves hmoves)

end Indexed

end Reader

end Wire

end FramedSasl
