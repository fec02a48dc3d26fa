import FramedSasl.Proofs.IndexedReading

/-! What every reader of a frame is made of. `Plain` goes from the single bytes through each
combination of readers up to a whole frame; what holds of each of its parts holds of all readers. So
every way to fail to read a frame is a malformed frame (`parse_error`). -/

namespace FramedSasl

namespace Wire.Reader

variable {α β : Type}

/-- Made of taking bytes, of checks of what remains, and of refusals that call the frame
malformed. -/
def Plain (reader : Reader α) : Prop := ∃ scan, Indexed reader scan

/-- Where `reader` fails, the frame is malformed. -/
def Malforms (reader : Reader α) : Prop :=
  ∀ cursor fault, reader.run cursor = .error fault → fault.kind = .malformedFrame

theorem malforms_byte : Malforms byte := by
  rintro ⟨position, rest⟩ fault h
  cases rest with
  | nil => cases h; rfl
  | cons b rest => cases h

theorem malforms_word : Malforms word := by
  rintro ⟨position, rest⟩ fault h
  rcases rest with _ | ⟨b₀, _ | ⟨b₁, _ | ⟨b₂, _ | ⟨b₃, rest⟩⟩⟩⟩
  case cons.cons.cons.cons => cases h
  all_goals
    cases h
    rfl

theorem malforms_bytes (n : Nat) : Malforms (bytes n) := by
  intro cursor fault h
  rw [run_bytes] at h
  split at h
  · cases h; rfl
  · cases h

namespace Plain

theorem malforms {reader : Reader α} (h : Plain reader) : Malforms reader := by
  obtain ⟨scan, h⟩ := h
  induction h with
  | pure value =>
    intro cursor fault h
    cases h
  | throw hmalformed =>
    intro cursor fault h
    cases h
    exact hmalformed
  | throwAt hmalformed =>
    intro cursor fault h
    cases h
    exact hmalformed _
  | byte => exact malforms_byte
  | word => exact malforms_word
  | bytes n => exact malforms_bytes n
  | peek next hnone hsome ih =>
    rintro ⟨position, _ | ⟨b, rest⟩⟩ fault h
    · cases (hnone position).symm.trans h
      rfl
    · exact ih b _ fault h
  | @check α short _ refusal next next' mono hmalformed hnext ih =>
    intro cursor fault h
    change (if short cursor.remaining then _ else _ : Reader α).run cursor = _ at h
    split at h
    · cases h
      exact hmalformed _
    · exact ih cursor fault h
  | @bind α β first first' next next' _ _ hfirst hnext =>
    intro cursor fault h
    rw [StateT.run_bind] at h
    rcases hrun : first.run cursor with cause | ⟨value, cursor'⟩
    · rw [hrun] at h
      cases h
      exact hfirst cursor _ hrun
    · rw [hrun] at h
      exact hnext value cursor' fault h

theorem pure (value : α) : Plain (Pure.pure value : Reader α) := ⟨_, .pure value⟩

theorem throw {fault : Fault} (malformed : fault.kind = .malformedFrame) :
    Plain (throw fault : Reader α) := ⟨_, .throw malformed⟩

theorem byte : Plain byte := ⟨_, .byte⟩

theorem bind {first : Reader α} {next : α → Reader β} (hfirst : Plain first)
    (hnext : ∀ value, Plain (next value)) : Plain (first >>= next) := by
  obtain ⟨first', hfirst⟩ := hfirst
  exact ⟨_, hfirst.bind fun value => (hnext value).choose_spec⟩

/-- A check of what remains, which holds of more bytes where it holds of fewer. -/
theorem check {short : Nat → Prop} [DecidablePred short] {fault : Nat → ReadFault}
    {next : Reader α} (mono : ∀ m n, m ≤ n → short n → short m) (hnext : Plain next) :
    Plain (remaining >>= fun left => if short left then Reader.refuse (fault left) else next) := by
  obtain ⟨next', hnext⟩ := hnext
  exact ⟨_, .check mono (fun _ => rfl) hnext⟩

theorem map (f : α → β) {reader : Reader α} (h : Plain reader) : Plain (f <$> reader) := by
  rw [← bind_pure_comp]
  exact h.bind fun value => pure (f value)

theorem refuse (fault : ReadFault) : Plain (Reader.refuse fault : Reader α) := .throw rfl

theorem refuseAt (fault : Nat → ReadFault) :
    Plain (get >>= fun c => Reader.refuse (fault c.position) : Reader α) :=
  ⟨_, @Indexed.throwAt α (fun position => .read (fault position)) fun _ => rfl⟩

theorem ite {condition : Prop} [Decidable condition] {first second : Reader α}
    (hfirst : Plain first) (hsecond : Plain second) :
    Plain (if condition then first else second) := by
  split
  · exact hfirst
  · exact hsecond

end Plain

/-! ### Fields -/

theorem plain_size (width : Width) : Plain (size width) := by
  cases width with
  | bits8 => exact Plain.byte.map _
  | bits32 => exact ⟨_, .word⟩

theorem plain_sizedBytes (width : Width) : Plain (sizedBytes width) :=
  (plain_size width).bind fun n => ⟨_, .bytes n⟩

theorem plain_sizedValue (narrow wide code : UInt8) : Plain (sizedValue narrow wide code) :=
  .ite (plain_sizedBytes _) <| .ite (plain_sizedBytes _) <|
    .refuseAt fun position => .wrongTypeCode code (position - 1)

theorem plain_optional (narrow wide : UInt8) : Plain (optional narrow wide) :=
  Plain.byte.bind fun code => .ite (.pure none) ((plain_sizedValue narrow wide code).map some)

theorem plain_ubyte? : Plain ubyte? :=
  Plain.byte.bind fun _ => .ite (.pure none) (.ite (Plain.byte.map some) (.refuse _))

theorem plain_descriptor : Plain descriptor := by
  have hword : Plain word := plain_size .bits32
  refine Plain.byte.bind fun _ => .ite (.refuse _) (Plain.byte.bind fun _ => ?_)
  refine .ite (Plain.byte.map _) (.ite ?_ (.refuse _))
  exact hword.bind fun _ => hword.bind fun _ => .pure _

theorem plain_listCount (width : Width) (least : Nat) : Plain (listCount width least) := by
  refine (plain_size width).bind fun n => .check ?_ (plain_size width)
  omega

theorem plain_listHeader : Plain listHeader :=
  Plain.byte.bind fun _ => .ite (.pure 0)
    (.ite (plain_listCount _ _) (.ite (plain_listCount _ _) (.refuse _)))

theorem plain_elements {readers : List (Reader α)}
    (h : ∀ reader ∈ readers, Plain reader) : Plain (readers.mapM id) := by
  induction readers with
  | nil => exact .pure []
  | cons reader readers ih =>
    obtain ⟨hreader, hreaders⟩ := List.forall_mem_cons.1 h
    rw [List.mapM_cons]
    exact hreader.bind fun _ => (ih hreaders).bind fun _ => .pure _

theorem plain_arrayBody (width : Width) : Plain (arrayBody width) := by
  have hshorter (count m left : Nat) (hle : m ≤ left) : left < count → m < count :=
    Nat.lt_of_le_of_lt hle
  refine (plain_size width).bind fun n => .check (hshorter n) ?_
  refine (plain_size width).bind fun count => Plain.byte.bind fun _ => .ite (.refuse _) ?_
  refine .check (hshorter count) (plain_elements ?_)
  intro reader hmem
  rw [List.eq_of_mem_replicate hmem]
  exact plain_sizedBytes _

theorem plain_symbols : Plain symbols := by
  -- the code is looked at before it is taken; without one, the last branch refuses
  let next (code : Option UInt8) : Reader (List Bytes) :=
    if code = some TypeCode.array8 then do discard byte; arrayBody .bits8
    else if code = some TypeCode.array32 then do discard byte; arrayBody .bits32
    else return (← symbol?).toList
  have hnext (code : Option UInt8) : Plain (next code) := by
    refine .ite ?_ (.ite ?_ ?_)
    · exact (Plain.byte.map _).bind fun _ => plain_arrayBody _
    · exact (Plain.byte.map _).bind fun _ => plain_arrayBody _
    · exact (plain_optional _ _).bind fun _ => .pure _
  exact ⟨_, .peek next (fun _ => rfl) fun b => (hnext (some b)).choose_spec⟩

end Wire.Reader

/-! ### Performatives -/

namespace Performative

open Wire.Reader

variable {α : Type}

theorem plain_mandatory {field : Wire.Reader (Option α)} (kind : Kind) (count : Nat)
    (h : Plain field) : Plain (mandatory kind count field) := by
  refine .ite (.throw rfl) (h.bind fun value => ?_)
  cases value with
  | none => exact .throw rfl
  | some value => exact .pure value

theorem plain_trailing {field : Wire.Reader (Option α)} (index count : Nat)
    (h : Plain field) : Plain (trailing index count field) :=
  .ite h (.pure none)

theorem plain_readFields (kind : Kind) (count : Nat) : Plain (readFields kind count) := by
  have hpayload := plain_optional Wire.TypeCode.binary8 Wire.TypeCode.binary32
  cases kind with
  | mechanisms => exact .ite (.pure _) (plain_symbols.map _)
  | init =>
    refine (plain_mandatory _ _ (plain_optional _ _)).bind fun _ => ?_
    refine (plain_trailing _ _ hpayload).bind fun _ => ?_
    exact (plain_trailing _ _ (plain_optional _ _)).bind fun _ => .pure _
  | challenge => exact (plain_mandatory _ _ hpayload).map _
  | response => exact (plain_mandatory _ _ hpayload).map _
  | outcome =>
    refine (plain_mandatory _ _ plain_ubyte?).bind fun byte => ?_
    cases Outcome.ofCode? byte with
    | none => exact .throw rfl
    | some code => exact (plain_trailing _ _ hpayload).bind fun _ => .pure _

theorem plain_read : Plain Performative.read := by
  refine plain_descriptor.bind fun descriptor => ?_
  cases Kind.ofDescriptor? descriptor with
  | none => exact .throw rfl
  | some kind => exact plain_listHeader.bind fun _ => plain_readFields kind _

end Performative

namespace Frame

variable {data : Bytes} {fault : Fault} {frame : Frame}

theorem ofBody_error {body : Performative} {flags : UInt8} (h : ofBody body flags = .error fault) :
    fault.kind = .malformedFrame := by
  unfold ofBody at h
  dsimp only at h
  split at h
  · cases h; rfl
  · cases h

theorem more_of_ofBody {body : Performative} {flags : UInt8} (h : ofBody body flags = .ok frame)
    (hmore : frame.more = true) : frame.body.kind ≠ .mechanisms := by
  unfold ofBody at h
  dsimp only at h
  split at h
  · cases h
  · next hwhole =>
    cases h
    exact fun hkind => hwhole ⟨of_decide_eq_true hmore, hkind⟩

/-- A frame is refused as malformed, or it is down to its body and flags. -/
theorem parse_cases (data : Bytes) :
    (∃ fault, parse data = .error fault ∧ fault.kind = .malformedFrame) ∨
      ∃ body flags, parse data = ofBody body flags := by
  unfold parse
  split
  · next b₀ b₁ b₂ b₃ doff type _ flags rest =>
    dsimp only
    generalize Wire.Cursor.mk 0 _ = cursor
    repeat' split
    all_goals first | exact .inl ⟨_, rfl, rfl⟩ | skip
    rcases hread : Performative.read.run cursor with fault | ⟨body, cursor'⟩
    · exact .inl ⟨fault, rfl, Performative.plain_read.malforms cursor fault hread⟩
    · exact .inr ⟨body, flags, rfl⟩
  · exact .inl ⟨_, rfl, rfl⟩

theorem parse_error (h : parse data = .error fault) : fault.kind = .malformedFrame := by
  rcases parse_cases data with ⟨cause, hparse, hkind⟩ | ⟨body, flags, hparse⟩
  · cases hparse.symm.trans h
    exact hkind
  · exact ofBody_error (hparse.symm.trans h)

theorem more_of_parse (h : parse data = .ok frame) (hmore : frame.more = true) :
    frame.body.kind ≠ .mechanisms := by
  rcases parse_cases data with ⟨cause, hparse, -⟩ | ⟨body, flags, hparse⟩
  · cases hparse.symm.trans h
  · exact more_of_ofBody (hparse.symm.trans h) hmore

end Frame

end FramedSasl
