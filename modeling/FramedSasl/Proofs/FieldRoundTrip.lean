import FramedSasl.Wire.Field
import FramedSasl.Wire.Reader

/-! Fields read back. `Takes` says that a reader takes exactly some written bytes off the front,
whatever lies behind them, and answers a value; it goes through every step of a reader, so each
field of `Wire.Field` is read back by the reader of its type. -/

namespace FramedSasl

theorem length_be32 (n : Nat) : (be32 n).length = 4 := rfl

theorem readBE_be32 {n : Nat} (h : n < wordCount) : readBE (be32 n) = n := by
  simp only [readBE, be32, List.foldl_cons, List.foldl_nil, UInt8.toNat_ofNat']
  simp only [wordCount] at h
  omega

theorem toNat_ofNat_narrow {n : Nat} (h : n ≤ Wire.maxNarrow) : (UInt8.ofNat n).toNat = n := by
  rw [UInt8.toNat_ofNat']
  exact Nat.mod_eq_of_lt (Nat.lt_of_le_of_lt h (by decide))

namespace Wire

theorem length_sized (narrow wide : UInt8) (bytes : Bytes) :
    bytes.length + 2 ≤ (sized narrow wide bytes).length ∧
      (sized narrow wide bytes).length ≤ bytes.length + 5 := by
  unfold sized
  split <;> simp only [List.length_cons, List.length_append, length_be32] <;> omega

namespace Reader

variable {α β : Type}

/-- The reader takes `written` off the front of any bytes and answers `value`. -/
def Takes (reader : Reader α) (written : Bytes) (value : α) : Prop :=
  ∀ position rest,
    reader.run ⟨position, written ++ rest⟩ = .ok (value, ⟨position + written.length, rest⟩)

namespace Takes

theorem pure (value : α) : Takes (Pure.pure value) [] value := fun _ _ => rfl

theorem bind {reader : Reader α} {next : α → Reader β} {front back : Bytes} {a : α} {b : β}
    (hfront : Takes reader front a) (hback : Takes (next a) back b) :
    Takes (reader >>= next) (front ++ back) b := by
  intro position rest
  rw [StateT.run_bind, List.append_assoc, hfront, List.length_append, ← Nat.add_assoc]
  exact hback _ rest

theorem map {reader : Reader α} {written : Bytes} {a : α} (f : α → β)
    (h : Takes reader written a) : Takes (f <$> reader) written (f a) := by
  intro position rest
  rw [StateT.run_map, h]
  rfl

/-- What remains is at least what is about to be taken. -/
theorem remaining_bind {next : Nat → Reader β} {written : Bytes} {b : β}
    (h : ∀ left, written.length ≤ left → Takes (next left) written b) :
    Takes (remaining >>= next) written b := by
  intro position rest
  exact h (written ++ rest).length (by simp) position rest

end Takes

theorem takes_byte (b : UInt8) : Takes byte [b] b := fun _ _ => rfl

theorem takes_byte_bind {next : UInt8 → Reader β} {b : UInt8} {written : Bytes} {value : β}
    (h : Takes (next b) written value) : Takes (byte >>= next) (b :: written) value :=
  (takes_byte b).bind h

theorem takes_word {n : Nat} (h : n < wordCount) : Takes word (be32 n) n := by
  intro position rest
  change Except.ok (readBE (be32 n), _) = _
  rw [readBE_be32 h]
  rfl

theorem takes_bytes (bytes : Bytes) : Takes (Reader.bytes bytes.length) bytes bytes := by
  intro position rest
  change (if _ then _ else _) = _
  rw [List.take_left, List.drop_left, if_neg (Nat.lt_irrefl _)]

theorem takes_narrow_size {n : Nat} (h : n ≤ maxNarrow) :
    Takes (size .bits8) [UInt8.ofNat n] n := by
  have := (takes_byte (UInt8.ofNat n)).map UInt8.toNat
  rwa [toNat_ofNat_narrow h] at this

theorem takes_narrow_size_bind {next : Nat → Reader β} {n : Nat} {written : Bytes} {value : β}
    (h : n ≤ maxNarrow) (hnext : Takes (next n) written value) :
    Takes (size .bits8 >>= next) (UInt8.ofNat n :: written) value :=
  (takes_narrow_size h).bind hnext

theorem takes_narrow_bytes {bytes : Bytes} (h : bytes.length ≤ maxNarrow) :
    Takes (sizedBytes .bits8) (UInt8.ofNat bytes.length :: bytes) bytes :=
  takes_narrow_size_bind h (takes_bytes bytes)

theorem takes_wide_bytes {bytes : Bytes} (h : bytes.length < wordCount) :
    Takes (sizedBytes .bits32) (be32 bytes.length ++ bytes) bytes :=
  (takes_word h).bind (takes_bytes bytes)

/-! ### Fields -/

theorem takes_optional_null (narrow wide : UInt8) :
    Takes (optional narrow wide) (Field.encode .null) none :=
  takes_byte_bind (Takes.pure none)

theorem takes_optional_sized {narrow wide : UInt8} {bytes : Bytes}
    (hnarrow : narrow ≠ TypeCode.null) (hwide : wide ≠ TypeCode.null) (hne : wide ≠ narrow)
    (h : bytes.length < wordCount) :
    Takes (optional narrow wide) (sized narrow wide bytes) (some bytes) := by
  unfold sized optional
  split
  · next hlen =>
    refine takes_byte_bind ?_
    simp only [if_neg hnarrow, sizedValue, if_true]
    exact (takes_narrow_bytes hlen).map some
  · refine takes_byte_bind ?_
    simp only [if_neg hwide, sizedValue, if_neg hne, if_true]
    exact (takes_wide_bytes h).map some

theorem takes_binary? {bytes : Bytes} (h : bytes.length < wordCount) :
    Takes binary? (Field.encode (.binary bytes)) (some bytes) :=
  takes_optional_sized (by decide) (by decide) (by decide) h

theorem takes_string? {bytes : Bytes} (h : bytes.length < wordCount) :
    Takes string? (Field.encode (.string bytes)) (some bytes) :=
  takes_optional_sized (by decide) (by decide) (by decide) h

theorem takes_symbol? {bytes : Bytes} (h : bytes.length < wordCount) :
    Takes symbol? (Field.encode (.symbol bytes)) (some bytes) :=
  takes_optional_sized (by decide) (by decide) (by decide) h

theorem takes_ubyte? (value : UInt8) : Takes ubyte? (Field.encode (.ubyte value)) (some value) := by
  refine takes_byte_bind ?_
  exact (takes_byte value).map some

/-! ### Arrays of symbols -/

def narrowElement (name : Bytes) : Bytes := UInt8.ofNat name.length :: name

def wideElement (name : Bytes) : Bytes := be32 name.length ++ name

theorem narrowArrayBody_eq (names : List Bytes) : narrowArrayBody names =
    [UInt8.ofNat names.length, TypeCode.symbol8] ++ names.flatMap narrowElement := rfl

theorem wideArrayBody_eq (names : List Bytes) : wideArrayBody names =
    be32 names.length ++ [TypeCode.symbol32] ++ names.flatMap wideElement := rfl

theorem takes_elements {element : Reader Bytes} {enclose : Bytes → Bytes} {names : List Bytes}
    (h : ∀ name ∈ names, Takes element (enclose name) name) :
    Takes ((List.replicate names.length element).mapM id) (names.flatMap enclose) names := by
  induction names with
  | nil => exact Takes.pure []
  | cons name names ih =>
    obtain ⟨hname, hnames⟩ := List.forall_mem_cons.1 h
    rw [List.length_cons, List.replicate_succ, List.mapM_cons, List.flatMap_cons]
    refine hname.bind ?_
    rw [← List.append_nil (names.flatMap enclose)]
    exact (ih hnames).bind (Takes.pure (name :: names))

/-- Every name takes at least the byte of its size. -/
theorem length_le_flatMap (enclose : Bytes → Bytes) {names : List Bytes}
    (h : ∀ name ∈ names, name.length < (enclose name).length) :
    names.length ≤ (names.flatMap enclose).length := by
  induction names with
  | nil => exact Nat.le_refl 0
  | cons name names ih =>
    obtain ⟨hname, hnames⟩ := List.forall_mem_cons.1 h
    have := ih hnames
    rw [List.flatMap_cons, List.length_append, List.length_cons]
    omega

theorem takes_arrayBody_narrow {names : List Bytes} (h : FitsNarrow names) :
    Takes (arrayBody .bits8)
      (UInt8.ofNat (narrowArrayBody names).length :: narrowArrayBody names) names := by
  obtain ⟨hcount, hnames, hbody⟩ := h
  have hroom : names.length ≤ (names.flatMap narrowElement).length :=
    length_le_flatMap narrowElement fun name _ => Nat.lt_succ_self name.length
  refine takes_narrow_size_bind hbody (Takes.remaining_bind ?_)
  intro left hleft
  rw [if_neg (Nat.not_lt.2 hleft), narrowArrayBody_eq]
  refine takes_narrow_size_bind hcount (takes_byte_bind ?_)
  rw [if_neg (by decide)]
  apply Takes.remaining_bind
  intro left hleft
  rw [if_neg (Nat.not_lt.2 (Nat.le_trans hroom hleft))]
  exact takes_elements fun name hname => takes_narrow_bytes (hnames name hname)

theorem length_le_of_mem_flatMap {α : Type} (enclose : α → Bytes) {items : List α} {item : α}
    (h : item ∈ items) : (enclose item).length ≤ (items.flatMap enclose).length := by
  rw [List.flatMap_def]
  exact (List.infix_of_mem_flatten (List.mem_map_of_mem h)).length_le

theorem takes_arrayBody_wide {names : List Bytes} (h : (wideArrayBody names).length < wordCount) :
    Takes (arrayBody .bits32)
      (be32 (wideArrayBody names).length ++ wideArrayBody names) names := by
  have hroom : names.length ≤ (names.flatMap wideElement).length :=
    length_le_flatMap wideElement fun name _ => by
      rw [wideElement, List.length_append, length_be32]
      omega
  have hlen : (wideArrayBody names).length = 5 + (names.flatMap wideElement).length := by
    rw [wideArrayBody_eq, List.length_append, List.length_append, length_be32]
    rfl
  refine (takes_word h).bind (Takes.remaining_bind ?_)
  intro left hleft
  rw [if_neg (Nat.not_lt.2 hleft), wideArrayBody_eq, List.append_assoc]
  refine (takes_word (by omega)).bind (takes_byte_bind ?_)
  rw [if_neg (by decide)]
  apply Takes.remaining_bind
  intro left hleft
  rw [if_neg (Nat.not_lt.2 (Nat.le_trans hroom hleft))]
  refine takes_elements fun name hname => takes_wide_bytes ?_
  have := length_le_of_mem_flatMap wideElement hname
  rw [wideElement, List.length_append] at this
  omega

theorem run_symbols_array8 (position : Nat) (rest : Bytes) :
    symbols.run ⟨position, TypeCode.array8 :: rest⟩ =
      (arrayBody .bits8).run ⟨position + 1, rest⟩ := rfl

theorem run_symbols_array32 (position : Nat) (rest : Bytes) :
    symbols.run ⟨position, TypeCode.array32 :: rest⟩ =
      (arrayBody .bits32).run ⟨position + 1, rest⟩ := rfl

theorem takes_symbols {names : List Bytes}
    (h : ¬ FitsNarrow names → (wideArrayBody names).length < wordCount) :
    Takes symbols (Field.encode (.symbols names)) names := by
  change Takes symbols (symbolArray names) names
  unfold symbolArray
  split
  · next hfits =>
    intro position rest
    -- the type code is matched by `symbols` itself, so `takes_byte_bind` does not apply
    rw [List.cons_append, run_symbols_array8, takes_arrayBody_narrow hfits, Nat.add_assoc,
      Nat.add_comm 1]
    rfl
  · next hfits =>
    intro position rest
    rw [List.cons_append, List.cons_append, run_symbols_array32, takes_arrayBody_wide (h hfits),
      Nat.add_assoc, Nat.add_comm 1]
    rfl

theorem length_symbolArray {names : List Bytes} (h : ¬ FitsNarrow names) :
    (symbolArray names).length = (wideArrayBody names).length + 5 := by
  rw [symbolArray, if_neg h, List.length_append, List.length_cons, length_be32, Nat.add_comm]

/-- What is no array is read like a single symbol. -/
theorem takes_symbols_single {code : UInt8} {written : Bytes} {value : Option Bytes}
    (hcode : code ≠ TypeCode.array8 ∧ code ≠ TypeCode.array32)
    (h : Takes symbol? (code :: written) value) : Takes symbols (code :: written) value.toList := by
  intro position rest
  let c : Cursor := ⟨position, code :: written ++ rest⟩
  have hnarrow : c.rest.head? ≠ some TypeCode.array8 := fun h => hcode.1 (Option.some.inj h)
  have hwide : c.rest.head? ≠ some TypeCode.array32 := fun h => hcode.2 (Option.some.inj h)
  change (if c.rest.head? = _ then _ else if c.rest.head? = _ then _ else _ : Reader _).run c = _
  rw [if_neg hnarrow, if_neg hwide, bind_pure_comp]
  exact h.map Option.toList position rest

/-! ### Described lists -/

theorem takes_descriptor (descriptor : UInt8) :
    Takes Reader.descriptor [TypeCode.described, TypeCode.smallUlong, descriptor]
      descriptor.toNat := by
  refine takes_byte_bind (takes_byte_bind ?_)
  exact (takes_byte descriptor).map UInt8.toNat

/-- What a described list of at least one field holds behind its descriptor. -/
def listBytes (fields : Bytes) (count : Nat) : Bytes :=
  if count ≤ maxNarrow ∧ fields.length + 1 ≤ maxNarrow then
    TypeCode.list8 :: UInt8.ofNat (fields.length + 1) :: UInt8.ofNat count :: fields
  else TypeCode.list32 :: (be32 (fields.length + 4) ++ (be32 count ++ fields))

theorem describedList_eq {count : Nat} (h : count ≠ 0) (descriptor : UInt8) (fields : Bytes) :
    describedList descriptor fields count =
      [TypeCode.described, TypeCode.smallUlong, descriptor] ++ listBytes fields count := by
  simp only [describedList, if_neg h, listBytes, List.cons_append, List.nil_append,
    List.append_assoc]

/-- The fields are read by what comes behind the list header, which sees their count. -/
theorem takes_list {next : Nat → Reader β} {fields : Bytes} {count : Nat} {value : β}
    (hlen : fields.length + 4 < wordCount) (hcount : count < wordCount)
    (hfields : Takes (next count) fields value) :
    Takes (listHeader >>= next) (listBytes fields count) value := by
  unfold listHeader listBytes
  rw [bind_assoc]
  split
  · next h =>
    refine takes_byte_bind ?_
    change Takes (listCount .bits8 1 >>= next) _ value
    unfold listCount
    simp only [bind_assoc]
    refine takes_narrow_size_bind h.2 (Takes.remaining_bind ?_)
    intro left hleft
    rw [if_neg (by rw [List.length_cons] at hleft; omega)]
    exact takes_narrow_size_bind h.1 hfields
  · next h =>
    refine takes_byte_bind ?_
    change Takes (listCount .bits32 4 >>= next) _ value
    unfold listCount
    simp only [bind_assoc]
    refine (takes_word hlen).bind (Takes.remaining_bind ?_)
    intro left hleft
    rw [if_neg (by rw [List.length_append, length_be32] at hleft; omega)]
    exact (takes_word hcount).bind hfields

end Reader

end Wire

end FramedSasl
