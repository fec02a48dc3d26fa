import FramedSasl.Proofs.FieldRoundTrip
import FramedSasl.Proofs.ReaderCalls

/-! Values read back. Fields and lists of values are written one behind the other, and the queries
that fit them answer what has been written, from the first byte to the last (`read_written`). -/

namespace FramedSasl.Wire

open Reader

/-- What a query answers at a field that it reads. It finds nothing in the null value. -/
def Query.answer? : Query → Field → Option Answer
  | ubyte, .null => some (.ubyte none)
  | ubyte, .ubyte value => some (.ubyte value)
  | binary, .null | string, .null | symbol, .null => some (.bytes none)
  | binary, .binary bytes | string, .string bytes | symbol, .symbol bytes => some (.bytes bytes)
  | symbols, .null => some (.names [])
  | symbols, .symbol name => some (.names [name])
  | symbols, .symbols names => some (.names names)
  | _, _ => none

/-- A value to write, and how to read it: a field by a query, or a described list that is said to
have `count` fields. -/
inductive Value where
  | field (query : Query) (f : Field)
  | list (descriptor : UInt8) (count : Nat) (fields : List Value)

namespace Value

mutual

def encode : Value → Bytes
  | field _ f => f.encode
  | list descriptor count fields => describedList descriptor (encodeAll fields) count

def encodeAll : List Value → Bytes
  | [] => []
  | v :: values => v.encode ++ encodeAll values

end

mutual

/-- The queries for a value, each with what it has to answer. -/
def reading : Value → List (Query × Answer)
  | field query f => (query.answer? f).toList.map (query, ·)
  | list descriptor count fields =>
    (.descriptor, .number descriptor.toNat) :: (.listHeader, .number count) :: readingAll fields

def readingAll : List Value → List (Query × Answer)
  | [] => []
  | v :: values => v.reading ++ readingAll values

end

end Value

/-- 32 bits hold every size that is stored. -/
def Field.Storable : Field → Prop
  | null | ubyte _ => True
  | binary bytes | string bytes | symbol bytes => bytes.length < wordCount
  | symbols names => ¬ FitsNarrow names → (wideArrayBody names).length < wordCount

/-- Each field has a query that fits it, no list is said to be empty, and 32 bits hold every size
and count that is stored. -/
inductive Value.Storable : Value → Prop
  | field {query : Query} {f : Field} {answer : Answer} (reads : query.answer? f = some answer)
      (stored : f.Storable) : Storable (.field query f)
  | list {descriptor : UInt8} {count : Nat} {fields : List Value} (pos : 0 < count)
      (count_lt : count < wordCount) (size_lt : (encodeAll fields).length + 4 < wordCount)
      (stored : ∀ v ∈ fields, Storable v) : Storable (.list descriptor count fields)

namespace Reader

/-- The answers to several queries. -/
def ask (queries : List Query) : Reader (List Answer) := queries.mapM Query.reader

theorem takes_single {name : Bytes} (h : name.length < wordCount) :
    Takes symbols (Field.encode (.symbol name)) [name] := by
  have hsymbol := takes_symbol? h
  change Takes symbol? (sized _ _ name) _ at hsymbol
  change Takes symbols (sized _ _ name) _
  unfold sized at *
  by_cases hlen : name.length ≤ maxNarrow
  · rw [if_pos hlen] at *
    exact takes_symbols_single ⟨by decide, by decide⟩ hsymbol
  · rw [if_neg hlen] at *
    exact takes_symbols_single ⟨by decide, by decide⟩ hsymbol

theorem takes_query {query : Query} {f : Field} {answer : Answer}
    (h : query.answer? f = some answer) (hstored : f.Storable) :
    Takes query.reader f.encode answer := by
  cases query <;> cases f <;> cases h
  case ubyte.null => exact (takes_byte_bind (Takes.pure none)).map _
  case ubyte.ubyte value => exact (takes_ubyte? value).map _
  case binary.null | string.null | symbol.null => exact (takes_optional_null _ _).map _
  case binary.binary => exact (takes_binary? hstored).map _
  case string.string => exact (takes_string? hstored).map _
  case symbol.symbol => exact (takes_symbol? hstored).map _
  case symbols.null =>
    exact (takes_symbols_single ⟨by decide, by decide⟩ (takes_optional_null _ _)).map _
  case symbols.symbol => exact (takes_single hstored).map _
  case symbols.symbols => exact (takes_symbols hstored).map _

/-- The queries answer as said if they are asked from the first byte of `written` on. -/
def Reads (reading : List (Query × Answer)) (written : Bytes) : Prop :=
  Takes (ask (reading.map Prod.fst)) written (reading.map Prod.snd)

namespace Reads

variable {query : Query} {answer : Answer} {reading reading' : List (Query × Answer)}
  {front back : Bytes}

theorem nil : Reads [] [] := Takes.pure []

theorem cons (h : Takes query.reader front answer) (hrest : Reads reading back) :
    Reads ((query, answer) :: reading) (front ++ back) := by
  unfold Reads ask at *
  rw [List.map_cons, List.mapM_cons, List.map_cons]
  refine h.bind ?_
  rw [← List.append_nil back]
  exact hrest.bind (Takes.pure _)

theorem append (h : Reads reading front) (hrest : Reads reading' back) :
    Reads (reading ++ reading') (front ++ back) := by
  unfold Reads ask at *
  rw [List.map_append, List.mapM_append, List.map_append]
  refine h.bind ?_
  rw [← List.append_nil back]
  exact hrest.bind (Takes.pure _)

/-- The header of a list is checked against all its fields. -/
theorem list {descriptor : UInt8} {count : Nat} {fields : Bytes} (hpos : 0 < count)
    (hcount : count < wordCount) (hsize : fields.length + 4 < wordCount)
    (h : Reads reading fields) :
    Reads ((.descriptor, .number descriptor.toNat) :: (.listHeader, .number count) :: reading)
      (describedList descriptor fields count) := by
  rw [describedList_eq (Nat.pos_iff_ne_zero.1 hpos)]
  refine cons ((takes_descriptor descriptor).map _) ?_
  unfold Reads ask at *
  rw [List.map_cons, List.mapM_cons, List.map_cons]
  change Takes (Answer.number <$> listHeader >>= _) _ _
  rw [bind_map_left]
  refine takes_list hsize hcount ?_
  rw [← List.append_nil fields]
  exact h.bind (Takes.pure _)

end Reads

end Reader

namespace Value

theorem reads_all {values : List Value} (h : ∀ v ∈ values, Reads v.reading v.encode) :
    Reads (readingAll values) (encodeAll values) := by
  induction values with
  | nil => exact .nil
  | cons v values ih =>
    obtain ⟨hfirst, hrest⟩ := List.forall_mem_cons.1 h
    exact hfirst.append (ih hrest)

theorem Storable.reads {v : Value} (h : v.Storable) : Reads v.reading v.encode := by
  induction h with
  | @field query f answer hreads hstored =>
    have hfield := Reads.cons (takes_query hreads hstored) .nil
    rw [List.append_nil] at hfield
    rw [reading, hreads]
    exact hfield
  | list hpos hcount hsize _ ih => exact Reads.list hpos hcount hsize (reads_all ih)

/-! ### Narrow and wide forms -/

/-- The codes of the two forms that a value has. -/
def codes : Value → Option (UInt8 × UInt8)
  | field _ .null | field _ (.ubyte _) => none
  | field _ (.binary _) => some (TypeCode.binary8, TypeCode.binary32)
  | field _ (.string _) => some (TypeCode.string8, TypeCode.string32)
  | field _ (.symbol _) => some (TypeCode.symbol8, TypeCode.symbol32)
  | field _ (.symbols _) => some (TypeCode.array8, TypeCode.array32)
  | list .. => some (TypeCode.list8, TypeCode.list32)

/-- The lengths, sizes and counts that its narrow form stores. -/
def stored : Value → List Nat
  | field _ .null | field _ (.ubyte _) => []
  | field _ (.binary bytes) | field _ (.string bytes) | field _ (.symbol bytes) => [bytes.length]
  | field _ (.symbols names) =>
    names.length :: (narrowArrayBody names).length :: names.map List.length
  | list _ count fields => [count, (encodeAll fields).length + 1]

/-- The code that is written; that of a list stands behind its descriptor. -/
def code? : Value → Option UInt8
  | field _ f => f.encode[0]?
  | list descriptor count fields => (describedList descriptor (encodeAll fields) count)[3]?

theorem code?_sized (narrow wide : UInt8) (bytes : Bytes) :
    (sized narrow wide bytes)[0]? = some (if bytes.length ≤ maxNarrow then narrow else wide) := by
  unfold sized
  split <;> rfl

theorem code?_symbolArray (names : List Bytes) : (symbolArray names)[0]? =
    some (if FitsNarrow names then TypeCode.array8 else TypeCode.array32) := by
  unfold symbolArray
  split <;> rfl

theorem code?_describedList {count : Nat} (hpos : 0 < count) (descriptor : UInt8) (fields : Bytes) :
    (describedList descriptor fields count)[3]? =
      some (if count ≤ maxNarrow ∧ fields.length + 1 ≤ maxNarrow then TypeCode.list8
        else TypeCode.list32) := by
  rw [describedList, if_neg (Nat.pos_iff_ne_zero.1 hpos)]
  split <;> rfl

theorem Storable.code_eq {v : Value} (h : v.Storable) {narrow wide : UInt8}
    (hcodes : v.codes = some (narrow, wide)) :
    v.code? = some (if ∀ n ∈ v.stored, n ≤ maxNarrow then narrow else wide) := by
  cases h with
  | @field query f answer hreads hstored =>
    cases f with
    | null | ubyte => cases hcodes
    | binary bytes | string bytes | symbol bytes =>
      cases hcodes
      simp only [stored, List.forall_mem_singleton]
      exact code?_sized _ _ bytes
    | symbols names =>
      cases hcodes
      have hfits : (∀ n ∈ (Value.field query (.symbols names)).stored, n ≤ maxNarrow) ↔
          FitsNarrow names := by
        simp only [stored, List.forall_mem_cons, List.forall_mem_map, FitsNarrow]
        exact and_congr_right fun _ => and_comm
      simp only [hfits]
      exact code?_symbolArray names
  | @list descriptor count fields hpos =>
    cases hcodes
    have hfits : (∀ n ∈ (Value.list descriptor count fields).stored, n ≤ maxNarrow) ↔
        count ≤ maxNarrow ∧ (encodeAll fields).length + 1 ≤ maxNarrow := by
      rw [stored, List.forall_mem_cons, List.forall_mem_singleton]
    simp only [hfits]
    exact code?_describedList hpos descriptor (encodeAll fields)

/-- Values that are written one behind the other are read back by the queries that fit them, each
as it was given, and nothing is left. Every one has its narrow form if one byte holds each length,
size and count in it, and else its wide form. -/
theorem read_written {values : List Value} (h : ∀ v ∈ values, v.Storable) :
    (ask ((readingAll values).map Prod.fst)).run { rest := encodeAll values } =
      .ok ((readingAll values).map Prod.snd, ⟨(encodeAll values).length, []⟩) ∧
    ∀ v : Value, v.Storable → ∀ narrow wide, v.codes = some (narrow, wide) →
      v.code? = some (if ∀ n ∈ v.stored, n ≤ maxNarrow then narrow else wide) := by
  refine ⟨?_, fun v hv narrow wide => hv.code_eq⟩
  have hreads := reads_all (fun v hv => (h v hv).reads) 0 []
  rw [List.append_nil, Nat.zero_add] at hreads
  exact hreads

/-- A list in a list, with nothing, no bytes and an empty name in them, and a string too long for
the narrow form. -/
theorem read_written_nested :
    let inner := list 7 2 [field .ubyte (.ubyte 9), field .symbols (.symbols [text "PLAIN", []])]
    let long := field .string (.string (List.replicate 300 0))
    let values := [list 0x41 2 [field .binary .null, inner], field .binary (.binary []), long]
    (∃ n, (ask [.descriptor, .listHeader, .binary, .descriptor, .listHeader, .ubyte, .symbols,
        .binary, .string]).run { rest := encodeAll values } =
      .ok ([.number 0x41, .number 2, .bytes none, .number 7, .number 2, .ubyte (some 9),
        .names [text "PLAIN", []], .bytes (some []), .bytes (some (List.replicate 300 0))],
        ⟨n, []⟩)) ∧
    inner.code? = some TypeCode.list8 ∧ long.code? = some TypeCode.string32 := by
  intro inner long values
  have hinner : inner.Storable := by
    refine .list (by decide) (by decide) (by decide) ?_
    refine List.forall_mem_cons.2 ⟨.field rfl trivial, List.forall_mem_singleton.2 ?_⟩
    exact .field rfl fun hwide => absurd (by decide) hwide
  have hlength : (List.replicate 300 (0 : UInt8)).length = 300 := List.length_replicate
  have hlong : long.Storable :=
    .field rfl (Nat.lt_of_le_of_lt hlength.le (by decide))
  have hvalues : ∀ v ∈ values, v.Storable := by
    refine List.forall_mem_cons.2 ⟨.list (by decide) (by decide) (by decide) ?_, ?_⟩
    · exact List.forall_mem_cons.2 ⟨.field rfl trivial, List.forall_mem_singleton.2 hinner⟩
    · refine List.forall_mem_cons.2 ⟨.field rfl ?_, List.forall_mem_singleton.2 hlong⟩
      exact show 0 < wordCount by decide
  obtain ⟨hread, hforms⟩ := read_written hvalues
  refine ⟨⟨_, hread⟩, ?_, ?_⟩
  · rw [hforms inner hinner _ _ rfl, if_pos (by decide)]
  · rw [hforms long hlong _ _ rfl, if_neg]
    intro hfits
    have htoo : (List.replicate 300 (0 : UInt8)).length ≤ maxNarrow := hfits _ List.mem_cons_self
    rw [hlength] at htoo
    exact absurd htoo (by decide)

end Value

end FramedSasl.Wire
