import FramedSasl.Frame
import FramedSasl.Proofs.FieldRoundTrip

/-! Frames read back. A frame that can travel, with a size below `2 ^ 32`, is parsed from its own
bytes whatever lies behind them (`parse_serialize`), and its size stands in its first four bytes
(`peekSize_serialize`). -/

namespace FramedSasl

open Wire Reader

theorem Outcome.ofCode?_code {code : Outcome} (h : code ≠ .undecided) :
    Outcome.ofCode? code.code = some code := by
  cases code <;> first | rfl | exact absurd rfl h

theorem Kind.ofDescriptor?_descriptor (kind : Kind) :
    Kind.ofDescriptor? kind.descriptor.toNat = some kind := by
  cases kind <;> rfl

namespace Performative

/-- An outcome is one of the five that have a code on the wire. -/
def Decided : Performative → Prop
  | outcome code _ => code ≠ .undecided
  | _ => True

def fieldBytes (p : Performative) : Bytes := p.fields.flatMap Field.encode

theorem length_fields (p : Performative) : 0 < p.fields.length ∧ p.fields.length ≤ 3 := by
  cases p <;> exact ⟨Nat.succ_pos _, Nat.le_of_ble_eq_true rfl⟩

theorem encode_eq (p : Performative) : p.encode =
    [TypeCode.described, TypeCode.smallUlong, p.kind.descriptor] ++
      listBytes p.fieldBytes p.fields.length :=
  describedList_eq (Nat.pos_iff_ne_zero.1 p.length_fields.1) _ _

theorem length_listBytes (fields : Bytes) (count : Nat) :
    (listBytes fields count).length =
      fields.length + if count ≤ maxNarrow ∧ fields.length + 1 ≤ maxNarrow then 3 else 9 := by
  unfold listBytes
  split
  · simp only [List.length_cons]
  · simp only [List.length_cons, List.length_append, length_be32]
    omega

theorem length_listBytes_le (fields : Bytes) (count : Nat) :
    fields.length + 3 ≤ (listBytes fields count).length ∧
      (listBytes fields count).length ≤ fields.length + 9 := by
  rw [length_listBytes]
  split <;> omega

theorem takes_mandatory {α : Type} {kind : Kind} {count : Nat} {field : Reader (Option α)}
    {written : Bytes} {value : α} (hcount : 0 < count) (h : Takes field written (some value)) :
    Takes (mandatory kind count field) written value := by
  unfold mandatory
  rw [if_neg (by omega), ← List.append_nil written]
  exact h.bind (Takes.pure value)

theorem takes_binaryField {bytes : Option Bytes}
    (h : (binaryField bytes).encode.length < wordCount) :
    Takes binary? (binaryField bytes).encode bytes := by
  cases bytes with
  | none => exact takes_optional_null _ _
  | some bytes =>
    have := (length_sized TypeCode.binary8 TypeCode.binary32 bytes).1
    exact takes_binary? (by change (sized _ _ bytes).length < _ at h; omega)

theorem takes_stringField {bytes : Option Bytes}
    (h : (stringField bytes).encode.length < wordCount) :
    Takes string? (stringField bytes).encode bytes := by
  cases bytes with
  | none => exact takes_optional_null _ _
  | some bytes =>
    have := (length_sized TypeCode.string8 TypeCode.string32 bytes).1
    exact takes_string? (by change (sized _ _ bytes).length < _ at h; omega)

theorem takes_readFields {p : Performative} (hdecided : p.Decided)
    (h : p.fieldBytes.length < wordCount) :
    Takes (readFields p.kind p.fields.length) p.fieldBytes p := by
  cases p with
  | mechanisms names =>
    change Takes (mechanisms <$> symbols) (symbolArray names ++ []) _
    change (symbolArray names ++ []).length < _ at h
    rw [List.append_nil] at h ⊢
    refine (takes_symbols fun hwide => ?_).map mechanisms
    rw [length_symbolArray hwide] at h
    omega
  | init mechanism initialResponse hostname =>
    change ((sized _ _ mechanism) ++ ((binaryField initialResponse).encode ++
      ((stringField hostname).encode ++ []))).length < _ at h
    have := (length_sized TypeCode.symbol8 TypeCode.symbol32 mechanism).1
    simp only [List.length_append, List.length_nil] at h
    refine (takes_mandatory (Nat.succ_pos 2) (takes_symbol? (by omega))).bind ?_
    refine (takes_binaryField (by omega)).bind ?_
    exact (takes_stringField (by omega)).bind (Takes.pure _)
  | challenge payload =>
    change (sized _ _ payload ++ []).length < _ at h
    change Takes _ (sized _ _ payload ++ []) _
    have := (length_sized TypeCode.binary8 TypeCode.binary32 payload).1
    rw [List.append_nil] at h ⊢
    exact (takes_mandatory Nat.one_pos (takes_binary? (by omega))).map challenge
  | response payload =>
    change (sized _ _ payload ++ []).length < _ at h
    change Takes _ (sized _ _ payload ++ []) _
    have := (length_sized TypeCode.binary8 TypeCode.binary32 payload).1
    rw [List.append_nil] at h ⊢
    exact (takes_mandatory Nat.one_pos (takes_binary? (by omega))).map response
  | outcome code additionalData =>
    change ([_, _] ++ ((binaryField additionalData).encode ++ [])).length < _ at h
    simp only [List.length_append, List.length_nil] at h
    refine (takes_mandatory (Nat.succ_pos 1) (takes_ubyte? code.code)).bind ?_
    rw [Outcome.ofCode?_code hdecided]
    exact (takes_binaryField (by omega)).bind (Takes.pure _)

theorem takes_read {p : Performative} (hdecided : p.Decided) (h : p.encode.length < wordCount) :
    Takes read p.encode p := by
  rw [encode_eq] at h ⊢
  rw [List.length_append] at h
  have hlen : p.fieldBytes.length + 4 < wordCount := by
    rw [length_listBytes] at h
    split at h
    · next hnarrow => exact Nat.lt_of_le_of_lt (Nat.add_le_add_right hnarrow.2 3) (by decide)
    · omega
  have hcount : p.fields.length < wordCount :=
    Nat.lt_of_le_of_lt p.length_fields.2 (by decide)
  refine (takes_descriptor p.kind.descriptor).bind ?_
  rw [Kind.ofDescriptor?_descriptor]
  exact takes_list hlen hcount (takes_readFields hdecided (by omega))

end Performative

namespace Frame

/-- A frame that a peer can send: an undecided outcome has no code, and a list of mechanisms comes
in one frame. -/
structure Travels (f : Frame) : Prop where
  decided : f.body.Decided
  whole : f.more = true → f.body.kind ≠ .mechanisms
  size_lt : f.size < wordCount

theorem length_header (size : Nat) (more : Bool) : (header size more).length = headerSize := rfl

theorem size_eq (f : Frame) : f.size = headerSize + f.body.encode.length := by
  rw [size, serialize, List.length_append, length_header]

theorem peekSize_serialize {f : Frame} (h : f.size < wordCount) (rest : Bytes) :
    peekSize (f.serialize ++ rest) = some f.size := by
  rw [size_eq] at h ⊢
  exact congrArg some (readBE_be32 h)

theorem ofBody_more {body : Performative} {more : Bool}
    (h : more = true → body.kind ≠ .mechanisms) :
    ofBody body (if more then 1 else 0) = .ok ⟨body, more⟩ := by
  cases more with
  | false => rfl
  | true => exact if_neg fun hboth => h rfl hboth.2

theorem length_encode_pos (p : Performative) : 0 < p.encode.length := by
  rw [p.encode_eq, List.length_append, List.length_cons]
  omega

/-- The frame at the front of `data`, when its header has been split into its fields. -/
def parseFields (data : Bytes) (size : Nat) (doff type flags : UInt8) : Except Fault Frame :=
  let start := doff.toNat * 4
  if size < headerSize then .error (.frame (.sizeBelowHeader size))
  else if data.length < size then .error (.frame (.incomplete size data.length))
  else if type ≠ saslType then .error (.frame (.wrongType type))
  else if doff < dataOffset ∨ size < start then .error (.frame (.dataOffset doff size))
  else if start = size then .error (.frame (.noBody size))
  else do
    let (body, _) ← Performative.read.run { rest := (data.take size).drop start }
    ofBody body flags

theorem parse_header_append (size : Nat) (more : Bool) (tail : Bytes) :
    parse (header size more ++ tail) = parseFields (header size more ++ tail) (readBE (be32 size))
      dataOffset saslType (if more then 1 else 0) := rfl

theorem parse_serialize {f : Frame} (h : f.Travels) (rest : Bytes) :
    parse (f.serialize ++ rest) = .ok f := by
  obtain ⟨hdecided, hwhole, hsize⟩ := h
  have hpos := length_encode_pos f.body
  have hlen : f.size ≤ (f.serialize ++ rest).length := by
    rw [List.length_append]
    exact Nat.le_add_right _ _
  have hbody : ((f.serialize ++ rest).take f.size).drop headerSize = f.body.encode := by
    rw [size, List.take_left]
    rfl
  have hread := Performative.takes_read hdecided (by rw [size_eq] at hsize; omega) 0 []
  rw [List.append_nil] at hread
  rw [serialize, ← size_eq, List.append_assoc, parse_header_append, readBE_be32 hsize,
    ← List.append_assoc, size_eq, ← serialize, ← size_eq, parseFields]
  have hstart : dataOffset.toNat * 4 = headerSize := rfl
  have hbelow : headerSize < f.size := by rw [size_eq]; omega
  simp only [hstart, hbody, hread]
  rw [if_neg (by omega), if_neg (by omega), if_neg (by decide), if_neg (by simp; omega),
    if_neg (by omega)]
  exact ofBody_more hwhole

end Frame

end FramedSasl
