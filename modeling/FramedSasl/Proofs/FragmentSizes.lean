import FramedSasl.Proofs.StreamRoundTrip

/-! How a payload is cut. Beside the other fields a frame has room for some bytes of it, and every
frame but the last takes that many. The room is reckoned from a frame with an empty payload and the
most that its headers can grow, so a full frame is at most that much below the limit. -/

namespace FramedSasl

open Call Wire

/-! ### Pieces -/

/-- All pieces but the last are full. -/
theorem exists_pieces (n : Nat) (bytes : Bytes) :
    ∃ front last, pieces n bytes = front ++ [last] ∧ ∀ piece ∈ front, piece.length = n := by
  fun_induction pieces n bytes with
  | case1 bytes hshort => exact ⟨[], bytes, rfl, fun _ h => absurd h List.not_mem_nil⟩
  | case2 bytes hlong ih =>
    obtain ⟨front, last, hpieces, hfull⟩ := ih
    refine ⟨bytes.take n :: front, last, by rw [hpieces, List.cons_append], ?_⟩
    refine List.forall_mem_cons.2 ⟨?_, hfull⟩
    rw [List.length_take]
    omega

theorem length_pieces {n : Nat} (hn : 0 < n) (bytes : Bytes) :
    (pieces n bytes).length = max 1 ((bytes.length + n - 1) / n) := by
  fun_induction pieces n bytes with
  | case1 bytes hshort =>
    have hlen : bytes.length + n - 1 < 2 * n := by omega
    have hquotient : (bytes.length + n - 1) / n < 2 := (Nat.div_lt_iff_lt_mul hn).2 hlen
    rw [List.length_singleton]
    omega
  | case2 bytes hlong ih =>
    have hrest : bytes.length - n + n - 1 = bytes.length - 1 := by omega
    have hwhole : bytes.length + n - 1 = bytes.length - 1 + n := by omega
    have hquotient : 1 ≤ (bytes.length - 1) / n := (Nat.le_div_iff_mul_le hn).2 (by omega)
    rw [List.length_cons, ih, List.length_drop, hrest, hwhole, Nat.add_div_right _ hn]
    omega

theorem sequence_append (front : List Performative) (last : Performative) :
    Frame.sequence (front ++ [last]) = front.map (fun body => ⟨body, true⟩) ++ [⟨last, false⟩] := by
  induction front with
  | nil => rfl
  | cons body front ih =>
    obtain ⟨next, rest, hrest⟩ : ∃ next rest, front ++ [last] = next :: rest :=
      List.exists_cons_of_ne_nil (List.append_ne_nil_of_right_ne_nil _ (List.cons_ne_nil _ _))
    rw [List.map_cons, List.cons_append, List.cons_append, ← ih, hrest]
    rfl

theorem length_sequence (bodies : List Performative) :
    (Frame.sequence bodies).length = bodies.length := by
  fun_induction Frame.sequence bodies with
  | case1 | case2 => rfl
  | case3 body bodies _ ih => rw [List.length_cons, ih, List.length_cons]

/-! ### Words -/

namespace Wire

/-- The numbers that a field writes as words: its sizes in the wide form. -/
def Field.words : Field → List Nat
  | null | ubyte _ => []
  | binary bytes | string bytes | symbol bytes =>
    if bytes.length ≤ maxNarrow then [] else [bytes.length]
  | symbols names =>
    if FitsNarrow names then []
    else (wideArrayBody names).length :: names.length :: names.map List.length

theorem Field.words_sized_le {narrow wide : UInt8} {bytes : Bytes} {n : Nat}
    (h : n ∈ if bytes.length ≤ maxNarrow then [] else [bytes.length]) :
    n ≤ (sized narrow wide bytes).length := by
  have hsized := (length_sized narrow wide bytes).1
  split at h
  · cases h
  · rw [List.mem_singleton.1 h]
    omega

theorem Field.words_le (field : Field) : ∀ n ∈ field.words, n ≤ field.encode.length := by
  intro n h
  cases field with
  | null | ubyte => cases h
  | binary | string | symbol => exact words_sized_le h
  | symbols names =>
    simp only [words] at h
    change n ≤ (symbolArray names).length
    rw [symbolArray]
    split at h
    · cases h
    · next hwide =>
      have hcount : names.length ≤ (names.flatMap Reader.wideElement).length :=
        Reader.length_le_flatMap Reader.wideElement fun name _ => by
          rw [Reader.wideElement, List.length_append, length_be32]
          omega
      have hbody : (wideArrayBody names).length =
          5 + (names.flatMap Reader.wideElement).length := by
        rw [Reader.wideArrayBody_eq, List.length_append, List.length_append, length_be32]
        rfl
      rw [if_neg hwide, List.cons_append, List.length_cons, List.length_append]
      rcases List.mem_cons.1 h with rfl | h
      · omega
      · rcases List.mem_cons.1 h with rfl | h
        · omega
        · obtain ⟨name, hname, rfl⟩ := List.mem_map.1 h
          have helement := Reader.length_le_of_mem_flatMap Reader.wideElement hname
          rw [Reader.wideElement, List.length_append] at helement
          omega

end Wire

/-- The numbers that a performative writes as words: those of its list in the wide form, and those
of its fields. -/
def Performative.words (p : Performative) : List Nat :=
  (if p.fields.length ≤ maxNarrow ∧ p.fieldBytes.length + 1 ≤ maxNarrow then []
    else [p.fieldBytes.length + 4, p.fields.length]) ++ p.fields.flatMap Field.words

/-- The numbers that a frame writes as words, its size first. -/
def Frame.words (f : Frame) : List Nat := (headerSize + f.body.encode.length) :: f.body.words

theorem Performative.words_le (p : Performative) : ∀ n ∈ p.words, n ≤ p.encode.length := by
  intro n h
  have hencode := p.length_encode.1
  rcases List.mem_append.1 h with h | h
  · have hcount := p.length_fields.2
    split at h
    · cases h
    · rcases List.mem_cons.1 h with rfl | h
      · omega
      · rw [List.mem_singleton.1 h]
        omega
  · obtain ⟨field, hfield, hword⟩ := List.mem_flatMap.1 h
    have hle := field.words_le n hword
    have hbytes : field.encode.length ≤ p.fieldBytes.length :=
      Reader.length_le_of_mem_flatMap Field.encode hfield
    omega

theorem Frame.words_le (f : Frame) : ∀ n ∈ f.words, n ≤ f.size := by
  rw [size_eq]
  refine List.forall_mem_cons.2 ⟨Nat.le_refl _, fun n h => ?_⟩
  exact Nat.le_trans (f.body.words_le n h) (Nat.le_add_left _ _)

namespace Performative

variable {p : Performative}

/-! ### Sizes -/

/-- A list with more bytes of fields is longer by as many at least. -/
theorem length_listBytes_mono (count : Nat) {fields fields' : Bytes}
    (h : fields.length ≤ fields'.length) :
    (Reader.listBytes fields count).length + fields'.length ≤
      (Reader.listBytes fields' count).length + fields.length := by
  rw [length_listBytes, length_listBytes]
  split <;> split <;> omega

theorem length_fields_withPayload (p : Performative) (bytes : Bytes) :
    (p.withPayload bytes).fields.length = (p.withPayload []).fields.length := by
  cases p <;> rfl

/-- A frame grows by its payload at least. -/
theorem le_size_withPayload (h : p.kind ≠ .mechanisms) (bytes : Bytes) (more : Bool) :
    (Frame.mk (p.withPayload []) false).size + bytes.length ≤
      (Frame.mk (p.withPayload bytes) more).size := by
  have hfields := length_fieldBytes_withPayload h bytes
  have hbinary := (length_sized TypeCode.binary8 TypeCode.binary32 bytes).1
  rw [Field.encode] at hfields
  have hgrows : (p.withPayload []).fieldBytes.length ≤ (p.withPayload bytes).fieldBytes.length := by
    omega
  have hmono := length_listBytes_mono (p.withPayload []).fields.length hgrows
  simp only [Frame.size_eq, encode_eq, List.length_append, length_fields_withPayload p bytes]
  simp only [List.length_cons, List.length_nil]
  omega

/-- `frames` carry `payload` in the place of the payload of `p`: slices of `room` bytes and a last
one, within `limit` and but for the last close to it. -/
structure Spreads (p : Performative) (payload : Bytes) (room limit : Nat) (frames : List Frame) :
    Prop where
  slices : ∃ (front : List Bytes) (last : Bytes), front.flatten ++ last = payload ∧
    (∀ slice ∈ front, slice.length = room) ∧
    frames = front.map (fun slice => ⟨p.withPayload slice, true⟩) ++ [⟨p.withPayload last, false⟩]
  count : frames.length = max 1 ((payload.length + room - 1) / room)
  fits : ∀ frame ∈ frames, frame.size ≤ limit
  full : ∀ frame ∈ frames, frame.more = true → limit ≤ frame.size + 9

/-- Where a frame has room for any bytes of the payload, there is one for each piece. -/
theorem spreads_fragments {payload : Bytes} (hpayload : p.payload? = some payload) {limit : Nat}
    (hroom : p.overhead < limit) : ∃ frames, p.fragments limit = .ok frames ∧
      p.Spreads payload (limit - p.overhead) limit frames := by
  have hpos : 0 < limit - p.overhead := by omega
  have hoverhead : p.overhead = (Frame.mk (p.withPayload []) false).size + 9 := rfl
  obtain ⟨frames, hframes⟩ : ∃ frames, p.fragments limit = .ok frames :=
    fragments_of_fits_limit (by rw [Fits, hpayload]; exact hroom)
  refine ⟨frames, hframes, ?_⟩
  have hfits := size_le_of_mem_fragments hframes
  obtain rfl : frames = Frame.sequence ((pieces (limit - p.overhead) payload).map fun piece =>
      p.withPayload piece) := by
    rcases fragments_cases hframes with ⟨hnone, -, -⟩ | ⟨payload', hpayload', -, hsequence⟩
    · cases hnone.symm.trans hpayload
    · cases hpayload.symm.trans hpayload'
      exact hsequence
  obtain ⟨front, last, hpieces, hfull⟩ := exists_pieces (limit - p.overhead) payload
  refine ⟨⟨front, last, ?_, hfull, ?_⟩, ?_, hfits, fun frame hframe hmore => ?_⟩
  · rw [← flatten_pieces (limit - p.overhead) payload, hpieces, List.flatten_append,
      List.flatten_singleton]
  · rw [hpieces, List.map_append, List.map_singleton, sequence_append, List.map_map]
    rfl
  · rw [length_sequence, List.length_map, length_pieces hpos]
  · rw [hpieces, List.map_append, List.map_singleton, sequence_append, List.map_map] at hframe
    rcases List.mem_append.1 hframe with hframe | hframe
    · obtain ⟨slice, hslice, rfl⟩ := List.mem_map.1 hframe
      have hsize := le_size_withPayload (kind_ne_mechanisms hpayload) slice true
      have hlen := hfull slice hslice
      simp only [Function.comp_apply]
      omega
    · rw [List.mem_singleton.1 hframe] at hmore
      cases hmore

end Performative

namespace Codec

/-- A performative with a payload is refused when the frame with an empty one leaves no room below
the limit; else there is room for some bytes of payload and there are as many frames as that takes,
at least one, each with the other fields of the performative. Without a payload there is one frame
or none. Whatever the limit, all sizes in the frames fit the words that they are written in, and the
frames can be read back. -/
theorem encode_spreads (c : Codec) (limit : UInt32) (p : Performative) :
    let result := (on { c with peerLimit := limit.toNat } (encode p)).1
    let Refused := ∃ fault, result = .error fault ∧ fault.kind = .frameTooLarge
    (match p.payload? with
      | none =>
        if (Frame.mk p false).size ≤ limit.toNat then result = .ok [⟨p, false⟩] else Refused
      | some payload =>
        if limit.toNat ≤ (Frame.mk (p.withPayload []) false).size + 9 then Refused
        else ∃ room frames, p.capacity limit.toNat = .ok room ∧ 1 ≤ room ∧ result = .ok frames ∧
          p.Spreads payload room limit.toNat frames) ∧
      ∀ frames, result = .ok frames → ∀ frame ∈ frames,
        (∀ n ∈ frame.words, readBE (be32 n) = n) ∧
          (p.Decided → Frame.parse frame.serialize = .ok frame) := by
  intro result Refused
  have hresult : result = p.fragments limit.toNat := congrArg Prod.fst (on_encode _ p)
  have hrefused : ¬ p.Fits limit.toNat → Refused := by
    intro hlarge
    rcases hframes : p.fragments limit.toNat with fault | frames
    · exact ⟨fault, hresult.trans hframes, (Performative.fragments_error hframes).kind⟩
    · exact absurd (Performative.fits_of_fragments hframes) hlarge
  refine ⟨?_, ?_⟩
  · rcases hpayload : p.payload? with _ | payload
    · simp only [Performative.Fits, hpayload] at hrefused
      dsimp only
      split
      · next hsize =>
        rw [hresult, Performative.fragments, hpayload]
        exact if_neg (Nat.not_lt.2 hsize)
      · next hsize => exact hrefused hsize
    · simp only [Performative.Fits, hpayload] at hrefused
      dsimp only
      split
      · next hroom => exact hrefused (Nat.not_lt.2 hroom)
      · next hroom =>
        obtain ⟨frames, hframes, hspreads⟩ :=
          Performative.spreads_fragments hpayload (Nat.not_le.1 hroom)
        have hpos : 0 < limit.toNat - p.overhead := Nat.sub_pos_of_lt (Nat.not_le.1 hroom)
        exact ⟨_, frames, if_neg hroom, hpos, hresult.trans hframes, hspreads⟩
  · intro frames hframes frame hframe
    rw [hresult] at hframes
    have hsize := p.size_le_of_mem_fragments hframes frame hframe
    have hword : limit.toNat < wordCount := limit.toNat_lt
    refine ⟨fun n hn => readBE_be32 ?_, fun hdecided => ?_⟩
    · have hle := frame.words_le n hn
      omega
    · obtain ⟨hbody, hwhole, -⟩ := p.fragments_fit hframes hdecided frame hframe
      exact parse_own ⟨hbody, hwhole, by omega⟩

end Codec

end FramedSasl
