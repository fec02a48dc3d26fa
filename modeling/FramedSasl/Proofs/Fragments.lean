import FramedSasl.Codec
import FramedSasl.Proofs.FrameRoundTrip

/-! Fragments of a performative. `Completes` says that some frames, in this order, bring a
performative to its end and not before. Frames with slices of its payload do (`completes_slices`),
and so do those of `Performative.fragments`, each of which fits the limit (`fragments_fit`);
`Oversized` says when there are none. -/

namespace FramedSasl

theorem flatten_pieces (n : Nat) (bytes : Bytes) : (pieces n bytes).flatten = bytes := by
  fun_induction pieces n bytes with
  | case1 bytes h => exact List.append_nil bytes
  | case2 bytes h ih => rw [List.flatten_cons, ih, List.take_append_drop]

theorem pieces_ne_nil (n : Nat) (bytes : Bytes) : pieces n bytes ≠ [] := by
  unfold pieces
  split <;> exact List.cons_ne_nil _ _

theorem length_le_of_mem_pieces {n : Nat} {bytes piece : Bytes} (hn : 0 < n)
    (h : piece ∈ pieces n bytes) : piece.length ≤ n := by
  fun_induction pieces n bytes with
  | case1 bytes hshort =>
    rw [List.mem_singleton.1 h]
    omega
  | case2 bytes hlong ih =>
    rcases List.mem_cons.1 h with rfl | h
    · exact List.length_take_le _ _
    · exact ih h

theorem getD_joinPayloads (first next : Option Bytes) :
    (joinPayloads first next).getD [] = first.getD [] ++ next.getD [] := by
  cases next <;> simp [joinPayloads]

namespace Performative

theorem withPayload_of_payload? {p : Performative} {payload : Bytes}
    (h : p.payload? = some payload) : p.withPayload payload = p := by
  cases p <;> simp_all [payload?, withPayload]

@[simp] theorem kind_withPayload (p : Performative) (bytes : Bytes) :
    (p.withPayload bytes).kind = p.kind := by
  cases p <;> rfl

theorem decided_withPayload {p : Performative} (h : p.Decided) (bytes : Bytes) :
    (p.withPayload bytes).Decided := by
  cases p <;> exact h

theorem kind_ne_mechanisms {p : Performative} {payload : Bytes} (h : p.payload? = some payload) :
    p.kind ≠ .mechanisms := by
  cases p <;> simp_all [payload?, kind]

/-! ### Slices of a payload -/

/-- The same performative with other bytes, or none where it may go without. -/
def withPayload? (data : Option Bytes) : Performative → Performative
  | mechanisms names => mechanisms names
  | init mechanism _ hostname => init mechanism data hostname
  | challenge _ => challenge (data.getD [])
  | response _ => response (data.getD [])
  | outcome code _ => outcome code data

/-- The payloads in order, absent if all are. -/
def gathered (payloads : List (Option Bytes)) : Option Bytes :=
  if payloads.all Option.isNone then none
  else some (payloads.flatMap fun payload => payload.getD [])

theorem gathered_concat (payloads : List (Option Bytes)) (next : Option Bytes) :
    gathered (payloads ++ [next]) = joinPayloads (gathered payloads) next := by
  have hempty : payloads.all Option.isNone = true →
      payloads.flatMap (fun payload => payload.getD []) = [] := fun h => by
    rw [List.flatMap_eq_nil_iff]
    intro payload hmem
    rw [Option.isNone_iff_eq_none.1 (List.all_eq_true.1 h payload hmem)]
    rfl
  unfold gathered
  cases next with
  | none => simp [joinPayloads]
  | some next => by_cases h : payloads.all Option.isNone = true <;> simp [joinPayloads, h, hempty]

theorem gathered_singleton (payload : Option Bytes) : gathered [payload] = payload := by
  cases payload <;> simp [gathered]

theorem gathered_map_some {pieces : List Bytes} (h : pieces ≠ []) :
    gathered (pieces.map some) = some pieces.flatten := by
  cases pieces with
  | nil => exact absurd rfl h
  | cons piece pieces => simp [gathered, List.flatMap_map, List.flatMap_id']

theorem withPayload?_payload? (p : Performative) : p.withPayload? p.payload? = p := by
  cases p <;> rfl

theorem withPayload?_some (p : Performative) (bytes : Bytes) :
    p.withPayload? (some bytes) = p.withPayload bytes := by
  cases p <;> rfl

theorem join_withPayload? {p : Performative} (h : p.kind ≠ .mechanisms)
    (first next : Option Bytes) : (p.withPayload? first).join (p.withPayload? next) =
      .ok (p.withPayload? (joinPayloads first next)) := by
  cases p with
  | mechanisms names => exact absurd rfl h
  | init mechanism data hostname => exact if_neg (by simp)
  | outcome code data => exact if_neg (by simp)
  | challenge payload | response payload =>
    simp only [withPayload?, join, getD_joinPayloads]

/-- What a receiver keeps of `p` behind these slices of its payload. -/
def opened (p : Performative) : List (Option Bytes) → Option Performative
  | [] => none
  | slices => some (p.withPayload? (gathered slices))

theorem opened_of_ne_nil (p : Performative) {slices : List (Option Bytes)} (h : slices ≠ []) :
    p.opened slices = some (p.withPayload? (gathered slices)) := by
  cases slices with
  | nil => exact absurd rfl h
  | cons slice slices => rfl

theorem joinTo_opened {p : Performative} (h : p.kind ≠ .mechanisms) (before : List (Option Bytes))
    (slice : Option Bytes) : joinTo (p.opened before) (p.withPayload? slice) =
      .ok (p.withPayload? (gathered (before ++ [slice]))) := by
  cases before with
  | nil =>
    rw [List.nil_append, gathered_singleton]
    rfl
  | cons first before =>
    rw [opened_of_ne_nil p (List.cons_ne_nil _ _), gathered_concat]
    exact join_withPayload? h _ _

/-! ### Sizes -/

/-- The payload is one binary among the fields; an empty one takes two bytes. -/
theorem length_fieldBytes_withPayload {p : Performative} (h : p.kind ≠ .mechanisms)
    (bytes : Bytes) :
    (p.withPayload bytes).fieldBytes.length + 2 =
      (p.withPayload []).fieldBytes.length + (Wire.Field.binary bytes).encode.length := by
  have hempty : (Wire.Field.binary []).encode.length = 2 := rfl
  cases p with
  | mechanisms names => exact absurd rfl h
  | init | challenge | response | outcome =>
    simp only [withPayload, fieldBytes, fields, binaryField, Option.elim_some, List.flatMap_cons,
      List.flatMap_nil, List.length_append, List.length_nil, hempty]
    omega

theorem length_fieldBytes_withPayload_le (p : Performative) (bytes : Bytes) :
    (p.withPayload bytes).fieldBytes.length ≤
      (p.withPayload []).fieldBytes.length + bytes.length + 3 := by
  by_cases hkind : p.kind = .mechanisms
  · cases p with
    | mechanisms names => exact Nat.le_add_right_of_le (Nat.le_add_right _ _)
    | init | challenge | response | outcome => cases hkind
  · have hfields := length_fieldBytes_withPayload hkind bytes
    have hbinary := (Wire.length_sized Wire.TypeCode.binary8 Wire.TypeCode.binary32 bytes).2
    rw [Wire.Field.encode] at hfields
    omega

theorem length_encode (p : Performative) :
    p.fieldBytes.length + 6 ≤ p.encode.length ∧ p.encode.length ≤ p.fieldBytes.length + 12 := by
  have h := length_listBytes_le p.fieldBytes p.fields.length
  rw [encode_eq, List.length_append, List.length_cons, List.length_cons, List.length_cons,
    List.length_nil]
  omega

theorem size_withPayload_le (p : Performative) (bytes : Bytes) (more : Bool) :
    (Frame.mk (p.withPayload bytes) more).size ≤ p.overhead + bytes.length := by
  have hfields := length_fieldBytes_withPayload_le p bytes
  have hbytes := length_encode (p.withPayload bytes)
  have hempty := length_encode (p.withPayload [])
  rw [overhead, Frame.size_eq, Frame.size_eq, wideningSlack]
  simp only
  omega

end Performative

/-! ### Completion -/

/-- Behind the fragments so far, the frames end `p` with the last of them. -/
inductive Completes : Option Performative → List Frame → Performative → Prop
  | last {unfinished : Option Performative} {body p : Performative}
      (h : Performative.joinTo unfinished body = .ok p) :
      Completes unfinished [⟨body, false⟩] p
  | more {unfinished : Option Performative} {body joined p : Performative} {frames : List Frame}
      (h : Performative.joinTo unfinished body = .ok joined)
      (later : Completes (some joined) frames p) :
      Completes unfinished (⟨body, true⟩ :: frames) p

theorem Completes.bytes_ne_nil {unfinished : Option Performative} {frames : List Frame}
    {p : Performative} (h : Completes unfinished frames p) :
    frames.flatMap Frame.serialize ≠ [] := by
  cases h <;> exact List.cons_ne_nil _ _

/-- Frames with slices of a payload, behind some earlier ones, end the performative. -/
theorem completes_slices {p : Performative} (hkind : p.kind ≠ .mechanisms)
    {slices : List (Option Bytes)} (hne : slices ≠ []) (before : List (Option Bytes)) :
    Completes (p.opened before) (Frame.sequence (slices.map fun slice => p.withPayload? slice))
      (p.withPayload? (Performative.gathered (before ++ slices))) := by
  induction slices generalizing before with
  | nil => exact absurd rfl hne
  | cons slice slices ih =>
    have hjoin := Performative.joinTo_opened hkind before slice
    cases slices with
    | nil => exact .last hjoin
    | cons next slices =>
      have hlater := ih (List.cons_ne_nil _ _) (before ++ [slice])
      rw [p.opened_of_ne_nil (List.append_ne_nil_of_right_ne_nil _ (List.cons_ne_nil _ _)),
        List.append_assoc] at hlater
      exact .more hjoin hlater

theorem mem_sequence {bodies : List Performative} {frame : Frame}
    (h : frame ∈ Frame.sequence bodies) : frame.body ∈ bodies := by
  fun_induction Frame.sequence bodies with
  | case1 => exact absurd h List.not_mem_nil
  | case2 body => rw [List.mem_singleton.1 h]; exact List.mem_singleton.2 rfl
  | case3 body bodies _ ih =>
    rcases List.mem_cons.1 h with rfl | h
    · exact List.mem_cons_self
    · exact List.mem_cons_of_mem _ (ih h)

namespace Performative

/-- Either there is no payload and one frame that fits, or a room for payload bytes and a frame for
each piece of that size. -/
theorem fragments_cases {p : Performative} {limit : Nat} {frames : List Frame}
    (h : p.fragments limit = .ok frames) :
    (p.payload? = none ∧ (Frame.mk p false).size ≤ limit ∧ frames = [⟨p, false⟩]) ∨
      ∃ payload, p.payload? = some payload ∧ p.overhead < limit ∧
        frames = Frame.sequence ((pieces (limit - p.overhead) payload).map fun piece =>
          p.withPayload piece) := by
  unfold fragments at h
  split at h
  · next hpayload =>
    dsimp only at h
    split at h
    · cases h
    · cases h
      exact .inl ⟨hpayload, by omega, rfl⟩
  · next payload hpayload =>
    unfold capacity at h
    split at h
    · cases h
    · cases h
      exact .inr ⟨payload, hpayload, by omega, rfl⟩

/-- A payload that has room goes out in one frame. -/
theorem fragments_of_fits {p : Performative} {payload : Bytes} {limit : Nat}
    (hpayload : p.payload? = some payload) (hroom : p.overhead < limit)
    (hfits : p.overhead + payload.length ≤ limit) : p.fragments limit = .ok [⟨p, false⟩] := by
  have hcapacity : p.capacity limit = .ok (limit - p.overhead) := if_neg (Nat.not_le.2 hroom)
  have hpieces : pieces (limit - p.overhead) payload = [payload] := by
    rw [pieces, if_pos (.inr (by omega))]
  simp only [fragments, hpayload, hcapacity]
  change Except.ok (Frame.sequence ((pieces (limit - p.overhead) payload).map _)) = _
  rw [hpieces, List.map_singleton, withPayload_of_payload? hpayload]
  rfl

/-- `p` does not fit frames of `limit` bytes, and the fault says so. -/
inductive Oversized (p : Performative) (limit : Nat) : Fault → Prop
  | whole (hpayload : p.payload? = none) (h : limit < (Frame.mk p false).size) :
      Oversized p limit (.codec (.frameTooLarge p.kind (Frame.mk p false).size limit))
  | room (hpayload : p.payload? ≠ none) (h : limit ≤ p.overhead) :
      Oversized p limit (.codec (.noRoomForPayload p.kind p.overhead limit))

theorem fragments_error {p : Performative} {limit : Nat} {fault : Fault}
    (h : p.fragments limit = .error fault) : Oversized p limit fault := by
  unfold fragments at h
  split at h
  · next hpayload =>
    dsimp only at h
    split at h
    · next hsize =>
      cases h
      exact .whole hpayload hsize
    · cases h
  · next payload hpayload =>
    unfold capacity at h
    split at h
    · next hroom =>
      cases h
      exact .room (by rw [hpayload]; exact nofun) hroom
    · cases h

/-- `p` can go out in frames of at most `limit` bytes: whole, or with a payload that is cut to
what a frame with an empty one leaves room for. -/
def Fits (p : Performative) (limit : Nat) : Prop :=
  match p.payload? with
  | none => (Frame.mk p false).size ≤ limit
  | some _ => (Frame.mk (p.withPayload []) false).size + 9 < limit

instance (p : Performative) (limit : Nat) : Decidable (p.Fits limit) :=
  match h : p.payload? with
  | none => decidable_of_iff ((Frame.mk p false).size ≤ limit) (by rw [Fits, h])
  | some _ =>
    decidable_of_iff ((Frame.mk (p.withPayload []) false).size + 9 < limit) (by rw [Fits, h])

theorem fragments_of_fits_limit {p : Performative} {limit : Nat} (h : p.Fits limit) :
    ∃ frames, p.fragments limit = .ok frames := by
  rcases hframes : p.fragments limit with fault | frames
  · exfalso
    cases fragments_error hframes with
    | whole hpayload hsize =>
      rw [Fits, hpayload] at h
      exact Nat.not_lt.2 h hsize
    | room hpayload hroom =>
      obtain ⟨payload, hpayload⟩ := Option.ne_none_iff_exists'.1 hpayload
      rw [Fits, hpayload] at h
      exact Nat.not_lt.2 hroom h
  · exact ⟨frames, rfl⟩

theorem fits_of_fragments {p : Performative} {limit : Nat} {frames : List Frame}
    (h : p.fragments limit = .ok frames) : p.Fits limit := by
  rcases fragments_cases h with ⟨hpayload, hsize, -⟩ | ⟨payload, hpayload, hroom, -⟩
  · rw [Fits, hpayload]
    exact hsize
  · rw [Fits, hpayload]
    exact hroom

theorem Oversized.kind {p : Performative} {limit : Nat} {fault : Fault}
    (h : Oversized p limit fault) : fault.kind = .frameTooLarge := by
  cases h <;> rfl

/-- Above the least limit there is always room for a challenge, a response or an outcome. -/
theorem Oversized.sender {p : Performative} {limit : Nat} {fault : Fault}
    (h : Oversized p limit fault) (hlimit : minimumLimit ≤ limit) :
    p.kind = .mechanisms ∨ p.kind = .init := by
  cases p with
  | mechanisms names => exact .inl rfl
  | init mechanism data hostname => exact .inr rfl
  | challenge payload =>
    have hroom : (challenge payload).overhead < minimumLimit := by
      change (challenge []).overhead < minimumLimit
      decide
    cases h with
    | whole hpayload => cases hpayload
    | room _ h => omega
  | response payload =>
    have hroom : (response payload).overhead < minimumLimit := by
      change (response []).overhead < minimumLimit
      decide
    cases h with
    | whole hpayload => cases hpayload
    | room _ h => omega
  | outcome code data =>
    have hwhole : (Frame.mk (outcome code none) false).size < minimumLimit := by
      cases code <;> decide
    have hroom : (outcome code data).overhead < minimumLimit := by
      change (outcome code none).overhead < minimumLimit
      cases code <;> decide
    cases h with
    | whole hpayload h =>
      cases hpayload
      omega
    | room _ h => omega

theorem fragments_of_least (p : Performative) {limit : Nat} (hleast : minimumLimit ≤ limit)
    (hoffer : p.kind ≠ .mechanisms) (hinit : p.kind ≠ .init) :
    ∃ frames, p.fragments limit = .ok frames := by
  rcases hframes : p.fragments limit with fault | frames
  · rcases (fragments_error hframes).sender hleast with hkind | hkind
    · exact absurd hkind hoffer
    · exact absurd hkind hinit
  · exact ⟨frames, rfl⟩

theorem fragments_completes {p : Performative} {limit : Nat} {frames : List Frame}
    (h : p.fragments limit = .ok frames) : Completes none frames p := by
  rcases fragments_cases h with ⟨-, -, rfl⟩ | ⟨payload, hpayload, -, rfl⟩
  · exact .last rfl
  · have hpieces := pieces_ne_nil (limit - p.overhead) payload
    have hsome : (pieces (limit - p.overhead) payload).map some ≠ [] :=
      fun hnil => hpieces (List.map_eq_nil_iff.1 hnil)
    have hslices := completes_slices (kind_ne_mechanisms hpayload) hsome []
    rw [List.nil_append, gathered_map_some hpieces, flatten_pieces, ← hpayload,
      withPayload?_payload?, List.map_map] at hslices
    simpa only [opened, Function.comp_def, withPayload?_some] using hslices

theorem size_le_of_mem_fragments {p : Performative} {limit : Nat} {frames : List Frame}
    (h : p.fragments limit = .ok frames) : ∀ frame ∈ frames, frame.size ≤ limit := by
  intro frame hframe
  rcases fragments_cases h with ⟨-, hsize, rfl⟩ | ⟨payload, -, hroom, rfl⟩
  · rw [List.mem_singleton.1 hframe]
    exact hsize
  · obtain ⟨piece, hpiece, hbody⟩ := List.mem_map.1 (mem_sequence hframe)
    have hlen := length_le_of_mem_pieces (by omega) hpiece
    have hsize := size_withPayload_le p piece frame.more
    rw [hbody] at hsize
    exact Nat.le_trans hsize (by omega)

theorem fragments_fit {p : Performative} {limit : Nat} {frames : List Frame}
    (h : p.fragments limit = .ok frames) (hdecided : p.Decided) :
    ∀ frame ∈ frames, frame.body.Decided ∧ (frame.more → frame.body.kind ≠ .mechanisms) ∧
      frame.size ≤ limit := by
  intro frame hframe
  have hsize := size_le_of_mem_fragments h frame hframe
  rcases fragments_cases h with ⟨-, -, rfl⟩ | ⟨payload, hpayload, -, rfl⟩
  · rw [List.mem_singleton.1 hframe] at hsize ⊢
    exact ⟨hdecided, fun h => Bool.noConfusion h, hsize⟩
  · obtain ⟨piece, -, hbody⟩ := List.mem_map.1 (mem_sequence hframe)
    rw [← hbody, kind_withPayload]
    exact ⟨decided_withPayload hdecided piece, fun _ => kind_ne_mechanisms hpayload, hsize⟩

end Performative

end FramedSasl
