import FramedSasl.Proofs.Polling
import Mathlib.Data.List.Forall2

/-! Performatives over a stream. A codec that `Awaits` a performative has some of the bytes of its
frames; polls give nothing before the last of them is in, and the performative then. The frames may
be written in any form that the codec `Admits`. So a receiver gives what a sender encoded, each
performative with its last byte. -/

namespace FramedSasl

/-- The longer of two beginnings of the same bytes begins with the shorter. -/
theorem exists_rest {long short ys zs : Bytes} (h : long ++ ys = short ++ zs)
    (hle : short.length ≤ long.length) : ∃ rest, long = short ++ rest ∧ rest ++ ys = zs := by
  have hshort : short <+: long ++ ys := by
    rw [h]
    exact List.prefix_append _ _
  obtain ⟨rest, rfl⟩ := List.prefix_of_prefix_length_le hshort (List.prefix_append _ _) hle
  rw [List.append_assoc] at h
  exact ⟨rest, rfl, List.append_cancel_left h⟩

namespace Codec

/-! ### Frames that fit -/

theorem peekSize_none {data : Bytes} (h : data.length < 4) : Frame.peekSize data = none := by
  unfold Frame.peekSize
  split
  · simp at h
    omega
  · rfl

theorem peekSize_some {data : Bytes} (h : 4 ≤ data.length) :
    ∃ size, Frame.peekSize data = some size := by
  unfold Frame.peekSize
  split
  · exact ⟨_, rfl⟩
  · next hshort =>
    match data with
    | [] | [_] | [_, _] | [_, _, _] => simp at h
    | b₀ :: b₁ :: b₂ :: b₃ :: rest => exact absurd rfl (hshort b₀ b₁ b₂ b₃ rest)

/-- How a stream that begins with some bytes of a declared size is cut depends on sizes alone. -/
theorem cutFrame_of_peekSize {bytes : Bytes} (hsize : Frame.peekSize bytes = some bytes.length)
    (hheader : Frame.headerSize ≤ bytes.length) {stream missing rest : Bytes}
    (hbytes : stream ++ missing = bytes ++ rest) (limit : Nat) :
    cutFrame limit stream =
      if stream.length < 4 then .ok none
      else if limit < bytes.length then .error (.codec (.inboundTooLarge bytes.length limit))
      else if stream.length < bytes.length then .ok none
      else .ok (some (bytes, stream.drop bytes.length)) := by
  by_cases hshort : stream.length < 4
  · rw [cutFrame, peekSize_none hshort, if_pos hshort]
  · obtain ⟨size, hpeek⟩ := peekSize_some (Nat.not_lt.1 hshort)
    have hsame : some size = some bytes.length := by
      rw [← peekSize_append hpeek missing, hbytes, peekSize_append hsize]
    cases hsame
    simp only [cutFrame, hpeek, if_neg (Nat.not_lt.2 hheader), if_neg hshort]
    by_cases hlarge : limit < bytes.length
    · rw [if_pos hlarge, if_pos hlarge]
    · rw [if_neg hlarge, if_neg hlarge]
      by_cases hpart : stream.length < bytes.length
      · rw [if_pos hpart, if_pos hpart]
      · rw [if_neg hpart, if_neg hpart]
        obtain ⟨tail, rfl, -⟩ := exists_rest hbytes (Nat.not_lt.1 hpart)
        rw [List.take_left]

theorem cutFrame_eq {frame : Frame} (h : frame.size < wordCount) {stream missing rest : Bytes}
    (hbytes : stream ++ missing = frame.serialize ++ rest) (limit : Nat) :
    cutFrame limit stream =
      if stream.length < 4 then .ok none
      else if limit < frame.size then .error (.codec (.inboundTooLarge frame.size limit))
      else if stream.length < frame.size then .ok none
      else .ok (some (frame.serialize, stream.drop frame.size)) := by
  have hsize : Frame.peekSize frame.serialize = some frame.size := by
    rw [← Frame.peekSize_serialize h [], List.append_nil]
  exact cutFrame_of_peekSize hsize (by rw [← Frame.size, Frame.size_eq]; omega) hbytes limit

/-- Bytes that a codec with this limit takes in as one frame, in whatever form it is written. -/
structure Admits (limit : Nat) (bytes : Bytes) (frame : Frame) : Prop where
  whole : Frame.peekSize bytes = some bytes.length
  fits : bytes.length ≤ limit
  parses : Frame.parse bytes = .ok frame

namespace Admits

variable {limit : Nat} {bytes stream missing rest : Bytes} {frame : Frame}

theorem header (h : Admits limit bytes frame) : Frame.headerSize ≤ bytes.length := by
  have hparses := h.parses
  unfold Frame.parse at hparses
  split at hparses
  · simp [Frame.headerSize]
  · cases hparses

theorem cut (h : Admits limit bytes frame) (rest : Bytes) :
    cutFrame limit (bytes ++ rest) = .ok (some (bytes, rest)) := by
  have hheader := h.header
  rw [Frame.headerSize] at hheader
  have hlen : (bytes ++ rest).length = bytes.length + rest.length := List.length_append
  rw [cutFrame_of_peekSize h.whole h.header (List.append_nil _), if_neg (by omega),
    if_neg (Nat.not_lt.2 h.fits), if_neg (by omega), List.drop_left]

theorem cut_short (h : Admits limit bytes frame) (hbytes : stream ++ missing = bytes ++ rest)
    (hshort : stream.length < bytes.length) : cutFrame limit stream = .ok none := by
  rw [cutFrame_of_peekSize h.whole h.header hbytes, if_neg (Nat.not_lt.2 h.fits), if_pos hshort,
    ite_self]

end Admits

/-- A frame that can travel to a receiver with this limit. -/
def Fits (limit : Nat) (frame : Frame) : Prop := frame.Travels ∧ frame.size ≤ limit

theorem parse_own {frame : Frame} (h : frame.Travels) :
    Frame.parse frame.serialize = .ok frame := by
  have := Frame.parse_serialize h []
  rwa [List.append_nil] at this

theorem Fits.admits {limit : Nat} {frame : Frame} (h : Fits limit frame) :
    Admits limit frame.serialize frame where
  whole := by rw [← List.append_nil frame.serialize, Frame.peekSize_serialize h.1.size_lt,
    List.append_nil, Frame.size]
  fits := h.2
  parses := parse_own h.1

theorem admits_serialize {limit : Nat} {frames : List Frame}
    (h : ∀ frame ∈ frames, Fits limit frame) :
    List.Forall₂ (Admits limit) (frames.map Frame.serialize) frames :=
  List.forall₂_map_left_iff.2 (List.forall₂_same.2 fun frame hframe => (h frame hframe).admits)

/-! ### Awaiting a performative -/

/-- The codec has all bytes but `missing` of frames that bring `p` to its end. -/
def Awaits (c : Codec) (p : Performative) (missing : Bytes) : Prop :=
  ∃ wires frames, Completes c.unfinished frames p ∧ List.Forall₂ (Admits c.limit) wires frames ∧
    c.buffer ++ missing = wires.flatten

theorem Awaits.feed {c : Codec} {p : Performative} {piece missing : Bytes}
    (h : c.Awaits p (piece ++ missing)) : (c.feed piece).Awaits p missing := by
  obtain ⟨wires, frames, hcompletes, hadmits, hbytes⟩ := h
  refine ⟨wires, frames, hcompletes, hadmits, ?_⟩
  rw [Codec.feed, List.append_assoc]
  exact hbytes

/-- Nothing comes before the last byte, and the codec goes on to wait. -/
theorem Awaits.pollAll {c : Codec} {p : Performative} {missing : Bytes} (h : c.Awaits p missing)
    (hmissing : missing ≠ []) :
    c.pollAll.performatives = [] ∧ c.pollAll.fault = none ∧ c.pollAll.codec.Awaits p missing := by
  obtain ⟨wires, frames, hcompletes, hadmits, hbytes⟩ := h
  induction frames generalizing c wires with
  | nil => cases hcompletes
  | cons frame frames ih =>
    obtain ⟨wire, wires, hframe, hframes, rfl⟩ := List.forall₂_cons_right_iff.1 hadmits
    rw [List.flatten_cons] at hbytes
    -- the first of the frames is not whole yet, or goes on in another
    by_cases hshort : c.buffer.length < wire.length
    · rw [pollAll_of_cut_none (hframe.cut_short hbytes hshort)]
      exact ⟨rfl, rfl, wire :: wires, frame :: frames, hcompletes, hadmits, hbytes⟩
    · obtain ⟨rest, hbuffer, hrest⟩ := exists_rest hbytes (Nat.not_lt.1 hshort)
      have hcut := hframe.cut rest
      rw [← hbuffer] at hcut
      cases hcompletes with
      | last hjoin =>
        cases hframes
        have hnil := (List.append_eq_nil_iff.1 hrest).2
        exact absurd hnil hmissing
      | more hjoin hlater =>
        rw [pollAll_of_more hcut hframe.parses hjoin rfl]
        exact ih wires hlater hframes hrest

/-- From all bytes of its frames the performative comes, and then what the bytes behind them
bring. -/
theorem pollAll_of_admitted {c : Codec} {p : Performative} {wires : List Bytes}
    {frames : List Frame} {rest : Bytes} (hcompletes : Completes c.unfinished frames p)
    (hadmits : List.Forall₂ (Admits c.limit) wires frames)
    (hbytes : c.buffer = wires.flatten ++ rest) :
    c.pollAll = (Codec.pollAll { c with buffer := rest, started := true, unfinished := none }).after
      ⟨[p], frames.zipWith (fun frame wire => ⟨frame, wire.length⟩) wires, none, c⟩ := by
  induction frames generalizing c wires with
  | nil => cases hcompletes
  | cons frame frames ih =>
    obtain ⟨wire, wires, hframe, hframes, rfl⟩ := List.forall₂_cons_right_iff.1 hadmits
    have hcut := hframe.cut (wires.flatten ++ rest)
    rw [← List.append_assoc, ← List.flatten_cons, ← hbytes] at hcut
    cases hcompletes with
    | @last _ body _ hjoin =>
      cases hframes
      rw [pollAll_of_last hcut hframe.parses hjoin rfl]
      rfl
    | @more _ body joined _ _ hjoin hlater =>
      rw [pollAll_of_more hcut hframe.parses hjoin rfl, ih (c := { c with
        buffer := wires.flatten ++ rest, started := true
        unfinished := some joined }) hlater hframes rfl]
      rfl

theorem pollAll_of_completes {c : Codec} {p : Performative} {frames : List Frame} {rest : Bytes}
    (hcompletes : Completes c.unfinished frames p) (hfits : ∀ frame ∈ frames, Fits c.limit frame)
    (hbytes : c.buffer = frames.flatMap Frame.serialize ++ rest) :
    c.pollAll = (Codec.pollAll { c with buffer := rest, started := true, unfinished := none }).after
      ⟨[p], frames.map fun frame => ⟨frame, frame.size⟩, none, c⟩ := by
  rw [pollAll_of_admitted hcompletes (admits_serialize hfits) hbytes, List.zipWith_map_right,
    List.zipWith_self]
  rfl

/-- The performative comes with the last byte, and then what the bytes behind it bring. -/
theorem Awaits.pollAll_feed {c : Codec} {p : Performative} (h : c.Awaits p []) (rest : Bytes) :
    ∃ arrivals, (c.feed rest).pollAll =
      (Codec.pollAll { c with buffer := rest, started := true, unfinished := none }).after
        ⟨[p], arrivals, none, c⟩ := by
  obtain ⟨wires, frames, hcompletes, hadmits, hbytes⟩ := h
  rw [List.append_nil] at hbytes
  have hfed : (c.feed rest).buffer = wires.flatten ++ rest := by
    rw [Codec.feed, hbytes]
  exact ⟨_, pollAll_of_admitted (c := c.feed rest) hcompletes hadmits hfed⟩

/-- The frames that a sender made of `p` travel to a receiver with no smaller limit. -/
theorem fits_fragments {p : Performative} {limit limit' : Nat} {frames : List Frame}
    (h : p.fragments limit = .ok frames) (hdecided : p.Decided) (hword : limit < wordCount)
    (hlimit : limit ≤ limit') : ∀ frame ∈ frames, Fits limit' frame := by
  intro frame hframe
  obtain ⟨hbody, hwhole, hsize⟩ := p.fragments_fit h hdecided frame hframe
  exact ⟨⟨hbody, hwhole, by omega⟩, by omega⟩

/-- The bytes of frames that a sender made of `p`. -/
theorem awaits_fragments {c : Codec} {p : Performative} {limit : Nat} {frames : List Frame}
    (hidle : c.buffer = [] ∧ c.unfinished = none) (h : p.fragments limit = .ok frames)
    (hdecided : p.Decided) (hword : limit < wordCount) (hlimit : limit ≤ c.limit) :
    c.Awaits p (frames.flatMap Frame.serialize) := by
  refine ⟨_, frames, ?_, admits_serialize (fits_fragments h hdecided hword hlimit), ?_⟩
  · rw [hidle.2]
    exact p.fragments_completes h
  · rw [hidle.1, List.nil_append, List.flatMap_def]

/-! ### A sequence of performatives -/

theorem on_encode (c : Codec) (p : Performative) :
    (encode p).on c = (p.fragments c.peerLimit, { c with started := true }) := by
  rw [encode, Call.on_get_bind, Call.on_set_bind, Call.on_ofExcept]

theorem on_mapM_encode (c : Codec) (p : Performative) (ps : List Performative) :
    ((p :: ps).mapM encode).on c = match p.fragments c.peerLimit with
      | .error fault => (.error fault, { c with started := true })
      | .ok frames => match (ps.mapM encode).on { c with started := true } with
        | (.error fault, c') => (.error fault, c')
        | (.ok groups, c') => (.ok (frames :: groups), c') := by
  rw [List.mapM_cons, Call.on_bind, on_encode]
  cases p.fragments c.peerLimit with
  | error fault => rfl
  | ok frames =>
    dsimp only
    rw [Call.on_bind]
    generalize Call.on _ (List.mapM encode ps) = later
    rcases later with ⟨_ | groups, c'⟩ <;> rfl

/-- How many of these performatives, each with its frames, have their last byte among the first
`n` bytes of all. -/
def wholeWithin (n : Nat) : List (List Frame) → Nat
  | [] => 0
  | frames :: later =>
    let size := (frames.flatMap Frame.serialize).length
    if size ≤ n then wholeWithin (n - size) later + 1 else 0

theorem pollAll_encoded {ps : List Performative} {sender sender' c : Codec}
    {groups : List (List Frame)} {rest : Bytes}
    (hsent : (ps.mapM encode).on sender = (.ok groups, sender')) (hdecided : ∀ p ∈ ps, p.Decided)
    (hword : sender.peerLimit < wordCount) (hlimit : sender.peerLimit ≤ c.limit)
    (hunfinished : c.unfinished = none)
    (hfed : c.buffer ++ rest = groups.flatten.flatMap Frame.serialize) :
    c.pollAll.fault = none ∧
      c.pollAll.performatives = ps.take (wholeWithin c.buffer.length groups) ∧
        (rest = [] → c.pollAll.performatives = ps ∧ c.pollAll.codec.buffer = [] ∧
          c.pollAll.codec.unfinished = none) := by
  induction ps generalizing sender groups c with
  | nil =>
    cases hsent
    obtain ⟨hbuffer, -⟩ := List.append_eq_nil_iff.1 hfed
    rw [pollAll_of_cut_none (by rw [hbuffer]; rfl)]
    exact ⟨rfl, rfl, fun _ => ⟨rfl, hbuffer, hunfinished⟩⟩
  | cons p ps ih =>
    obtain ⟨hp, hps⟩ := List.forall_mem_cons.1 hdecided
    rw [on_mapM_encode] at hsent
    cases hframes : p.fragments sender.peerLimit with
    | error fault =>
      rw [hframes] at hsent
      cases hsent
    | ok frames =>
      rw [hframes] at hsent
      dsimp only at hsent
      split at hsent
      · cases hsent
      · next later _ hlater =>
        cases hsent
        rw [List.flatten_cons, List.flatMap_append] at hfed
        have hawaits := awaits_fragments (c := { c with buffer := [] }) ⟨rfl, hunfinished⟩ hframes
          hp hword hlimit
        rw [wholeWithin]
        -- the buffer begins with all bytes of `p`, or is a part of them
        by_cases hwhole : (frames.flatMap Frame.serialize).length ≤ c.buffer.length
        · obtain ⟨buffer, hbuffer, hrest⟩ := exists_rest hfed hwhole
          have hall := hawaits
          rw [← List.append_nil (frames.flatMap Frame.serialize)] at hall
          obtain ⟨arrivals, heq⟩ := hall.feed.pollAll_feed buffer
          have hc : (Codec.feed { c with buffer := [] } (frames.flatMap Frame.serialize)).feed
              buffer = c := by
            simp only [feed, List.nil_append, ← hbuffer]
          rw [hc] at heq
          obtain ⟨hfault, hperformatives, hend⟩ := ih
            (c := { c with buffer := buffer, started := true, unfinished := none })
            hlater hps hword hlimit rfl hrest
          rw [heq, if_pos hwhole, List.take_succ_cons, hbuffer, List.length_append,
            Nat.add_sub_cancel_left]
          refine ⟨hfault, congrArg (p :: ·) hperformatives, ?_⟩
          intro hnil
          obtain ⟨hsame, hempty⟩ := hend hnil
          exact ⟨congrArg (p :: ·) hsame, hempty⟩
        · obtain ⟨missing, hmissing, hbehind⟩ := exists_rest hfed.symm (Nat.le_of_not_le hwhole)
          have hne : missing ≠ [] := by
            rintro rfl
            rw [hmissing, List.append_nil] at hwhole
            exact hwhole (Nat.le_refl _)
          rw [hmissing] at hawaits
          obtain ⟨hnothing, hfault, -⟩ := hawaits.feed.pollAll hne
          have hc : Codec.feed { c with buffer := [] } c.buffer = c := by
            simp only [feed, List.nil_append]
          rw [hc] at hnothing hfault
          rw [if_neg hwhole]
          refine ⟨hfault, hnothing, ?_⟩
          intro hnil
          rw [hnil] at hbehind
          exact absurd (List.append_eq_nil_iff.1 hbehind).1 hne

/-- A receiver that is fed the bytes of a sender in any chunks, up to any point, has given each
performative whose last byte is in, in the order of the sender, and no fault. With the last byte of
all nothing is left over. -/
theorem pollChunks_encoded {ps : List Performative} {sender sender' : Codec}
    {groups : List (List Frame)} {limit peerLimit : Nat} {chunks : List Bytes} {rest : Bytes}
    (hsent : (ps.mapM encode).on sender = (.ok groups, sender')) (hdecided : ∀ p ∈ ps, p.Decided)
    (hword : sender.peerLimit < wordCount) (hlimit : sender.peerLimit ≤ limit)
    (hfed : chunks.flatten ++ rest = groups.flatten.flatMap Frame.serialize) :
    let run := Codec.pollChunks { limit, peerLimit } chunks
    run.fault = none ∧
      run.performatives = ps.take (wholeWithin chunks.flatten.length groups) ∧
        (rest = [] → run.performatives = ps ∧ run.codec.buffer = [] ∧
          run.codec.unfinished = none) := by
  let receiver : Codec := { limit, peerLimit }
  obtain ⟨⟨hperformatives, -, hfault⟩, hcodec⟩ :=
    pollChunks_eq (c := receiver) (pollAll_of_cut_none rfl) chunks
  obtain ⟨hnone, htake, hend⟩ :=
    pollAll_encoded (c := receiver.feed chunks.flatten) hsent hdecided hword hlimit rfl hfed
  refine ⟨hfault.trans hnone, hperformatives.trans htake, ?_⟩
  intro hnil
  obtain ⟨hall, hempty⟩ := hend hnil
  refine ⟨hperformatives.trans hall, ?_⟩
  rw [hcodec hnone]
  exact hempty

/-- An outcome with no data behind one with empty data, cut within the first frame. -/
theorem pollChunks_encoded_outcomes :
    let ps : List Performative := [.outcome .ok (some []), .outcome .ok none]
    let bytes := ps.flatMap fun p => Frame.serialize ⟨p, false⟩
    (Codec.pollChunks {} [bytes.take 9, bytes.drop 9]).performatives = ps := by
  have hempty : (Performative.outcome .ok (some [])).fragments minimumLimit =
      .ok [⟨.outcome .ok (some []), false⟩] :=
    Performative.fragments_of_fits rfl (by decide) (by decide)
  have hnone : (Performative.outcome .ok none).fragments minimumLimit =
      .ok [⟨.outcome .ok none, false⟩] := rfl
  have hsent : ([.outcome .ok (some []), .outcome .ok none].mapM encode).on {} =
      (.ok [[⟨.outcome .ok (some []), false⟩], [⟨.outcome .ok none, false⟩]],
        { started := true }) := by
    rw [on_mapM_encode, on_mapM_encode]
    simp only [hempty, hnone]
    rfl
  intro ps bytes
  have hfed : [bytes.take 9, bytes.drop 9].flatten ++ [] = bytes := by
    rw [List.append_nil, List.flatten_cons, List.flatten_singleton, List.take_append_drop]
  exact ((pollChunks_encoded hsent (by simp [Performative.Decided]) (by decide)
    (Nat.le_refl _) hfed).2.2 rfl).1

end Codec

end FramedSasl
