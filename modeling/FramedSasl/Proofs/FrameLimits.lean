import FramedSasl.Proofs.EndpointRuns
import FramedSasl.Proofs.StreamRoundTrip

/-! Calls on a codec in any order. The limits can be set until the first frame passes, either way,
and stay from then on: so one pair of limits holds for all frames that came in and went out. -/

namespace FramedSasl

open Call

namespace Codec

inductive Act where
  | setLimit (size : UInt32)
  | setPeerLimit (size : UInt32)
  | encode (p : Performative)
  | feed (data : Bytes)
  | poll

/-- The limits of `c` are those of `c'` once frames have passed. -/
structure Holds (c c' : Codec) : Prop where
  started : c.started = true → c'.started = true
  limit : c.started = true → c'.limit = c.limit
  peerLimit : c.started = true → c'.peerLimit = c.peerLimit

variable {c c' c'' : Codec}

theorem Holds.refl (c : Codec) : c.Holds c := ⟨id, fun _ => rfl, fun _ => rfl⟩

theorem Holds.of_fresh (h : c.started = false) : c.Holds c' := by
  refine ⟨fun hstarted => ?_, fun hstarted => ?_, fun hstarted => ?_⟩
  all_goals cases h.symm.trans hstarted

theorem Holds.trans (h : c.Holds c') (h' : c'.Holds c'') : c.Holds c'' where
  started hstarted := h'.started (h.started hstarted)
  limit hstarted := (h'.limit (h.started hstarted)).trans (h.limit hstarted)
  peerLimit hstarted := (h'.peerLimit (h.started hstarted)).trans (h.peerLimit hstarted)

theorem setLimit_frozen (h : c.started = true) (size : Nat) :
    ∃ fault, on c (setLimit size) = (.error fault, c) := by
  rcases c.setLimit_cases size with hrefused | ⟨hfresh, -⟩
  · exact hrefused
  · cases hfresh.symm.trans h

theorem setPeerLimit_frozen (h : c.started = true) (size : Nat) :
    ∃ fault, on c (setPeerLimit size) = (.error fault, c) := by
  rcases c.setPeerLimit_cases size with hrefused | ⟨hfresh, -⟩
  · exact hrefused
  · cases hfresh.symm.trans h

theorem setLimit_unchanged {size : Nat} {fault : Fault}
    (h : on c (setLimit size) = (.error fault, c')) : c' = c := by
  rcases c.setLimit_cases size with ⟨cause, hrefused⟩ | ⟨-, -, hset⟩
  · cases h.symm.trans hrefused
    rfl
  · cases h.symm.trans hset

theorem setPeerLimit_unchanged {size : Nat} {fault : Fault}
    (h : on c (setPeerLimit size) = (.error fault, c')) : c' = c := by
  rcases c.setPeerLimit_cases size with ⟨cause, hrefused⟩ | ⟨-, -, hset⟩
  · cases h.symm.trans hrefused
    rfl
  · cases h.symm.trans hset

/-! ### Frames in -/

/-- A frame that is cut off fits the limit. -/
theorem cutFrame_length_le {limit : Nat} {stream bytes rest : Bytes}
    (h : cutFrame limit stream = .ok (some (bytes, rest))) : bytes.length ≤ limit := by
  unfold cutFrame at h
  repeat' split at h
  all_goals cases h
  rw [List.length_take]
  omega

/-- What waits for the rest of a frame is shorter than the limit. -/
theorem length_lt_of_cutFrame_none {limit : Nat} {stream : Bytes} (hleast : minimumLimit ≤ limit)
    (h : cutFrame limit stream = .ok none) : stream.length < limit := by
  unfold cutFrame at h
  split at h
  · next hsize =>
    rcases Nat.lt_or_ge stream.length 4 with hshort | hlong
    · exact Nat.lt_of_lt_of_le hshort (Nat.le_trans (by decide) hleast)
    · obtain ⟨size, hpeek⟩ := peekSize_some hlong
      cases hsize.symm.trans hpeek
  · repeat' split at h
    all_goals cases h
    omega

/-- What one poll does, as far as the limits go. -/
structure PollsWithin (c : Codec) (polled : Polled) : Prop where
  limit : polled.codec.limit = c.limit
  peerLimit : polled.codec.peerLimit = c.peerLimit
  started : c.started = true ∨ polled.arrivals ≠ [] → polled.codec.started = true
  sizes : ∀ arrival ∈ polled.arrivals, arrival.size ≤ c.limit
  waiting : minimumLimit ≤ c.limit → polled.result = .ok none →
    polled.codec.buffer.length < c.limit

theorem poll_within (c : Codec) : c.PollsWithin c.poll := by
  fun_induction poll c with
  | case1 c fault hcut | case3 c bytes rest hcut fault hparse =>
    exact ⟨rfl, rfl, by simp, by simp, fun _ hnone => by cases hnone⟩
  | case2 c hcut =>
    exact ⟨rfl, rfl, by simp, by simp, fun hleast _ => length_lt_of_cutFrame_none hleast hcut⟩
  | case4 c bytes rest hcut | case6 c bytes rest hcut =>
    have hsize := cutFrame_length_le hcut
    exact ⟨rfl, rfl, fun _ => rfl, List.forall_mem_singleton.2 hsize, fun _ hnone => by cases hnone⟩
  | case5 c bytes rest hcut frame hparse arrival c' body hjoin hmore later ih =>
    have hsize := cutFrame_length_le hcut
    exact ⟨ih.limit, ih.peerLimit, fun _ => ih.started (.inl rfl),
      List.forall_mem_cons.2 ⟨hsize, ih.sizes⟩, ih.waiting⟩

theorem poll_holds (c : Codec) : c.Holds c.poll.codec := by
  obtain ⟨hlimit, hpeerLimit, hstarted, -, -⟩ := c.poll_within
  exact ⟨fun hset => hstarted (.inl hset), fun _ => hlimit, fun _ => hpeerLimit⟩

end Codec

open Codec

/-- A codec, the frames that came in and the frames that went out. -/
structure Transcript where
  codec : Codec
  decoded : List Arrival := []
  encoded : List Frame := []

namespace Transcript

def perform (t : Transcript) : Act → Transcript
  | .setLimit size => { t with codec := (on t.codec (Codec.setLimit size.toNat)).2 }
  | .setPeerLimit size => { t with codec := (on t.codec (Codec.setPeerLimit size.toNat)).2 }
  | .encode p =>
    match on t.codec (Codec.encode p) with
    | (.error _, c) => { t with codec := c }
    | (.ok frames, c) => { t with codec := c, encoded := t.encoded ++ frames }
  | .feed data => { t with codec := t.codec.feed data }
  | .poll => { t with codec := t.codec.poll.codec, decoded := t.decoded ++ t.codec.poll.arrivals }

/-- What a new codec with this limit leads to. -/
def run (limit : UInt32) (acts : List Act) : Transcript :=
  acts.foldl perform { codec := ofLimit limit.toNat }

/-- The limits are those of all the frames so far. -/
structure Governed (t : Transcript) : Prop where
  limit : minimumLimit ≤ t.codec.limit
  peerLimit : minimumLimit ≤ t.codec.peerLimit
  fresh : t.codec.started = false → t.decoded = [] ∧ t.encoded = []
  decoded : ∀ arrival ∈ t.decoded, arrival.size ≤ t.codec.limit
  encoded : ∀ frame ∈ t.encoded, frame.size ≤ t.codec.peerLimit

variable {t : Transcript}

theorem Governed.new (limit : UInt32) : Governed { codec := ofLimit limit.toNat } where
  limit := Nat.le_max_right _ _
  peerLimit := Nat.le_max_right _ _
  fresh _ := ⟨rfl, rfl⟩
  decoded := nofun
  encoded := nofun

theorem Governed.setLimit (h : t.Governed) (size : UInt32) :
    (t.perform (.setLimit size)).Governed ∧ t.codec.Holds (t.perform (.setLimit size)).codec := by
  rw [perform]
  rcases t.codec.setLimit_cases size.toNat with ⟨fault, hrefused⟩ | ⟨hfresh, hleast, hset⟩
  · rw [hrefused]
    exact ⟨h, .refl _⟩
  · rw [hset]
    refine ⟨⟨hleast, h.peerLimit, h.fresh, ?_, h.encoded⟩, .of_fresh hfresh⟩
    simp [(h.fresh hfresh).1]

theorem Governed.setPeerLimit (h : t.Governed) (size : UInt32) :
    (t.perform (.setPeerLimit size)).Governed ∧
      t.codec.Holds (t.perform (.setPeerLimit size)).codec := by
  rw [perform]
  rcases t.codec.setPeerLimit_cases size.toNat with ⟨fault, hrefused⟩ | ⟨hfresh, hleast, hset⟩
  · rw [hrefused]
    exact ⟨h, .refl _⟩
  · rw [hset]
    refine ⟨⟨h.limit, hleast, h.fresh, h.decoded, ?_⟩, .of_fresh hfresh⟩
    simp [(h.fresh hfresh).2]

theorem Governed.encode (h : t.Governed) (p : Performative) :
    (t.perform (.encode p)).Governed ∧ t.codec.Holds (t.perform (.encode p)).codec ∧
      (t.perform (.encode p)).codec.started = true := by
  rw [perform, on_encode]
  rcases hframes : p.fragments t.codec.peerLimit with fault | frames
  · exact ⟨⟨h.limit, h.peerLimit, nofun, h.decoded, h.encoded⟩,
      ⟨fun _ => rfl, fun _ => rfl, fun _ => rfl⟩, rfl⟩
  · refine ⟨⟨h.limit, h.peerLimit, nofun, h.decoded, ?_⟩,
      ⟨fun _ => rfl, fun _ => rfl, fun _ => rfl⟩, rfl⟩
    exact List.forall_mem_append.2 ⟨h.encoded, p.size_le_of_mem_fragments hframes⟩

theorem Governed.poll (h : t.Governed) :
    (t.perform .poll).Governed ∧ t.codec.Holds (t.perform .poll).codec := by
  obtain ⟨hlimit, hpeerLimit, hstarted, hsizes, -⟩ := t.codec.poll_within
  simp only [perform]
  refine ⟨⟨by rw [hlimit]; exact h.limit, by rw [hpeerLimit]; exact h.peerLimit, ?_, ?_, ?_⟩,
    t.codec.poll_holds⟩
  · intro hfresh
    have hearlier : t.codec.started = false :=
      Bool.eq_false_iff.2 fun hset => by cases hfresh.symm.trans (hstarted (.inl hset))
    have hnone : t.codec.poll.arrivals = [] :=
      Decidable.byContradiction fun hsome => by cases hfresh.symm.trans (hstarted (.inr hsome))
    obtain ⟨hdecoded, hencoded⟩ := h.fresh hearlier
    exact ⟨by rw [hdecoded, hnone]; rfl, hencoded⟩
  · rw [hlimit]
    exact List.forall_mem_append.2 ⟨h.decoded, hsizes⟩
  · rw [hpeerLimit]
    exact h.encoded

theorem Governed.perform (h : t.Governed) (act : Act) :
    (t.perform act).Governed ∧ t.codec.Holds (t.perform act).codec := by
  cases act with
  | setLimit size => exact h.setLimit size
  | setPeerLimit size => exact h.setPeerLimit size
  | encode p => exact ⟨(h.encode p).1, (h.encode p).2.1⟩
  | feed data =>
    exact ⟨⟨h.limit, h.peerLimit, h.fresh, h.decoded, h.encoded⟩, id, fun _ => rfl, fun _ => rfl⟩
  | poll => exact h.poll

theorem run_append (limit : UInt32) (acts more : List Act) :
    run limit (acts ++ more) = more.foldl perform (run limit acts) := List.foldl_append

theorem Governed.foldl (h : t.Governed) (acts : List Act) :
    (acts.foldl Transcript.perform t).Governed ∧
      t.codec.Holds (acts.foldl Transcript.perform t).codec := by
  induction acts generalizing t with
  | nil => exact ⟨h, .refl _⟩
  | cons act acts ih =>
    obtain ⟨hnext, hholds⟩ := h.perform act
    obtain ⟨hlast, hrest⟩ := ih hnext
    exact ⟨hlast, hholds.trans hrest⟩

/-- The first encode is behind us, whether it went well or not. -/
theorem Governed.started_of_encode (h : t.Governed) {acts : List Act} {p : Performative}
    (hmem : .encode p ∈ acts) : (acts.foldl Transcript.perform t).codec.started = true := by
  obtain ⟨front, back, rfl⟩ := List.append_of_mem hmem
  rw [List.foldl_append, List.foldl_cons]
  obtain ⟨hencoded, -, hstarted⟩ := (h.foldl front).1.encode p
  exact (hencoded.foldl back).2.started hstarted

theorem Governed.started_of_decoded (h : t.Governed) (hdecoded : t.decoded ≠ []) :
    t.codec.started = true := by
  cases hstarted : t.codec.started with
  | true => rfl
  | false => exact absurd (h.fresh hstarted).1 hdecoded

/-- After any calls in any order, and some more. Both limits are at least the least one. Once a
performative has been given to encode or a frame has come in, they do not change any more, and every
attempt to set one fails; an attempt that fails never changes anything. All frames that came in and
that went out, also before that, are within the limits of now. Where a poll finds nothing, less than
the limit waits. This includes what comes behind a poll that failed. -/
theorem run_keeps_limits (limit : UInt32) (acts more : List Act) :
    let t := run limit acts
    let c' := (run limit (acts ++ more)).codec
    minimumLimit ≤ t.codec.limit ∧ minimumLimit ≤ t.codec.peerLimit ∧
      ((∃ p, .encode p ∈ acts) ∨ t.decoded ≠ [] →
        c'.limit = t.codec.limit ∧ c'.peerLimit = t.codec.peerLimit ∧
        ∀ size : UInt32, (∃ fault, on c' (Codec.setLimit size.toNat) = (.error fault, c')) ∧
          ∃ fault, on c' (Codec.setPeerLimit size.toNat) = (.error fault, c')) ∧
      (∀ size : UInt32, ∀ fault after,
        (on t.codec (Codec.setLimit size.toNat) = (.error fault, after) → after = t.codec) ∧
        (on t.codec (Codec.setPeerLimit size.toNat) = (.error fault, after) → after = t.codec)) ∧
      (∀ arrival ∈ t.decoded, arrival.size ≤ t.codec.limit) ∧
      (∀ frame ∈ t.encoded, frame.size ≤ t.codec.peerLimit) ∧
      (t.codec.poll.result = .ok none →
        t.codec.poll.codec.buffer.length < t.codec.poll.codec.limit) := by
  intro t c'
  have hgoverned : t.Governed := ((Governed.new limit).foldl acts).1
  have hholds : t.codec.Holds c' := by
    have hmore : c' = (more.foldl perform t).codec := congrArg codec (run_append limit acts more)
    rw [hmore]
    exact (hgoverned.foldl more).2
  refine ⟨hgoverned.limit, hgoverned.peerLimit, fun hpassed => ?_,
    fun size fault after => ⟨setLimit_unchanged, setPeerLimit_unchanged⟩, hgoverned.decoded,
    hgoverned.encoded, fun hnone => ?_⟩
  · have hstarted : t.codec.started = true := by
      rcases hpassed with ⟨p, hmem⟩ | hdecoded
      · exact (Governed.new limit).started_of_encode hmem
      · exact hgoverned.started_of_decoded hdecoded
    have hfrozen := hholds.started hstarted
    exact ⟨hholds.limit hstarted, hholds.peerLimit hstarted,
      fun size => ⟨setLimit_frozen hfrozen _, setPeerLimit_frozen hfrozen _⟩⟩
  · obtain ⟨hlimit, -, -, -, hwaiting⟩ := t.codec.poll_within
    rw [hlimit]
    exact hwaiting hgoverned.limit hnone

end Transcript

end FramedSasl
