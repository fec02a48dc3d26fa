import FramedSasl.Codec.Progress
import FramedSasl.Proofs.Fragments

/-! Polling until nothing comes. `pollAll` polls until there is nothing or a fault, `pollChunks`
does so behind each of several chunks. Where a stream is cut has no influence: polling before more
bytes come gives the same as waiting for them (`pollAll_feed`), so chunks give what their
concatenation gives (`pollChunks_eq`). -/

namespace FramedSasl

/-- What polls gave until nothing came or one failed. -/
structure Harvest where
  performatives : List Performative
  arrivals : List Arrival
  fault : Option Fault
  codec : Codec

namespace Harvest

/-- A frame that came before. -/
def afterArrival (h : Harvest) (arrival : Arrival) : Harvest :=
  { h with arrivals := arrival :: h.arrivals }

/-- All that came in an earlier harvest. -/
def after (h earlier : Harvest) : Harvest :=
  { h with
    performatives := earlier.performatives ++ h.performatives
    arrivals := earlier.arrivals ++ h.arrivals }

/-- The same performatives, frames and fault. -/
def Agrees (h h' : Harvest) : Prop :=
  h.performatives = h'.performatives ∧ h.arrivals = h'.arrivals ∧ h.fault = h'.fault

theorem Agrees.refl (h : Harvest) : h.Agrees h := ⟨rfl, rfl, rfl⟩

theorem Agrees.after {h h' earlier earlier' : Harvest} (hlater : h.Agrees h')
    (hp : earlier.performatives = earlier'.performatives)
    (ha : earlier.arrivals = earlier'.arrivals) :
    (h.after earlier).Agrees (h'.after earlier') := by
  obtain ⟨hp', ha', hf⟩ := hlater
  exact ⟨by simp only [Harvest.after, hp, hp'], by simp only [Harvest.after, ha, ha'], hf⟩

end Harvest

namespace Codec

/-! ### One turn of the loop -/

/-- A turn of a poll ends it, or brings a frame that goes on in the next. -/
inductive Turned where
  | stop (polled : Polled)
  | again (arrival : Arrival) (codec : Codec)

def turn (c : Codec) : Turned :=
  match cutFrame c.limit c.buffer with
  | .error fault => .stop ⟨.error fault, [], c⟩
  | .ok none => .stop ⟨.ok none, [], c⟩
  | .ok (some (bytes, rest)) =>
    match Frame.parse bytes with
    | .error fault => .stop ⟨.error fault, [], { c with buffer := rest }⟩
    | .ok frame =>
      let c' := { c with buffer := rest, started := true }
      match Performative.joinTo c.unfinished frame.body with
      | .error fault => .stop ⟨.error fault, [⟨frame, bytes.length⟩], c'⟩
      | .ok body =>
        if frame.more then .again ⟨frame, bytes.length⟩ { c' with unfinished := some body }
        else .stop ⟨.ok (some body), [⟨frame, bytes.length⟩], { c' with unfinished := none }⟩

/-- At most `turns` turns; none if they are not enough. -/
def pollWithin : Nat → Codec → Option Polled
  | 0, _ => none
  | turns + 1, c =>
    match c.turn with
    | .stop polled => some polled
    | .again arrival c' =>
      (pollWithin turns c').map fun later => { later with arrivals := arrival :: later.arrivals }

theorem poll_eq_turn (c : Codec) : c.poll = match c.turn with
    | .stop polled => polled
    | .again arrival c' => { c'.poll with arrivals := arrival :: c'.poll.arrivals } := by
  fun_induction poll c with
  | case1 c fault hcut => simp only [turn, hcut]
  | case2 c hcut => simp only [turn, hcut]
  | case3 c bytes rest hcut fault hparse => simp only [turn, hcut, hparse]
  | case4 c bytes rest hcut frame hparse _ _ fault hjoin =>
    simp only [turn, hcut, hparse, hjoin]
    rfl
  | case5 c bytes rest hcut frame hparse _ _ body hjoin hmore =>
    simp only [turn, hcut, hparse, hjoin, hmore, if_true]
    rfl
  | case6 c bytes rest hcut frame hparse _ _ body hjoin hmore =>
    simp only [turn, hcut, hparse, hjoin, hmore]
    rfl

theorem turn_length {c c' : Codec} {arrival : Arrival} (h : c.turn = .again arrival c') :
    c'.buffer.length + Frame.headerSize ≤ c.buffer.length := by
  unfold turn at h
  split at h
  · cases h
  · cases h
  · next hcut =>
    have := cutFrame_length hcut
    split at h
    · cases h
    · dsimp only at h
      split at h
      · cases h
      · split at h
        · cases h
          dsimp only
          omega
        · cases h

/-- Each turn takes a frame header or more, so a poll ends. -/
theorem pollWithin_eq (c : Codec) (turns : Nat)
    (h : c.buffer.length < Frame.headerSize * turns) : pollWithin turns c = some c.poll := by
  induction turns generalizing c with
  | zero => exact absurd h (Nat.not_lt_zero _)
  | succ turns ih =>
    rw [pollWithin, poll_eq_turn]
    cases hturn : c.turn with
    | stop polled => rfl
    | again arrival c' =>
      have := turn_length hturn
      dsimp only
      rw [ih c' (by rw [Nat.mul_succ] at h; omega)]
      rfl

/-! ### Until nothing comes -/

def pollAll (c : Codec) : Harvest :=
  match _h : c.poll.result with
  | .error fault => ⟨[], c.poll.arrivals, some fault, c.poll.codec⟩
  | .ok none => ⟨[], c.poll.arrivals, none, c.poll.codec⟩
  | .ok (some p) =>
    let later := pollAll c.poll.codec
    ⟨p :: later.performatives, c.poll.arrivals ++ later.arrivals, later.fault, later.codec⟩
termination_by c.buffer.length
decreasing_by exact poll_length_lt _h

theorem pollAll_of_error {c : Codec} {fault : Fault} (h : c.poll.result = .error fault) :
    c.pollAll = ⟨[], c.poll.arrivals, some fault, c.poll.codec⟩ := by
  rw [pollAll]
  split <;> simp_all

theorem pollAll_of_none {c : Codec} (h : c.poll.result = .ok none) :
    c.pollAll = ⟨[], c.poll.arrivals, none, c.poll.codec⟩ := by
  rw [pollAll]
  split <;> simp_all

theorem pollAll_of_some {c : Codec} {p : Performative} (h : c.poll.result = .ok (some p)) :
    c.pollAll = c.poll.codec.pollAll.after ⟨[p], c.poll.arrivals, none, c.poll.codec⟩ := by
  rw [pollAll]
  split
  · simp_all
  · simp_all
  · next q hq =>
    rw [h] at hq
    cases hq
    rfl

/-- What polls give, from the first turn on. -/
theorem pollAll_eq_turn (c : Codec) : c.pollAll = match c.turn with
    | .stop ⟨.error fault, arrivals, c'⟩ => ⟨[], arrivals, some fault, c'⟩
    | .stop ⟨.ok none, arrivals, c'⟩ => ⟨[], arrivals, none, c'⟩
    | .stop ⟨.ok (some p), arrivals, c'⟩ => c'.pollAll.after ⟨[p], arrivals, none, c'⟩
    | .again arrival c' => c'.pollAll.afterArrival arrival := by
  have hpoll := c.poll_eq_turn
  cases hturn : c.turn with
  | stop polled =>
    rw [hturn] at hpoll
    obtain ⟨result, arrivals, c'⟩ := polled
    dsimp only at hpoll
    rcases result with fault | _ | p
    · rw [pollAll_of_error (by rw [hpoll]), hpoll]
    · rw [pollAll_of_none (by rw [hpoll]), hpoll]
    · rw [pollAll_of_some (by rw [hpoll]), hpoll]
  | again arrival c' =>
    rw [hturn] at hpoll
    dsimp only at hpoll ⊢
    rcases hresult : c'.poll.result with fault | _ | p
    · rw [pollAll_of_error (by rw [hpoll]; exact hresult), pollAll_of_error hresult, hpoll]
      rfl
    · rw [pollAll_of_none (by rw [hpoll]; exact hresult), pollAll_of_none hresult, hpoll]
      rfl
    · rw [pollAll_of_some (by rw [hpoll]; exact hresult), pollAll_of_some hresult, hpoll]
      rfl

/-! ### Frame by frame -/

section Frames

variable {c : Codec} {bytes rest : Bytes} {frame : Frame} {body : Performative} {fault : Fault}

theorem pollAll_of_cut_error (hcut : cutFrame c.limit c.buffer = .error fault) :
    c.pollAll = ⟨[], [], some fault, c⟩ := by
  simp only [pollAll_eq_turn c, turn, hcut]

theorem pollAll_of_cut_none (hcut : cutFrame c.limit c.buffer = .ok none) :
    c.pollAll = ⟨[], [], none, c⟩ := by
  simp only [pollAll_eq_turn c, turn, hcut]

theorem pollAll_of_parse_error (hcut : cutFrame c.limit c.buffer = .ok (some (bytes, rest)))
    (hparse : Frame.parse bytes = .error fault) :
    c.pollAll = ⟨[], [], some fault, { c with buffer := rest }⟩ := by
  simp only [pollAll_eq_turn c, turn, hcut, hparse]

theorem pollAll_of_join_error (hcut : cutFrame c.limit c.buffer = .ok (some (bytes, rest)))
    (hparse : Frame.parse bytes = .ok frame)
    (hjoin : Performative.joinTo c.unfinished frame.body = .error fault) :
    c.pollAll = ⟨[], [⟨frame, bytes.length⟩], some fault,
      { c with buffer := rest, started := true }⟩ := by
  simp only [pollAll_eq_turn c, turn, hcut, hparse, hjoin]

theorem pollAll_of_more (hcut : cutFrame c.limit c.buffer = .ok (some (bytes, rest)))
    (hparse : Frame.parse bytes = .ok frame)
    (hjoin : Performative.joinTo c.unfinished frame.body = .ok body) (hmore : frame.more = true) :
    c.pollAll = (pollAll { c with buffer := rest, started := true, unfinished := some body }).after
      ⟨[], [⟨frame, bytes.length⟩], none, c⟩ := by
  simp only [pollAll_eq_turn c, turn, hcut, hparse, hjoin, hmore, if_true]
  rfl

theorem pollAll_of_last (hcut : cutFrame c.limit c.buffer = .ok (some (bytes, rest)))
    (hparse : Frame.parse bytes = .ok frame)
    (hjoin : Performative.joinTo c.unfinished frame.body = .ok body) (hmore : frame.more = false) :
    c.pollAll = (pollAll { c with buffer := rest, started := true, unfinished := none }).after
      ⟨[body], [⟨frame, bytes.length⟩], none, c⟩ := by
  simp only [pollAll_eq_turn c, turn, hcut, hparse, hjoin, hmore]
  rfl

end Frames

/-- Induction over the frames in the buffer: polls end at an incomplete frame or a fault, or go on
behind a whole frame. -/
theorem frame_induction {motive : Codec → Prop}
    (cut_error : ∀ (c : Codec) fault, cutFrame c.limit c.buffer = .error fault → motive c)
    (cut_none : ∀ c : Codec, cutFrame c.limit c.buffer = .ok none → motive c)
    (parse_error : ∀ (c : Codec) bytes rest fault,
      cutFrame c.limit c.buffer = .ok (some (bytes, rest)) →
        Frame.parse bytes = .error fault → motive c)
    (join_error : ∀ (c : Codec) bytes rest frame fault,
      cutFrame c.limit c.buffer = .ok (some (bytes, rest)) → Frame.parse bytes = .ok frame →
        Performative.joinTo c.unfinished frame.body = .error fault → motive c)
    (more : ∀ (c : Codec) bytes rest frame body,
      cutFrame c.limit c.buffer = .ok (some (bytes, rest)) → Frame.parse bytes = .ok frame →
        Performative.joinTo c.unfinished frame.body = .ok body → frame.more = true →
          motive { c with buffer := rest, started := true, unfinished := some body } → motive c)
    (last : ∀ (c : Codec) bytes rest frame body,
      cutFrame c.limit c.buffer = .ok (some (bytes, rest)) → Frame.parse bytes = .ok frame →
        Performative.joinTo c.unfinished frame.body = .ok body → frame.more = false →
          motive { c with buffer := rest, started := true, unfinished := none } → motive c)
    (c : Codec) : motive c := by
  induction hlen : c.buffer.length using Nat.strongRecOn generalizing c with
  | _ n ih =>
    rcases hcut : cutFrame c.limit c.buffer with fault | _ | ⟨bytes, rest⟩
    · exact cut_error c fault hcut
    · exact cut_none c hcut
    · have hshorter : rest.length < n := by
        have := cutFrame_length hcut
        rw [Frame.headerSize] at this
        omega
      rcases hparse : Frame.parse bytes with fault | frame
      · exact parse_error c bytes rest fault hcut hparse
      · rcases hjoin : Performative.joinTo c.unfinished frame.body with fault | body
        · exact join_error c bytes rest frame fault hcut hparse hjoin
        · cases hmore : frame.more with
          | true =>
            exact more c bytes rest frame body hcut hparse hjoin hmore (ih _ hshorter _ rfl)
          | false =>
            exact last c bytes rest frame body hcut hparse hjoin hmore (ih _ hshorter _ rfl)

/-! ### More bytes -/

theorem peekSize_append {stream : Bytes} {size : Nat} (h : Frame.peekSize stream = some size)
    (more : Bytes) : Frame.peekSize (stream ++ more) = some size := by
  unfold Frame.peekSize at h
  split at h
  · exact h
  · cases h

theorem cutFrame_append_error {limit : Nat} {stream : Bytes} {fault : Fault}
    (h : cutFrame limit stream = .error fault) (more : Bytes) :
    cutFrame limit (stream ++ more) = .error fault := by
  unfold cutFrame at h ⊢
  split at h
  · cases h
  · next size hsize =>
    rw [peekSize_append hsize]
    dsimp only
    split at h
    · next hlow => rw [if_pos hlow]; exact h
    · next hlow =>
      rw [if_neg hlow]
      split at h
      · next hhigh => rw [if_pos hhigh]; exact h
      · split at h <;> cases h

theorem cutFrame_append_some {limit : Nat} {stream bytes rest : Bytes}
    (h : cutFrame limit stream = .ok (some (bytes, rest))) (more : Bytes) :
    cutFrame limit (stream ++ more) = .ok (some (bytes, rest ++ more)) := by
  unfold cutFrame at h ⊢
  split at h
  · cases h
  · next size hsize =>
    rw [peekSize_append hsize]
    dsimp only
    split at h
    · cases h
    · next hlow =>
      rw [if_neg hlow]
      split at h
      · cases h
      · next hhigh =>
        rw [if_neg hhigh]
        split at h
        · cases h
        · next hlong =>
          cases h
          rw [if_neg (by rw [List.length_append]; omega),
            List.take_append_of_le_length (by omega), List.drop_append_of_le_length (by omega)]

theorem pollAll_feed_of_fault {c : Codec} {fault : Fault} (h : c.pollAll.fault = some fault)
    (later : Bytes) : (c.feed later).pollAll.Agrees c.pollAll := by
  induction c using frame_induction with
  | cut_error c cause hcut =>
    rw [pollAll_of_cut_error hcut,
      pollAll_of_cut_error (c := c.feed later) (cutFrame_append_error hcut later)]
    exact ⟨rfl, rfl, rfl⟩
  | cut_none c hcut =>
    rw [pollAll_of_cut_none hcut] at h
    cases h
  | parse_error c bytes rest cause hcut hparse =>
    have hcut' := cutFrame_append_some hcut later
    rw [pollAll_of_parse_error hcut hparse, pollAll_of_parse_error (c := c.feed later) hcut' hparse]
    exact ⟨rfl, rfl, rfl⟩
  | join_error c bytes rest frame cause hcut hparse hjoin =>
    have hcut' := cutFrame_append_some hcut later
    rw [pollAll_of_join_error hcut hparse hjoin,
      pollAll_of_join_error (c := c.feed later) hcut' hparse hjoin]
    exact ⟨rfl, rfl, rfl⟩
  | more c bytes rest frame body hcut hparse hjoin hmore ih =>
    have hcut' := cutFrame_append_some hcut later
    rw [pollAll_of_more hcut hparse hjoin hmore] at h ⊢
    rw [pollAll_of_more (c := c.feed later) hcut' hparse hjoin hmore]
    exact (ih h).after rfl rfl
  | last c bytes rest frame body hcut hparse hjoin hmore ih =>
    have hcut' := cutFrame_append_some hcut later
    rw [pollAll_of_last hcut hparse hjoin hmore] at h ⊢
    rw [pollAll_of_last (c := c.feed later) hcut' hparse hjoin hmore]
    exact (ih h).after rfl rfl

theorem pollAll_feed {c : Codec} (h : c.pollAll.fault = none) (later : Bytes) :
    (c.feed later).pollAll = (c.pollAll.codec.feed later).pollAll.after c.pollAll := by
  induction c using frame_induction with
  | cut_error c cause hcut =>
    rw [pollAll_of_cut_error hcut] at h
    cases h
  | cut_none c hcut =>
    rw [pollAll_of_cut_none hcut]
    rfl
  | parse_error c bytes rest cause hcut hparse =>
    rw [pollAll_of_parse_error hcut hparse] at h
    cases h
  | join_error c bytes rest frame cause hcut hparse hjoin =>
    rw [pollAll_of_join_error hcut hparse hjoin] at h
    cases h
  | more c bytes rest frame body hcut hparse hjoin hmore ih =>
    have hcut' := cutFrame_append_some hcut later
    rw [pollAll_of_more hcut hparse hjoin hmore] at h ⊢
    rw [pollAll_of_more (c := c.feed later) hcut' hparse hjoin hmore]
    exact congrArg (Harvest.after · _) (ih h)
  | last c bytes rest frame body hcut hparse hjoin hmore ih =>
    have hcut' := cutFrame_append_some hcut later
    rw [pollAll_of_last hcut hparse hjoin hmore] at h ⊢
    rw [pollAll_of_last (c := c.feed later) hcut' hparse hjoin hmore]
    exact congrArg (Harvest.after · _) (ih h)

/-- Where polls found nothing more, there is nothing more. -/
theorem pollAll_pollAll {c : Codec} (h : c.pollAll.fault = none) :
    c.pollAll.codec.pollAll = ⟨[], [], none, c.pollAll.codec⟩ := by
  induction c using frame_induction with
  | cut_error c cause hcut =>
    rw [pollAll_of_cut_error hcut] at h
    cases h
  | cut_none c hcut =>
    rw [pollAll_of_cut_none hcut]
    exact pollAll_of_cut_none hcut
  | parse_error c bytes rest cause hcut hparse =>
    rw [pollAll_of_parse_error hcut hparse] at h
    cases h
  | join_error c bytes rest frame cause hcut hparse hjoin =>
    rw [pollAll_of_join_error hcut hparse hjoin] at h
    cases h
  | more c bytes rest frame body hcut hparse hjoin hmore ih =>
    rw [pollAll_of_more hcut hparse hjoin hmore] at h ⊢
    exact ih h
  | last c bytes rest frame body hcut hparse hjoin hmore ih =>
    rw [pollAll_of_last hcut hparse hjoin hmore] at h ⊢
    exact ih h

theorem pollAll_limits (c : Codec) :
    c.pollAll.codec.limit = c.limit ∧ c.pollAll.codec.peerLimit = c.peerLimit := by
  induction c using frame_induction with
  | cut_error c cause hcut =>
    rw [pollAll_of_cut_error hcut]
    exact ⟨rfl, rfl⟩
  | cut_none c hcut =>
    rw [pollAll_of_cut_none hcut]
    exact ⟨rfl, rfl⟩
  | parse_error c bytes rest cause hcut hparse =>
    rw [pollAll_of_parse_error hcut hparse]
    exact ⟨rfl, rfl⟩
  | join_error c bytes rest frame cause hcut hparse hjoin =>
    rw [pollAll_of_join_error hcut hparse hjoin]
    exact ⟨rfl, rfl⟩
  | more c bytes rest frame body hcut hparse hjoin hmore ih =>
    rw [pollAll_of_more hcut hparse hjoin hmore]
    exact ih
  | last c bytes rest frame body hcut hparse hjoin hmore ih =>
    rw [pollAll_of_last hcut hparse hjoin hmore]
    exact ih

/-! ### Chunks -/

/-- Polls behind each chunk until nothing comes, and stops at the first fault. -/
def pollChunks (c : Codec) : List Bytes → Harvest
  | [] => ⟨[], [], none, c⟩
  | chunk :: chunks =>
    let harvest := (c.feed chunk).pollAll
    if harvest.fault.isSome then harvest
    else (harvest.codec.pollChunks chunks).after harvest

theorem feed_feed (c : Codec) (first next : Bytes) :
    (c.feed first).feed next = c.feed (first ++ next) := by
  simp only [feed, List.append_assoc]

theorem pollChunks_eq {c : Codec} (hc : c.pollAll = ⟨[], [], none, c⟩) (chunks : List Bytes) :
    (c.pollChunks chunks).Agrees (c.feed chunks.flatten).pollAll ∧
      ((c.feed chunks.flatten).pollAll.fault = none →
        (c.pollChunks chunks).codec = (c.feed chunks.flatten).pollAll.codec) := by
  induction chunks generalizing c with
  | nil =>
    have hfeed : c.feed [] = c := by rw [feed, List.append_nil]
    rw [List.flatten_nil, hfeed, hc]
    exact ⟨.refl _, fun _ => rfl⟩
  | cons chunk chunks ih =>
    rw [List.flatten_cons, ← feed_feed, pollChunks]
    cases hfault : (c.feed chunk).pollAll.fault with
    | some fault =>
      -- the chunks behind a fault are not fed, and would not change it
      have hagrees := pollAll_feed_of_fault hfault chunks.flatten
      rw [Option.isSome_some, if_pos rfl]
      refine ⟨⟨hagrees.1.symm, hagrees.2.1.symm, hagrees.2.2.symm⟩, ?_⟩
      intro hnone
      rw [hagrees.2.2, hfault] at hnone
      cases hnone
    | none =>
      obtain ⟨hagrees, hcodec⟩ := ih (pollAll_pollAll hfault)
      rw [Option.isSome_none, if_neg Bool.false_ne_true, pollAll_feed hfault]
      exact ⟨hagrees.after rfl rfl, hcodec⟩

end Codec

end FramedSasl
