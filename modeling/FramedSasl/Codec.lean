import FramedSasl.Call
import FramedSasl.Fragment

/-! Performatives to frames and a byte stream back to performatives, within a limit on the size of
frames for each direction. Bytes may arrive cut anywhere; a performative comes out when the last
byte of its last fragment is in. -/

namespace FramedSasl

/-- No limit may be smaller. -/
def minimumLimit : Nat := 512

structure Codec where
  /-- The largest frame taken in. -/
  limit : Nat := minimumLimit
  /-- The largest frame that the peer takes in. -/
  peerLimit : Nat := minimumLimit
  /-- Frames have passed, and the limits stay. -/
  started : Bool := false
  /-- Bytes of a frame that is not complete. -/
  buffer : Bytes := []
  /-- The fragments so far of a performative that is not complete. -/
  unfinished : Option Performative := none
  deriving DecidableEq

/-- A frame that came in, and its bytes on the wire. -/
structure Arrival where
  frame : Frame
  size : Nat
  deriving DecidableEq

/-- What a look at the buffer found. -/
structure Polled where
  result : Except Fault (Option Performative)
  arrivals : List Arrival
  codec : Codec

namespace Codec

/-- A codec with the same limit in both directions. -/
def ofLimit (limit : Nat) : Codec :=
  { limit := max limit minimumLimit, peerLimit := max limit minimumLimit }

def checkLimit (c : Codec) (current size : Nat) : Except Fault Unit :=
  if size < minimumLimit then .error (.codec (.limitTooSmall size minimumLimit))
  else if c.started then .error (.codec (.limitFrozen current size))
  else .ok ()

def setLimit (size : Nat) : Call Codec Unit := do
  let c ← get
  ofExcept (c.checkLimit c.limit size)
  set { c with limit := size }

def setPeerLimit (size : Nat) : Call Codec Unit := do
  let c ← get
  ofExcept (c.checkLimit c.peerLimit size)
  set { c with peerLimit := size }

def encode (p : Performative) : Call Codec (List Frame) := do
  let c ← get
  set { c with started := true }
  ofExcept (p.fragments c.peerLimit)

def feed (c : Codec) (data : Bytes) : Codec := { c with buffer := c.buffer ++ data }

/-- The first frame of a stream and what lies behind it, once the frame is complete. A bad size
is refused as soon as it can be read. -/
def cutFrame (limit : Nat) (stream : Bytes) : Except Fault (Option (Bytes × Bytes)) :=
  match Frame.peekSize stream with
  | none => .ok none
  | some size =>
    if size < Frame.headerSize then .error (.frame (.sizeBelowHeader size))
    else if limit < size then .error (.codec (.inboundTooLarge size limit))
    else if stream.length < size then .ok none
    else .ok (some (stream.take size, stream.drop size))

theorem cutFrame_length {limit : Nat} {stream frame rest : Bytes}
    (h : cutFrame limit stream = .ok (some (frame, rest))) :
    Frame.headerSize ≤ frame.length ∧ frame.length + rest.length = stream.length := by
  unfold cutFrame at h
  split at h
  · simp at h
  · split at h
    · simp at h
    · split at h
      · simp at h
      · split at h
        · simp at h
        · simp only [Except.ok.injEq, Option.some.injEq, Prod.mk.injEq] at h
          obtain ⟨rfl, rfl⟩ := h
          simp only [List.length_take, List.length_drop]
          omega

/-- The next performative of the stream. Goes on over fragments until one is complete, the bytes
run out or something is wrong. -/
def poll (c : Codec) : Polled :=
  match _h : cutFrame c.limit c.buffer with
  | .error fault => ⟨.error fault, [], c⟩
  | .ok none => ⟨.ok none, [], c⟩
  | .ok (some (bytes, rest)) =>
    match Frame.parse bytes with
    | .error fault => ⟨.error fault, [], { c with buffer := rest }⟩
    | .ok frame =>
      let arrival : Arrival := ⟨frame, bytes.length⟩
      let c' := { c with buffer := rest, started := true }
      match Performative.joinTo c.unfinished frame.body with
      | .error fault => ⟨.error fault, [arrival], c'⟩
      | .ok body =>
        if frame.more then
          let later := poll { c' with unfinished := some body }
          { later with arrivals := arrival :: later.arrivals }
        else ⟨.ok (some body), [arrival], { c' with unfinished := none }⟩
termination_by c.buffer.length
decreasing_by
  have := cutFrame_length _h
  simp only [Frame.headerSize] at this
  omega

end Codec

end FramedSasl
