import FramedSasl.Frame

/-! Fragments. A payload that does not fit one frame goes out in several of the same kind, each
with the other fields repeated and all but the last marked with `more`; `join` puts them together
again. Where the payload was cut has no meaning. -/

namespace FramedSasl

/-- The pieces of `bytes`, each of `n` but the last, which may be shorter. There is always one. -/
def pieces (n : Nat) (bytes : Bytes) : List Bytes :=
  if n = 0 ∨ bytes.length ≤ n then [bytes]
  else bytes.take n :: pieces n (bytes.drop n)
termination_by bytes.length
decreasing_by simp only [List.length_drop]; omega

/-- One frame for each body, all but the last with `more`. -/
def Frame.sequence : List Performative → List Frame
  | [] => []
  | [body] => [⟨body, false⟩]
  | body :: bodies => ⟨body, true⟩ :: Frame.sequence bodies

/-- The second of two payloads behind the first; two absent ones stay absent. -/
def joinPayloads : Option Bytes → Option Bytes → Option Bytes
  | first, none => first
  | first, some next => some (first.getD [] ++ next)

namespace Performative

/-- What a list gains in size with four-byte sizes in place of one-byte sizes, and a binary. -/
def wideningSlack : Nat := 6 + 3

/-- The most that a frame needs for all but the payload. -/
def overhead (p : Performative) : Nat :=
  (Frame.mk (p.withPayload []) true).size + wideningSlack

/-- The payload bytes that surely fit a frame of at most `limit` bytes; at least one. -/
def capacity (p : Performative) (limit : Nat) : Except Fault Nat :=
  if limit ≤ p.overhead then .error (.codec (.noRoomForPayload p.kind p.overhead limit))
  else .ok (limit - p.overhead)

/-- The frames that carry `p`, each of at most `limit` bytes. -/
def fragments (p : Performative) (limit : Nat) : Except Fault (List Frame) :=
  match p.payload? with
  | none =>
    let frame : Frame := ⟨p, false⟩
    if limit < frame.size then .error (.codec (.frameTooLarge p.kind frame.size limit))
    else .ok [frame]
  | some payload => do
    let room ← p.capacity limit
    return Frame.sequence ((pieces room payload).map fun piece => p.withPayload piece)

/-- `next` as a fragment behind `first`. -/
def join : Performative → Performative → Except Fault Performative
  | mechanisms _, mechanisms _ => .error (.codec .mechanismsFragments)
  | init mechanism data hostname, init mechanism' data' hostname' =>
    if mechanism' ≠ mechanism ∨ hostname' ≠ hostname then
      .error (.codec (.initFragments mechanism mechanism'))
    else .ok (init mechanism (joinPayloads data data') hostname)
  | challenge payload, challenge payload' => .ok (challenge (payload ++ payload'))
  | response payload, response payload' => .ok (response (payload ++ payload'))
  | outcome code data, outcome code' data' =>
    if code' ≠ code then .error (.codec (.outcomeFragments code code'))
    else .ok (outcome code (joinPayloads data data'))
  | first, next => .error (.codec (.fragmentKind first.kind next.kind))

/-- `next` behind the fragments so far, if there are any. -/
def joinTo : Option Performative → Performative → Except Fault Performative
  | none, next => .ok next
  | some first, next => first.join next

end Performative

end FramedSasl
