import FramedSasl.Endpoint
import FramedSasl.Proofs.Fragments
import FramedSasl.Proofs.SessionTurns

/-! Payloads without their contents. `masked` puts a zero for each byte of a payload and leaves all
else: in a performative, a frame, a session, an event, an endpoint. What the program says and how
large a frame is do not depend on the contents, and each step on masked payloads is the masked
step. -/

namespace FramedSasl

open Call

/-- As many zeros. -/
def blank (bytes : Bytes) : Bytes := List.replicate bytes.length 0

@[simp] theorem length_blank (bytes : Bytes) : (blank bytes).length = bytes.length := by
  simp [blank]

@[simp] theorem blank_blank (bytes : Bytes) : blank (blank bytes) = blank bytes := by
  simp [blank]

theorem blank_of_length {bytes bytes' : Bytes} (h : bytes'.length = bytes.length) :
    blank bytes' = blank bytes := by
  rw [blank, blank, h]

@[simp] theorem blank_nil : blank [] = [] := rfl

@[simp] theorem blank_append (first next : Bytes) :
    blank (first ++ next) = blank first ++ blank next := by
  simp [blank]

@[simp] theorem blank_take (n : Nat) (bytes : Bytes) :
    blank (bytes.take n) = (blank bytes).take n := by
  simp [blank]

@[simp] theorem blank_drop (n : Nat) (bytes : Bytes) :
    blank (bytes.drop n) = (blank bytes).drop n := by
  simp [blank]

@[simp] theorem blank_getD (bytes : Option Bytes) :
    (bytes.map blank).getD [] = blank (bytes.getD []) := by
  cases bytes <;> simp

theorem pieces_blank (n : Nat) (bytes : Bytes) :
    pieces n (blank bytes) = (pieces n bytes).map blank := by
  fun_induction pieces n bytes with
  | case1 bytes h => rw [pieces, if_pos (by simpa using h), List.map_singleton]
  | case2 bytes h ih =>
    rw [pieces, if_neg (by simpa using h), List.map_cons, ← ih, blank_take, blank_drop]

namespace Performative

def masked : Performative → Performative
  | mechanisms names => mechanisms names
  | init mechanism initialResponse hostname => init mechanism (initialResponse.map blank) hostname
  | challenge payload => challenge (blank payload)
  | response payload => response (blank payload)
  | outcome code additionalData => outcome code (additionalData.map blank)

variable (p : Performative)

@[simp] theorem masked_masked : p.masked.masked = p.masked := by
  cases p <;> simp [masked, Function.comp_def]

@[simp] theorem kind_masked : p.masked.kind = p.kind := by cases p <;> rfl

theorem payload?_masked : p.masked.payload? = p.payload?.map blank := by cases p <;> rfl

theorem withPayload_masked (bytes : Bytes) : p.masked.withPayload bytes = p.withPayload bytes := by
  cases p <;> rfl

theorem masked_withPayload (bytes : Bytes) :
    (p.withPayload bytes).masked = p.withPayload (blank bytes) := by
  cases p <;> rfl

theorem decided_masked : p.masked.Decided ↔ p.Decided := by cases p <;> rfl

@[simp] theorem payloadSize_masked : p.masked.payloadSize = p.payloadSize := by
  simp [payloadSize, payload?_masked]

@[simp] theorem byteCount?_blank (bytes : Option Bytes) :
    byteCount? (bytes.map blank) = byteCount? bytes := by
  cases bytes <;> simp [byteCount?, byteCount]

@[simp] theorem describe_masked : p.masked.describe = p.describe := by
  cases p <;> simp [describe, masked, braced, byteCount, kind]

theorem length_describedList (descriptor : UInt8) {fields fields' : Bytes}
    (h : fields'.length = fields.length) (count : Nat) :
    (Wire.describedList descriptor fields' count).length =
      (Wire.describedList descriptor fields count).length := by
  simp only [Wire.describedList, h]
  split
  · rfl
  · split <;> simp [h]

theorem length_binary_blank (bytes : Bytes) :
    (Wire.Field.binary (blank bytes)).encode.length = (Wire.Field.binary bytes).encode.length := by
  simp only [Wire.Field.encode, Wire.sized, length_blank]
  split <;> simp

theorem length_binaryField_blank (bytes : Option Bytes) :
    (binaryField (bytes.map blank)).encode.length = (binaryField bytes).encode.length := by
  cases bytes with
  | none => rfl
  | some bytes => exact length_binary_blank bytes

theorem length_encode_masked : p.masked.encode.length = p.encode.length := by
  have hfields : (p.masked.fields.flatMap Wire.Field.encode).length =
      (p.fields.flatMap Wire.Field.encode).length := by
    cases p <;> simp [masked, fields, length_binaryField_blank, length_binary_blank]
  have hcount : p.masked.fields.length = p.fields.length := by cases p <;> rfl
  simp only [encode, kind_masked, hcount]
  exact length_describedList _ hfields _

theorem overhead_masked : p.masked.overhead = p.overhead := by
  simp [overhead, withPayload_masked]

theorem joinPayloads_blank (first next : Option Bytes) :
    joinPayloads (first.map blank) (next.map blank) = (joinPayloads first next).map blank := by
  cases next <;> simp [joinPayloads]

theorem join_masked (first next : Performative) :
    first.masked.join next.masked = (first.join next).map masked := by
  cases first <;> cases next <;> simp only [masked, join]
  all_goals (repeat' split)
  all_goals simp [Except.map, masked, joinPayloads_blank, kind]

theorem joinTo_masked (unfinished : Option Performative) (next : Performative) :
    joinTo (unfinished.map masked) next.masked = (joinTo unfinished next).map masked := by
  cases unfinished with
  | none => rfl
  | some first => exact join_masked first next

end Performative

namespace Frame

def masked (f : Frame) : Frame := { f with body := f.body.masked }

@[simp] theorem size_masked (f : Frame) : f.masked.size = f.size := by
  rw [size_eq, size_eq]
  simp [masked, Performative.length_encode_masked]

theorem Travels.masked {f : Frame} (h : f.Travels) : f.masked.Travels where
  decided := (Performative.decided_masked f.body).2 h.decided
  whole := by
    simpa [Frame.masked] using h.whole
  size_lt := by
    simpa using h.size_lt

theorem sequence_masked (bodies : List Performative) :
    sequence (bodies.map Performative.masked) = (sequence bodies).map masked := by
  fun_induction sequence bodies with
  | case1 => rfl
  | case2 body => rfl
  | case3 body bodies hne ih =>
    cases bodies with
    | nil => exact absurd rfl hne
    | cons next bodies => simpa [sequence, masked] using ih

end Frame

theorem Performative.fragments_masked (p : Performative) (limit : Nat) :
    p.masked.fragments limit = (p.fragments limit).map (List.map Frame.masked) := by
  unfold fragments
  rw [payload?_masked]
  cases hpayload : p.payload? with
  | none =>
    have hsize : (Frame.mk p.masked false).size = (Frame.mk p false).size :=
      Frame.size_masked ⟨p, false⟩
    simp only [Option.map_none, hsize, kind_masked]
    split <;> rfl
  | some payload =>
    simp only [Option.map_some, capacity, overhead_masked, kind_masked, withPayload_masked]
    split
    · rfl
    · have hbodies : (pieces (limit - p.overhead) (blank payload)).map
          (fun piece => p.withPayload piece) =
            ((pieces (limit - p.overhead) payload).map fun piece => p.withPayload piece).map
              masked := by
        simp [pieces_blank, masked_withPayload]
      change Except.ok (Frame.sequence _) = Except.ok (List.map _ (Frame.sequence _))
      rw [hbodies, Frame.sequence_masked]

/-! ### Sessions -/

def OwnerCall.masked : OwnerCall → OwnerCall
  | send data => send (blank data)
  | declare outcome data => declare outcome (data.map blank)
  | call => call

namespace Session

def masked (s : Session) : Session :=
  { s with outbound := blank s.outbound, inbound := blank s.inbound }

variable (s : Session)

@[simp] theorem masked_masked : s.masked.masked = s.masked := by
  simp [masked]

@[simp] theorem role_masked : s.masked.role = s.role := rfl

@[simp] theorem phase_masked : s.masked.phase = s.phase := rfl

@[simp] theorem localMechanisms_masked : s.masked.localMechanisms = s.localMechanisms := rfl

@[simp] theorem initPassed_masked : s.masked.initPassed = s.initPassed := rfl

@[simp] theorem challengeOpen_masked : s.masked.challengeOpen = s.challengeOpen := rfl

@[simp] theorem outcome_masked : s.masked.outcome = s.outcome := rfl

theorem on_run_masked (call : OwnerCall) :
    on s.masked call.masked.run = ((on s call.run).1, (on s call.run).2.masked) := by
  cases call with
  | assignRole requested =>
    simp only [OwnerCall.masked, OwnerCall.run, assignRole, on_get_bind, masked]
    split
    · rfl
    · rfl
    · split <;> rfl
  | setMechanisms names =>
    simp only [OwnerCall.masked, OwnerCall.run, setMechanisms, on_get_bind, masked]
    repeat' split
    all_goals rfl
  | setHostname name =>
    simp only [OwnerCall.masked, OwnerCall.run, setHostname, on_get_bind, masked]
    repeat' split
    all_goals rfl
  | send data =>
    simp only [OwnerCall.masked, OwnerCall.run, send, on_get_bind, masked]
    repeat' split
    all_goals first | rfl | simp [enqueue]
  | declare outcome data =>
    simp only [OwnerCall.masked, OwnerCall.run, declare, on_get_bind, masked]
    repeat' split
    all_goals first | rfl | (cases data <;> simp [enqueue])

theorem on_emit_masked {after after' : Session} {p p' : Performative} (hp : p' = p.masked)
    (hafter : after' = after.masked) :
    on s.masked (emit p' after') =
      ((on s (emit p after)).1.map (Option.map Performative.masked),
        (on s (emit p after)).2.masked) := by
  rw [on_emit, on_emit, hp, hafter, Performative.kind_masked, phase_masked, role_masked]
  split <;> rfl

theorem clientOutbound_masked :
    on s.masked clientOutbound =
      ((on s clientOutbound).1.map (Option.map Performative.masked),
        (on s clientOutbound).2.masked) := by
  obtain ⟨role, phase, mine, theirs, host, passed, opened, outbound, flag, inbound, outcome⟩ := s
  simp only [clientOutbound, on_get_bind]
  by_cases hdone : phase = .done
  · simp only [phase_masked, hdone, if_true]
    rfl
  · simp only [phase_masked, hdone, if_false]
    cases passed with
    | true =>
      cases flag with
      | false => cases opened <;> rfl
      | true =>
        cases opened with
        | false => rfl
        | true => exact on_emit_masked _ rfl rfl
    | false =>
      cases mine with
      | nil => rfl
      | cons mechanism mine =>
        cases theirs with
        | nil => rfl
        | cons offered theirs => cases flag <;> exact on_emit_masked _ rfl rfl

theorem serverOutbound_masked :
    on s.masked serverOutbound =
      ((on s serverOutbound).1.map (Option.map Performative.masked),
        (on s serverOutbound).2.masked) := by
  obtain ⟨role, phase, mine, theirs, host, passed, opened, outbound, flag, inbound, outcome⟩ := s
  simp only [serverOutbound, on_get_bind]
  by_cases hdone : phase = .done
  · simp only [phase_masked, hdone, if_true]
    rfl
  · simp only [phase_masked, hdone, if_false]
    by_cases hearly : phase = .configuring
    · simp only [hearly, if_true, localMechanisms_masked]
      split
      · rfl
      · exact on_emit_masked _ rfl rfl
    · simp only [hearly, if_false, initPassed_masked, challengeOpen_masked, outcome_masked]
      by_cases hwaits : passed = false ∨ opened = true
      · simp only [hwaits, if_true]
        rfl
      · simp only [hwaits, if_false]
        by_cases hundecided : outcome = .undecided
        · simp only [hundecided, ne_eq, not_true_eq_false, if_false]
          cases flag with
          | false => rfl
          | true => exact on_emit_masked _ rfl rfl
        · simp only [hundecided, ne_eq, not_false_eq_true, if_true]
          cases flag <;> exact on_emit_masked _ rfl rfl

theorem nextOutbound_masked :
    on s.masked nextOutbound =
      ((on s nextOutbound).1.map (Option.map Performative.masked),
        (on s nextOutbound).2.masked) := by
  have hclient := s.clientOutbound_masked
  have hserver := s.serverOutbound_masked
  simp only [nextOutbound, on_get_bind]
  have hrole : s.masked.role = s.role := rfl
  rw [hrole]
  split
  · rfl
  · exact hclient
  · exact hserver

theorem clientApply_masked (p : Performative) :
    on s.masked (clientApply p.masked) =
      ((on s (clientApply p)).1, (on s (clientApply p)).2.masked) := by
  obtain ⟨role, phase, mine, theirs, host, passed, opened, outbound, flag, inbound, outcome⟩ := s
  cases p with
  | mechanisms names => cases names <;> rfl
  | init | response => rfl
  | challenge payload =>
    cases passed <;> cases opened <;> simp [clientApply, masked, Performative.masked, refuse]
  | outcome code data => cases passed <;> simp [clientApply, masked, Performative.masked, refuse]

theorem serverApply_masked (p : Performative) :
    on s.masked (serverApply p.masked) =
      ((on s (serverApply p)).1, (on s (serverApply p)).2.masked) := by
  obtain ⟨role, phase, mine, theirs, host, passed, opened, outbound, flag, inbound, outcome⟩ := s
  cases p with
  | init mechanism data hostname =>
    cases passed <;> cases mechanism <;> simp [serverApply, masked, Performative.masked, refuse]
  | response payload => cases opened <;> simp [serverApply, masked, Performative.masked, refuse]
  | mechanisms | challenge | outcome => rfl

theorem apply_masked (p : Performative) :
    on s.masked (apply p.masked) = ((on s (apply p)).1, (on s (apply p)).2.masked) := by
  have hclient := s.clientApply_masked p
  have hserver := s.serverApply_masked p
  simp only [apply, on_get_bind, role_masked]
  split
  · exact hclient
  · exact hserver
  · rfl

theorem on_accept_masked (p : Performative) :
    on s.masked (accept p.masked) = ((on s (accept p)).1, (on s (accept p)).2.masked) := by
  have hphase : s.masked.phase.afterReceiving s.masked.role p.masked.kind =
      s.phase.afterReceiving s.role p.kind := by rw [p.kind_masked]; rfl
  simp only [accept, on_get_bind, on_ofExcept_bind, hphase]
  split
  · rfl
  · rw [on_bind, on_bind, apply_masked]
    rcases on s (apply p) with ⟨fault | _, after⟩ <;> rfl

end Session

/-! ### Endpoints -/

namespace Event

def masked : Event → Event
  | passed traffic frame size => passed traffic frame.masked size
  | event => event

/-- What is logged of an event does not depend on the contents of a payload. -/
@[simp] theorem records_masked (event : Event) (endpoint : Bytes) (journal : Option Level)
    (stamp : Bytes) :
    event.masked.records endpoint journal stamp = event.records endpoint journal stamp := by
  cases event with
  | passed traffic frame size =>
    simp [masked, records, line, level, entry, Frame.masked, Frame.kind]
  | failed fault => rfl
  | finished verdict => rfl

end Event

/-- A codec whose unfinished performative is masked; its buffer has to be given. -/
def Codec.masked (c : Codec) (buffer : Bytes) : Codec :=
  { c with buffer, unfinished := c.unfinished.map Performative.masked }

namespace Endpoint

def masked (e : Endpoint) (buffer : Bytes) : Endpoint :=
  { e with session := e.session.masked, codec := e.codec.masked buffer }

variable (e : Endpoint) (buffer : Bytes)

theorem verdict_masked : (e.masked buffer).verdict = e.verdict := rfl

end Endpoint

/-- A turn as it shows, but for what it answers. -/
def Turn.masked {α : Type} (turn : Turn α) (buffer : Bytes) : Turn α :=
  ⟨turn.result, turn.endpoint.masked buffer, turn.events.map Event.masked⟩

theorem Endpoint.conclude_masked {α : Type} (e : Endpoint) (buffer : Bytes) (answer answer' : α)
    (events : List Event) :
    (e.masked buffer).conclude answer' (events.map Event.masked) =
      ⟨.ok answer', (e.conclude answer events).endpoint.masked buffer,
        (e.conclude answer events).events.map Event.masked⟩ := by
  have hphase : (e.masked buffer).session.phase = e.session.phase := rfl
  have hreported : (e.masked buffer).reported = e.reported := rfl
  simp only [conclude, hphase, hreported]
  split
  · rfl
  · simp [Event.masked, verdict_masked]
    rfl

end FramedSasl
