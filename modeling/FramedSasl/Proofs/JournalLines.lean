import FramedSasl.Journal.Record
import FramedSasl.Journal.Timestamp
import FramedSasl.Proofs.JsonReading

/-! Lines of the journal, read by a program. Whatever bytes a peer has put into a name, a host name
or a frame, a line is one object with the members of its kind of entry, and two lines are the same
only if the entries are. -/

namespace FramedSasl

open Json (Value Unescaped escape unescape)

/-! ### What a line says -/

/-- What is told of a frame. -/
def FrameEntry.document (e : FrameEntry) (stamp : Bytes) : Value := .object
  [(text "event", .string (text "sasl_frame")), (text "endpoint", .string e.endpoint),
    (text "direction", .string e.direction), (text "frame", .string e.frame),
    (text "frame_size", .number e.frameSize 0), (text "payload_size", .number e.payloadSize 0),
    (text "more", .bool e.more), (text "timestamp", .string stamp)]

/-- What is told of the end of a negotiation. -/
def NegotiationEntry.document (e : NegotiationEntry) (stamp : Bytes) : Value := .object
  [(text "event", .string (text "sasl_outcome")), (text "endpoint", .string e.endpoint),
    (text "role", .string e.role), (text "mechanism", .string e.mechanism),
    (text "hostname", .string e.hostname), (text "outcome", .string e.outcome),
    (text "frames_sent", .number e.framesSent 0),
    (text "frames_received", .number e.framesReceived 0), (text "timestamp", .string stamp)]

/-- What is told of the failure of an endpoint. -/
def FailureEntry.document (e : FailureEntry) (stamp : Bytes) : Value := .object
  [(text "event", .string (text "sasl_protocol_error")), (text "endpoint", .string e.endpoint),
    (text "code", .string e.code), (text "message", .string e.message),
    (text "context", .string e.context), (text "timestamp", .string stamp)]

section

variable {stamp stamp' : Bytes}

theorem FrameEntry.document_inj {e e' : FrameEntry} (h : e.document stamp = e'.document stamp') :
    e = e' ∧ stamp = stamp' := by
  cases e
  cases e'
  simpa [document, Int.natCast_inj, and_assoc] using h

theorem NegotiationEntry.document_inj {e e' : NegotiationEntry}
    (h : e.document stamp = e'.document stamp') : e = e' ∧ stamp = stamp' := by
  cases e
  cases e'
  simpa [document, Int.natCast_inj, and_assoc] using h

theorem FailureEntry.document_inj {e e' : FailureEntry}
    (h : e.document stamp = e'.document stamp') : e = e' ∧ stamp = stamp' := by
  cases e
  cases e'
  simpa [document, and_assoc] using h

end

namespace Entry

def document (stamp : Bytes) : Entry → Value
  | frame e => e.document stamp
  | negotiation e => e.document stamp
  | failure e => e.document stamp

theorem parse_line (stamp : Bytes) (e : Entry) :
    Json.parse (e.line stamp) = some (e.document stamp) := by
  refine (Json.parse_object _).trans ?_
  cases e <;> rfl

/-- The name of the kind of entry, which every line begins with. -/
def event : Entry → Bytes
  | frame _ => text "sasl_frame"
  | negotiation _ => text "sasl_outcome"
  | failure _ => text "sasl_protocol_error"

theorem event_of_document {stamp stamp' : Bytes} {e e' : Entry}
    (h : e.document stamp = e'.document stamp') : e.event = e'.event := by
  cases e <;> cases e' <;> injection h with h <;> injection h with h <;> injection h with _ h <;>
    exact Value.string.inj h

theorem document_inj {stamp stamp' : Bytes} {e e' : Entry}
    (h : e.document stamp = e'.document stamp') : e = e' ∧ stamp = stamp' := by
  have hevent := event_of_document h
  cases e with
  | frame e =>
    cases e' with
    | frame e' =>
      obtain ⟨rfl, rfl⟩ := FrameEntry.document_inj h
      exact ⟨rfl, rfl⟩
    | negotiation _ => exact absurd hevent (show text "sasl_frame" ≠ text "sasl_outcome" by decide)
    | failure _ =>
      exact absurd hevent (show text "sasl_frame" ≠ text "sasl_protocol_error" by decide)
  | negotiation e =>
    cases e' with
    | frame _ => exact absurd hevent (show text "sasl_outcome" ≠ text "sasl_frame" by decide)
    | negotiation e' =>
      obtain ⟨rfl, rfl⟩ := NegotiationEntry.document_inj h
      exact ⟨rfl, rfl⟩
    | failure _ =>
      exact absurd hevent (show text "sasl_outcome" ≠ text "sasl_protocol_error" by decide)
  | failure e =>
    cases e' with
    | frame _ =>
      exact absurd hevent (show text "sasl_protocol_error" ≠ text "sasl_frame" by decide)
    | negotiation _ =>
      exact absurd hevent (show text "sasl_protocol_error" ≠ text "sasl_outcome" by decide)
    | failure e' =>
      obtain ⟨rfl, rfl⟩ := FailureEntry.document_inj h
      exact ⟨rfl, rfl⟩

theorem line_inj {stamp stamp' : Bytes} {e e' : Entry} (h : e.line stamp = e'.line stamp') :
    e = e' ∧ stamp = stamp' := by
  have hparse := congrArg Json.parse h
  rw [parse_line, parse_line] at hparse
  exact document_inj (Option.some.inj hparse)

end Entry

/-! ### Time stamps -/

theorem unescaped_decimal (n : Nat) : Unescaped (decimal n) := by
  intro b hb
  have hdigit := isDecimalDigit_of_mem_decimal hb
  refine ⟨Json.printable_decimal n b hb, ?_, ?_⟩ <;> rintro rfl <;> cases hdigit

theorem unescaped_decimalInt (n : Int) : Unescaped (decimalInt n) := by
  cases n with
  | ofNat n => exact unescaped_decimal n
  | negSucc n => exact Unescaped.append (by decide) (unescaped_decimal (n + 1))

theorem unescaped_zeroPadded {digits : Bytes} (h : Unescaped digits) (width : Nat) :
    Unescaped (zeroPadded width digits) := by
  intro b hb
  obtain hzero | hdigit := List.mem_append.1 hb
  · rw [(List.mem_replicate.1 hzero).2]
    decide
  · exact h b hdigit

/-- A time stamp has nothing to escape, so that it makes no difference that a line escapes it. -/
theorem escape_timestamp (nanoseconds : Int) :
    escape (timestamp nanoseconds) = timestamp nanoseconds := by
  have htwo (n : Nat) : Unescaped (zeroPadded 2 (decimal n)) :=
    unescaped_zeroPadded (unescaped_decimal n) 2
  have hdash : Unescaped (text "-") := by decide
  have hcolon : Unescaped (text ":") := by decide
  refine Json.escape_of_unescaped ?_
  exact (unescaped_decimalInt _).append hdash |>.append (htwo _) |>.append hdash |>.append (htwo _)
    |>.append (by decide) |>.append (htwo _) |>.append hcolon |>.append (htwo _) |>.append hcolon
    |>.append (htwo _) |>.append (by decide)
    |>.append (unescaped_zeroPadded (unescaped_decimalInt _) 3) |>.append (by decide)

/-! ### Every line -/

/-- What becomes of an entry: one line if its level passes. There is no control character in the
line, it reads as one object that holds the members of the entry in their order, and no other entry
gives the same line. Under this lies that escapes are undone, whatever the bytes, and that a time
stamp needs none. -/
theorem Entry.lines_read (least : Level) (stamp : Bytes) (e : Entry) :
    Record.ofEntry least stamp e =
        (if least.admits e.level then [⟨.journal, e.level, e.line stamp⟩] else []) ∧
      Json.Printable (e.line stamp) ∧
      Json.parse (e.line stamp) = some (e.document stamp) ∧
      (∀ e' stamp', e.line stamp = e'.line stamp' ↔ e = e' ∧ stamp = stamp') ∧
      (∀ bytes, unescape (escape bytes) = some bytes) ∧
      ∀ nanoseconds, escape (timestamp nanoseconds) = timestamp nanoseconds := by
  refine ⟨rfl, Json.printable_object _, parse_line stamp e, fun e' stamp' => ⟨line_inj, ?_⟩,
    Json.unescape_escape, escape_timestamp⟩
  rintro ⟨rfl, rfl⟩
  rfl

end FramedSasl
