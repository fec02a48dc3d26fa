import FramedSasl.Proofs.ReadFaults
import FramedSasl.Proofs.FrameRoundTrip

/-! The frames that can be read are those that can be written. A reader `Yields` what it can answer:
an outcome that was read is one of the five with a code, however its fields were encoded. So a frame
that was read is written and read back as itself, as is every frame that can travel. -/

namespace FramedSasl

namespace Wire.Reader

variable {α β : Type}

/-- Whatever `reader` answers is `good`. -/
def Yields (reader : Reader α) (good : α → Prop) : Prop :=
  ∀ cursor value cursor', reader.run cursor = .ok (value, cursor') → good value

namespace Yields

variable {good : β → Prop}

theorem bind {first : Reader α} {next : α → Reader β} (h : ∀ value, Yields (next value) good) :
    Yields (first >>= next) good := by
  intro cursor value cursor' hrun
  obtain ⟨a, middle, -, hrest⟩ := run_bind_ok hrun
  exact h a middle value cursor' hrest

theorem pure {value : β} (h : good value) : Yields (Pure.pure value : Reader β) good := by
  intro cursor answer cursor' hrun
  cases hrun
  exact h

theorem map {f : α → β} (reader : Reader α) (h : ∀ value, good (f value)) :
    Yields (f <$> reader) good := by
  rw [← bind_pure_comp]
  exact bind fun value => pure (h value)

theorem throw (fault : Fault) : Yields (throw fault : Reader β) good := by
  intro cursor value cursor' hrun
  cases hrun

theorem ite {condition : Prop} [Decidable condition] {first second : Reader β}
    (hfirst : Yields first good) (hsecond : Yields second good) :
    Yields (if condition then first else second) good := by
  split
  · exact hfirst
  · exact hsecond

end Yields

end Wire.Reader

open Wire.Reader

theorem Outcome.ne_undecided_of_ofCode? {byte : UInt8} {code : Outcome}
    (h : Outcome.ofCode? byte = some code) : code ≠ .undecided := by
  unfold Outcome.ofCode? at h
  split at h <;> cases h <;> exact nofun

namespace Performative

theorem yields_readFields (kind : Kind) (count : Nat) :
    Yields (readFields kind count) Decided := by
  cases kind with
  | mechanisms => exact .ite (.pure trivial) (.map _ fun _ => trivial)
  | init =>
    refine Yields.bind fun _ => Yields.bind fun _ => Yields.bind fun _ => ?_
    exact .pure trivial
  | challenge => exact .map _ fun _ => trivial
  | response => exact .map _ fun _ => trivial
  | outcome =>
    refine Yields.bind fun byte => ?_
    cases hcode : Outcome.ofCode? byte with
    | none => exact .throw _
    | some code => exact Yields.bind fun _ => .pure (Outcome.ne_undecided_of_ofCode? hcode)

theorem yields_read : Yields Performative.read Decided := by
  refine Yields.bind fun descriptor => ?_
  cases Kind.ofDescriptor? descriptor with
  | none => exact .throw _
  | some kind => exact Yields.bind fun count => yields_readFields kind count

end Performative

namespace Frame

variable {data : Bytes} {frame : Frame}

theorem body_of_ofBody {body : Performative} {flags : UInt8} (h : ofBody body flags = .ok frame) :
    frame.body = body := by
  unfold ofBody at h
  dsimp only at h
  split at h
  · cases h
  · cases h
    rfl

theorem decided_of_parse (h : parse data = .ok frame) : frame.body.Decided := by
  unfold parse at h
  split at h
  · next b₀ b₁ b₂ b₃ doff type _ flags rest =>
    dsimp only at h
    generalize Wire.Cursor.mk 0 _ = cursor at h
    repeat' split at h
    all_goals first | cases h | skip
    rcases hread : Performative.read.run cursor with fault | ⟨body, cursor'⟩
    · rw [hread] at h
      cases h
    · rw [hread] at h
      rw [body_of_ofBody h]
      exact Performative.yields_read cursor body cursor' hread
  · cases h

/-- A frame that can travel is parsed from its own bytes, whatever lies behind them, and its size
stands in the first four. Every frame that was parsed, however it was encoded, is one that can
travel, unless its own encoding is too long for a size of 32 bits; so it is parsed from it again. -/
theorem parse_serialize_of_travels_or_parsed :
    (∀ frame : Frame, frame.Travels → parse frame.serialize = .ok frame ∧
      readBE (frame.serialize.take 4) = frame.serialize.length ∧
      ∀ rest, parse (frame.serialize ++ rest) = .ok frame) ∧
    ∀ data frame, parse data = .ok frame →
      frame.body.Decided ∧ (frame.more = true → frame.body.kind ≠ .mechanisms) ∧
      (frame.serialize.length < wordCount →
        ∀ rest, parse (frame.serialize ++ rest) = .ok frame) := by
  refine ⟨fun frame htravels => ⟨?_, ?_, parse_serialize htravels⟩, fun data frame h => ?_⟩
  · have hnone := parse_serialize htravels []
    rwa [List.append_nil] at hnone
  · have hsize := htravels.size_lt
    rw [size_eq] at hsize
    change readBE (be32 _) = frame.size
    rw [readBE_be32 hsize, size_eq]
  · have hdecided := decided_of_parse h
    have hwhole := more_of_parse h
    exact ⟨hdecided, hwhole, fun hsize => parse_serialize ⟨hdecided, hwhole, hsize⟩⟩

/-- A challenge with an eight-byte descriptor, a wide list and a wide binary, in a body that starts
four bytes late. -/
def wideChallenge : Bytes := [0, 0, 0, 38, 3, 1, 0, 1, 0, 0, 0, 0] ++
  [0, 0x80, 0, 0, 0, 0, 0, 0, 0, 0x42, 0xD0, 0, 0, 0, 11, 0, 0, 0, 1, 0xB0, 0, 0, 0, 2, 7, 8]

/-- With a byte behind it, it is read. It would have been written in twenty bytes less, and is read
back from these. -/
theorem parse_serialize_of_travels_or_parsed_wide :
    let frame : Frame := ⟨.challenge [7, 8], true⟩
    parse (wideChallenge ++ [9]) = .ok frame ∧ frame.Travels ∧
      readBE (frame.serialize.take 4) = 18 ∧ parse (frame.serialize ++ [9]) = .ok frame := by
  intro frame
  have hparse : parse (wideChallenge ++ [9]) = .ok frame := by
    set_option maxRecDepth 4000 in rfl
  have hsize : frame.serialize.length = 18 := by decide
  obtain ⟨hdecided, hwhole, hback⟩ := parse_serialize_of_travels_or_parsed.2 _ frame hparse
  have hword : frame.serialize.length < wordCount := by rw [hsize]; decide
  have htravels : frame.Travels := ⟨hdecided, hwhole, hword⟩
  have hdeclared := (parse_serialize_of_travels_or_parsed.1 frame htravels).2.1
  exact ⟨hparse, htravels, hdeclared.trans hsize, hback hword [9]⟩

end Frame

end FramedSasl
