import FramedSasl.Wire.Field
import FramedSasl.Wire.Reader

/-! One frame: an eight-byte header (size, data offset, type, flags) and a performative as a
described list. `serialize` writes it, `parse` reads it back from the front of some bytes. Flag
`more` says that the payload goes on in the next frame. -/

namespace FramedSasl

namespace Performative

open Wire

def binaryField (bytes : Option Bytes) : Field := bytes.elim .null .binary

def stringField (bytes : Option Bytes) : Field := bytes.elim .null .string

def fields : Performative → List Field
  | mechanisms names => [.symbols names]
  | init mechanism initialResponse hostname =>
    [.symbol mechanism, binaryField initialResponse, stringField hostname]
  | challenge payload => [.binary payload]
  | response payload => [.binary payload]
  | outcome code additionalData => [.ubyte code.code, binaryField additionalData]

/-- The frame body. -/
def encode (p : Performative) : Bytes :=
  describedList p.kind.descriptor (p.fields.flatMap Field.encode) p.fields.length

/-- The first field of a list of `count`: it must be there and must not be null. -/
def mandatory {α : Type} (kind : Kind) (count : Nat) (field : Reader (Option α)) : Reader α := do
  if count < 1 then throw (.frame (.missingField kind))
  else match ← field with
    | none => throw (.frame (.nullField kind))
    | some value => return value

/-- Field number `index` of a list of `count`; a field left out at the end is null. -/
def trailing {α : Type} (index count : Nat) (field : Reader (Option α)) : Reader (Option α) :=
  if index < count then field else return none

/-- The fields of a performative of this kind, from a list of `count`. -/
def readFields (kind : Kind) (count : Nat) : Reader Performative := do
  match kind with
  | .mechanisms => if count = 0 then return mechanisms [] else mechanisms <$> Reader.symbols
  | .init =>
    let mechanism ← mandatory kind count Reader.symbol?
    let initialResponse ← trailing 1 count Reader.binary?
    let hostname ← trailing 2 count Reader.string?
    return init mechanism initialResponse hostname
  | .challenge => challenge <$> mandatory kind count Reader.binary?
  | .response => response <$> mandatory kind count Reader.binary?
  | .outcome =>
    let byte ← mandatory kind count Reader.ubyte?
    match Outcome.ofCode? byte with
    | none => throw (.frame (.outcomeCode byte))
    | some code => return outcome code (← trailing 1 count Reader.binary?)

/-- A whole frame body. Bytes behind the last field are left alone. -/
def read : Reader Performative := do
  let descriptor ← Reader.descriptor
  match Kind.ofDescriptor? descriptor with
  | none => throw (.frame (.unknownPerformative descriptor))
  | some kind => readFields kind (← Reader.listHeader)

end Performative

structure Frame where
  body : Performative
  more : Bool := false
  deriving DecidableEq

namespace Frame

def headerSize : Nat := 8

/-- The frame type of SASL frames. -/
def saslType : UInt8 := 1

/-- Where the body starts, in words of four bytes. -/
def dataOffset : UInt8 := 2

/-- The header of a frame of `size` bytes. -/
def header (size : Nat) (more : Bool) : Bytes :=
  be32 size ++ [dataOffset, saslType, 0, if more then 1 else 0]

def serialize (f : Frame) : Bytes :=
  header (headerSize + f.body.encode.length) f.more ++ f.body.encode

def size (f : Frame) : Nat := f.serialize.length

def kind (f : Frame) : Kind := f.body.kind

/-- The size that a frame at the front of `data` declares, once its four bytes are there. -/
def peekSize : Bytes → Option Nat
  | b₀ :: b₁ :: b₂ :: b₃ :: _ => some (readBE [b₀, b₁, b₂, b₃])
  | _ => none

/-- The frame with this body and these flags; a list of mechanisms has to come in one frame. -/
def ofBody (body : Performative) (flags : UInt8) : Except Fault Frame :=
  let more := flags % 2 = 1
  if more ∧ body.kind = .mechanisms then .error (.frame .fragmentedMechanisms)
  else .ok ⟨body, more⟩

/-- The frame at the front of `data`. Bytes behind its declared size are left alone. -/
def parse (data : Bytes) : Except Fault Frame :=
  match data with
  | b₀ :: b₁ :: b₂ :: b₃ :: doff :: type :: _ :: flags :: _ =>
    let size := readBE [b₀, b₁, b₂, b₃]
    let start := doff.toNat * 4
    if size < headerSize then .error (.frame (.sizeBelowHeader size))
    else if data.length < size then .error (.frame (.incomplete size data.length))
    else if type ≠ saslType then .error (.frame (.wrongType type))
    else if doff < dataOffset ∨ size < start then .error (.frame (.dataOffset doff size))
    else if start = size then .error (.frame (.noBody size))
    else do
      let (body, _) ← Performative.read.run { rest := (data.take size).drop start }
      ofBody body flags
  | _ => .error (.frame (.tooShort data.length))

end Frame

end FramedSasl
