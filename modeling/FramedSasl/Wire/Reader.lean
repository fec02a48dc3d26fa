import FramedSasl.Fault
import FramedSasl.Wire.TypeCode

/-! Reading fields from a frame body. A `Reader` moves a cursor forward and says where it stopped
when the bytes are not what was asked for. Declared list and array sizes are checked against what
remains of the body when they are read. -/

namespace FramedSasl.Wire

structure Cursor where
  position : Nat := 0
  rest : Bytes
  deriving DecidableEq

def Cursor.remaining (c : Cursor) : Nat := c.rest.length

abbrev Reader := StateT Cursor (Except Fault)

namespace Reader

def refuse {α : Type} (fault : ReadFault) : Reader α := throw (.read fault)

def remaining : Reader Nat := return (← get).remaining

def byte : Reader UInt8 := fun c =>
  match c.rest with
  | [] => .error (.read (.endOfBody c.position))
  | b :: rest => .ok (b, ⟨c.position + 1, rest⟩)

/-- A big-endian 32-bit word. -/
def word : Reader Nat := fun c =>
  match c.rest with
  | b₀ :: b₁ :: b₂ :: b₃ :: rest => .ok (readBE [b₀, b₁, b₂, b₃], ⟨c.position + 4, rest⟩)
  | _ => .error (.read (.truncatedWord c.position c.remaining))

/-- The next `n` bytes. -/
def bytes (n : Nat) : Reader Bytes := fun c =>
  let taken := c.rest.take n
  if taken.length < n then
    .error (.read (.lengthTooLong n c.remaining))
  else
    .ok (taken, ⟨c.position + n, c.rest.drop n⟩)

/-- A size field of the given width. -/
def size : Width → Reader Nat
  | .bits8 => UInt8.toNat <$> byte
  | .bits32 => word

def sizedBytes (width : Width) : Reader Bytes := do bytes (← size width)

/-- The bytes behind a type code that has been read already. -/
def sizedValue (narrow wide code : UInt8) : Reader Bytes := do
  if code = narrow then
    sizedBytes .bits8
  else if code = wide then
    sizedBytes .bits32
  else
    refuse (.wrongTypeCode code ((← get).position - 1))

/-- `none` for the null value. -/
def optional (narrow wide : UInt8) : Reader (Option Bytes) := do
  let code ← byte
  if code = TypeCode.null then return none
  else some <$> sizedValue narrow wide code

def binary? : Reader (Option Bytes) := optional TypeCode.binary8 TypeCode.binary32

def string? : Reader (Option Bytes) := optional TypeCode.string8 TypeCode.string32

def symbol? : Reader (Option Bytes) := optional TypeCode.symbol8 TypeCode.symbol32

def ubyte? : Reader (Option UInt8) := do
  let code ← byte
  if code = TypeCode.null then return none
  else if code = TypeCode.ubyte then some <$> byte
  else refuse (.notAnUbyte code)

/-- The descriptor of a described value. -/
def descriptor : Reader Nat := do
  let first ← byte
  if first ≠ TypeCode.described then refuse (.notDescribed first)
  else
    let code ← byte
    if code = TypeCode.smallUlong then UInt8.toNat <$> byte
    else if code = TypeCode.ulong then
      let high ← word
      let low ← word
      return high * wordCount + low
    else refuse (.descriptorEncoding code)

/-- Size and count of a list: the size counts the count field and lies within the body. -/
def listCount (width : Width) (least : Nat) : Reader Nat := do
  let n ← size width
  let left ← remaining
  if n < least ∨ left < n then refuse (.listSize width n left)
  else size width

/-- The number of fields of a list. -/
def listHeader : Reader Nat := do
  let code ← byte
  if code = TypeCode.list0 then return 0
  else if code = TypeCode.list8 then listCount .bits8 1
  else if code = TypeCode.list32 then listCount .bits32 4
  else refuse (.notAList code)

/-- Size, count and elements of an array of symbols. -/
def arrayBody (width : Width) : Reader (List Bytes) := do
  let n ← size width
  let left ← remaining
  if left < n then refuse (.arraySize width n left)
  else
    let count ← size width
    let code ← byte
    if code ≠ TypeCode.symbol8 ∧ code ≠ TypeCode.symbol32 then refuse (.arrayElement code)
    else
      let left ← remaining
      if left < count then refuse (.arrayCount count left)
      else
        let element := sizedBytes (if code = TypeCode.symbol8 then .bits8 else .bits32)
        (List.replicate count element).mapM id

/-- Several symbols: an array of them, a single one, or null for none. -/
def symbols : Reader (List Bytes) := do
  let next := (← get).rest.head?
  if next = some TypeCode.array8 then do
    discard byte
    arrayBody .bits8
  else if next = some TypeCode.array32 then do
    discard byte
    arrayBody .bits32
  else
    return (← symbol?).toList

end Reader

end FramedSasl.Wire
