import FramedSasl.Wire.TypeCode

/-! Writing fields. Every value takes the narrow form that has one-byte sizes where all its sizes
fit one byte, and else the wide form with four-byte sizes. -/

namespace FramedSasl.Wire

/-- The largest size that one byte holds. -/
def maxNarrow : Nat := 255

inductive Field where
  | null
  | ubyte (value : UInt8)
  | binary (bytes : Bytes)
  | string (bytes : Bytes)
  | symbol (bytes : Bytes)
  | symbols (names : List Bytes)
  deriving DecidableEq

/-- Bytes behind their type code and their length. -/
def sized (narrow wide : UInt8) (bytes : Bytes) : Bytes :=
  if bytes.length ≤ maxNarrow then
    narrow :: UInt8.ofNat bytes.length :: bytes
  else
    wide :: be32 bytes.length ++ bytes

/-- What follows the size of a narrow array: count, element code, elements with their lengths. -/
def narrowArrayBody (names : List Bytes) : Bytes :=
  UInt8.ofNat names.length :: TypeCode.symbol8 ::
    names.flatMap fun name => UInt8.ofNat name.length :: name

def wideArrayBody (names : List Bytes) : Bytes :=
  be32 names.length ++ TypeCode.symbol32 :: names.flatMap fun name => be32 name.length ++ name

/-- The count, each length and the whole body fit one byte. -/
def FitsNarrow (names : List Bytes) : Prop :=
  names.length ≤ maxNarrow ∧ (∀ name ∈ names, name.length ≤ maxNarrow) ∧
    (narrowArrayBody names).length ≤ maxNarrow

instance (names : List Bytes) : Decidable (FitsNarrow names) :=
  inferInstanceAs (Decidable (_ ∧ _ ∧ _))

def symbolArray (names : List Bytes) : Bytes :=
  if FitsNarrow names then
    TypeCode.array8 :: UInt8.ofNat (narrowArrayBody names).length :: narrowArrayBody names
  else
    TypeCode.array32 :: be32 (wideArrayBody names).length ++ wideArrayBody names

def Field.encode : Field → Bytes
  | null => [TypeCode.null]
  | ubyte value => [TypeCode.ubyte, value]
  | binary bytes => sized TypeCode.binary8 TypeCode.binary32 bytes
  | string bytes => sized TypeCode.string8 TypeCode.string32 bytes
  | symbol bytes => sized TypeCode.symbol8 TypeCode.symbol32 bytes
  | symbols names => symbolArray names

/-- A described list of `count` fields, given their bytes. A list without fields has no body. -/
def describedList (descriptor : UInt8) (fields : Bytes) (count : Nat) : Bytes :=
  TypeCode.described :: TypeCode.smallUlong :: descriptor ::
    if count = 0 then
      [TypeCode.list0]
    else if count ≤ maxNarrow ∧ fields.length + 1 ≤ maxNarrow then
      TypeCode.list8 :: UInt8.ofNat (fields.length + 1) :: UInt8.ofNat count :: fields
    else
      TypeCode.list32 :: be32 (fields.length + 4) ++ be32 count ++ fields

end FramedSasl.Wire
