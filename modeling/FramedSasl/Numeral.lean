import FramedSasl.Bytes

/-! Numerals: decimal and hexadecimal digits, the value of a run of decimal digits, and the blanks
about them. -/

namespace FramedSasl

/-- The bytes of ASCII characters. -/
def ascii (cs : List Char) : Bytes := cs.map fun c => UInt8.ofNat c.toNat

def decimal (n : Nat) : Bytes := ascii (Nat.toDigits 10 n)

def decimalInt : Int → Bytes
  | .ofNat n => decimal n
  | .negSucc n => text "-" ++ decimal (n + 1)

def hexUpper (n : Nat) : Bytes := ascii ((Nat.toDigits 16 n).map Char.toUpper)

/-- `digits` behind enough zeros to make `width` of them. -/
def zeroPadded (width : Nat) (digits : Bytes) : Bytes := digits.leftpad width 48

/-- Two upper-case digits. -/
def hexByte (b : UInt8) : Bytes := zeroPadded 2 (hexUpper b.toNat)

/-- Two lower-case digits. -/
def hexByteLower (b : UInt8) : Bytes := zeroPadded 2 (ascii (Nat.toDigits 16 b.toNat))

/-- Space, or one of the control characters from tab to carriage return. -/
def isBlank (b : UInt8) : Bool := b = 32 || (9 ≤ b && b ≤ 13)

def isDecimalDigit (b : UInt8) : Bool := 48 ≤ b && b ≤ 57

/-- The value of a run of decimal digits, zero for the empty one. -/
def decimalValue (digits : Bytes) : Nat :=
  digits.foldl (fun acc d => acc * 10 + (d.toNat - 48)) 0

end FramedSasl
