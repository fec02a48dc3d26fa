/-! Byte strings. Names, host names and payloads are bytes of any value, so all text here is bytes
too: `text` gives those of a literal. `be32` writes a big-endian word, `readBE` reads one. -/

namespace FramedSasl

abbrev Bytes := List UInt8

/-- The UTF-8 bytes of `s`. -/
def text (s : String) : Bytes := s.toUTF8.data.toList

/-- The low 32 bits of `n`, high byte first. -/
def be32 (n : Nat) : Bytes :=
  [UInt8.ofNat (n / 0x1000000), UInt8.ofNat (n / 0x10000), UInt8.ofNat (n / 0x100), UInt8.ofNat n]

/-- The number of words of 32 bits. -/
def wordCount : Nat := 0x100000000

/-- An unsigned number of any width, high byte first. -/
def readBE (bytes : Bytes) : Nat :=
  bytes.foldl (fun acc b => acc * 256 + b.toNat) 0

/-- The parts with a comma between each two. -/
def commaSeparated (parts : List Bytes) : Bytes :=
  List.intercalate (text ",") parts

end FramedSasl
