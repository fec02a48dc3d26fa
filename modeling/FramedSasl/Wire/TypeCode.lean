import FramedSasl.Bytes

/-! The constructor bytes of the encodings that frame bodies use. -/

namespace FramedSasl.Wire.TypeCode

abbrev described : UInt8 := 0x00
abbrev null : UInt8 := 0x40
abbrev list0 : UInt8 := 0x45
abbrev ubyte : UInt8 := 0x50
abbrev smallUlong : UInt8 := 0x53
abbrev ulong : UInt8 := 0x80
abbrev binary8 : UInt8 := 0xA0
abbrev string8 : UInt8 := 0xA1
abbrev symbol8 : UInt8 := 0xA3
abbrev binary32 : UInt8 := 0xB0
abbrev string32 : UInt8 := 0xB1
abbrev symbol32 : UInt8 := 0xB3
abbrev list8 : UInt8 := 0xC0
abbrev list32 : UInt8 := 0xD0
abbrev array8 : UInt8 := 0xE0
abbrev array32 : UInt8 := 0xF0

end FramedSasl.Wire.TypeCode
