import FramedSasl.Numeral

/-! JSON objects on one line, whose strings may hold any bytes. Quotes, backslashes and control
characters are escaped; all other bytes stand for themselves. -/

namespace FramedSasl.Json

inductive Scalar where
  | string (bytes : Bytes)
  | number (n : Nat)
  | bool (value : Bool)
  deriving DecidableEq

def escapeByte (b : UInt8) : Bytes :=
  if b = 0x22 then text "\\\""
  else if b = 0x5C then text "\\\\"
  else if b = 0x08 then text "\\b"
  else if b = 0x0C then text "\\f"
  else if b = 0x0A then text "\\n"
  else if b = 0x0D then text "\\r"
  else if b = 0x09 then text "\\t"
  else if b < 0x20 then text "\\u00" ++ hexByteLower b
  else [b]

def escape (bytes : Bytes) : Bytes := bytes.flatMap escapeByte

def quoted (bytes : Bytes) : Bytes := text "\"" ++ escape bytes ++ text "\""

def Scalar.render : Scalar → Bytes
  | string bytes => quoted bytes
  | number n => decimal n
  | bool value => if value then text "true" else text "false"

/-- The members in the given order. -/
def object (members : List (String × Scalar)) : Bytes :=
  text "\x7b" ++
    commaSeparated (members.map fun (key, value) => quoted (text key) ++ text ":" ++ value.render) ++
    text "\x7d"

end FramedSasl.Json
