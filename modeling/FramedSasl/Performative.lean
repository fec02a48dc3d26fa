import FramedSasl.Numeral
import FramedSasl.Outcome
import FramedSasl.Role

/-! The five performatives of an exchange. Those that carry bytes carry them as their payload;
an absent payload and an empty one are two different things. `describe` shows a payload by its
length only. -/

namespace FramedSasl

inductive Kind where
  | mechanisms
  | init
  | challenge
  | response
  | outcome
  deriving DecidableEq, Repr

namespace Kind

def descriptor : Kind → UInt8
  | mechanisms => 0x40
  | init => 0x41
  | challenge => 0x42
  | response => 0x43
  | outcome => 0x44

def ofDescriptor? : Nat → Option Kind
  | 0x40 => some mechanisms
  | 0x41 => some init
  | 0x42 => some challenge
  | 0x43 => some response
  | 0x44 => some outcome
  | _ => none

def name : Kind → Bytes
  | mechanisms => text "sasl-mechanisms"
  | init => text "sasl-init"
  | challenge => text "sasl-challenge"
  | response => text "sasl-response"
  | outcome => text "sasl-outcome"

/-- The side that sends performatives of this kind. -/
def sender : Kind → Role
  | mechanisms | challenge | outcome => .server
  | init | response => .client

end Kind

inductive Performative where
  | mechanisms (names : List Bytes)
  | init (mechanism : Bytes) (initialResponse hostname : Option Bytes)
  | challenge (payload : Bytes)
  | response (payload : Bytes)
  | outcome (code : Outcome) (additionalData : Option Bytes)
  deriving DecidableEq

namespace Performative

def kind : Performative → Kind
  | mechanisms _ => .mechanisms
  | init .. => .init
  | challenge _ => .challenge
  | response _ => .response
  | outcome .. => .outcome

def payload? : Performative → Option Bytes
  | mechanisms _ => none
  | init _ initialResponse _ => initialResponse
  | challenge payload => some payload
  | response payload => some payload
  | outcome _ additionalData => additionalData

def payloadSize (p : Performative) : Nat := (p.payload?.getD []).length

/-- The same performative with another payload; `mechanisms` has none and stays as it is. -/
def withPayload (bytes : Bytes) : Performative → Performative
  | mechanisms names => mechanisms names
  | init mechanism _ hostname => init mechanism (some bytes) hostname
  | challenge _ => challenge bytes
  | response _ => response bytes
  | outcome code _ => outcome code (some bytes)

/-- `12B` for twelve bytes. -/
def byteCount (bytes : Bytes) : Bytes := decimal bytes.length ++ text "B"

def byteCount? : Option Bytes → Bytes
  | none => text "null"
  | some bytes => byteCount bytes

def braced (p : Performative) (fields : List Bytes) : Bytes :=
  p.kind.name ++ text "\x7b" ++ List.intercalate (text ", ") fields ++ text "\x7d"

/-- One line for a trace. -/
def describe (p : Performative) : Bytes :=
  p.braced <| match p with
    | mechanisms names => [text "mechanisms=[" ++ commaSeparated names ++ text "]"]
    | init mechanism initialResponse hostname =>
      [text "mechanism=" ++ mechanism, text "initial_response=" ++ byteCount? initialResponse,
        text "hostname=" ++ hostname.getD (text "null")]
    | challenge payload => [text "challenge=" ++ byteCount payload]
    | response payload => [text "response=" ++ byteCount payload]
    | outcome code additionalData =>
      [text "code=" ++ decimal code.code.toNat,
        text "additional_data=" ++ byteCount? additionalData]

end Performative

end FramedSasl
