import FramedSasl.Note
import FramedSasl.Scenario

/-! What the command line and the environment say about a run, and how it changes the scenario. -/

namespace FramedSasl

/-- An argument and four environment variables, each absent when it is not set. -/
structure Settings where
  argument : Option Bytes := none
  configPath : Option Bytes := none
  logLevel : Option Bytes := none
  logPath : Option Bytes := none
  frameLimit : Option Bytes := none

namespace Settings

/-- An empty variable counts as not set. -/
def given (value : Option Bytes) : Option Bytes := value.filter (· ≠ [])

/-- The path of the scenario: the argument, else the variable, else a default. -/
def path (s : Settings) : Bytes :=
  s.argument.getD ((given s.configPath).getD (text "config/loopback.yaml"))

/-- The 64-bit integer that a text starts with, behind blanks and perhaps a sign. -/
def leadingInteger? (bytes : Bytes) : Option Int :=
  let (negative, rest) := match bytes.dropWhile isBlank with
    | 45 :: rest => (true, rest)
    | 43 :: rest => (false, rest)
    | rest => (false, rest)
  let digits := rest.takeWhile isDecimalDigit
  let value : Int := if negative then - decimalValue digits else decimalValue digits
  if digits ≠ [] ∧ -0x8000000000000000 ≤ value ∧ value < 0x8000000000000000 then some value
  else none

def limitNote (what fallback : Bytes) : Note :=
  .say .warn (text "env SASL_MAX_FRAME_SIZE: " ++ what ++ text ", using default " ++ fallback)

/-- The frame limit in force. Of a number that is not negative the low 32 bits count. -/
def limit (s : Settings) (fallback : Nat) : Nat × List Note :=
  match given s.frameLimit with
  | none => (fallback, [])
  | some bytes =>
    match leadingInteger? bytes with
    | none => (fallback,
        [limitNote (text "invalid value '" ++ bytes ++ text "'") (decimal fallback)])
    | some value =>
      if value < 0 then
        (fallback, [limitNote (text "negative value " ++ decimalInt value) (decimal fallback)])
      else (value.toNat % wordCount, [])

/-- The scenario with what the environment changes. -/
def override (s : Settings) (scenario : Scenario) : Scenario × List Note :=
  let (frameLimit, notes) := s.limit scenario.frameLimit
  ({ scenario with
      logLevel := (given s.logLevel).getD scenario.logLevel
      logPath := (given s.logPath).getD scenario.logPath
      frameLimit }, notes)

end Settings

end FramedSasl
