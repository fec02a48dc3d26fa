import FramedSasl.Bytes

/-! Levels of log records. -/

namespace FramedSasl

inductive Level where
  | debug
  | info
  | warn
  | error
  deriving DecidableEq, Repr

namespace Level

def rank : Level → Nat
  | debug => 0
  | info => 1
  | warn => 2
  | error => 3

def name : Level → Bytes
  | debug => text "debug"
  | info => text "info"
  | warn => text "warn"
  | error => text "error"

/-- The level with this name; any other name means `info`. -/
def ofName (name : Bytes) : Level :=
  if name = text "debug" then debug
  else if name = text "warn" ∨ name = text "warning" then warn
  else if name = text "error" then error
  else info

/-- A log that starts at `least` keeps records of `level`. -/
def admits (least level : Level) : Bool := least.rank ≤ level.rank

end Level

end FramedSasl
