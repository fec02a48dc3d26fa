import FramedSasl.Bytes

/-! The two sides of an exchange. -/

namespace FramedSasl

inductive Role where
  | client
  | server
  deriving DecidableEq, Repr

def Role.name : Role → Bytes
  | .client => text "client"
  | .server => text "server"

/-- The name of a side that may not have been chosen yet. -/
def roleName : Option Role → Bytes
  | none => text "unassigned"
  | some role => role.name

end FramedSasl
