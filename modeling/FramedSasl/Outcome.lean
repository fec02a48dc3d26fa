import FramedSasl.Bytes

/-! The result of an exchange. The five decided values travel as one byte, `undecided` never
does. -/

namespace FramedSasl

inductive Outcome where
  | ok
  /-- The credentials were refused. -/
  | auth
  /-- The server failed. -/
  | sys
  /-- The server failed and would fail again. -/
  | sysPerm
  /-- The server failed for now. -/
  | sysTemp
  | undecided
  deriving DecidableEq, Repr

namespace Outcome

/-- The code on the wire, `255` for `undecided`. -/
def code : Outcome → UInt8
  | ok => 0
  | auth => 1
  | sys => 2
  | sysPerm => 3
  | sysTemp => 4
  | undecided => 255

/-- The decided outcome with this code. -/
def ofCode? : UInt8 → Option Outcome
  | 0 => some ok
  | 1 => some auth
  | 2 => some sys
  | 3 => some sysPerm
  | 4 => some sysTemp
  | _ => none

def name : Outcome → Bytes
  | ok => text "ok"
  | auth => text "auth"
  | sys => text "sys"
  | sysPerm => text "sys-perm"
  | sysTemp => text "sys-temp"
  | undecided => text "none"

def decided : List Outcome := [ok, auth, sys, sysPerm, sysTemp]

/-- The decided outcome with this name. -/
def ofName? (name : Bytes) : Option Outcome :=
  decided.find? fun outcome => outcome.name == name

end Outcome

end FramedSasl
