import FramedSasl.Fault

/-! The order of performatives: which kinds a side may send and receive in a phase, and the phase
after it. -/

namespace FramedSasl.Phase

/-- The phase of the side `role` after it has sent a performative of this kind. -/
def afterSending (phase : Phase) (role : Option Role) (kind : Kind) : Except Fault Phase :=
  let refuse (fault : OrderFault) : Except Fault Phase := .error (.order fault role phase kind)
  match role with
  | none => refuse .sendUnassigned
  | some side =>
    if kind.sender ≠ side then refuse .sendWrongRole
    else match phase.after? kind with
      | some next => .ok next
      | none => refuse .sendOutOfPhase

/-- The phase of the side `role` after a performative of this kind has come in. -/
def afterReceiving (phase : Phase) (role : Option Role) (kind : Kind) : Except Fault Phase :=
  let refuse (fault : OrderFault) : Except Fault Phase := .error (.order fault role phase kind)
  match role with
  | none => refuse .receiveUnassigned
  | some side =>
    if kind.sender = side then refuse .receiveWrongDirection
    else if phase = .done then refuse .receiveAfterOutcome
    else match phase.after? kind with
      | some next => .ok next
      | none => refuse .receiveOutOfSequence

end FramedSasl.Phase
