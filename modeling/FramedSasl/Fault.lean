import FramedSasl.Phase

/-! What can go wrong, by cause. A fault has a kind, a message and a context; the wording of all
of them is here. A kind tells a caller's mistake (`illegalState`, `invalidArgument`) from a peer's
(`isProtocol`). -/

namespace FramedSasl

inductive FaultKind where
  | illegalState
  | invalidArgument
  | malformedFrame
  | unexpectedFrame
  | frameTooLarge
  | headerMismatch
  | internalError
  deriving DecidableEq, Repr

namespace FaultKind

def name : FaultKind → Bytes
  | illegalState => text "illegal_state"
  | invalidArgument => text "invalid_argument"
  | malformedFrame => text "malformed_frame"
  | unexpectedFrame => text "unexpected_frame"
  | frameTooLarge => text "frame_too_large"
  | headerMismatch => text "header_mismatch"
  | internalError => text "internal_error"

/-- The peer broke the protocol. -/
def isProtocol : FaultKind → Bool
  | malformedFrame | unexpectedFrame | frameTooLarge | headerMismatch => true
  | illegalState | invalidArgument | internalError => false

end FaultKind

/-- `key=value`. -/
def binding (key : String) (value : Bytes) : Bytes := text key ++ text "=" ++ value

/-- `first=…, second=…`. -/
def bindings (parts : List Bytes) : Bytes := List.intercalate (text ", ") parts

/-- The width of a size field, in bits. -/
inductive Width where
  | bits8
  | bits32
  deriving DecidableEq, Repr

def Width.name : Width → Bytes
  | .bits8 => text "8"
  | .bits32 => text "32"

/-- Bytes that are not the encoding of the value asked for. `position` counts from the start of
the frame body, `remaining` is what lies behind it. -/
inductive ReadFault where
  | endOfBody (position : Nat)
  | truncatedWord (position remaining : Nat)
  | lengthTooLong (length remaining : Nat)
  | wrongTypeCode (code : UInt8) (position : Nat)
  | notDescribed (first : UInt8)
  | descriptorEncoding (code : UInt8)
  | listSize (width : Width) (size remaining : Nat)
  | notAList (code : UInt8)
  | notAnUbyte (code : UInt8)
  | arraySize (width : Width) (size remaining : Nat)
  | arrayElement (constructor : UInt8)
  | arrayCount (count remaining : Nat)
  deriving DecidableEq

namespace ReadFault

def message : ReadFault → Bytes
  | endOfBody _ => text "unexpected end of frame body"
  | truncatedWord .. => text "truncated 32-bit field"
  | lengthTooLong .. => text "declared length exceeds frame body"
  | wrongTypeCode .. => text "unexpected AMQP type code"
  | notDescribed _ => text "performative is not a described type"
  | descriptorEncoding _ => text "unsupported descriptor encoding"
  | listSize width _ _ => text "list" ++ width.name ++ text " size out of range"
  | notAList _ => text "performative body is not a list"
  | notAnUbyte _ => text "expected ubyte"
  | arraySize width _ _ => text "array" ++ width.name ++ text " size exceeds frame body"
  | arrayElement _ => text "mechanism array element is not a symbol"
  | arrayCount .. => text "array count exceeds frame body"

def hex (key : String) (b : UInt8) : Bytes := binding key (text "0x" ++ hexByte b)

def against (key : String) (n remaining : Nat) : Bytes :=
  bindings [binding key (decimal n), binding "remaining" (decimal remaining)]

def context : ReadFault → Bytes
  | endOfBody position => binding "pos" (decimal position)
  | truncatedWord position remaining => against "pos" position remaining
  | lengthTooLong length remaining => against "length" length remaining
  | wrongTypeCode code position => bindings [hex "code" code, binding "pos" (decimal position)]
  | notDescribed first => hex "first byte" first
  | descriptorEncoding code => hex "code" code
  | listSize _ size remaining => against "size" size remaining
  | notAList code => hex "code" code
  | notAnUbyte code => hex "code" code
  | arraySize _ size remaining => against "size" size remaining
  | arrayElement constructor => hex "constructor" constructor
  | arrayCount count remaining => against "count" count remaining

end ReadFault

/-- Bytes that are not a frame, or not one of a performative. -/
inductive FrameFault where
  | tooShort (received : Nat)
  | sizeBelowHeader (size : Nat)
  | incomplete (size available : Nat)
  | wrongType (type : UInt8)
  | dataOffset (doff : UInt8) (size : Nat)
  | noBody (size : Nat)
  | unknownPerformative (descriptor : Nat)
  | missingField (kind : Kind)
  | nullField (kind : Kind)
  | outcomeCode (code : UInt8)
  | fragmentedMechanisms
  deriving DecidableEq

/-- The field that a performative of this kind cannot do without. -/
def Kind.mandatoryField : Kind → Bytes
  | .mechanisms => text "mechanisms"
  | .init => text "mechanism"
  | .challenge | .response => text "payload"
  | .outcome => text "code"

namespace FrameFault

def message : FrameFault → Bytes
  | tooShort _ => text "frame too short"
  | sizeBelowHeader _ => text "declared frame size smaller than header"
  | incomplete .. => text "incomplete frame"
  | wrongType _ => text "not a SASL frame"
  | dataOffset .. => text "invalid data offset"
  | noBody _ => text "SASL frame without body"
  | unknownPerformative _ => text "unknown SASL performative"
  | missingField kind => kind.name ++ text " without " ++ kind.mandatoryField ++ text " field"
  | nullField kind => kind.name ++ text " " ++ kind.mandatoryField ++ text " is mandatory"
  | outcomeCode _ => text "sasl-outcome code out of range"
  | fragmentedMechanisms => text "sasl-mechanisms cannot be fragmented"

def context : FrameFault → Bytes
  | tooShort received =>
    text "received " ++ decimal received ++ text " bytes, need at least 8"
  | sizeBelowHeader size => binding "size" (decimal size)
  | incomplete size available =>
    bindings [binding "declared size" (decimal size), binding "available" (decimal available)]
  | wrongType type => binding "type" (text "0x" ++ hexByte type)
  | dataOffset doff size =>
    bindings [binding "doff" (decimal doff.toNat), binding "size" (decimal size)]
  | noBody size => binding "size" (decimal size)
  | unknownPerformative descriptor => binding "descriptor" (text "0x" ++ hexUpper descriptor)
  | outcomeCode code => binding "code" (decimal code.toNat)
  | missingField _ | nullField _ | fragmentedMechanisms => []

end FrameFault

/-- Frames and frame limits that do not go together, and fragments that do not belong together. -/
inductive CodecFault where
  | limitTooSmall (size minimum : Nat)
  | limitFrozen (current requested : Nat)
  | noRoomForPayload (kind : Kind) (overhead limit : Nat)
  | frameTooLarge (kind : Kind) (size limit : Nat)
  | inboundTooLarge (size limit : Nat)
  | fragmentKind (expected got : Kind)
  | initFragments (first next : Bytes)
  | outcomeFragments (first next : Outcome)
  | mechanismsFragments
  deriving DecidableEq

namespace CodecFault

def kind : CodecFault → FaultKind
  | limitTooSmall .. => .invalidArgument
  | limitFrozen .. => .illegalState
  | noRoomForPayload .. | frameTooLarge .. | inboundTooLarge .. => .frameTooLarge
  | fragmentKind .. | initFragments .. | outcomeFragments .. => .malformedFrame
  | mechanismsFragments => .internalError

def message : CodecFault → Bytes
  | limitTooSmall .. => text "max frame size below AMQP minimum"
  | limitFrozen .. => text "max frame size cannot change once SASL frames were exchanged"
  | noRoomForPayload .. => text "no room for payload in a single frame"
  | frameTooLarge .. => text "frame exceeds max frame size"
  | inboundTooLarge .. => text "inbound frame exceeds max frame size"
  | fragmentKind .. => text "fragment kind changed before final fragment"
  | initFragments .. => text "sasl-init fragments disagree on mechanism/hostname"
  | outcomeFragments .. => text "sasl-outcome fragments disagree on code"
  | mechanismsFragments => text "unreachable: fragmented sasl-mechanisms"

def context : CodecFault → Bytes
  | limitTooSmall size minimum =>
    bindings [binding "size" (decimal size), binding "minimum" (decimal minimum)]
  | limitFrozen current requested =>
    bindings [binding "current" (decimal current), binding "requested" (decimal requested)]
  | noRoomForPayload kind overhead limit =>
    kind.name ++ text " " ++
      bindings [binding "overhead" (decimal overhead), binding "max_frame_size" (decimal limit)]
  | frameTooLarge kind size limit =>
    kind.name ++ text " " ++
      bindings [binding "size" (decimal size), binding "remote_max_frame_size" (decimal limit)]
  | inboundTooLarge size limit =>
    bindings [binding "size" (decimal size), binding "max_frame_size" (decimal limit)]
  | fragmentKind expected got =>
    bindings [binding "expected" expected.name, binding "got" got.name]
  | initFragments first next => bindings [binding "first" first, binding "next" next]
  | outcomeFragments first next =>
    bindings [binding "first" (decimal first.code.toNat), binding "next" (decimal next.code.toNat)]
  | mechanismsFragments => []

end CodecFault

/-- Why a performative may not be sent, or received, now. -/
inductive OrderFault where
  | sendUnassigned
  | sendWrongRole
  | sendOutOfPhase
  | receiveUnassigned
  | receiveWrongDirection
  | receiveAfterOutcome
  | receiveOutOfSequence
  deriving DecidableEq

namespace OrderFault

def kind : OrderFault → FaultKind
  | sendUnassigned | sendWrongRole | sendOutOfPhase | receiveUnassigned => .illegalState
  | receiveWrongDirection | receiveAfterOutcome | receiveOutOfSequence => .unexpectedFrame

def message : OrderFault → Bytes
  | sendUnassigned => text "cannot send before role assignment"
  | sendWrongRole => text "role is not allowed to send this frame"
  | sendOutOfPhase => text "frame cannot be sent in this phase"
  | receiveUnassigned => text "frame received before role assignment"
  | receiveWrongDirection => text "frame received from the wrong direction"
  | receiveAfterOutcome => text "frame received after negotiation outcome"
  | receiveOutOfSequence => text "frame received out of sequence"

end OrderFault

/-- The calls that one role alone may make. -/
inductive RoleCall where
  | setHostname
  | hostname
  | declare
  deriving DecidableEq

namespace RoleCall

def name : RoleCall → Bytes
  | setHostname => text "set_remote_hostname"
  | hostname => text "hostname"
  | declare => text "done"

def role : RoleCall → Role
  | setHostname => .client
  | hostname | declare => .server

end RoleCall

/-- Calls that come at the wrong time, and performatives that do. -/
inductive SessionFault where
  | noRoleGiven
  | roleAssigned (current requested : Role)
  | mechanismsUnassigned
  | mechanismsSet (current : List Bytes)
  | noMechanisms
  | notOneMechanism (count : Nat)
  | emptyMechanism
  | duplicateMechanism (name : Bytes)
  | needsRole (call : RoleCall) (role : Option Role)
  | hostnameAfterInit (requested : Bytes)
  | sendUnassigned
  | sendBeforeMechanisms (role : Role)
  | sendAfterOutcome (role : Role) (outcome : Outcome)
  | outcomeUndecided
  | outcomeDeclared (current requested : Outcome)
  | framesUnassigned
  | noMechanismAdvertised
  | noMechanismNamed
  | challengeBeforeInit
  | challengeUnanswered
  | outcomeBeforeInit
  | duplicateInit
  | responseUnasked
  | ownFrame (role : Role) (kind : Kind)
  deriving DecidableEq

namespace SessionFault

def kind : SessionFault → FaultKind
  | noRoleGiven | noMechanisms | notOneMechanism _ | emptyMechanism | duplicateMechanism _
  | outcomeUndecided => .invalidArgument
  | roleAssigned .. | mechanismsUnassigned | mechanismsSet _ | needsRole .. | hostnameAfterInit _
  | sendUnassigned | sendBeforeMechanisms _ | sendAfterOutcome .. | outcomeDeclared ..
  | framesUnassigned => .illegalState
  | noMechanismAdvertised | noMechanismNamed => .malformedFrame
  | challengeBeforeInit | challengeUnanswered | outcomeBeforeInit | duplicateInit
  | responseUnasked => .unexpectedFrame
  | ownFrame .. => .internalError

def message : SessionFault → Bytes
  | noRoleGiven => text "cannot assign the unassigned role"
  | roleAssigned .. => text "role already assigned"
  | mechanismsUnassigned => text "set_mechanisms before role assignment"
  | mechanismsSet _ => text "mechanisms already set"
  | noMechanisms => text "mechanism list is empty"
  | notOneMechanism _ => text "client must select exactly one mechanism"
  | emptyMechanism => text "mechanism name is empty"
  | duplicateMechanism _ => text "duplicate mechanism name"
  | needsRole call _ => call.name ++ text " requires " ++ call.role.name ++ text " role"
  | hostnameAfterInit _ => text "hostname cannot change after sasl-init was sent"
  | sendUnassigned => text "send before role assignment"
  | sendBeforeMechanisms _ => text "send before mechanisms were set"
  | sendAfterOutcome .. => text "send after negotiation outcome"
  | outcomeUndecided => text "outcome must be a terminal code"
  | outcomeDeclared .. => text "outcome already declared"
  | framesUnassigned => text "frames requested before role assignment"
  | noMechanismAdvertised => text "sasl-mechanisms advertises no mechanism"
  | noMechanismNamed => text "sasl-init names no mechanism"
  | challengeBeforeInit => text "sasl-challenge before sasl-init"
  | challengeUnanswered => text "sasl-challenge while previous challenge is unanswered"
  | outcomeBeforeInit => text "sasl-outcome before sasl-init"
  | duplicateInit => text "duplicate sasl-init"
  | responseUnasked => text "sasl-response without an outstanding challenge"
  | ownFrame role _ =>
    text "unreachable: " ++ role.name ++ text " received a " ++ role.name ++ text " frame"

def context : SessionFault → Bytes
  | roleAssigned current requested =>
    bindings [binding "current" current.name, binding "requested" requested.name]
  | mechanismsSet current => binding "current" (text "[" ++ commaSeparated current ++ text "]")
  | notOneMechanism count => binding "count" (decimal count)
  | duplicateMechanism name => binding "mechanism" name
  | needsRole _ role => binding "role" (roleName role)
  | hostnameAfterInit requested => binding "requested" requested
  | sendBeforeMechanisms role => binding "role" role.name
  | sendAfterOutcome role outcome =>
    bindings [binding "role" role.name, binding "outcome" outcome.name]
  | outcomeDeclared current requested =>
    bindings [binding "current" current.name, binding "requested" requested.name]
  | challengeBeforeInit | challengeUnanswered => binding "frame" Kind.challenge.name
  | outcomeBeforeInit => binding "frame" Kind.outcome.name
  | duplicateInit => binding "frame" Kind.init.name
  | responseUnasked => binding "frame" Kind.response.name
  | ownFrame _ kind => binding "frame" kind.name
  | noRoleGiven | mechanismsUnassigned | noMechanisms | emptyMechanism | sendUnassigned
  | outcomeUndecided | framesUnassigned | noMechanismAdvertised | noMechanismNamed => []

end SessionFault

/-- The two ways bytes pass an endpoint. -/
inductive Traffic where
  | output
  | input
  deriving DecidableEq

def Traffic.name : Traffic → Bytes
  | .output => text "output"
  | .input => text "input"

/-- What goes wrong between the wire and a session. -/
inductive EndpointFault where
  | unassigned (traffic : Traffic) (endpoint : Bytes)
  | header (offset : Nat) (expected got : UInt8)
  deriving DecidableEq

namespace EndpointFault

def kind : EndpointFault → FaultKind
  | unassigned .. => .illegalState
  | header .. => .headerMismatch

def message : EndpointFault → Bytes
  | unassigned traffic _ => traffic.name ++ text " before SASL role assignment"
  | header .. => text "peer did not send the AMQP SASL protocol header"

def context : EndpointFault → Bytes
  | unassigned _ endpoint => binding "endpoint" endpoint
  | header offset expected got =>
    bindings [binding "offset" (decimal offset),
      binding "expected" (text "0x" ++ hexByteLower expected),
      binding "got" (text "0x" ++ hexByteLower got)]

end EndpointFault

inductive Fault where
  | read (fault : ReadFault)
  | frame (fault : FrameFault)
  | codec (fault : CodecFault)
  | order (fault : OrderFault) (role : Option Role) (phase : Phase) (kind : Kind)
  | session (fault : SessionFault)
  | endpoint (fault : EndpointFault)
  deriving DecidableEq

namespace Fault

def kind : Fault → FaultKind
  | read _ | frame _ => .malformedFrame
  | codec fault => fault.kind
  | order fault .. => fault.kind
  | session fault => fault.kind
  | endpoint fault => fault.kind

def message : Fault → Bytes
  | read fault => fault.message
  | frame fault => fault.message
  | codec fault => fault.message
  | order fault .. => fault.message
  | session fault => fault.message
  | endpoint fault => fault.message

def context : Fault → Bytes
  | read fault => fault.context
  | frame fault => fault.context
  | codec fault => fault.context
  | order _ role phase kind =>
    bindings [binding "role" (roleName role), binding "phase" phase.name, binding "frame" kind.name]
  | session fault => fault.context
  | endpoint fault => fault.context

end Fault

end FramedSasl
