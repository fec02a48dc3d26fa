import FramedSasl.MechanismList
import FramedSasl.Note
import FramedSasl.Scenario
import FramedSasl.Scenario.Tree

/-! Scenarios from documents. A section that is no map counts as empty and a value of the wrong
kind as not given, but an outcome that has no meaning, mechanisms that cannot be offered and a
challenge that nobody answers are refused. How a scalar is read as a number of 32 bits is up to the
reader of the documents, `word?`. -/

namespace FramedSasl

/-- What was found at a path. -/
inductive Document where
  | missing (reason : Bytes)
  | unopened (file what : Bytes)
  | malformed (file : Bytes) (line column : Nat) (what : Bytes)
  | unreadable (file what : Bytes)
  | loaded (file : Bytes) (root : Tree)

inductive ScenarioFault where
  | missing (path reason : Bytes)
  | unopened (file what : Bytes)
  /-- Line and column are counted from zero. -/
  | malformed (file : Bytes) (line column : Nat) (what : Bytes)
  | unreadable (file what : Bytes)
  | notAMap (file : Bytes)
  | unknownOutcome (name : Bytes)
  | limitTooSmall (limit minimum : Nat)
  | noMechanisms
  | emptyMechanism
  | duplicateMechanism (name : Bytes)
  | noClientMechanism
  | challengeUnanswered
  deriving DecidableEq

namespace ScenarioFault

def quoted (bytes : Bytes) : Bytes := text "'" ++ bytes ++ text "'"

def reason : ScenarioFault → Bytes
  | missing path reason =>
    text "cannot resolve config path " ++ quoted path ++ text ": " ++ reason
  | unopened file what => text "cannot open file " ++ quoted file ++ text ": " ++ what
  | malformed file line column what =>
    text "YAML parse error in " ++ quoted file ++ text " at line " ++ decimal (line + 1) ++
      text ", col " ++ decimal (column + 1) ++ text ": " ++ what
  | unreadable file what => text "YAML error in " ++ quoted file ++ text ": " ++ what
  | notAMap file => quoted file ++ text " is not a valid YAML map (top-level)"
  | unknownOutcome name =>
    text "server.outcome " ++ quoted name ++ text " is not one of ok|auth|sys|sys-perm|sys-temp"
  | limitTooSmall limit minimum =>
    text "transport.max_frame_size " ++ decimal limit ++ text " is below the AMQP minimum " ++
      decimal minimum
  | noMechanisms => text "server.mechanisms must list at least one mechanism"
  | emptyMechanism => text "server.mechanisms has an empty name"
  | duplicateMechanism name => text "server.mechanisms lists " ++ quoted name ++ text " twice"
  | noClientMechanism => text "client.mechanism must be set"
  | challengeUnanswered => text "server.challenge requires client.response"

def message (fault : ScenarioFault) : Bytes := text "config_loader: " ++ fault.reason

end ScenarioFault

/-- Loading makes notes on the way. -/
abbrev Loading := ExceptT ScenarioFault (StateM (List Note))

namespace Scenario

open FramedSasl.Tree (text? texts)

variable (word? : Bytes → Option UInt32)

def note (level : Level) (line : Bytes) : Loading Unit :=
  modify (· ++ [.say level (text "config_loader: " ++ line)])

/-- The frame limit of a node. A scalar that is no number of 32 bits is passed over with a
warning, any other node without one. -/
def readLimit (node : Option Tree) (fallback : Nat) : Loading Nat := do
  match text? node with
  | none => return fallback
  | some bytes =>
    match word? bytes with
    | some limit => return limit.toNat
    | none =>
      note .warn (ScenarioFault.quoted bytes ++
        text " is not an unsigned integer, using default " ++ decimal fallback)
      return fallback

def readClient (node : Tree) : ClientPlan where
  mechanism := (text? (node.get? "mechanism")).getD []
  hostname := text? (node.get? "hostname")
  initialResponse := text? (node.get? "initial_response")
  response := text? (node.get? "response")

/-- A section that is no map leaves the outcome at its default, as does an outcome that is no
scalar. -/
def readServer (node : Tree) : Except ScenarioFault ServerPlan :=
  let name := (text? (node.get? "outcome")).getD Outcome.ok.name
  match Outcome.ofName? name with
  | none => .error (.unknownOutcome name)
  | some outcome => .ok
    { mechanisms := texts (node.get? "mechanisms")
      challenge := text? (node.get? "challenge")
      outcome
      additionalData := text? (node.get? "additional_data") }

/-- The scenario that a document describes, not checked yet. -/
def read (root : Tree) : Loading Scenario := do
  let part (key : String) : Tree := (root.get? key).getD .null
  let fresh : Scenario := {}
  let frameLimit ← readLimit word? ((part "transport").get? "max_frame_size") fresh.frameLimit
  let server ← ofExcept (readServer (part "server"))
  return {
    logLevel := (text? ((part "global").get? "log_level")).getD fresh.logLevel
    logPath := (text? ((part "global").get? "log_path")).getD fresh.logPath
    frameLimit, server, client := readClient (part "client") }

/-- The mechanisms can be offered. -/
def checkMechanisms (names : List Bytes) : Except ScenarioFault Unit :=
  if names = [] then .error .noMechanisms
  else match nameFlaw? names with
    | some .empty => .error .emptyMechanism
    | some (.duplicate name) => .error (.duplicateMechanism name)
    | none => .ok ()

/-- The scenario can be run. A server takes whatever mechanism the client chose, so that one that
it does not offer is worth no more than a warning. -/
def check (s : Scenario) : Loading Unit := do
  if s.frameLimit < minimumLimit then throw (.limitTooSmall s.frameLimit minimumLimit)
  ofExcept (checkMechanisms s.server.mechanisms)
  if s.client.mechanism = [] then throw .noClientMechanism
  if !s.server.mechanisms.contains s.client.mechanism then
    note .warn (text "client.mechanism " ++ ScenarioFault.quoted s.client.mechanism ++
      text " is not advertised by the server")
  if s.server.challenge.isSome ∧ s.client.response = none then throw .challengeUnanswered

/-- The scenario at `path`, checked. -/
def ofDocument (path : Bytes) (document : Document) : Loading Scenario := do
  let opening (file : Bytes) : Loading Unit :=
    note .info (text "loading scenario from " ++ ScenarioFault.quoted file)
  match document with
  | .missing reason => throw (.missing path reason)
  | .unopened file what => opening file; throw (.unopened file what)
  | .malformed file line column what => opening file; throw (.malformed file line column what)
  | .unreadable file what => opening file; throw (.unreadable file what)
  | .loaded file root =>
    opening file
    match root with
    | .map _ =>
      let s ← read word? root
      check s
      note .info (text "scenario loaded: " ++ bindings
        [binding "mechanisms" (decimal s.server.mechanisms.length),
          binding "client_mechanism" s.client.mechanism,
          binding "max_frame_size" (decimal s.frameLimit),
          binding "outcome" s.server.outcome.name])
      return s
    | _ => throw (.notAMap file)

/-- The scenario at `path` or why there is none, with the notes made; a fault is the last. -/
def load (path : Bytes) (document : Document) : Except ScenarioFault Scenario × List Note :=
  match (ofDocument word? path document).run [] with
  | (.ok s, notes) => (.ok s, notes)
  | (.error fault, notes) => (.error fault, notes ++ [.say .error fault.message])

end Scenario

end FramedSasl
