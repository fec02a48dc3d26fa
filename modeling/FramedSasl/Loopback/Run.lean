import FramedSasl.Loopback
import FramedSasl.Loopback.Settings
import FramedSasl.Scenario.Load

/-! A whole run: the scenario is loaded and changed by the settings, the journal is opened, the
negotiation runs, and its outcome becomes the exit code. -/

namespace FramedSasl.Run

inductive Exit where
  /-- The outcome was `ok`. -/
  | accepted
  /-- There was another outcome. -/
  | refused
  /-- There was none. -/
  | failed
  deriving DecidableEq, Repr

def Exit.code : Exit → Nat
  | accepted => 0
  | refused => 1
  | failed => 2

variable (word? : Bytes → Option UInt32)

/-- The scenario to run, if it can be loaded. -/
def prepare (settings : Settings) (document : Document) : Option Scenario × List Note :=
  match Scenario.load word? settings.path document with
  | (.error fault, notes) =>
    (none, notes ++ [.say .error (text "Failed to load SASL scenario: " ++ fault.message)])
  | (.ok loaded, notes) =>
    let (scenario, more) := settings.override loaded
    (some scenario, notes ++ more)

def opening (s : Scenario) : List Note :=
  [.say .info (text "Starting SASL loopback negotiation"),
    .say .info (text "Max frame size: " ++ decimal s.frameLimit),
    .say .info (text "Log level: " ++ s.logLevel)]

def exitOf (outcome : Outcome) : Exit := if outcome = .ok then .accepted else .refused

/-- Runs the negotiation of a scenario. -/
def perform (s : Scenario) : Exit × List Note :=
  match (Pair.negotiate s).on {} with
  | (.ok outcome, pair) =>
    (exitOf outcome, opening s ++ pair.notes ++
      [.say .info (text "SASL negotiation finished with outcome '" ++ outcome.name ++ text "'")])
  | (.error fault, pair) =>
    (.failed, opening s ++ pair.notes ++
      [.say .error (text "SASL negotiation aborted: [" ++ fault.kind.name ++ text "] " ++
        fault.message ++ text " (" ++ fault.context ++ text ")")])

/-- The least level of the console: debug lines are shown if the journal has them. -/
def consoleLevel (journal : Level) : Level := if journal = .debug then .debug else .info

def records (console : Level) (journal : Option Level) (stamp : Bytes) (notes : List Note) :
    List Record :=
  (notes.flatMap (Note.records journal stamp)).filter (Record.passes console)

/-- A run at the time `stamp`. `journalFault` says why a journal cannot be opened at a path. -/
def run (settings : Settings) (document : Document) (journalFault : Bytes → Option Bytes)
    (stamp : Bytes) : Exit × List Record :=
  match prepare word? settings document with
  | (none, notes) => (.failed, records .info none stamp notes)
  | (some scenario, notes) =>
    let journal := Level.ofName scenario.logLevel
    let before := records .info none stamp notes
    match journalFault scenario.logPath with
    | some reason =>
      (.failed, before ++ records .info none stamp
        [.say .error (text "Logger initialization failed: " ++ reason)])
    | none =>
      let (exit, more) := perform scenario
      (exit, before ++ records (consoleLevel journal) (some journal) stamp more)

end FramedSasl.Run
