import FramedSasl.Journal.Timestamp
import FramedSasl.Loopback.Run
import FramedSasl.Scenario.Yaml
import Std.Time.DateTime.Timestamp

/-! The command line: reads the environment and the scenario file, opens the journal, prints the
records of the run and ends with its exit code. -/

namespace FramedSasl.CommandLine

def environment (name : String) : IO (Option Bytes) := return (← IO.getEnv name).map text

def stringOf (bytes : Bytes) : String := (String.fromUTF8? ⟨bytes.toArray⟩).getD ""

def reasonOf (e : IO.Error) : Bytes :=
  match e with
  | .noFileOrDirectory .. => text "No such file or directory"
  | e => text e.toString

def documentAt (path : Bytes) : IO Document := do
  match ← (IO.FS.realPath (stringOf path)).toBaseIO with
  | .error e => return .missing (reasonOf e)
  | .ok file =>
    let name := text file.toString
    match ← (IO.FS.readFile file).toBaseIO with
    | .error e => return .unopened name (reasonOf e)
    | .ok source =>
      match Yaml.parse source with
      | .ok tree => return .loaded name tree
      | .error refusal => return .malformed name refusal.line refusal.column refusal.what

/-- Opens the journal for writing at its end, in a directory that is made if need be. -/
def openJournal (path : String) : IO IO.FS.Handle := do
  let directory := String.intercalate "/" (path.splitOn "/").dropLast
  if directory ≠ "" then IO.FS.createDirAll directory
  IO.FS.Handle.mk path .append

def lineOf (time : Bytes) (record : Record) : ByteArray :=
  ⟨(record.printed time ++ [10]).toArray⟩

/-- Runs the scenario that the argument or the environment names. -/
def run (argument : Option String) : IO Run.Exit := do
  let settings : Settings := {
    argument := argument.map text
    configPath := ← environment "SASL_CONFIG_PATH"
    logLevel := ← environment "LOG_LEVEL"
    logPath := ← environment "LOG_PATH"
    frameLimit := ← environment "SASL_MAX_FRAME_SIZE" }
  let document ← documentAt settings.path
  let journal ← match (Run.prepare Yaml.word? settings document).1 with
    | none => pure none
    | some scenario => some <$> (openJournal (stringOf scenario.logPath)).toBaseIO
  let fault : Option Bytes := match journal with
    | some (.error e) => some (reasonOf e)
    | _ => none
  let now ← Std.Time.Timestamp.now
  let stamp := timestamp now.toNanosecondsSinceUnixEpoch.toInt
  let (exit, records) := Run.run Yaml.word? settings document (fun _ => fault) stamp
  let out ← IO.getStdout
  for record in records do
    let line := lineOf (readableTime stamp) record
    out.write line
    match record.channel, journal with
    | .journal, some (.ok handle) => handle.write line
    | _, _ => pure ()
  return exit

end FramedSasl.CommandLine

def main (args : List String) : IO UInt32 :=
  return UInt32.ofNat (← FramedSasl.CommandLine.run args.head?).code
