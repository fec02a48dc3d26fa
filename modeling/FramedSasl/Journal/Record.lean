import FramedSasl.Journal.Entry

/-! Log records. The console log has lines for people, the journal has entries for programs; each
has a least level of its own. -/

namespace FramedSasl

inductive Channel where
  | console
  | journal
  deriving DecidableEq, Repr

structure Record where
  channel : Channel
  level : Level
  line : Bytes
  deriving DecidableEq

namespace Record

def console (level : Level) (line : Bytes) : Record := ⟨.console, level, line⟩

/-- A line of the journal, which starts at `least`. -/
def journal (least level : Level) (line : Bytes) : List Record :=
  if least.admits level then [⟨.journal, level, line⟩] else []

def ofEntry (least : Level) (stamp : Bytes) (e : Entry) : List Record :=
  journal least e.level (e.line stamp)

/-- The record passes the console's least level; the journal has been filtered before. -/
def passes (least : Level) (r : Record) : Bool :=
  match r.channel with
  | .console => least.admits r.level
  | .journal => true

/-- The record as a log shows it: behind its time and, on the console, its level. -/
def printed (time : Bytes) (r : Record) : Bytes :=
  let level := if r.level = .warn then text "warning" else r.level.name
  let shown := if r.channel = .console then text "[" ++ level ++ text "] " else []
  text "[" ++ time ++ text "] " ++ shown ++ r.line

end Record

end FramedSasl
