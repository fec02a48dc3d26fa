import FramedSasl.Event

/-! Notes: what a program says on its console in the course of its work, and what its endpoints
report. A run collects them in order; they become records when it is known which journal there is
and what time it is. -/

namespace FramedSasl

inductive Note where
  | say (level : Level) (line : Bytes)
  | report (endpoint : Bytes) (event : Event)
  deriving DecidableEq

def Note.records (journal : Option Level) (stamp : Bytes) : Note → List Record
  | say level line => [.console level line]
  | report endpoint event => event.records endpoint journal stamp

end FramedSasl
