import PegMachine.StringSet
import PegMachine.Text.Quoted

/-!
# The furthest failures

Of all failures of a run only those at the greatest offset are kept: a failure further on replaces
what was kept, one at the same offset adds its message, one further back is ignored. An empty record
has offset -1. Offsets are integers, because failures may be recorded from outside a run.
-/

namespace PegMachine

/-- The messages recorded at the greatest offset so far. -/
structure FurthestFailures where
  offset : Int := -1
  messages : StringSet := .empty
  deriving DecidableEq

namespace FurthestFailures

/-- The record of no failure. -/
def empty : FurthestFailures := {}

/-- Takes one failure into account. -/
def record (failures : FurthestFailures) (offset : Int) (message : String) : FurthestFailures :=
  if offset < failures.offset then failures
  else if failures.offset < offset then ⟨offset, StringSet.empty.insert message⟩
  else { failures with messages := failures.messages.insert message }

/-- Is any message kept? -/
def isNonempty (failures : FurthestFailures) : Bool := !failures.messages.toList.isEmpty

/-- The kept messages as a list of quoted texts, and their offset after an at sign. -/
def summary (failures : FurthestFailures) : String :=
  Text.quoteList failures.messages.toList ++ "@" ++ toString failures.offset

/-- The record in words. -/
def render (failures : FurthestFailures) : String :=
  "FurthestFailure(" ++ failures.summary ++ ")"

end FurthestFailures

end PegMachine
