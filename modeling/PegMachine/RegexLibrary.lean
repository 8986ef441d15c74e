import PegMachine.Regex.Flags

/-!
# The library of regular expressions

Regular expressions are compiled and matched by a library. Nothing here depends on which patterns it
takes and what it finds for them; all that is relied on is that a match that starts inside the text
ends there too, at or after its start.
-/

namespace PegMachine

/-- A library of regular expressions. -/
class RegexLibrary where
  /-- What the library keeps of a pattern that it has compiled. -/
  Compiled : Type
  /-- Compiles a pattern under flags, or says why it cannot. -/
  compile : Regex.Flags → (pattern : String) → Except String Compiled
  /-- Where the match that starts exactly at an offset ends, if there is one. -/
  matchEnd? : Compiled → (text : List Char) → (offset : Nat) → Option Nat
  /-- A match that starts inside the text ends at or after its start and inside the text. -/
  matchEnd?_bounds : ∀ {compiled : Compiled} {text : List Char} {offset stop : Nat},
    offset ≤ text.length → matchEnd? compiled text offset = some stop →
      offset ≤ stop ∧ stop ≤ text.length

end PegMachine
