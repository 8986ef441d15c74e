/-!
# Flags of regular expressions

A regular expression is written with flag letters. Each letter switches one thing on, in any order
and any number of times, and no other letter may be written.
-/

namespace PegMachine.Regex

/-- What the flag letters `i`, `m`, `s`, `x`, `A` switch on. -/
structure Flags where
  ignoreCase : Bool := false
  multiline : Bool := false
  dotAll : Bool := false
  freeLayout : Bool := false
  ascii : Bool := false
  deriving DecidableEq, Repr

namespace Flags

/-- The flags with one more letter switched on, if there is such a letter. -/
def switchOn (flags : Flags) : Char → Option Flags
  | 'i' => some { flags with ignoreCase := true }
  | 'm' => some { flags with multiline := true }
  | 's' => some { flags with dotAll := true }
  | 'x' => some { flags with freeLayout := true }
  | 'A' => some { flags with ascii := true }
  | _ => none

/-- Reads flag letters in order; the first letter that is none is the error. -/
def read (flags : Flags) : List Char → Except Char Flags
  | [] => .ok flags
  | c :: rest =>
    match flags.switchOn c with
    | some flags => flags.read rest
    | none => .error c

end Flags

end PegMachine.Regex
