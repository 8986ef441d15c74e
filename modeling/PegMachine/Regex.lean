import PegMachine.RegexLibrary
import PegMachine.Text.Quoted

/-!
# Checked regular expressions

A `Regex` is a pattern and its flag letters, together with what the library makes of them. Only
patterns that the library compiles have one, so two of them are equal exactly when pattern and
letters are.
-/

namespace PegMachine

/-- Why a pattern with flag letters is refused. Letters are looked at before the pattern; what is
wrong with the pattern is said by the library. -/
inductive RegexError where
  | unknownFlag (flag : Char) (pattern flags : String)
  | malformed (pattern reason : String)
  deriving DecidableEq

/-- The message of a refused pattern. -/
def RegexError.message : RegexError → String
  | .unknownFlag flag pattern flags =>
    "PEG: unknown regex flag " ++ Text.quote [flag] ++ " in /" ++ pattern ++ "/" ++ flags
  | .malformed pattern reason => "PEG: invalid regex /" ++ pattern ++ "/: " ++ reason

variable [RegexLibrary]

/-- Compiles a pattern under its flag letters. -/
def compileRegex (pattern flags : String) : Except RegexError RegexLibrary.Compiled :=
  match Regex.Flags.read {} flags.toList with
  | .error flag => .error (.unknownFlag flag pattern flags)
  | .ok switched =>
    match RegexLibrary.compile switched pattern with
    | .error reason => .error (.malformed pattern reason)
    | .ok compiled => .ok compiled

/-- A pattern and flag letters that the library compiles. -/
structure Regex where
  pattern : String
  flags : String
  compiled : RegexLibrary.Compiled
  compiled_eq : compileRegex pattern flags = .ok compiled

namespace Regex

/-- Pattern and flag letters determine a regular expression. -/
theorem ext_source {r s : Regex} (hp : r.pattern = s.pattern) (hf : r.flags = s.flags) : r = s := by
  obtain ⟨p, f, c, hc⟩ := r
  obtain ⟨p', f', c', hc'⟩ := s
  simp only at hp hf
  subst hp hf
  obtain rfl : c = c' := Except.ok.inj (hc.symm.trans hc')
  rfl

instance : DecidableEq Regex := fun r s =>
  if h : r.pattern = s.pattern ∧ r.flags = s.flags then isTrue (ext_source h.1 h.2)
  else isFalse fun hrs => h ⟨hrs ▸ rfl, hrs ▸ rfl⟩

/-- Makes a regular expression of a pattern and flag letters. -/
def make (pattern flags : String) : Except RegexError Regex :=
  match h : compileRegex pattern flags with
  | .ok compiled => .ok ⟨pattern, flags, compiled, h⟩
  | .error error => .error error

/-- The end of the match that starts at an offset. -/
def matchEnd? (regex : Regex) (text : List Char) (offset : Nat) : Option Nat :=
  RegexLibrary.matchEnd? regex.compiled text offset

end Regex

end PegMachine
