/-!
# Malformed patterns

The reasons for which the text of a pattern is refused, each at an offset into the pattern. The
message gives the reason and the offset, and for a pattern of several lines also line and column.
-/

namespace PegMachine.Regex

/-- Why a pattern is refused. -/
inductive Reason where
  | missingParen
  | unbalancedParen
  | nothingToRepeat
  | multipleRepeat
  | leastAboveMost
  | countTooBig
  | unterminatedSet
  | badRange
  | escapeAtEnd
  | badEscape (letter : Char)
  | incompleteEscape (written : List Char)
  | codeTooLarge (written : List Char)
  | openGroup
  | noSuchGroup
  | unknownExtension
  deriving DecidableEq, Repr

/-- The reason in words. -/
def Reason.text : Reason → String
  | .missingParen => "missing )"
  | .unbalancedParen => "unbalanced parenthesis"
  | .nothingToRepeat => "nothing to repeat"
  | .multipleRepeat => "multiple repeat"
  | .leastAboveMost => "min repeat greater than max repeat"
  | .countTooBig => "repeat count too big"
  | .unterminatedSet => "unterminated character set"
  | .badRange => "bad character range"
  | .escapeAtEnd => "bad escape (end of pattern)"
  | .badEscape letter => "bad escape \\" ++ String.singleton letter
  | .incompleteEscape written => "incomplete escape \\" ++ String.ofList written
  | .codeTooLarge written => "bad hex escape \\" ++ String.ofList written
  | .openGroup => "cannot refer to an open group"
  | .noSuchGroup => "invalid group reference"
  | .unknownExtension => "unknown extension"

/-- A reason, and the offset at which reading stopped. -/
structure PatternError where
  reason : Reason
  offset : Nat
  deriving DecidableEq, Repr

/-- The message of an error in the given pattern. -/
def PatternError.message (pattern : List Char) (error : PatternError) : String :=
  let before := pattern.take error.offset
  let place := error.reason.text ++ " at position " ++ toString error.offset
  if '\n' ∈ pattern then
    let line := before.count '\n' + 1
    let column := (before.reverse.takeWhile (· ≠ '\n')).length + 1
    place ++ " (line " ++ toString line ++ ", column " ++ toString column ++ ")"
  else place

end PegMachine.Regex
