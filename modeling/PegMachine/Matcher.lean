import PegMachine.Regex

/-!
# Matchers

A matcher says where a match that starts exactly at an offset ends, if there is one; a match may be
empty. A matcher also describes itself for failure messages: a literal by its escaped text, a
regular expression by its pattern, a class by its ranges and members between brackets. A class with
a bound that is no code point cannot be described.
-/

namespace PegMachine

/-- Why a bound of a class has no character. -/
inductive BoundError where
  | notACodePoint
  | tooLarge
  deriving DecidableEq, Repr

/-- The message of a bound without character. -/
def BoundError.message : BoundError → String
  | .notACodePoint => "chr() arg not in range(0x110000)"
  | .tooLarge => "Python int too large to convert to C int"

/-- A class of single characters: ranges of code points with both ends included, and members. A
member of another length than one matches nothing. -/
structure CharClass where
  negated : Bool
  ranges : List (Int × Int)
  singles : List String
  deriving DecidableEq

namespace CharClass

/-- Does some range or member hold the character? -/
def lists (cls : CharClass) (c : Char) : Bool :=
  cls.ranges.any (fun r => r.1 ≤ c.toNat && c.toNat ≤ r.2) || cls.singles.contains (String.singleton c)

/-- Does the class accept the character? -/
def accepts (cls : CharClass) (c : Char) : Bool := cls.lists c != cls.negated

/-- Are all bounds of the class code points? -/
def Describable (cls : CharClass) : Prop :=
  ∀ r ∈ cls.ranges, (0 ≤ r.1 ∧ r.1 < 0x110000) ∧ (0 ≤ r.2 ∧ r.2 < 0x110000)

/-- The character of a code point. A surrogate is no character of a text, and is shown as it is
quoted. -/
def boundText (n : Int) : Except BoundError String :=
  if 0 ≤ n ∧ n < 0x110000 then
    .ok (if n.toNat.isValidChar then String.singleton (Char.ofNat n.toNat)
      else String.ofList ('\\' :: 'u' :: Text.hexDigits 4 n.toNat))
  else if -0x80000000 ≤ n ∧ n < 0x80000000 then .error .notACodePoint
  else .error .tooLarge

/-- A range between its two characters. -/
def describeRange (r : Int × Int) : Except BoundError String := do
  let low ← boundText r.1
  let high ← boundText r.2
  .ok (low ++ "-" ++ high)

/-- The class between brackets, unless a bound has no character. -/
def describe (cls : CharClass) : Except BoundError String := do
  let ranges ← cls.ranges.mapM describeRange
  .ok ((if cls.negated then "[^" else "[") ++ String.join ranges ++ String.join cls.singles ++ "]")

end CharClass

variable [RegexLibrary]

/-- What consumes characters of the text. -/
inductive Matcher where
  | literal (text : String)
  | regex (regex : Regex)
  | charClass (cls : CharClass)
  | anyChar
  deriving DecidableEq

namespace Matcher

/-- Where the match that starts at an offset ends. -/
def matchEnd? (matcher : Matcher) (text : List Char) (offset : Nat) : Option Nat :=
  match matcher with
  | .literal s =>
    if offset ≤ text.length ∧ s.toList.isPrefixOf (text.drop offset) then some (offset + s.length)
    else none
  | .regex r => r.matchEnd? text offset
  | .charClass cls =>
    match text[offset]? with
    | some c => if cls.accepts c then some (offset + 1) else none
    | none => none
  | .anyChar => if offset < text.length then some (offset + 1) else none

/-- The matcher in words, unless it is a class that cannot be described. -/
def describe : Matcher → Except BoundError String
  | .literal s => .ok (Text.quoteBody s.toList)
  | .regex r => .ok r.pattern
  | .charClass cls => cls.describe
  | .anyChar => .ok "."

/-- The message for a match that was expected and failed. -/
def failureMessage (matcher : Matcher) : Except BoundError String :=
  matcher.describe.map fun description => "expected match of '" ++ description ++ "'"

end Matcher

end PegMachine
