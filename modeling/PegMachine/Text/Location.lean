import PegMachine.Text.Offset

/-!
# Lines, columns and carets

Only the newline ends a line. The location of an offset is the number of its line and its column,
both from one; an offset on a newline belongs to the line that the newline ends. Offsets may be any
integers: which line is meant follows the rule of `Text.clamp`, while the column is counted to the
offset as given, so that it may be zero, negative or beyond the line.
-/

namespace PegMachine.Text

/-- The characters of the line that stand before the offset. -/
def lineBefore (text : List Char) (offset : Int) : List Char :=
  ((text.take (clamp text.length offset)).reverse.takeWhile (· ≠ '\n')).reverse

/-- The characters of the line that stand at the offset and after it. -/
def lineAfter (text : List Char) (offset : Int) : List Char :=
  (text.drop (clamp text.length offset)).takeWhile (· ≠ '\n')

/-- The line that holds the offset, without the newline that ends it. -/
def lineAt (text : List Char) (offset : Int) : List Char :=
  lineBefore text offset ++ lineAfter text offset

/-- The offset at which the line that holds the offset starts. -/
def lineStart (text : List Char) (offset : Int) : Nat :=
  clamp text.length offset - (lineBefore text offset).length

/-- A place in a text, both numbers counted from one. -/
structure Location where
  line : Nat
  column : Int
  deriving Repr, DecidableEq

/-- The location of an offset: one line more than newlines before it. -/
def locate (text : List Char) (offset : Int) : Location where
  line := (text.take (clamp text.length offset)).count '\n' + 1
  column := offset - lineStart text offset + 1

/-- The line that holds the offset, and a caret under the character at the offset. -/
def caretSnippet (text : List Char) (offset : Int) : String :=
  String.ofList
    (lineAt text offset ++ '\n' :: List.replicate (offset - lineStart text offset).toNat ' ' ++ ['^'])

/-- The lines of a text, without the newlines between them; there is always one more line than
newlines. -/
def lines : List Char → List (List Char)
  | [] => [[]]
  | c :: rest =>
    if c = '\n' then [] :: lines rest
    else match lines rest with
      | [] => [[c]]
      | line :: others => (c :: line) :: others

end PegMachine.Text
