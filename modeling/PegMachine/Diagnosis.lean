import PegMachine.StringSet
import PegMachine.Text.Location

/-!
# Diagnoses

A diagnosis tells where a parse failed and what was expected there: a header with the location, the
offset and the expected messages in ascending order, each once, then the line and a caret under it.
An offset at the end of the text or beyond is called the end of the file.
-/

namespace PegMachine

/-- Where the offset is: line and column, or the end of the file. -/
def renderPlace (text : List Char) (offset : Int) : String :=
  if (text.length : Int) ≤ offset then "EOF"
  else
    let location := Text.locate text offset
    toString location.line ++ ":" ++ toString location.column

/-- The diagnosis of a failure at an offset. -/
def diagnose (text : List Char) (offset : Int) (expected : List String) : String :=
  "Parse error at " ++ renderPlace text offset ++ " (offset " ++ toString offset ++
    "): expected one of \x7b" ++ ", ".intercalate (StringSet.ofList expected).toList ++ "\x7d\n" ++
    Text.caretSnippet text offset

/-- A failed parse: its diagnosis, and offset and expected messages in ascending order. -/
structure ParseError where
  message : String
  offset : Int
  expected : List String
  deriving DecidableEq

/-- A parse error with its expected messages put in order; repeated ones are kept. -/
def ParseError.of (message : String) (offset : Int) (expected : List String) : ParseError where
  message
  offset
  expected := expected.mergeSort (· ≤ ·)

end PegMachine
