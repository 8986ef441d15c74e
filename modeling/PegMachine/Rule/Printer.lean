import PegMachine.Rule.Item

/-!
# How rules are written

A reference or terminal is written with the names of its fields, a composite as its listing between
parentheses with spaces between. Texts are quoted; a tuple of one element has a comma after it.
-/

namespace PegMachine

/-- Elements between parentheses, a single one with a comma after it. -/
def renderTuple : List String → String
  | [] => "()"
  | [element] => "(" ++ element ++ ",)"
  | elements => "(" ++ ", ".intercalate elements ++ ")"

/-- The written form of a truth value. -/
def renderBool (b : Bool) : String := if b then "True" else "False"

namespace CharClass

/-- The written form of a class. -/
def render (cls : CharClass) : String :=
  "CharClass(negated=" ++ renderBool cls.negated ++
    ", ranges=" ++ renderTuple (cls.ranges.map fun r => renderTuple [toString r.1, toString r.2]) ++
    ", singles=" ++ renderTuple (cls.singles.map (Text.quote ·.toList)) ++ ")"

end CharClass

variable [RegexLibrary]

namespace Matcher

/-- The written form of a matcher. -/
def render : Matcher → String
  | .literal s => "Literal(text=" ++ Text.quote s.toList ++ ")"
  | .regex r =>
    "Regex(pattern=" ++ Text.quote r.pattern.toList ++ ", flags=" ++ Text.quote r.flags.toList ++ ")"
  | .charClass cls => cls.render
  | .anyChar => "AnyChar()"

end Matcher

namespace Rule

mutual
/-- The written form of a rule. -/
def render : Rule → String
  | .ref name => "Reference(name=" ++ Text.quote name.toList ++ ")"
  | .terminal matcher => "Terminal(matcher=" ++ matcher.render ++ ")"
  | .seq first rest => "(" ++ first.render ++ renderRest " " rest ++ ")"
  | .choice first second rest =>
    "(" ++ first.render ++ " ALT " ++ second.render ++ renderRest " ALT " rest ++ ")"
/-- The written forms of further parts, each after `between`. -/
def renderRest (between : String) : List Rule → String
  | [] => ""
  | rule :: rest => between ++ rule.render ++ renderRest between rest
end

end Rule

/-- The written form of a plain value. -/
def Atom.render : Atom → String
  | .text s => Text.quote s.toList
  | .int n => toString n
  | .bool b => renderBool b
  | .null => "None"

namespace Item

/-- The written form of an item. -/
def render : Item → String
  | .rule r => r.render
  | .separator => "ALT"
  | .atom a => a.render

/-- The written form of a list of items that stand in one composite. -/
def renderAll (items : List Item) : String :=
  "(" ++ " ".intercalate (items.map render) ++ ")"

end Item

end PegMachine
