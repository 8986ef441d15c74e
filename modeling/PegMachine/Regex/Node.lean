import PegMachine.Regex.CharTest

/-!
# Regular expressions as trees

The dialect is the Perl-style one with groups, lookaround, back references and three kinds of
repetition. Repetitions of a test of one character are kept apart from those of anything else: the
rounds of a row leave nothing behind but an offset, and it is matched by other rules than a loop.
Each of the two carries a number that no other repetition of its pattern has.
-/

namespace PegMachine.Regex

/-- Conditions on a place in the text. -/
inductive Anchor where
  | lineStart
  | lineEnd
  | textStart
  | textEnd
  | wordEdge
  | notWordEdge
  deriving DecidableEq, Repr

/-- How a repetition chooses its count: as many as possible, as few as possible, or as many as
possible without giving any back. -/
inductive Greed where
  | greedy
  | reluctant
  | possessive
  deriving DecidableEq, Repr

/-- Which way characters are consumed; a look behind consumes backward. -/
inductive Direction where
  | forward
  | backward
  deriving DecidableEq, Repr

/-- The list in the order in which its elements are met, or in which they are written: a text that is
consumed backward is met from its end. -/
def Direction.arrange {α : Type} : Direction → List α → List α
  | .forward, row => row
  | .backward, row => row.reverse

/-- A regular expression. -/
inductive Node where
  | empty
  | one (test : CharTest)
  | seq (first second : Node)
  | alt (first second : Node)
  | group (number : Nat) (body : Node)
  | backref (number : Nat)
  | look (direction : Direction) (positive : Bool) (body : Node)
  | anchor (anchor : Anchor)
  | row (number : Nat) (greed : Greed) (least : Nat) (most : Option Nat) (test : CharTest)
  | loop (number : Nat) (greed : Greed) (least : Nat) (most : Option Nat) (body : Node)
  deriving DecidableEq, Repr

namespace Node

/-- The node that matches one given character. -/
def char (c : Char) : Node := .one (.ofMember (.char c))

/-- Nodes one after the other. -/
def ofSequence : List Node → Node
  | [] => .empty
  | [node] => node
  | node :: rest => .seq node (ofSequence rest)

/-- Nodes as alternatives, the first one preferred. -/
def ofBranches : List Node → Node
  | [] => .empty
  | [node] => node
  | node :: rest => .alt node (ofBranches rest)

/-- The node repeated, under the number of the repetition. -/
def repeated (number : Nat) (greed : Greed) (least : Nat) (most : Option Nat) : Node → Node
  | .empty => .empty
  | .one test => .row number greed least most test
  | node => .loop number greed least most node

/-- The nodes that stand one after the other in the node. -/
def items : Node → List Node
  | .empty => []
  | .seq first second => first.items ++ second.items
  | node => [node]

/-- The alternatives of the node. -/
def branches : Node → List Node
  | .alt first second => first.branches ++ second.branches
  | node => [node]

/-- The number of groups that capture. -/
def groups : Node → Nat
  | .seq first second | .alt first second => first.groups + second.groups
  | .group _ body => body.groups + 1
  | .look _ _ body | .loop _ _ _ _ body => body.groups
  | _ => 0

/-- Does the node refer to a group? What a repetition with an upper bound may leave out is not
looked into. -/
def refers : Node → Bool
  | .backref _ => true
  | .seq first second | .alt first second => first.refers || second.refers
  | .group _ body | .look _ _ body => body.refers
  | .loop _ _ least most body => (0 < least || most.isNone) && body.refers
  | _ => false

/-- The node in which only the given groups capture. A repetition of nothing is nothing. -/
def capturing (numbers : List Nat) : Node → Node
  | .seq first second => .seq (first.capturing numbers) (second.capturing numbers)
  | .alt first second => .alt (first.capturing numbers) (second.capturing numbers)
  | .group number body =>
    if number ∈ numbers then .group number (body.capturing numbers) else body.capturing numbers
  | .look direction positive body => .look direction positive (body.capturing numbers)
  | .loop number greed least most body =>
    match body.capturing numbers with
    | .empty => .empty
    | body => .loop number greed least most body
  | node => node

end Node

end PegMachine.Regex
