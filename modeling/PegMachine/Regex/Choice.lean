import PegMachine.Regex.Node

/-!
# Alternatives

A choice between branches is put into a simpler form when it is read. The items with which all
branches begin, in the order in which they are met, are matched once before the choice
(`sharedCount`), and neighbouring branches that test one character become one test (`joinTests`).
Neither changes which texts match, pooled complements apart; but a choice that has become a test is
repeated as a row.
-/

namespace PegMachine.Regex

namespace Node

/-- May the node be matched once for several branches? It is one test or condition, or made of such
without a sequence in it. -/
def isShareable : Node → Bool
  | .one _ | .anchor _ => true
  | .alt first second => first.isShareable && second.isShareable
  | .look _ _ body => body.isShareable
  | _ => false

/-- The set that a branch may bring into a union. A range by itself is never joined. -/
def joinable? : Node → Option CharSet
  | .one (.oneOf set) => if set.isRange then none else some set
  | _ => none

/-- May two neighbouring branches become one test? A kind does not know of case: where case is
ignored, it is not joined with what does. -/
def joins (flags : Flags) (first second : Node) : Bool :=
  match first.joinable?, second.joinable? with
  | some set, some other => !flags.ignoreCase || set.isKind == other.isKind
  | _, _ => false

/-- Replaces each run of neighbours that may be joined by one test. -/
def joinTests (flags : Flags) (branches : List Node) : List Node :=
  (branches.splitBy (joins flags)).flatMap fun run =>
    match run.filterMap joinable? with
    | [] => run
    | sets => [.one (.ofUnion sets)]

/-- How many leading items a list has in common with all others. -/
def sharedCount : List Node → (others : List (List Node)) → Nat
  | [], _ => 0
  | item :: rest, others =>
    if item.isShareable && others.all (·.head? == some item) then
      sharedCount rest (others.map List.tail) + 1
    else 0

/-- The choice between several branches, the first one preferred. A branch that is a choice itself
gives its alternatives. -/
def choice (flags : Flags) (direction : Direction) (branches : List Node) : Node :=
  match (branches.flatMap Node.branches).map fun branch => direction.arrange branch.items with
  | [] => .empty
  | first :: others =>
    let shared := sharedCount first others
    let rest := (first :: others).map fun items =>
      ofSequence (direction.arrange (items.drop shared))
    .ofSequence (direction.arrange (first.take shared ++ [.ofBranches (joinTests flags rest)]))

end Node

end PegMachine.Regex
