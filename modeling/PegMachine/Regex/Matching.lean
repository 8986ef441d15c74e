import PegMachine.Regex.Reader
import PegMachine.Regex.Search

/-!
# Matching

Running a node is defined along the tree. A node is run in a setting, from which a repetition learns
whether its exits are watched: they are not where a group may be referred to before the nearest
repetition around it comes to the end of its round, nor in rounds that a repetition with an upper
bound may leave out. The rounds that a loop owes are copies of its body, and a repetition in the
body is another one in each of them.

What is looked for ahead or behind, and what gives nothing back, is a search of its own.
-/

namespace PegMachine.Regex

/-- What a node knows of the pattern around it: the nodes that follow before the nearest repetition
around ends its round, whether it stands in rounds that a repetition with an upper bound may leave
out, and which copies of the bodies around it stands in. -/
structure Setting where
  ahead : List Node := []
  bounded : Bool := false
  copies : List Nat := []

namespace Setting

/-- The setting of a node before which another one follows. -/
def before (setting : Setting) (next : Node) : Setting :=
  { setting with ahead := next :: setting.ahead }

/-- The setting of what is searched for by itself. -/
def alone (setting : Setting) : Setting := { setting with ahead := [] }

/-- The setting of the body in a round that is owed. What is left of the loop follows. -/
def inOwed (setting : Setting) (left : Node) (made : Nat) : Setting :=
  { setting.before left with copies := made :: setting.copies }

/-- The setting of the body in the rounds that may be left out, after those owed. -/
def inMore (setting : Setting) (owed : Nat) (bounded : Bool) : Setting where
  bounded := setting.bounded || bounded
  copies := owed :: setting.copies

/-- Where a repetition stands in the pattern, if its exits are watched. -/
def spot? (setting : Setting) (number : Nat) : Option Spot :=
  if setting.bounded || setting.ahead.any Node.refers then none else some ⟨number, setting.copies⟩

end Setting

/-- How many rounds a loop makes at most beyond those owed. Without an upper bound no place needs to be
come to a second time, and for each group a place has one of the spans in the text or none. -/
def roundsBound (least : Nat) (most : Option Nat) (groups size : Nat) : Nat :=
  match most with
  | some most => most - least
  | none => (size + 1) * ((size + 2) * (size + 2)).pow groups

/-- Runs a node at a place and goes on with the rest of the pattern wherever the node can end. -/
def Node.run (flags : Flags) (text : Array Char) : Node → Direction → Setting → Runner
  | .empty, _, _, place, rest, memory => rest place memory
  | .one test, direction, _, place, rest, memory =>
    match place.pass? text (test.accepts flags) direction with
    | some reached => rest reached memory
    | none => (none, memory)
  | .seq first second, .forward, setting, place, rest, memory =>
    first.run flags text .forward (setting.before second) place
      (fun reached memory => second.run flags text .forward setting reached rest memory) memory
  | .seq first second, .backward, setting, place, rest, memory =>
    second.run flags text .backward (setting.before first) place
      (fun reached memory => first.run flags text .backward setting reached rest memory) memory
  | .alt first second, direction, setting, place, rest, memory =>
    match first.run flags text direction setting place rest memory with
    | (none, memory) => second.run flags text direction setting place rest memory
    | found => found
  | .group number body, direction, setting, place, rest, memory =>
    body.run flags text direction setting place
      (fun reached memory => rest (place.capture reached number) memory) memory
  | .backref number, direction, _, place, rest, memory =>
    match place.captured? text number direction with
    | none => (none, memory)
    | some captured =>
      match place.skip? text flags.same direction captured with
      | some reached => rest reached memory
      | none => (none, memory)
  | .look direction positive body, _, setting, place, rest, memory =>
    match Runner.first? (body.run flags text direction setting.alone) place, positive with
    | some reached, true => rest { place with captures := reached.captures } memory
    | none, false => rest place memory
    | _, _ => (none, memory)
  | .anchor condition, _, _, place, rest, memory =>
    if condition.holds flags text place.offset then rest place memory else (none, memory)
  | .row number greed least most test, direction, setting, place, rest, memory =>
    match place.passAll? text (test.accepts flags) direction least with
    | none => (none, memory)
    | some nearest =>
      let left := nearest.left text direction
      let most := most.elim left fun most => min left (most - least)
      match greed with
      | .greedy =>
        leaveRow (setting.spot? number) rest
          (nearest.passed text (test.accepts flags) direction most []) memory
      | .reluctant => extendRow (·.pass? text (test.accepts flags) direction) rest most nearest memory
      | .possessive =>
        leaveRow none rest ((nearest.passed text (test.accepts flags) direction most []).take 1)
          memory
  | .loop number greed least most body, direction, setting, place, rest, memory =>
    let setting := if greed = .possessive then setting.alone else setting
    let rounds := roundsBound least most body.groups text.size
    let owed := fun made =>
      let left := least - made - 1
      body.run flags text direction
        (setting.inOwed (.loop number greed left (most.map fun most => most - made - 1) body) made)
    let more := body.run flags text direction (setting.inMore least most.isSome)
    let loop : Loop := { least, bounded := most.isSome, spot? := setting.spot? number }
    let runner := loop.run greed owed more rounds
    match greed with
    | .possessive => Runner.atomic runner place rest memory
    | .greedy | .reluctant => runner place rest memory

/-- The offset where the match that starts at an offset ends, if there is one. An offset beyond the
text counts as its end. -/
def Pattern.matchEnd? (pattern : Pattern) (text : List Char) (offset : Nat) : Option Nat :=
  let start : Place := { offset := min offset text.length }
  let runner : Runner := pattern.root.run pattern.flags text.toArray .forward {}
  (runner.first? start).map Place.offset

end PegMachine.Regex
