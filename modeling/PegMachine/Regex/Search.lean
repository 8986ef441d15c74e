import PegMachine.Regex.Place
import Std.Data.HashSet

/-!
# Searches and repetitions

Running a part of a pattern at a place offers the places where the part can end, in order of
preference, to a continuation, until the continuation accepts one; a later failure thereby comes back
to whatever was chosen before.

A repetition owes its least number of rounds and makes them one by one (`repeatOwed`). After them
come the rounds that it may leave out, greedily (`repeatGreedy`) or reluctantly (`repeatReluctant`);
one of those that changes neither the offset nor what a group captured is the last, and the
repetition can only be left after it. So their number is bounded by the number of places.

A search remembers two kinds of failures.

- *Exits.* When the rest of the pattern fails after a repetition was left at some offset, then the
  repetition is not left at that offset again; only a loop that has made none of the rounds that it
  may leave out is left all the same. Captures do not count, though what follows may depend on them;
  which repetitions are watched is therefore for the pattern to say.
- *Entries.* To go on after as many rounds at an equal place, captures included, would only fail
  again. This kind changes no answer and keeps searches short.
-/

namespace PegMachine.Regex

/-! ## What a search remembers -/

/-- A repetition of the pattern: its number, and the copies of the bodies around in which it
stands, from the inside out. -/
structure Spot where
  number : Nat
  copies : List Nat
  deriving DecidableEq, Hashable

/-- The offset at which a repetition was left. -/
structure Exit where
  spot : Spot
  offset : Nat
  deriving DecidableEq, Hashable

/-- A place at which a repetition went on. A search numbers the repetitions that it begins; the stage
tells apart what lies ahead of the repetition. -/
structure Entry where
  repetition : Nat
  stage : Nat
  place : Place
  deriving DecidableEq, Hashable

/-- What a search remembers: how many repetitions it has begun, the entries that it has made, and the
exits that failed. -/
structure Memory where
  begun : Nat := 0
  entries : Std.HashSet Entry := {}
  exits : Std.HashSet Exit := {}

namespace Memory

/-- Gives the next repetition its number. -/
def begin : Memory → Nat × Memory
  | ⟨begun, entries, exits⟩ => (begun, ⟨begun + 1, entries, exits⟩)

/-- Notes an entry, and tells whether it was made before. -/
def enter : Memory → Entry → Bool × Memory
  | ⟨begun, entries, exits⟩, entry =>
    let (known, entries) := entries.containsThenInsert entry
    (known, ⟨begun, entries, exits⟩)

/-- Is it known that the exit at the place fails? -/
def knows (memory : Memory) (spot? : Option Spot) (place : Place) : Bool :=
  spot?.any fun spot => memory.exits.contains ⟨spot, place.offset⟩

/-- Notes that the exit at the place failed. -/
def note : Memory → Option Spot → Place → Memory
  | ⟨begun, entries, exits⟩, some spot, place =>
    ⟨begun, entries, exits.insert ⟨spot, place.offset⟩⟩
  | memory, none, _ => memory

end Memory

/-! ## Searches -/

/-- What a search comes to: the place where the match ends, if there is one. -/
abbrev Found := Option Place × Memory

/-- What comes after a place was reached: the rest of the pattern. -/
abbrev Rest := Place → Memory → Found

/-- A part of a pattern that can be run. -/
abbrev Runner := Place → Rest → Memory → Found

/-- The end of a pattern accepts every place. -/
def accept : Rest := fun place memory => (some place, memory)

/-- Where a part ends for the first time, in a search of its own. -/
def Runner.first? (runner : Runner) (place : Place) : Option Place := (runner place accept {}).1

/-- The part with its first end only. -/
def Runner.atomic (runner : Runner) : Runner := fun place rest memory =>
  match runner.first? place with
  | some reached => rest reached memory
  | none => (none, memory)

/-- Leaves a repetition, and notes it if the rest of the pattern fails. -/
def leave (spot? : Option Spot) (rest : Rest) : Rest := fun place memory =>
  match rest place memory with
  | (none, memory) => (none, memory.note spot? place)
  | found => found

/-! ## Rows -/

/-- Leaves a row at the first of the places, and at a nearer one if that fails. The nearest one is the
last resort and is not noted. -/
def leaveRow (spot? : Option Spot) (rest : Rest) : List Place → Memory → Found
  | [], memory => (none, memory)
  | place :: nearer, memory =>
    if memory.knows spot? place then leaveRow spot? rest nearer memory
    else
      match rest place memory with
      | (none, memory) =>
        leaveRow spot? rest nearer (if nearer.isEmpty then memory else memory.note spot? place)
      | found => found

/-- Leaves a row at once, and one character later whenever that fails. -/
def extendRow (step? : Place → Option Place) (rest : Rest) : (most : Nat) → Rest
  | 0, place, memory => rest place memory
  | most + 1, place, memory =>
    match rest place memory with
    | (none, memory) =>
      match step? place with
      | some reached => extendRow step? rest most reached memory
      | none => (none, memory)
    | found => found

/-! ## Loops -/

/-- A loop: the rounds it owes, whether it has an upper bound, where it stands in the pattern if its
exits are watched, and the number that a search gives it when it begins. -/
structure Loop where
  least : Nat
  bounded : Bool
  spot? : Option Spot
  begun : Nat := 0

namespace Loop

/-- The stage that a loop is in when it may make so many rounds yet, having made one that it may leave
out. Without an upper bound all of them are alike. -/
def stage (loop : Loop) (rounds : Nat) : Nat :=
  if loop.bounded then loop.least + 1 + rounds else loop.least + 1

/-- Makes the rounds that are owed, given those that are made. -/
def repeatOwed (loop : Loop) (round : Nat → Runner) (rest : Rest) : (owed made : Nat) → Rest
  | 0, _, place, memory => rest place memory
  | owed + 1, made, place, memory =>
    match memory.enter ⟨loop.begun, made, place⟩ with
    | (true, memory) => (none, memory)
    | (false, memory) => round made place (loop.repeatOwed round rest owed (made + 1)) memory

/-- Leaves the loop if it may be left. -/
def leaveIf (loop : Loop) (rest : Rest) (mayLeave : Bool) : Rest := fun place memory =>
  if mayLeave then leave loop.spot? rest place memory else (none, memory)

/-- Goes on after a round that led from one place to another: there may be more rounds only if it
changed something. -/
def arrive (loop : Loop) (rest : Rest) (more : (mayLeave : Bool) → Rest) (rounds : Nat)
    (place : Place) : Rest := fun reached memory =>
  let mayLeave := !memory.knows loop.spot? reached
  if reached == place then loop.leaveIf rest mayLeave reached memory
  else
    match memory.enter ⟨loop.begun, loop.stage rounds, reached⟩ with
    | (true, memory) => (none, memory)
    | (false, memory) => more mayLeave reached memory

/-- Makes as many rounds as possible before the loop is left, and fewer if that fails. -/
def repeatGreedy (loop : Loop) (round : Runner) (rest : Rest) :
    (rounds : Nat) → (mayLeave : Bool) → Rest
  | 0, mayLeave, place, memory => loop.leaveIf rest mayLeave place memory
  | rounds + 1, mayLeave, place, memory =>
    match
      round place (loop.arrive rest (loop.repeatGreedy round rest rounds) rounds place) memory
    with
    | (none, memory) => loop.leaveIf rest mayLeave place memory
    | found => found

/-- Makes as few rounds as possible before the loop is left, and more if that fails. -/
def repeatReluctant (loop : Loop) (round : Runner) (rest : Rest) :
    (rounds : Nat) → (mayLeave : Bool) → Rest
  | 0, mayLeave, place, memory => loop.leaveIf rest mayLeave place memory
  | rounds + 1, mayLeave, place, memory =>
    match loop.leaveIf rest mayLeave place memory with
    | (none, memory) =>
      round place (loop.arrive rest (loop.repeatReluctant round rest rounds) rounds place) memory
    | found => found

/-- Makes the rounds that are owed and then at most so many more. -/
def repeatBegun (loop : Loop) (greed : Greed) (owed : Nat → Runner) (more : Runner)
    (rounds : Nat) : Runner := fun place rest memory =>
  loop.repeatOwed owed (fun reached memory =>
    match memory.enter ⟨loop.begun, loop.least, reached⟩ with
    | (true, memory) => (none, memory)
    | (false, memory) =>
      match greed with
      | .reluctant => loop.repeatReluctant more rest rounds true reached memory
      | .greedy | .possessive => loop.repeatGreedy more rest rounds true reached memory)
    loop.least 0 place memory

/-- Begins the loop. -/
def run (loop : Loop) (greed : Greed) (owed : Nat → Runner) (more : Runner) (rounds : Nat) :
    Runner := fun place rest memory =>
  let (begun, memory) := memory.begin
  { loop with begun }.repeatBegun greed owed more rounds place rest memory

end Loop

end PegMachine.Regex
