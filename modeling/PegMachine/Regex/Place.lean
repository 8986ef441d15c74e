import PegMachine.Regex.Node

/-!
# Places in a text

A place is an offset into the text together with what each group captured last. Nodes move places
forward or, in a look behind, backward; captured texts are kept as spans, and are met in the running
direction when a back reference asks for them.
-/

namespace PegMachine.Regex

/-- The offsets between which a captured text stands. -/
structure Span where
  start : Nat
  stop : Nat
  deriving DecidableEq, Repr, Hashable

/-- An offset, with what each group captured last in the order of the groups' numbers. -/
structure Place where
  offset : Nat
  captures : List (Nat × Span) := []
  deriving DecidableEq, Repr, Hashable

/-- The character that stands before an offset. -/
def before? (text : Array Char) (offset : Nat) : Option Char :=
  if offset = 0 then none else text[offset - 1]?

/-- Puts what a group captured in its place among the captures. -/
def putCapture (number : Nat) (span : Span) : List (Nat × Span) → List (Nat × Span)
  | [] => [(number, span)]
  | (n, s) :: rest =>
    if number < n then (number, span) :: (n, s) :: rest
    else if number = n then (number, span) :: rest
    else (n, s) :: putCapture number span rest

namespace Place

/-- The number of characters left in a direction. -/
def left (text : Array Char) (place : Place) : Direction → Nat
  | .forward => text.size - place.offset
  | .backward => place.offset

/-- The next character in a direction, and the place beyond it. -/
def next? (text : Array Char) (place : Place) : Direction → Option (Char × Place)
  | .forward => text[place.offset]?.map fun c => (c, { place with offset := place.offset + 1 })
  | .backward =>
    (before? text place.offset).map fun c => (c, { place with offset := place.offset - 1 })

/-- The place beyond the next character, if that passes a test. -/
def pass? (text : Array Char) (test : Char → Bool) (direction : Direction) (place : Place) :
    Option Place :=
  match place.next? text direction with
  | some (c, reached) => if test c then some reached else none
  | none => none

/-- The place beyond so many characters that pass a test. -/
def passAll? (text : Array Char) (test : Char → Bool) (direction : Direction) :
    (count : Nat) → Place → Option Place
  | 0, place => some place
  | count + 1, place =>
    match place.pass? text test direction with
    | some reached => passAll? text test direction count reached
    | none => none

/-- The places beyond none, one, two and more characters that pass a test, at most so many, before
those given; the furthest comes first. -/
def passed (text : Array Char) (test : Char → Bool) (direction : Direction) :
    (most : Nat) → Place → (nearer : List Place) → List Place
  | 0, place, nearer => place :: nearer
  | most + 1, place, nearer =>
    match place.pass? text test direction with
    | some reached => passed text test direction most reached (place :: nearer)
    | none => place :: nearer

/-- Notes that a group captured what stands between two places. -/
def capture (start stop : Place) (number : Nat) : Place :=
  let span := ⟨min start.offset stop.offset, max start.offset stop.offset⟩
  { stop with captures := putCapture number span stop.captures }

/-- The place beyond the given characters, each equal to the next character up to `same`. -/
def skip? (text : Array Char) (same : Char → Char → Bool) (direction : Direction) :
    List Char → Place → Option Place
  | [], place => some place
  | c :: rest, place =>
    match place.pass? text (same c) direction with
    | some reached => skip? text same direction rest reached
    | none => none

/-- The text that a group captured last, in the order in which it is met in a direction. -/
def captured? (text : Array Char) (place : Place) (number : Nat) (direction : Direction) :
    Option (List Char) :=
  (place.captures.lookup number).map fun span =>
    direction.arrange (text.extract span.start span.stop).toList

end Place

/-- Is the character, if there is one, a word character? -/
def isWordAt (flags : Flags) (c? : Option Char) : Bool := c?.any (CharKind.word.holds flags)

/-- Is the anchor's condition met at the offset? -/
def Anchor.holds (flags : Flags) (text : Array Char) (offset : Nat) : Anchor → Bool
  | .textStart => offset == 0
  | .textEnd => offset == text.size
  | .lineStart => offset == 0 || (flags.multiline && before? text offset == some '\n')
  | .lineEnd =>
    offset == text.size || (offset + 1 == text.size && text[offset]? == some '\n') ||
      (flags.multiline && text[offset]? == some '\n')
  | .wordEdge => isWordAt flags (before? text offset) != isWordAt flags text[offset]?
  | .notWordEdge => isWordAt flags (before? text offset) == isWordAt flags text[offset]?

end PegMachine.Regex
