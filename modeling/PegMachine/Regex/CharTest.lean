import PegMachine.Regex.Flags
import PegMachine.Text.Blank
import PegMachine.Text.CaseFolding
import PegMachine.Text.Digit
import PegMachine.Text.Word

/-!
# Tests of one character

Whatever a pattern says of a single character is a test: a dot, or a set. A set says nothing of the
flags it is used under: they are a separate value, and what a kind holds, which characters count as
one, and what a dot accepts depends on them only where a character is tested.

A set that names a kind and its complement accepts every character, and a complement of it does too
(`CharTest.ofBrackets`). A union of sets keeps apart what was a complement of one character only:
such complements are pooled, so a union of two of them accepts all but the two characters, while
complements of larger sets each count for themselves (`CharSet.accepts`).
-/

namespace PegMachine.Regex

namespace Flags

/-- The characters that count as a character under the flags. -/
def variants (flags : Flags) (c : Char) : List Char :=
  if flags.ignoreCase then
    if flags.ascii then Text.asciiCaseVariants c else c :: Text.caseVariants c
  else [c]

/-- Do two characters count as the same under the flags? -/
def same (flags : Flags) (c d : Char) : Bool := (flags.variants d).contains c

end Flags

/-- The classes of characters with an escape of their own. -/
inductive CharKind where
  | digit
  | word
  | blank
  deriving DecidableEq, Repr

/-- Is the character of the kind? Under the ASCII flag only ASCII characters are. -/
def CharKind.holds (flags : Flags) : CharKind → Char → Bool
  | .digit, c => if flags.ascii then c.isDigit else Text.isDigit c
  | .word, c => if flags.ascii then Text.isAsciiWord c else Text.isWord c
  | .blank, c => if flags.ascii then Text.isAsciiBlank c else Text.isBlank c

/-- What stands between the brackets of a set. -/
inductive SetMember where
  | char (c : Char)
  | range (low high : Char)
  | kind (kind : CharKind) (negated : Bool)
  deriving DecidableEq, Repr

namespace SetMember

/-- Does the member hold exactly this character? -/
def holds (flags : Flags) : SetMember → Char → Bool
  | .char d, c => c == d
  | .range low high, c => low ≤ c && c ≤ high
  | .kind k negated, c => k.holds flags c != negated

/-- Is the member a range? -/
def isRange : SetMember → Bool
  | .range _ _ => true
  | _ => false

/-- Is the member a kind or the complement of one? -/
def isKind : SetMember → Bool
  | .kind _ _ => true
  | _ => false

end SetMember

/-- Does one of the members hold a character that counts as this one? -/
def holdsAny (flags : Flags) (members : List SetMember) (c : Char) : Bool :=
  (flags.variants c).any fun d => members.any (·.holds flags d)

/-- Is there a kind among the members together with its complement? -/
def namesBothSides (members : List SetMember) : Bool :=
  members.any fun
    | .kind k negated => members.contains (.kind k !negated)
    | _ => false

/-- A set of characters: what the members hold, all but the excluded characters if there are any,
and whatever one of the complements does not hold. -/
structure CharSet where
  members : List SetMember := []
  excluded : List Char := []
  complements : List (List SetMember) := []
  deriving DecidableEq, Repr

namespace CharSet

/-- Does the set accept the character? Case is ignored, where it is, before a complement is taken. -/
def accepts (flags : Flags) (set : CharSet) (c : Char) : Bool :=
  holdsAny flags set.members c
    || (!set.excluded.isEmpty && !holdsAny flags (set.excluded.map .char) c)
    || set.complements.any (!holdsAny flags · c)

/-- The set of all that one of two sets has. -/
def union (set other : CharSet) : CharSet where
  members := set.members ++ other.members
  excluded := set.excluded ++ other.excluded
  complements := set.complements ++ other.complements

/-- Is the set one range or the complement of one? -/
def isRange (set : CharSet) : Bool :=
  match set with
  | ⟨[member], [], []⟩ | ⟨[], [], [[member]]⟩ => member.isRange
  | _ => false

/-- Is the set one kind or the complement of one? -/
def isKind (set : CharSet) : Bool :=
  match set with
  | ⟨[member], [], []⟩ => member.isKind
  | _ => false

end CharSet

/-- A test of one character. A dot accepts line feeds only under the flag for that. -/
inductive CharTest where
  | dot
  | any
  | oneOf (set : CharSet)
  deriving DecidableEq, Repr

namespace CharTest

/-- Does the character pass the test? -/
def accepts (flags : Flags) : CharTest → Char → Bool
  | .dot, c => flags.dotAll || c != '\n'
  | .any, _ => true
  | .oneOf set, c => set.accepts flags c

/-- The test for one member. -/
def ofMember (member : SetMember) : CharTest := .oneOf { members := [member] }

/-- The test for what a pair of brackets holds, or for its complement. -/
def ofBrackets (negated : Bool) (members : List SetMember) : CharTest :=
  if namesBothSides members then .any
  else match negated, members with
    | false, _ => .oneOf { members }
    | true, [.char c] => .oneOf { excluded := [c] }
    | true, [.kind k negated] => ofMember (.kind k !negated)
    | true, _ => .oneOf { complements := [members] }

/-- The test for a union of sets, in which a set counts once. -/
def ofUnion (sets : List CharSet) : CharTest :=
  let set := sets.eraseDups.foldl CharSet.union {}
  if namesBothSides set.members then .any else .oneOf set

end CharTest

end PegMachine.Regex
