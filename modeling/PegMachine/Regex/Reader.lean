import PegMachine.Regex.Choice
import PegMachine.Regex.Lexeme

/-!
# From lexemes to trees

The groups that are open at some lexeme form a stack of levels, the innermost one in hand. A level
collects the branches that a bar has closed and the pieces of the branch in hand. A quantifier
repeats the last piece, and refuses when there is none or when that piece is quantified already.

References to groups are checked last: a pattern may refer to a group that opens later, but not to
one that is still open or that never opens. A group to which nothing refers captures nothing.
-/

namespace PegMachine.Regex

/-- A group being read, and the direction in which its text is consumed. Branches and pieces are kept
latest first. -/
structure Level where
  opener : Opener
  direction : Direction := .forward
  branches : List Node := []
  pieces : List Node := []
  quantified : Bool := false

namespace Level

/-- The level that an opener opens inside another one. Only a look has a direction of its own. -/
def inside (outer : Level) (opener : Opener) : Level :=
  match opener with
  | .look direction _ => { opener, direction }
  | _ => { opener, direction := outer.direction }

/-- The level with one more piece. -/
def push (level : Level) (piece : Node) : Level :=
  { level with pieces := piece :: level.pieces, quantified := false }

/-- The branch in hand. -/
def branch (level : Level) : Node := .ofSequence (level.pieces.reverse.flatMap Node.items)

/-- Closes the branch in hand and begins the next one. -/
def bar (level : Level) : Level :=
  { level with branches := level.branch :: level.branches, pieces := [], quantified := false }

/-- All branches of the level as one node. -/
def body (flags : Flags) (level : Level) : Node :=
  match level.branches with
  | [] => level.branch
  | branches => .choice flags level.direction (level.branch :: branches).reverse

/-- The closed group. A look for nothing is nothing. -/
def close (flags : Flags) (level : Level) : Node :=
  match level.opener, level.body flags with
  | .capture number, body => .group number body
  | .plain, body => body
  | .look _ true, .empty => .empty
  | .look direction positive, body => .look direction positive body

/-- Puts a quantifier on the last piece. It says nothing if it asks for exactly one round. -/
def quantify (level : Level) (number : Nat) (greed : Greed) (least : Nat) (most : Option Nat) :
    Except Reason Level :=
  match level.pieces with
  | [] => .error .nothingToRepeat
  | piece :: rest =>
    let once := least == 1 && most == some 1
    let repeated := if once then piece else piece.repeated number greed least most
    if level.quantified then .error .multipleRepeat
    else .ok { level with pieces := repeated :: rest, quantified := true }

end Level

/-- Reads lexemes with the given groups open; `offset` is where the lexeme before stopped. A
repetition has the offset of its quantifier for a number. -/
def readLexemes (flags : Flags) : List Lexeme → (outer : List Level) → (level : Level) →
    (offset : Nat) → Except PatternError Node
  | [], [], level, _ => .ok (level.body flags)
  | [], _ :: _, _, offset => .error ⟨.missingParen, offset⟩
  | ⟨token, start, stop⟩ :: rest, outer, level, _ =>
    match token with
    | .fault error => .error error
    | .single node => readLexemes flags rest outer (level.push node) stop
    | .backref number =>
      if (level :: outer).any (·.opener = .capture number) then .error ⟨.openGroup, stop⟩
      else readLexemes flags rest outer (level.push (.backref number)) stop
    | .opening opener => readLexemes flags rest (level :: outer) (level.inside opener) stop
    | .bar => readLexemes flags rest outer level.bar stop
    | .quantifier greed least most =>
      match level.quantify start greed least most with
      | .ok level => readLexemes flags rest outer level stop
      | .error reason => .error ⟨reason, start⟩
    | .closing =>
      match outer with
      | [] => .error ⟨.unbalancedParen, start⟩
      | parent :: outer => readLexemes flags rest outer (parent.push (level.close flags)) stop

/-- The group that an opener captures. -/
def Lexeme.captured? (lexeme : Lexeme) : Option Nat :=
  match lexeme.token with
  | .opening (.capture number) => some number
  | _ => none

/-- The group that a reference names. -/
def Lexeme.referred? (lexeme : Lexeme) : Option Nat :=
  match lexeme.token with
  | .backref number => some number
  | _ => none

/-- The first reference to a group that no opener captures. -/
def strayReference? (row : List Lexeme) : Option PatternError :=
  let captured := row.filterMap Lexeme.captured?
  row.findSome? fun lexeme =>
    match lexeme.referred? with
    | some number => if number ∈ captured then none else some ⟨.noSuchGroup, lexeme.stop⟩
    | none => none

/-- A pattern that was read: its tree and the flags it runs under. -/
structure Pattern where
  root : Node
  flags : Flags
  deriving DecidableEq, Repr

/-- Reads the text of a pattern under the given flags. -/
def Pattern.read (flags : Flags) (text : List Char) : Except PatternError Pattern :=
  let row := lexemes flags text
  match readLexemes flags row [] { opener := .plain } 0 with
  | .error error => .error error
  | .ok root =>
    match strayReference? row with
    | some error => .error error
    | none => .ok { root := root.capturing (row.filterMap Lexeme.referred?), flags }

end PegMachine.Regex
