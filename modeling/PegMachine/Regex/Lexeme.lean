import PegMachine.Regex.Node
import PegMachine.Regex.PatternError
import PegMachine.Text.Hex

/-!
# The lexemes of a pattern

A pattern is a row of lexemes: a thing that matches by itself, a quantifier, a group opener, a
closing parenthesis, a bar. A row may end in an error, which counts only if reading gets that far,
so that the leftmost fault of a pattern is the one reported. Under the free-layout flag blanks and
comments are passed over before every character, also between the digits of an escape and inside a
quantifier; not so inside a set, right after a backslash, or right after a parenthesis that opens
and the question mark behind it.

Readers take the rest of the pattern and give what they read with what is left. An offset is the
length of the pattern less what is left.
-/

namespace PegMachine.Regex

/-- How a group was opened. -/
inductive Opener where
  | capture (number : Nat)
  | plain
  | look (direction : Direction) (positive : Bool)
  deriving DecidableEq, Repr

/-- One element of a pattern's text. -/
inductive Token where
  | single (node : Node)
  | backref (number : Nat)
  | opening (opener : Opener)
  | closing
  | bar
  | quantifier (greed : Greed) (least : Nat) (most : Option Nat)
  | fault (error : PatternError)
  deriving DecidableEq, Repr

/-- A token with the offsets where it starts and stops. -/
structure Lexeme where
  token : Token
  start : Nat
  stop : Nat
  deriving DecidableEq, Repr

/-- Passes over blanks and comments; `comment` says whether the text begins inside a comment. -/
def skipLayout : (comment : Bool) → List Char → List Char
  | _, [] => []
  | true, c :: rest => if c = '\n' then skipLayout false rest else skipLayout true rest
  | false, c :: rest =>
    if Text.isLayout c then skipLayout false rest
    else if c = '#' then skipLayout true rest
    else c :: rest

/-- The pattern from its next significant character on. -/
def significant (flags : Flags) (chars : List Char) : List Char :=
  if flags.freeLayout then skipLayout false chars else chars

/-- The value of a list of digits of the given base. -/
def numeral (base : Nat) (digits : List Char) : Nat :=
  digits.foldl (fun n c => base * n + (Text.hexValue? c).getD 0) 0

/-- Is the character an octal digit? -/
def isOctal (c : Char) : Bool := '0' ≤ c && c ≤ '7'

/-- Is the character a hexadecimal digit? -/
def isHex (c : Char) : Bool := (Text.hexValue? c).isSome

/-! ## Escapes -/

/-- The kind that an escape letter names; a capital letter names the complement. -/
def kindLetter? : Char → Option (CharKind × Bool)
  | 'd' => some (.digit, false)
  | 'D' => some (.digit, true)
  | 'w' => some (.word, false)
  | 'W' => some (.word, true)
  | 's' => some (.blank, false)
  | 'S' => some (.blank, true)
  | _ => none

/-- The condition that an escape letter names outside sets. -/
def anchorLetter? : Char → Option Anchor
  | 'A' => some .textStart
  | 'Z' => some .textEnd
  | 'b' => some .wordEdge
  | 'B' => some .notWordEdge
  | _ => none

/-- The control character that an escape letter names. -/
def controlLetter? : Char → Option Char
  | 'a' => some (Char.ofNat 7)
  | 'b' => some (Char.ofNat 8)
  | 't' => some '\t'
  | 'n' => some '\n'
  | 'v' => some (Char.ofNat 11)
  | 'f' => some (Char.ofNat 12)
  | 'r' => some '\r'
  | _ => none

/-- The number of hexadecimal digits after an escape letter. -/
def hexWidth? : Char → Option Nat
  | 'x' => some 2
  | 'u' => some 4
  | 'U' => some 8
  | _ => none

/-- Reads up to `most` characters that pass a test, with layout before each of them passed over. -/
def readUpTo (flags : Flags) (test : Char → Bool) : (most : Nat) → List Char →
    List Char × List Char
  | 0, chars => ([], chars)
  | most + 1, chars =>
    match significant flags chars with
    | c :: rest =>
      if test c then
        let (more, rest) := readUpTo flags test most rest
        (c :: more, rest)
      else ([], chars)
    | [] => ([], chars)

/-- Reads the digits of a hexadecimal escape of the given width. -/
def readHex (total : Nat) (flags : Flags) (letter : Char) (width : Nat) (chars : List Char) :
    Except PatternError (SetMember × List Char) :=
  let (digits, rest) := readUpTo flags isHex width chars
  let offset := total - chars.length
  if digits.length < width then .error ⟨.incompleteEscape (letter :: digits), offset⟩
  else if numeral 16 digits < 0x110000 then .ok (.char (Char.ofNat (numeral 16 digits)), rest)
  else .error ⟨.codeTooLarge (letter :: digits), offset⟩

/-- Reads an octal escape of at most three digits, of which the first has been read. -/
def readOctal (total : Nat) (flags : Flags) (first : Char) (chars : List Char) :
    Except PatternError (SetMember × List Char) :=
  let (more, rest) := readUpTo flags isOctal 2 chars
  if isOctal first then .ok (.char (Char.ofNat (numeral 8 (first :: more))), rest)
  else .error ⟨.badEscape first, total - rest.length⟩

/-- Reads an escape for a character or a kind, given the character after the backslash. -/
def readCharEscape (total : Nat) (flags : Flags) (c : Char) (rest : List Char) :
    Except PatternError (SetMember × List Char) :=
  match hexWidth? c, kindLetter? c, controlLetter? c with
  | some width, _, _ => readHex total flags c width rest
  | none, some (kind, negated), _ => .ok (.kind kind negated, rest)
  | none, none, some control => .ok (.char control, rest)
  | none, none, none =>
    if c.isDigit then readOctal total flags c rest
    else if c.isAlpha then .error ⟨.badEscape c, total - rest.length⟩
    else .ok (.char c, rest)

/-- Reads a numeric escape that does not begin with zero: three octal digits are a character, all
else refers to a group by one or two digits. -/
def readNumber (flags : Flags) (first : Char) (chars : List Char) : Token × List Char :=
  match readUpTo flags isOctal 2 chars, isOctal first with
  | ([second, third], rest), true =>
    (.single (.char (Char.ofNat (numeral 8 [first, second, third] % 0x200))), rest)
  | _, _ =>
    let (more, rest) := readUpTo flags Char.isDigit 1 chars
    (.backref (numeral 10 (first :: more)), rest)

/-- Reads an escape outside sets, after its backslash. -/
def readEscape (total : Nat) (flags : Flags) : List Char → Token × List Char
  | [] => (.fault ⟨.escapeAtEnd, total⟩, [])
  | c :: rest =>
    match anchorLetter? c with
    | some anchor => (.single (.anchor anchor), rest)
    | none =>
      if c.isDigit && c != '0' then readNumber flags c rest
      else match readCharEscape total flags c rest with
        | .ok (member, rest) => (.single (.one (.ofMember member)), rest)
        | .error error => (.fault error, [])

/-! ## Sets

Layout is never passed over in a set, so its escapes are read without flags.
-/

/-- Reads one item of a set: a character, or an escape for a character or a kind. -/
def readSetItem (total : Nat) : List Char → Except PatternError (SetMember × List Char)
  | [] => .error ⟨.unterminatedSet, total⟩
  | ['\\'] => .error ⟨.escapeAtEnd, total⟩
  | '\\' :: c :: rest => readCharEscape total {} c rest
  | c :: rest => .ok (.char c, rest)

/-- Reads one item or a range. A hyphen makes a range between two characters only; elsewhere it
stands for itself. A range from a character to itself is that character. -/
def readSetMembers (total : Nat) (chars : List Char) :
    Except PatternError (List SetMember × List Char) := do
  match ← readSetItem total chars with
  | (.char low, '-' :: ']' :: rest) => .ok ([.char low, .char '-'], ']' :: rest)
  | (.char low, '-' :: rest) =>
    match ← readSetItem total rest with
    | (.char high, rest) =>
      if high < low then .error ⟨.badRange, total - rest.length⟩
      else .ok ([if low = high then .char low else .range low high], rest)
    | (item, rest) => .ok ([.char low, .char '-', item], rest)
  | (item, rest) => .ok ([item], rest)

/-- Reads the members of a set up to its closing bracket; there is at least one, so a closing
bracket in the first place is a member. The fuel is the length of the rest. -/
def readSetBody (total : Nat) :
    (fuel : Nat) → List Char → Except PatternError (List SetMember × List Char)
  | 0, _ => .error ⟨.unterminatedSet, total⟩
  | fuel + 1, chars => do
    match ← readSetMembers total chars with
    | (members, ']' :: rest) => .ok (members, rest)
    | (members, rest) =>
      let (others, rest) ← readSetBody total fuel rest
      .ok (members ++ others, rest)

/-- Reads a set after its opening bracket. -/
def readSet (total : Nat) : List Char → Except PatternError (CharTest × List Char)
  | '^' :: rest => do
    let (members, rest) ← readSetBody total (rest.length + 1) rest
    .ok (.ofBrackets true members, rest)
  | chars => do
    let (members, rest) ← readSetBody total (chars.length + 1) chars
    .ok (.ofBrackets false members, rest)

/-! ## Quantifiers -/

/-- Reads the suffix that makes a quantifier reluctant or possessive. -/
def readGreed (flags : Flags) (chars : List Char) : Greed × List Char :=
  match significant flags chars with
  | '?' :: rest => (.reluctant, rest)
  | '+' :: rest => (.possessive, rest)
  | _ => (.greedy, chars)

/-- The bound that digits give, if there are digits. -/
def bound? (digits : List Char) : Option Nat :=
  if digits.isEmpty then none else some (numeral 10 digits)

/-- Reads the bounds of a counted quantifier after the brace; `none` if they are not well formed,
in which case the brace is an ordinary character. -/
def readBounds (flags : Flags) (chars : List Char) : Option ((Nat × Option Nat) × List Char) :=
  let (first, rest) := readUpTo flags Char.isDigit chars.length chars
  match significant flags rest with
  | ',' :: rest =>
    let (second, rest) := readUpTo flags Char.isDigit rest.length rest
    match significant flags rest with
    | '}' :: rest => some (((bound? first).getD 0, bound? second), rest)
    | _ => none
  | '}' :: rest => (bound? first).map fun n => ((n, some n), rest)
  | _ => none

/-- The count from which on a bound is refused. -/
def countLimit : Nat := 0xFFFFFFFF

/-- Reads a counted quantifier after its brace, or the brace as a character. -/
def readCounted (total : Nat) (flags : Flags) (chars : List Char) : Token × List Char :=
  match readBounds flags chars with
  | none => (.single (.char '{'), chars)
  | some ((least, most), rest) =>
    let offset := total - chars.length
    if countLimit ≤ least ∨ countLimit ≤ most.getD 0 then (.fault ⟨.countTooBig, offset⟩, [])
    else if most.any (· < least) then (.fault ⟨.leastAboveMost, offset⟩, [])
    else
      let (greed, rest) := readGreed flags rest
      (.quantifier greed least most, rest)

/-! ## Tokens -/

/-- Reads what follows an opening parenthesis. The number is the one a capturing group gets. -/
def readOpener (total number : Nat) (flags : Flags) : List Char → Token × List Char
  | '?' :: '=' :: rest => (.opening (.look .forward true), rest)
  | '?' :: '!' :: rest => (.opening (.look .forward false), rest)
  | '?' :: '<' :: rest =>
    match significant flags rest with
    | '=' :: rest => (.opening (.look .backward true), rest)
    | '!' :: rest => (.opening (.look .backward false), rest)
    | _ => (.fault ⟨.unknownExtension, total - rest.length⟩, [])
  | '?' :: rest =>
    match significant flags rest with
    | ':' :: rest => (.opening .plain, rest)
    | _ => (.fault ⟨.unknownExtension, total - rest.length⟩, [])
  | chars => (.opening (.capture number), chars)

/-- Reads the token that starts with the given character. -/
def readToken (total : Nat) (flags : Flags) (number : Nat) (c : Char) (rest : List Char) :
    Token × List Char :=
  let counted (least : Nat) (most : Option Nat) :=
    let (greed, rest) := readGreed flags rest
    (Token.quantifier greed least most, rest)
  match c with
  | '\\' => readEscape total flags rest
  | '[' =>
    match readSet total rest with
    | .ok (test, rest) => (.single (.one test), rest)
    | .error error => (.fault error, [])
  | '(' => readOpener total number flags rest
  | ')' => (.closing, rest)
  | '|' => (.bar, rest)
  | '.' => (.single (.one .dot), rest)
  | '^' => (.single (.anchor .lineStart), rest)
  | '$' => (.single (.anchor .lineEnd), rest)
  | '?' => counted 0 (some 1)
  | '*' => counted 0 none
  | '+' => counted 1 none
  | '{' => readCounted total flags rest
  | c => (.single (.char c), rest)

/-- The lexemes of what is left of a pattern. The fuel is its length: every token takes at least
one character. -/
def lexemesFrom (total : Nat) (flags : Flags) : (fuel number : Nat) → List Char → List Lexeme
  | 0, _, _ => []
  | fuel + 1, number, chars =>
    match significant flags chars with
    | [] => []
    | c :: rest =>
      let (token, rest) := readToken total flags number c rest
      let next := match token with
        | .opening (.capture n) => n + 1
        | _ => number
      ⟨token, total - chars.length, total - rest.length⟩ :: lexemesFrom total flags fuel next rest

/-- The lexemes of a pattern; capturing groups are numbered from one by their openers. -/
def lexemes (flags : Flags) (pattern : List Char) : List Lexeme :=
  lexemesFrom pattern.length flags pattern.length 1 pattern

end PegMachine.Regex
