import PegMachine.Text.Hex
import PegMachine.Text.Printable

/-!
# Quoted text

Text is quoted between single quotes, or between double quotes when it holds a single quote and no
double quote. Inside, the quote in use and the backslash get a backslash before them; newline,
carriage return and tab are written `\n`, `\r`, `\t`; every other character that may not be shown is
written by its code point in two, four or eight lower-case hexadecimal digits after `\x`, `\u`,
`\U`. Which characters above ASCII may be shown is a parameter `shown`; the library uses
`isPrintable`.

`body` is the text between the quotes and `unescape` reads it back without knowing which quotes
stood around it.
-/

namespace PegMachine.Text.Quoted

/-- The code point escape of a character, in the narrowest of the three widths that holds it. -/
def codeEscape (c : Char) : List Char :=
  if c.toNat ≤ 0xFF then '\\' :: 'x' :: hexDigits 2 c.toNat
  else if c.toNat ≤ 0xFFFF then '\\' :: 'u' :: hexDigits 4 c.toNat
  else '\\' :: 'U' :: hexDigits 8 c.toNat

/-- How a character is written between the quotes `quote`. -/
def escapeChar (shown : Char → Bool) (quote c : Char) : List Char :=
  if c = quote ∨ c = '\\' then ['\\', c]
  else if c = '\n' then ['\\', 'n']
  else if c = '\r' then ['\\', 'r']
  else if c = '\t' then ['\\', 't']
  else if c.toNat < 0x20 ∨ c.toNat = 0x7F then codeEscape c
  else if c.toNat < 0x7F ∨ shown c then [c]
  else codeEscape c

/-- The quote character that a text is written with. -/
def quoteFor (s : List Char) : Char :=
  if '\'' ∈ s ∧ '"' ∉ s then '"' else '\''

/-- The text between the quotes. -/
def body (shown : Char → Bool) (s : List Char) : List Char :=
  s.flatMap (escapeChar shown (quoteFor s))

/-- The quoted text. -/
def quoted (shown : Char → Bool) (s : List Char) : List Char :=
  quoteFor s :: body shown s ++ [quoteFor s]

/-- The character whose code point the digits give, if it is one. -/
def charOfHex? (digits : List Char) : Option Char := do
  let n ← hexNumber? 0 digits
  if n.isValidChar then some (Char.ofNat n) else none

/-- Reads escaped text back: a backslash must begin one of the escapes, all else stands for itself. -/
def unescape : List Char → Option (List Char)
  | [] => some []
  | '\\' :: 'n' :: rest => (unescape rest).map ('\n' :: ·)
  | '\\' :: 'r' :: rest => (unescape rest).map ('\r' :: ·)
  | '\\' :: 't' :: rest => (unescape rest).map ('\t' :: ·)
  | '\\' :: '\\' :: rest => (unescape rest).map ('\\' :: ·)
  | '\\' :: '\'' :: rest => (unescape rest).map ('\'' :: ·)
  | '\\' :: '"' :: rest => (unescape rest).map ('"' :: ·)
  | '\\' :: 'x' :: a :: b :: rest => do
    let c ← charOfHex? [a, b]
    (unescape rest).map (c :: ·)
  | '\\' :: 'u' :: a :: b :: c :: d :: rest => do
    let c ← charOfHex? [a, b, c, d]
    (unescape rest).map (c :: ·)
  | '\\' :: 'U' :: a :: b :: c :: d :: e :: f :: g :: h :: rest => do
    let c ← charOfHex? [a, b, c, d, e, f, g, h]
    (unescape rest).map (c :: ·)
  | '\\' :: _ => none
  | c :: rest => (unescape rest).map (c :: ·)

end PegMachine.Text.Quoted

namespace PegMachine.Text

/-- A text in quotes. -/
def quote (s : List Char) : String := String.ofList (Quoted.quoted isPrintable s)

/-- A text with its escapes and without the quotes. -/
def quoteBody (s : List Char) : String := String.ofList (Quoted.body isPrintable s)

/-- A list of texts, each in quotes. -/
def quoteList (texts : List String) : String :=
  "[" ++ ", ".intercalate (texts.map (quote ·.toList)) ++ "]"

end PegMachine.Text
