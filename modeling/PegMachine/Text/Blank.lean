import PegMachine.Text.CodePoints

/-!
# Blank characters

Three sets of blanks: the white-space property, its ASCII part, and the property with the four
information separators added, which is the set of characters that free layout passes over.
-/

namespace PegMachine.Text

/-- The white-space property. -/
def blankRanges : List (Nat × Nat) :=
  [(0x9, 0xD), (0x20, 0x20), (0x85, 0x85), (0xA0, 0xA0), (0x1680, 0x1680), (0x2000, 0x200A),
   (0x2028, 0x2029), (0x202F, 0x202F), (0x205F, 0x205F), (0x3000, 0x3000)]

/-- Does the character have the white-space property? -/
def isBlank (c : Char) : Bool := inRanges blankRanges c.toNat

/-- Is the character a blank below U+0080? -/
def isAsciiBlank (c : Char) : Bool := c == ' ' || (0x9 ≤ c.toNat && c.toNat ≤ 0xD)

/-- Is the character a blank or an information separator (U+001C to U+001F)? -/
def isLayout (c : Char) : Bool := isBlank c || (0x1C ≤ c.toNat && c.toNat ≤ 0x1F)

theorem ascending_blankRanges : ascending blankRanges = true := by decide +kernel

end PegMachine.Text
