import PegMachine.Matcher

/-!
# Matches stay inside the text

A match that starts inside the text ends at or after its start and inside the text, whatever the
matcher. For a regular expression that is what is relied on of its library.
-/

namespace PegMachine.Matcher

variable [RegexLibrary]

theorem matchEnd?_bounds {matcher : Matcher} {text : List Char} {offset stop : Nat}
    (hoffset : offset ≤ text.length) (h : matcher.matchEnd? text offset = some stop) :
    offset ≤ stop ∧ stop ≤ text.length := by
  cases matcher with
  | literal s =>
    simp only [matchEnd?] at h
    split at h
    · next hmatch =>
      cases h
      have hlength := (List.isPrefixOf_iff_prefix.1 hmatch.2).length_le
      simp only [String.length_toList, List.length_drop] at hlength
      omega
    · cases h
  | regex r => exact RegexLibrary.matchEnd?_bounds hoffset h
  | charClass cls =>
    simp only [matchEnd?] at h
    split at h
    · next c hc =>
      have hlt := (List.getElem?_eq_some_iff.1 hc).1
      split at h
      · cases h
        omega
      · cases h
    · cases h
  | anyChar =>
    simp only [matchEnd?] at h
    split at h
    · cases h
      omega
    · cases h

end PegMachine.Matcher
