import PegMachine.Rule.Basic

/-!
# Items

Whatever may be handed to a builder or stand under a name is an item: a rule, the separator that
stands between the branches of a choice, or a plain value that is no rule at all. Of plain values
there are texts, integers, truth values and null; other objects that are no rules, such as lists or
matchers without a terminal around them, are left out.
-/

namespace PegMachine

/-- A plain value: a text, an integer, a truth value or null. -/
inductive Atom where
  | text (value : String)
  | int (value : Int)
  | bool (value : Bool)
  | null
  deriving DecidableEq

/-- The number that a plain value counts as when values are compared: truth counts as one. -/
def Atom.number? : Atom → Option Int
  | .int n => some n
  | .bool b => some (if b then 1 else 0)
  | _ => none

/-- Equality of plain values, under which a truth value equals the number it counts as. -/
def Atom.same (a b : Atom) : Bool :=
  match a.number?, b.number? with
  | some m, some n => m == n
  | _, _ => a == b

variable [RegexLibrary]

/-- A rule, the branch separator, or a plain value. -/
inductive Item where
  | rule (rule : Rule)
  | separator
  | atom (value : Atom)
  deriving DecidableEq

namespace Item

/-- Is the item the branch separator? -/
def isSeparator : Item → Bool
  | .separator => true
  | _ => false

/-- The rule that the item is, if it is one. -/
def rule? : Item → Option Rule
  | .rule r => some r
  | _ => none

/-- Equality of items, up to the equality of plain values. -/
def same : Item → Item → Bool
  | .atom a, .atom b => a.same b
  | a, b => a == b

/-- Items with a separator between each two. -/
def separated : List Item → List Item
  | [] => []
  | [item] => [item]
  | item :: rest => item :: .separator :: separated rest

/-- The items stand at the even places. -/
theorem separated_getElem? (items : List Item) (i : Nat) :
    (separated items)[2 * i]? = items[i]? := by
  fun_induction separated items generalizing i with
  | case1 => simp
  | case2 item =>
    cases i with
    | zero => rfl
    | succ i => simp [Nat.mul_succ]
  | case3 item rest hrest ih =>
    cases i with
    | zero => rfl
    | succ i =>
      rw [Nat.mul_succ, List.getElem?_cons_succ, List.getElem?_cons_succ, List.getElem?_cons_succ]
      exact ih i

/-- Separators stand at the odd places. -/
theorem separated_getElem?_odd (items : List Item) (i : Nat) :
    (separated items)[2 * i + 1]? = if i + 1 < items.length then some .separator else none := by
  fun_induction separated items generalizing i with
  | case1 => simp
  | case2 item => simp
  | case3 item rest hrest ih =>
    have hlength : 0 < rest.length := List.length_pos_iff.2 hrest
    cases i with
    | zero => simp [hlength]
    | succ i =>
      rw [Nat.mul_succ, List.getElem?_cons_succ, List.getElem?_cons_succ, ih, List.length_cons]
      simp only [Nat.add_lt_add_iff_right]

/-- Nothing but the items and separators stands there. -/
theorem of_mem_separated {item : Item} {items : List Item} (h : item ∈ separated items) :
    item = .separator ∨ item ∈ items := by
  fun_induction separated items with
  | case1 => exact Or.inr h
  | case2 => exact Or.inr h
  | case3 first rest _ ih =>
    rcases List.mem_cons.1 h with rfl | h
    · exact Or.inr List.mem_cons_self
    rcases List.mem_cons.1 h with rfl | h
    · exact Or.inl rfl
    · exact (ih h).imp_right (List.mem_cons_of_mem first)

theorem length_separated (items : List Item) :
    (separated items).length = 2 * items.length - 1 := by
  fun_induction separated items with
  | case1 => rfl
  | case2 item => rfl
  | case3 item rest hrest ih =>
    have hlength : 0 < rest.length := List.length_pos_iff.2 hrest
    rw [List.length_cons, List.length_cons, ih, List.length_cons]
    omega

end Item

namespace Rule

/-- The parts of a rule as items, the branches of a choice with separators between them. -/
def listing (rule : Rule) : List Item :=
  if rule.isChoice then Item.separated (rule.parts.map .rule) else rule.parts.map .rule

/-- The branches of a choice stand at the even places of its listing. -/
theorem listing_getElem?_branch {rule : Rule} (h : rule.isChoice = true) (branch : Nat) :
    rule.listing[2 * branch]? = rule.parts[branch]?.map .rule := by
  rw [listing, if_pos h, Item.separated_getElem?, List.getElem?_map]

/-- Behind a branch of a choice stands a separator, unless the branch is the last. -/
theorem listing_getElem?_separator {rule : Rule} (h : rule.isChoice = true) (branch : Nat) :
    rule.listing[2 * branch + 1]? =
      if branch + 1 < rule.parts.length then some .separator else none := by
  rw [listing, if_pos h, Item.separated_getElem?_odd, List.length_map]

/-- Without branches the listing is that of the parts. -/
theorem listing_getElem?_part {rule : Rule} (h : rule.isChoice = false) (place : Nat) :
    rule.listing[place]? = rule.parts[place]?.map .rule := by
  rw [listing, h, if_neg Bool.false_ne_true, List.getElem?_map]

/-- A listing holds the parts and separators. -/
theorem of_mem_listing {rule : Rule} {item : Item} (h : item ∈ rule.listing) :
    item = .separator ∨ ∃ part ∈ rule.parts, item = .rule part := by
  have hparts : item ∈ rule.parts.map Item.rule → ∃ part ∈ rule.parts, item = .rule part := by
    intro hitem
    obtain ⟨part, hpart, heq⟩ := List.mem_map.1 hitem
    exact ⟨part, hpart, heq.symm⟩
  unfold listing at h
  split at h
  · exact (Item.of_mem_separated h).imp_right hparts
  · exact Or.inr (hparts h)

end Rule

end PegMachine
