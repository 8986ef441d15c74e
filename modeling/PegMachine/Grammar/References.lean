import PegMachine.Rule.Item

/-!
# References

What a rule refers to is listed from left to right, at every depth and once for each occurrence
(`Rule.references`). It is found without recursion over the rule: items are pending, the one in front is
looked at next, and what stands in a sequence or choice takes its place (`Item.gather`). A separator or
plain value refers to nothing.

Each item looked at takes away more of what is pending than it puts there (`Item.load`), so the search
ends, and what it finds is what the pending items refer to (`Item.gather_eq`).
-/

namespace PegMachine

variable [RegexLibrary]

namespace Rule

mutual
/-- The names that a rule refers to, from left to right, once for each occurrence. -/
def references : Rule → List String
  | .ref name => [name]
  | .terminal _ => []
  | .seq first rest => first.references ++ referencesAll rest
  | .choice first second rest => first.references ++ second.references ++ referencesAll rest
/-- The names that the rules of a list refer to. -/
def referencesAll : List Rule → List String
  | [] => []
  | rule :: rest => rule.references ++ referencesAll rest
end

/-- A rule that is no reference refers to what its parts refer to. -/
theorem references_eq {rule : Rule} (h : ∀ name, rule ≠ .ref name) :
    rule.references = referencesAll rule.parts := by
  cases rule with
  | ref name => exact absurd rfl (h name)
  | terminal => rfl
  | seq first rest => rfl
  | choice first second rest => exact List.append_assoc _ _ _

mutual
/-- A bound on the items that are looked at for a rule: itself, and what is pending in its place. -/
def weight : Rule → Nat
  | .ref _ => 1
  | .terminal _ => 1
  | .seq first rest => first.weight + weightAll rest + 2
  | .choice first second rest => first.weight + second.weight + weightAll rest + 3
/-- The weights of parts, and one more for what may stand between each two. -/
def weightAll : List Rule → Nat
  | [] => 0
  | rule :: rest => rule.weight + weightAll rest + 1
end

theorem weight_eq (rule : Rule) : rule.weight = weightAll rule.parts + 1 := by
  cases rule with
  | ref => rfl
  | terminal => rfl
  | seq first rest =>
    show first.weight + weightAll rest + 2 = first.weight + weightAll rest + 1 + 1
    rfl
  | choice first second rest =>
    show first.weight + second.weight + weightAll rest + 3 =
      first.weight + (second.weight + weightAll rest + 1) + 1 + 1
    omega

end Rule

namespace Item

/-- The names that an item refers to; what is no rule refers to none. -/
def references : Item → List String
  | .rule r => r.references
  | _ => []

/-- A bound on the items that are looked at for an item. -/
def weight : Item → Nat
  | .rule r => r.weight
  | _ => 1

/-- A bound on the items that are looked at for all that is pending. -/
def load : List Item → Nat
  | [] => 0
  | item :: pending => item.weight + load pending

theorem weight_pos (item : Item) : 0 < item.weight := by
  cases item with
  | rule r =>
    rw [weight, r.weight_eq]
    exact Nat.succ_pos _
  | separator => exact Nat.one_pos
  | atom => exact Nat.one_pos

theorem load_append (items pending : List Item) :
    load (items ++ pending) = load items + load pending := by
  induction items with
  | nil => exact (Nat.zero_add _).symm
  | cons item rest ih => rw [List.cons_append, load, load, ih, Nat.add_assoc]

theorem load_map_rule (parts : List Rule) :
    load (parts.map .rule) + parts.length = Rule.weightAll parts := by
  induction parts with
  | nil => rfl
  | cons part rest ih =>
    rw [List.map_cons, load, List.length_cons, Rule.weightAll, ← ih, weight]
    omega

/-- Separators weigh no more than one for each item. -/
theorem load_separated (items : List Item) :
    load (separated items) ≤ load items + items.length := by
  fun_induction separated items with
  | case1 => exact Nat.le_refl _
  | case2 item => exact Nat.le_succ _
  | case3 item rest hrest ih =>
    rw [load, load, load, List.length_cons, show weight .separator = 1 from rfl]
    omega

/-- What stands in a rule weighs less than the rule. -/
theorem load_listing_lt (rule : Rule) : load rule.listing < rule.weight := by
  have hparts := load_map_rule rule.parts
  rw [rule.weight_eq, Rule.listing]
  split
  · have hseparated := load_separated (rule.parts.map .rule)
    rw [List.length_map] at hseparated
    omega
  · omega

/-- The names that are found when pending items are looked at from the front: a reference gives its
name, a sequence or choice leaves what stands in it pending in its place. It may be unfolded, so that
checks of given grammars can be decided. -/
@[semireducible]
def gather : List Item → List String
  | [] => []
  | .rule (.ref name) :: pending => name :: gather pending
  | .rule r :: pending => gather (r.listing ++ pending)
  | _ :: pending => gather pending
termination_by pending => load pending
decreasing_by
  · rw [load]
    exact Nat.lt_add_of_pos_left (weight_pos _)
  · rw [load_append, load]
    exact Nat.add_lt_add_right (load_listing_lt r) _
  · rw [load]
    exact Nat.lt_add_of_pos_left (weight_pos _)

theorem references_map_rule (parts : List Rule) :
    (parts.map Item.rule).flatMap references = Rule.referencesAll parts := by
  induction parts with
  | nil => rfl
  | cons part rest ih =>
    rw [List.map_cons, List.flatMap_cons, ih]
    rfl

theorem references_separated (items : List Item) :
    (separated items).flatMap references = items.flatMap references := by
  fun_induction separated items with
  | case1 => rfl
  | case2 => rfl
  | case3 item rest hrest ih =>
    rw [List.flatMap_cons, List.flatMap_cons, List.flatMap_cons, ih]
    rfl

/-- What stands in a rule that is no reference refers to what the rule refers to. -/
theorem references_listing {rule : Rule} (h : ∀ name, rule ≠ .ref name) :
    rule.listing.flatMap references = rule.references := by
  rw [Rule.references_eq h, ← references_map_rule, Rule.listing]
  split
  · exact references_separated _
  · rfl

/-- What is found is what the pending items refer to, one after the other. -/
theorem gather_eq (pending : List Item) : gather pending = pending.flatMap references := by
  fun_induction gather pending with
  | case1 => rfl
  | case2 name pending ih =>
    rw [List.flatMap_cons, ih]
    rfl
  | case3 r pending hr ih =>
    rw [ih, List.flatMap_append, references_listing hr, List.flatMap_cons]
    rfl
  | case4 item pending _ hitem ih =>
    have hnone : item.references = [] := by
      cases item with
      | rule r => exact absurd rfl (hitem r)
      | separator => rfl
      | atom => rfl
    rw [List.flatMap_cons, hnone, List.nil_append, ih]

end Item

end PegMachine
