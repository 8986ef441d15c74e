import PegMachine.Rule.Builder

/-!
# Named items in order of definition

A rule map holds items under names, in the order in which the names were first defined. Defining a
name again replaces its item and keeps its place; a name that was removed and is defined again goes
to the end. No name occurs twice.
-/

namespace PegMachine

variable [RegexLibrary]

/-- Items under distinct names, in order of definition. -/
structure RuleMap where
  entries : List (String × Item)
  distinct : (entries.map Prod.fst).Nodup

namespace RuleMap

instance : DecidableEq RuleMap := fun a b =>
  if h : a.entries = b.entries then isTrue (by cases a; cases b; simp_all)
  else isFalse (fun hab => h (hab ▸ rfl))

/-- The map without names. -/
def empty : RuleMap := ⟨[], List.nodup_nil⟩

/-- The item under a name. -/
def get? (rules : RuleMap) (name : String) : Option Item := rules.entries.lookup name

/-- Is there an item under the name? -/
def contains (rules : RuleMap) (name : String) : Bool := (rules.get? name).isSome

/-- The items in order of definition. -/
def items (rules : RuleMap) : List Item := rules.entries.map Prod.snd

/-- The names in order of definition. -/
def names (rules : RuleMap) : List String := rules.entries.map Prod.fst

/-- Puts an item under a name of a list of entries, at the end if the name is new. -/
def putEntry (name : String) (item : Item) : List (String × Item) → List (String × Item)
  | [] => [(name, item)]
  | entry :: rest =>
    if entry.1 = name then (name, item) :: rest else entry :: putEntry name item rest

theorem mem_names_putEntry {name : String} {item : Item} {entries : List (String × Item)}
    {x : String} :
    x ∈ (putEntry name item entries).map Prod.fst ↔ x = name ∨ x ∈ entries.map Prod.fst := by
  induction entries with
  | nil => simp [putEntry]
  | cons entry rest ih =>
    unfold putEntry
    split
    · next h => subst h; simp
    · simp only [List.map_cons, List.mem_cons, ih]; grind

theorem nodup_putEntry {name : String} {item : Item} {entries : List (String × Item)}
    (h : (entries.map Prod.fst).Nodup) : ((putEntry name item entries).map Prod.fst).Nodup := by
  induction entries with
  | nil => simp [putEntry]
  | cons entry rest ih =>
    obtain ⟨hentry, hrest⟩ := List.nodup_cons.1 h
    unfold putEntry
    split
    · next heq => subst heq; exact h
    · next hne =>
      refine List.nodup_cons.2 ⟨fun hmem => ?_, ih hrest⟩
      rcases mem_names_putEntry.1 hmem with heq | hmem
      · exact hne heq
      · exact hentry hmem

/-- The map with an item defined under a name. -/
def define (rules : RuleMap) (name : String) (item : Item) : RuleMap :=
  ⟨putEntry name item rules.entries, nodup_putEntry rules.distinct⟩

theorem lookup_entry (other name : String) (item : Item) (rest : List (String × Item)) :
    ((name, item) :: rest).lookup other = if other = name then some item else rest.lookup other := by
  rw [List.lookup_cons]
  by_cases h : other = name
  · rw [if_pos h, beq_iff_eq.2 h]
  · rw [if_neg h, beq_false_of_ne h]

theorem lookup_putEntry {name other : String} {item : Item} {entries : List (String × Item)} :
    (putEntry name item entries).lookup other =
      if other = name then some item else entries.lookup other := by
  induction entries with
  | nil => exact lookup_entry other name item []
  | cons entry rest ih =>
    unfold putEntry
    rw [lookup_entry other entry.1 entry.2 rest]
    split
    · next heq =>
      rw [lookup_entry, ← heq]
      split <;> rfl
    · next hne =>
      rw [lookup_entry other entry.1 entry.2, ih]
      by_cases h : other = entry.1
      · rw [if_pos h, if_pos h, if_neg (h ▸ hne)]
      · rw [if_neg h, if_neg h]

/-- What stands under a name after another one, or the same, was defined. -/
theorem get?_define {rules : RuleMap} {name other : String} {item : Item} :
    (rules.define name item).get? other = if other = name then some item else rules.get? other :=
  lookup_putEntry

/-- The map has all the items of another one under their names. It may have more. -/
def Extends (completed rules : RuleMap) : Prop :=
  ∀ name item, rules.get? name = some item → completed.get? name = some item

theorem Extends.refl (rules : RuleMap) : rules.Extends rules := fun _ _ h => h

theorem Extends.trans {completed middle rules : RuleMap} (h : completed.Extends middle)
    (h' : middle.Extends rules) : completed.Extends rules :=
  fun name item hitem => h name item (h' name item hitem)

/-- A map is extended by a name that it does not define. -/
theorem extends_define {rules : RuleMap} {name : String} (h : rules.get? name = none)
    (item : Item) : (rules.define name item).Extends rules := by
  intro other found hfound
  rw [get?_define]
  split
  · next hsame =>
    rw [hsame, h] at hfound
    cases hfound
  · exact hfound

/-- The map without a name. -/
def remove (rules : RuleMap) (name : String) : RuleMap :=
  ⟨rules.entries.filter (·.1 ≠ name),
    List.Sublist.nodup (List.filter_sublist.map Prod.fst) rules.distinct⟩

/-- The map that a list of definitions makes. -/
def ofList (definitions : List (String × Item)) : RuleMap :=
  definitions.foldl (fun rules d => rules.define d.1 d.2) empty

end RuleMap

end PegMachine
