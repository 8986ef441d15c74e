import Mathlib.Data.List.Induction
import PegMachine.Grammar.Basic

/-!
# What a check finds

The names that a map refers to are found by looking at pending items, and are those that the recursion
over its rules lists. Names stand in the order in which they were first defined, each with the item that
it was defined as last: defining a name again keeps its place (`RuleMap.entries_define`). Of all names in
use, the start name among them, a check reports the least that is not defined, and nothing if all are
(`Grammar.check_of_references`).
-/

namespace PegMachine

variable [RegexLibrary]

namespace RuleMap

theorem contains_iff {rules : RuleMap} {name : String} :
    rules.contains name = true ↔ ∃ item, rules.get? name = some item := by
  rw [contains, Option.isSome_iff_exists]

theorem contains_eq_false_iff {rules : RuleMap} {name : String} :
    rules.contains name = false ↔ rules.get? name = none := by
  rw [contains, Option.isSome_eq_false_iff, Option.isNone_iff_eq_none]

/-- A name is defined if and only if it is among the names. -/
theorem contains_iff_mem {rules : RuleMap} {name : String} :
    rules.contains name = true ↔ name ∈ rules.names := by
  rw [contains, get?, List.lookup_isSome_iff, names, List.mem_map]
  constructor
  · rintro ⟨entry, hentry, hname⟩
    exact ⟨entry, hentry, (beq_iff_eq.1 hname).symm⟩
  · rintro ⟨entry, hentry, hname⟩
    exact ⟨entry, hentry, beq_iff_eq.2 hname.symm⟩

/-- An entry of a list without repeated names is the one that is found under its name. -/
theorem lookup_of_mem {entries : List (String × Item)} {entry : String × Item}
    (distinct : (entries.map Prod.fst).Nodup) (h : entry ∈ entries) :
    entries.lookup entry.1 = some entry.2 := by
  induction entries with
  | nil => exact absurd h List.not_mem_nil
  | cons first rest ih =>
    obtain ⟨hfirst, hrest⟩ := List.nodup_cons.1 distinct
    rw [lookup_entry entry.1 first.1 first.2]
    rcases List.mem_cons.1 h with rfl | hmem
    · exact if_pos rfl
    · have hother : entry.1 ≠ first.1 := by
        intro hsame
        rw [← hsame] at hfirst
        exact hfirst (List.mem_map_of_mem hmem)
      rw [if_neg hother]
      exact ih hrest hmem

/-- What is found under a name is what an entry has there. -/
theorem get?_eq_some_iff {rules : RuleMap} {name : String} {item : Item} :
    rules.get? name = some item ↔ (name, item) ∈ rules.entries := by
  constructor
  · intro h
    obtain ⟨front, back, hentries, -⟩ := List.lookup_eq_some_iff.1 h
    rw [hentries]
    exact List.mem_append_right _ List.mem_cons_self
  · exact lookup_of_mem rules.distinct

/-- The items are those under the names, one after the other. -/
theorem map_get?_names (rules : RuleMap) : rules.names.map rules.get? = rules.items.map some := by
  rw [names, items, List.map_map, List.map_map]
  exact List.map_congr_left fun entry hentry => lookup_of_mem rules.distinct hentry

/-- A new name goes to the end. -/
theorem putEntry_of_not_mem {name : String} {item : Item} {entries : List (String × Item)}
    (h : name ∉ entries.map Prod.fst) : putEntry name item entries = entries ++ [(name, item)] := by
  induction entries with
  | nil => rfl
  | cons entry rest ih =>
    rw [List.map_cons, List.mem_cons, not_or] at h
    rw [putEntry, if_neg (Ne.symm h.1), ih h.2]
    rfl

/-- A name that is there keeps its place, and all other names keep their items. -/
theorem putEntry_of_mem {name : String} {item : Item} {entries : List (String × Item)}
    (distinct : (entries.map Prod.fst).Nodup) (h : name ∈ entries.map Prod.fst) :
    putEntry name item entries =
      entries.map fun entry => if entry.1 = name then (name, item) else entry := by
  induction entries with
  | nil => exact absurd h List.not_mem_nil
  | cons entry rest ih =>
    obtain ⟨hentry, hrest⟩ := List.nodup_cons.1 distinct
    rw [putEntry, List.map_cons]
    by_cases hname : entry.1 = name
    · -- no other entry has the name
      have hothers : ∀ other ∈ rest,
          (if other.1 = name then (name, item) else other) = other := by
        intro other hother
        refine if_neg fun hsame => hentry ?_
        rw [hname, ← hsame]
        exact List.mem_map_of_mem hother
      rw [if_pos hname, if_pos hname, List.map_congr_left hothers, List.map_id']
    · have hmem : name ∈ rest.map Prod.fst := by
        rcases List.mem_cons.1 h with hsame | hmem
        · exact absurd hsame.symm hname
        · exact hmem
      rw [if_neg hname, if_neg hname, ih hrest hmem]

/-- Defining a name puts the item in the place of the one under the name, or at the end. -/
theorem entries_define (rules : RuleMap) (name : String) (item : Item) :
    (rules.define name item).entries =
      if rules.contains name = true then
        rules.entries.map fun entry => if entry.1 = name then (name, item) else entry
      else rules.entries ++ [(name, item)] := by
  split
  · next h => exact putEntry_of_mem rules.distinct (contains_iff_mem.1 h)
  · next h => exact putEntry_of_not_mem (mt contains_iff_mem.2 h)

theorem names_define (rules : RuleMap) (name : String) (item : Item) :
    (rules.define name item).names =
      if rules.contains name = true then rules.names else rules.names ++ [name] := by
  rw [names, entries_define]
  split
  · rw [List.map_map]
    refine List.map_congr_left fun entry _ => ?_
    show (if entry.1 = name then (name, item) else entry).1 = entry.1
    split
    · next hname => exact hname.symm
    · rfl
  · exact List.map_append

theorem ofList_concat (definitions : List (String × Item)) (last : String × Item) :
    ofList (definitions ++ [last]) = (ofList definitions).define last.1 last.2 := by
  rw [ofList, List.foldl_append]
  rfl

/-- Each name keeps the place where it was first defined. -/
theorem names_ofList (definitions : List (String × Item)) :
    (ofList definitions).names = (definitions.map Prod.fst).eraseDups := by
  induction definitions using List.reverseRecOn with
  | nil => rfl
  | append_singleton definitions last ih =>
    have hmem : (ofList definitions).contains last.1 = true ↔ last.1 ∈ definitions.map Prod.fst := by
      rw [contains_iff_mem, ih, List.mem_eraseDups]
    rw [ofList_concat, names_define, ih, List.map_append, List.eraseDups_append]
    split
    · next h => simp [List.removeAll, hmem.1 h]
    · next h => simp [List.removeAll, mt hmem.2 h, List.eraseDups_cons]

/-- Under each name stands the item that it was defined as last. -/
theorem get?_ofList (definitions : List (String × Item)) (name : String) :
    (ofList definitions).get? name = definitions.reverse.lookup name := by
  induction definitions using List.reverseRecOn with
  | nil => rfl
  | append_singleton definitions last ih =>
    rw [ofList_concat, get?_define, ih, List.reverse_concat, lookup_entry]

end RuleMap

namespace Grammar

variable {grammar : Grammar}

/-- Undefined are the names in use under which there is no item. -/
theorem mem_undefinedNames {name : String} :
    name ∈ grammar.undefinedNames ↔
      (name ∈ grammar.rules.references ∨ name = grammar.start) ∧ grammar.rules.get? name = none := by
  rw [undefinedNames, ← StringSet.mem_iff, StringSet.mem_ofList, List.mem_filter, List.mem_append,
    List.mem_singleton, Bool.not_eq_true', RuleMap.contains_eq_false_iff]

theorem ascending_undefinedNames : grammar.undefinedNames.Pairwise (· < ·) :=
  StringSet.ascending _

theorem check_eq_ok_iff_nil : grammar.check = .ok () ↔ grammar.undefinedNames = [] := by
  rw [check]
  split
  · next hnone => exact iff_of_true rfl hnone
  · next name rest hsome =>
    rw [hsome]
    exact iff_of_false nofun (List.cons_ne_nil name rest)

/-- A check reports the least undefined name. -/
theorem check_eq_error_iff {error : UndefinedRule} :
    grammar.check = .error error ↔
      error.name ∈ grammar.undefinedNames ∧ ∀ name ∈ grammar.undefinedNames, error.name ≤ name := by
  have hascending : grammar.undefinedNames.Pairwise (· < ·) := ascending_undefinedNames
  rw [check]
  split
  · next hnone =>
    rw [hnone]
    exact iff_of_false nofun fun h => List.not_mem_nil h.1
  · next least rest hsome =>
    rw [hsome] at hascending ⊢
    have hleast : ∀ name ∈ least :: rest, least ≤ name := by
      intro name hname
      rcases List.mem_cons.1 hname with rfl | hname
      · exact String.le_refl _
      · exact String.not_lt.1 (String.lt_asymm ((List.pairwise_cons.1 hascending).1 name hname))
    constructor
    · rintro ⟨⟩
      exact ⟨List.mem_cons_self, hleast⟩
    · rintro ⟨hmem, hall⟩
      have hsame : least = error.name :=
        String.le_antisymm (hleast _ hmem) (hall least List.mem_cons_self)
      rw [hsame]

/-- What a check finds, for any map, of whatever items, and any start. -/
theorem check_of_references (grammar : Grammar) :
    (∀ pending, Item.gather pending = pending.flatMap Item.references) ∧
      grammar.rules.references = grammar.rules.items.flatMap Item.references ∧
      grammar.rules.names.map grammar.rules.get? = grammar.rules.items.map some ∧
      (∀ definitions, (RuleMap.ofList definitions).names = (definitions.map Prod.fst).eraseDups ∧
        ∀ name, (RuleMap.ofList definitions).get? name = definitions.reverse.lookup name) ∧
      (∀ name, name ∈ grammar.undefinedNames ↔
        (name ∈ grammar.rules.references ∨ name = grammar.start) ∧
          grammar.rules.get? name = none) ∧
      grammar.undefinedNames.Pairwise (· < ·) ∧
      (grammar.check = .ok () ↔ grammar.undefinedNames = []) ∧
      ∀ error, grammar.check = .error error ↔
        error.name ∈ grammar.undefinedNames ∧
          ∀ name ∈ grammar.undefinedNames, error.name ≤ name :=
  ⟨Item.gather_eq, grammar.rules.references_eq, grammar.rules.map_get?_names,
    fun definitions => ⟨RuleMap.names_ofList definitions, RuleMap.get?_ofList definitions⟩,
    fun _ => mem_undefinedNames, ascending_undefinedNames, check_eq_ok_iff_nil,
    fun _ => check_eq_error_iff⟩

end Grammar

end PegMachine
