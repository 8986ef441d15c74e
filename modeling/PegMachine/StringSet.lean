/-!
# Sets of strings

A finite set of strings is kept as the list of its members, strictly ascending by code point. Sets
with the same members are therefore equal (`StringSet.ext`), and a set prints in one way only.
-/

namespace PegMachine

/-- A finite set of strings, as the ascending list of its members. -/
structure StringSet where
  toList : List String
  ascending : toList.Pairwise (· < ·)

namespace StringSet

instance : DecidableEq StringSet := fun a b =>
  if h : a.toList = b.toList then isTrue (by cases a; cases b; simp_all)
  else isFalse (fun hab => h (hab ▸ rfl))

instance : Membership String StringSet := ⟨fun set s => s ∈ set.toList⟩

/-- The set without members. -/
def empty : StringSet := ⟨[], List.Pairwise.nil⟩

/-- Puts a string in its place in an ascending list, unless it is there. -/
def insertSorted (s : String) : List String → List String
  | [] => [s]
  | m :: rest =>
    if s < m then s :: m :: rest
    else if s = m then m :: rest
    else m :: insertSorted s rest

theorem mem_insertSorted {s x : String} {list : List String} :
    x ∈ insertSorted s list ↔ x = s ∨ x ∈ list := by
  induction list with
  | nil => simp [insertSorted]
  | cons m rest ih =>
    unfold insertSorted
    split
    · simp
    · split
      · next h => subst h; simp
      · simp only [List.mem_cons, ih]
        constructor
        · rintro (h | h | h) <;> simp [h]
        · rintro (h | h | h) <;> simp [h]

theorem pairwise_insertSorted {s : String} {list : List String}
    (h : list.Pairwise (· < ·)) : (insertSorted s list).Pairwise (· < ·) := by
  induction list with
  | nil => simp [insertSorted]
  | cons m rest ih =>
    obtain ⟨hm, hrest⟩ := List.pairwise_cons.1 h
    unfold insertSorted
    split
    · next hlt =>
      refine List.pairwise_cons.2 ⟨fun x hx => ?_, h⟩
      rcases List.mem_cons.1 hx with rfl | hx
      · exact hlt
      · exact String.lt_trans hlt (hm x hx)
    · split
      · exact h
      · next hlt hne =>
        refine List.pairwise_cons.2 ⟨fun x hx => ?_, ih hrest⟩
        rcases mem_insertSorted.1 hx with rfl | hx
        · exact Decidable.byContradiction fun hnot =>
            hne (String.le_antisymm (String.not_lt.1 hnot) (String.not_lt.1 hlt))
        · exact hm x hx

/-- The set with one more member. -/
def insert (set : StringSet) (s : String) : StringSet :=
  ⟨insertSorted s set.toList, pairwise_insertSorted set.ascending⟩

/-- The set of the members of a list. -/
def ofList (list : List String) : StringSet := list.foldl insert empty

theorem mem_iff {x : String} {set : StringSet} : x ∈ set ↔ x ∈ set.toList := Iff.rfl

@[simp] theorem not_mem_empty (x : String) : x ∉ empty := List.not_mem_nil

@[simp] theorem mem_insert {set : StringSet} {s x : String} :
    x ∈ set.insert s ↔ x = s ∨ x ∈ set :=
  mem_insertSorted

/-- Ascending lists with the same members are equal. -/
theorem eq_of_mem_iff : ∀ {l r : List String}, l.Pairwise (· < ·) → r.Pairwise (· < ·) →
    (∀ x, x ∈ l ↔ x ∈ r) → l = r
  | [], [], _, _, _ => rfl
  | [], b :: _, _, _, h => absurd ((h b).2 List.mem_cons_self) List.not_mem_nil
  | a :: _, [], _, _, h => absurd ((h a).1 List.mem_cons_self) List.not_mem_nil
  | a :: l, b :: r, hl, hr, h => by
    obtain ⟨hal, hltail⟩ := List.pairwise_cons.1 hl
    obtain ⟨hbr, hrtail⟩ := List.pairwise_cons.1 hr
    have hab : a = b := by
      rcases List.mem_cons.1 ((h a).1 List.mem_cons_self) with hab | har
      · exact hab
      · rcases List.mem_cons.1 ((h b).2 List.mem_cons_self) with hba | hbl
        · exact hba.symm
        · exact absurd (String.lt_trans (hal b hbl) (hbr a har)) (String.lt_irrefl a)
    subst hab
    refine congrArg (a :: ·) (eq_of_mem_iff hltail hrtail fun x => ⟨fun hx => ?_, fun hx => ?_⟩)
    · rcases List.mem_cons.1 ((h x).1 (List.mem_cons_of_mem _ hx)) with rfl | hxr
      · exact absurd (hal x hx) (String.lt_irrefl x)
      · exact hxr
    · rcases List.mem_cons.1 ((h x).2 (List.mem_cons_of_mem _ hx)) with rfl | hxl
      · exact absurd (hbr x hx) (String.lt_irrefl x)
      · exact hxl

/-- Sets with the same members are equal. -/
theorem ext {a b : StringSet} (h : ∀ x, x ∈ a ↔ x ∈ b) : a = b := by
  cases a
  cases b
  congr 1
  exact eq_of_mem_iff (by assumption) (by assumption) h

theorem mem_foldl_insert {list : List String} {set : StringSet} {x : String} :
    x ∈ list.foldl insert set ↔ x ∈ list ∨ x ∈ set := by
  induction list generalizing set with
  | nil => simp
  | cons m rest ih => simp only [List.foldl_cons, ih, mem_insert, List.mem_cons]; grind

@[simp] theorem mem_ofList {list : List String} {x : String} :
    x ∈ ofList list ↔ x ∈ list := by
  simp [ofList, mem_foldl_insert]

/-- A set is the set of the members that it lists. -/
theorem ofList_toList (set : StringSet) : ofList set.toList = set := ext fun _ => mem_ofList

/-- The members are in order already. -/
theorem mergeSort_toList (set : StringSet) : set.toList.mergeSort (· ≤ ·) = set.toList := by
  apply List.mergeSort_of_pairwise
  refine set.ascending.imp fun hlt => decide_eq_true ?_
  exact String.not_lt.1 (String.lt_asymm hlt)

end StringSet

end PegMachine
