import PegMachine.Regex.Backtracking
import PegMachine.Semantics.Composites

/-!
# Composites are what they should be

A list of items is accepted if and only if it makes a composite, and is refused for its first offence.
-/

namespace PegMachine

section AnyLibrary

variable [RegexLibrary]

namespace Item

section Scans

variable {items : List Item}

theorem isSeparator_iff {item : Item} : item.isSeparator = true ↔ item = .separator := by
  cases item with
  | separator => exact iff_of_true rfl rfl
  | rule r => exact iff_of_false nofun nofun
  | atom value => exact iff_of_false nofun nofun

theorem any_isSeparator_iff : items.any isSeparator = true ↔ Item.separator ∈ items := by
  rw [List.any_eq_true]
  constructor
  · rintro ⟨item, hitem, hseparator⟩
    rw [← isSeparator_iff.1 hseparator]
    exact hitem
  · intro hseparator
    exact ⟨.separator, hseparator, rfl⟩

/-- The test for misplaced items is that they fit. -/
theorem fits_iff {item : Item} {place : Nat} :
    item.isSeparator = (place % 2 == 1) ↔ item.Fits place := by
  rw [Bool.eq_iff_iff, isSeparator_iff, beq_iff_eq]
  rfl

theorem firstAtom?_none (h : firstAtom? items = none) (value : Atom) : Item.atom value ∉ items := by
  induction items with
  | nil => exact List.not_mem_nil
  | cons item rest ih =>
    cases item with
    | atom other => cases h
    | rule r =>
      rw [List.mem_cons, not_or]
      exact ⟨nofun, ih h⟩
    | separator =>
      rw [List.mem_cons, not_or]
      exact ⟨nofun, ih h⟩

/-- The first plain value stands to the left of all others. -/
theorem firstAtom?_some {value : Atom} (h : firstAtom? items = some value) :
    ∃ place : Nat, items[place]? = some (.atom value) ∧
      ∀ earlier < place, ∀ other, items[earlier]? ≠ some (.atom other) := by
  induction items with
  | nil => cases h
  | cons item rest ih =>
    have hlater : firstAtom? rest = some value → (∀ other, item ≠ .atom other) →
        ∃ place : Nat, (item :: rest)[place]? = some (.atom value) ∧
          ∀ earlier < place, ∀ other, (item :: rest)[earlier]? ≠ some (.atom other) := by
      intro hrest hitem
      obtain ⟨place, hplace, hleft⟩ := ih hrest
      refine ⟨place + 1, hplace, fun earlier hearlier other => ?_⟩
      cases earlier with
      | zero => exact fun hsame => hitem other (Option.some.inj hsame)
      | succ earlier => exact hleft earlier (Nat.lt_of_succ_lt_succ hearlier) other
    cases item with
    | atom other =>
      cases h
      exact ⟨0, rfl, fun _ hearlier => absurd hearlier (Nat.not_lt_zero _)⟩
    | rule r => exact hlater h nofun
    | separator => exact hlater h nofun

theorem firstMisplaced?_none {start : Nat} (h : firstMisplaced? start items = none) :
    ∀ (place : Nat) item, items[place]? = some item → item.Fits (start + place) := by
  induction items generalizing start with
  | nil => exact nofun
  | cons first rest ih =>
    rw [firstMisplaced?] at h
    split at h
    · next hfits =>
      intro place item hitem
      cases place with
      | zero =>
        cases hitem
        exact fits_iff.1 hfits
      | succ place =>
        rw [Nat.add_comm place, ← Nat.add_assoc]
        exact ih h place item hitem
    · cases h

/-- The first misplaced item stands to the left of all others that do not fit. -/
theorem firstMisplaced?_some {start found : Nat} (h : firstMisplaced? start items = some found) :
    ∃ (place : Nat) (item : Item), found = start + place ∧ items[place]? = some item ∧
      ¬ item.Fits (start + place) ∧
      ∀ earlier < place, ∀ other, items[earlier]? = some other → other.Fits (start + earlier) := by
  induction items generalizing start with
  | nil => cases h
  | cons first rest ih =>
    rw [firstMisplaced?] at h
    split at h
    · next hfits =>
      obtain ⟨place, item, hfound, hitem, hmisfit, hleast⟩ := ih h
      refine ⟨place + 1, item, ?_, hitem, ?_, fun earlier hearlier other hother => ?_⟩
      · rw [hfound, Nat.add_assoc, Nat.add_comm 1]
      · rw [Nat.add_comm place, ← Nat.add_assoc]
        exact hmisfit
      · cases earlier with
        | zero =>
          cases hother
          exact fits_iff.1 hfits
        | succ earlier =>
          rw [Nat.add_comm earlier, ← Nat.add_assoc]
          exact hleast earlier (Nat.lt_of_succ_lt_succ hearlier) other hother
    · next hmisfit =>
      cases h
      exact ⟨0, first, rfl, rfl, mt fits_iff.2 hmisfit,
        fun _ hearlier => absurd hearlier (Nat.not_lt_zero _)⟩

end Scans

/-! ## The parts of a list of items -/

section Parts

/-- Without separators and plain values all items are rules. -/
theorem map_filterMap_rule {items : List Item} (hvalue : ∀ value, Item.atom value ∉ items)
    (hseparator : Item.separator ∉ items) : (items.filterMap rule?).map .rule = items := by
  induction items with
  | nil => rfl
  | cons item rest ih =>
    simp only [List.mem_cons, not_or] at hvalue hseparator
    have hrest := ih (fun value => (hvalue value).2) hseparator.2
    cases item with
    | rule r => exact congrArg (Item.rule r :: ·) hrest
    | separator => exact absurd rfl hseparator.1
    | atom value => exact absurd rfl (hvalue value).1

/-- Where rules and separators take turns and a rule comes last, the items are the rules with
separators between them. -/
theorem separated_filterMap_rule : ∀ {items : List Item}, (∀ value, Item.atom value ∉ items) →
    FitBefore items items.length → items.length % 2 = 1 →
    separated ((items.filterMap rule?).map .rule) = items
  | [], _, _, hodd => absurd hodd Nat.zero_ne_one
  | [.rule r], _, _, _ => rfl
  | [.separator], _, hfit, _ => absurd ((hfit 0 Nat.one_pos _ rfl).1 rfl) (by decide)
  | [.atom value], hvalue, _, _ => absurd List.mem_cons_self (hvalue value)
  | .separator :: _ :: _, _, hfit, _ => absurd ((hfit 0 (Nat.succ_pos _) _ rfl).1 rfl) (by decide)
  | .atom value :: _ :: _, hvalue, _, _ => absurd List.mem_cons_self (hvalue value)
  | .rule r :: between :: rest, hvalue, hfit, hodd => by
    have hbetween : between = .separator := (hfit 1 (by simp) between rfl).2 rfl
    have hleft : rest.length % 2 = 1 := by
      rw [List.length_cons, List.length_cons] at hodd
      omega
    have hrest : separated ((rest.filterMap rule?).map .rule) = rest := by
      refine separated_filterMap_rule (fun value hmem => hvalue value (by simp [hmem])) ?_ hleft
      intro place hplace item hitem
      have hshifted := hfit (place + 2) (by simp [hplace]) item hitem
      rwa [Fits, Nat.add_mod_right] at hshifted
    have hfilter : (Item.rule r :: .separator :: rest).filterMap rule? = r :: rest.filterMap rule? :=
      rfl
    rw [hbetween, hfilter]
    cases hparts : rest.filterMap rule? with
    | nil =>
      rw [hparts] at hrest
      rw [← hrest] at hleft
      cases hleft
    | cons part parts =>
      rw [hparts] at hrest
      exact congrArg (Item.rule r :: .separator :: ·) hrest

end Parts

/-! ## What comes of a list of items -/

section Composites

variable {items : List Item} {error other : DefinitionError}

/-- Rules without separators make a sequence. -/
theorem composite_of_rules (hnil : items ≠ []) (hatom : firstAtom? items = none)
    (hchoice : Item.separator ∉ items) : CallFor items (composite items) := by
  have hempty : items.isEmpty = false := List.isEmpty_eq_false_iff.2 hnil
  have hany : items.any isSeparator = false := Bool.eq_false_iff.2 (mt any_isSeparator_iff.1 hchoice)
  have hvalue := firstAtom?_none hatom
  have hlisting := map_filterMap_rule hvalue hchoice
  cases hparts : items.filterMap rule? with
  | nil =>
    rw [hparts] at hlisting
    exact absurd hlisting.symm hnil
  | cons first rest =>
    rw [hparts] at hlisting
    have hresult : composite items = .ok (.seq first rest) := by
      simp only [composite, hempty, hatom, hany, hparts, Bool.false_eq_true, if_false]
    rw [hresult]
    exact ⟨⟨hnil, hvalue, Or.inl hchoice⟩, hlisting, iff_of_false nofun hchoice⟩

/-- Rules and separators that all fit make a choice if a rule comes last. -/
theorem composite_of_fit (hnil : items ≠ []) (hatom : firstAtom? items = none)
    (hchoice : Item.separator ∈ items) (hmisplaced : firstMisplaced? 0 items = none) :
    CallFor items (composite items) := by
  have hempty : items.isEmpty = false := List.isEmpty_eq_false_iff.2 hnil
  have hany := any_isSeparator_iff.2 hchoice
  have hvalue := firstAtom?_none hatom
  have hfit : FitBefore items items.length := by
    intro place _ item hitem
    have hfits := firstMisplaced?_none hmisplaced place item hitem
    rwa [Nat.zero_add] at hfits
  rcases Nat.mod_two_eq_zero_or_one items.length with heven | hodd
  · have hresult : composite items = .error (.endsWithSeparator items) := by
      simp only [composite, hempty, hatom, hany, hmisplaced, heven, Bool.false_eq_true, if_false,
        if_true]
      rcases items.filterMap rule? with _ | ⟨first, _ | ⟨second, rest⟩⟩
      · rfl
      · rfl
      · rfl
    rw [hresult]
    exact .endsWithSeparator hvalue hchoice hfit heven
  · have hlisting := separated_filterMap_rule hvalue hfit hodd
    rcases hparts : items.filterMap rule? with _ | ⟨first, _ | ⟨second, rest⟩⟩
    · rw [hparts] at hlisting
      exact absurd hlisting.symm hnil
    · -- a single rule is no choice
      rw [hparts] at hlisting
      rw [← hlisting] at hchoice
      exact absurd (List.mem_singleton.1 hchoice) nofun
    · rw [hparts] at hlisting
      have hresult : composite items = .ok (.choice first second rest) := by
        simp only [composite, hempty, hatom, hany, hmisplaced, hodd, hparts, Bool.false_eq_true,
          if_false, if_true]
      rw [hresult]
      exact ⟨⟨hnil, hvalue, Or.inr ⟨hodd, hfit⟩⟩, hlisting, iff_of_true rfl hchoice⟩

/-- What comes of a list of items is what the items call for. -/
theorem callFor_composite (items : List Item) : CallFor items (composite items) := by
  by_cases hnil : items = []
  · subst hnil
    exact .empty rfl
  have hempty : items.isEmpty = false := List.isEmpty_eq_false_iff.2 hnil
  cases hatom : firstAtom? items with
  | some value =>
    obtain ⟨place, hplace, hleft⟩ := firstAtom?_some hatom
    have hresult : composite items = .error (.notARule value) := by
      simp only [composite, hempty, hatom, Bool.false_eq_true, if_false]
    rw [hresult]
    exact .notARule hplace hleft
  | none =>
    by_cases hchoice : Item.separator ∈ items
    · cases hmisplaced : firstMisplaced? 0 items with
      | some found =>
        obtain ⟨place, item, rfl, hitem, hmisfit, hleast⟩ := firstMisplaced?_some hmisplaced
        have hany := any_isSeparator_iff.2 hchoice
        have hresult : composite items = .error (.misplaced items (0 + place)) := by
          simp only [composite, hempty, hatom, hany, hmisplaced, Bool.false_eq_true, if_false,
            if_true]
        simp only [Nat.zero_add] at hresult hmisfit hleast
        rw [hresult]
        exact .misplaced (firstAtom?_none hatom) hchoice hitem hmisfit hleast
      | none => exact composite_of_fit hnil hatom hchoice hmisplaced
    · exact composite_of_rules hnil hatom hchoice

/-! ## Offences -/

omit [RegexLibrary] in
/-- There is one least place of a kind. -/
theorem eq_of_least (kind : Nat → Prop) {place later : Nat} (h : kind place) (h' : kind later)
    (hleast : ∀ earlier < place, ¬ kind earlier) (hleast' : ∀ earlier < later, ¬ kind earlier) :
    place = later := by
  apply Nat.le_antisymm
  · exact Nat.not_lt.1 fun hlt => hleast later hlt h'
  · exact Nat.not_lt.1 fun hlt => hleast' place hlt h

/-- A list has no two first offences. -/
theorem Offends.unique (h : Offends items error) (h' : Offends items other) : error = other := by
  cases h with
  | empty none =>
    subst none
    cases h' with
    | empty => rfl
    | notARule here => cases here
    | misplaced _ choice => exact absurd choice List.not_mem_nil
    | endsWithSeparator _ choice => exact absurd choice List.not_mem_nil
  | @notARule place value here leftmost =>
    have hmem : Item.atom value ∈ items := List.mem_of_getElem? here
    cases h' with
    | empty none => exact absurd (none ▸ hmem) List.not_mem_nil
    | @notARule later value' here' leftmost' =>
      have hplace : place = later := by
        refine eq_of_least (fun i => ∃ v, items[i]? = some (.atom v)) ⟨_, here⟩ ⟨_, here'⟩ ?_ ?_
        · exact fun earlier hearlier ⟨v, hv⟩ => leftmost earlier hearlier v hv
        · exact fun earlier hearlier ⟨v, hv⟩ => leftmost' earlier hearlier v hv
      rw [hplace, here'] at here
      cases here
      rfl
    | misplaced noValue => exact absurd hmem (noValue value)
    | endsWithSeparator noValue => exact absurd hmem (noValue value)
  | @misplaced place item noValue choice here misfit least =>
    cases h' with
    | empty none => exact absurd (none ▸ choice) List.not_mem_nil
    | @notARule _ value here' => exact absurd (List.mem_of_getElem? here') (noValue value)
    | @misplaced later item' _ _ here' misfit' least' =>
      have hplace : place = later := by
        refine eq_of_least (fun i => ∃ item, items[i]? = some item ∧ ¬ item.Fits i)
          ⟨_, here, misfit⟩ ⟨_, here', misfit'⟩ ?_ ?_
        · exact fun earlier hearlier ⟨item, hitem, hnot⟩ => hnot (least earlier hearlier item hitem)
        · exact fun earlier hearlier ⟨item, hitem, hnot⟩ => hnot (least' earlier hearlier item hitem)
      rw [hplace]
    | endsWithSeparator _ _ turns =>
      have hlt : place < items.length := (List.getElem?_eq_some_iff.1 here).1
      exact absurd (turns place hlt item here) misfit
  | endsWithSeparator noValue choice turns =>
    cases h' with
    | empty none => exact absurd (none ▸ choice) List.not_mem_nil
    | @notARule _ value here' => exact absurd (List.mem_of_getElem? here') (noValue value)
    | @misplaced later item' _ _ here' misfit' =>
      have hlt : later < items.length := (List.getElem?_eq_some_iff.1 here').1
      exact absurd (turns later hlt item' here') misfit'
    | endsWithSeparator => rfl

/-- An error says of the items for what they are refused, and where. -/
theorem Offends.explains (h : Offends items error) : Explains items error.message error := by
  cases h with
  | empty => rfl
  | notARule => rfl
  | misplaced => rfl
  | endsWithSeparator => rfl

/-- What makes a composite has no offence. -/
theorem Composes.not_offends (h : Composes items) : ¬ Offends items error := by
  intro hoffends
  cases hoffends with
  | empty none => exact h.nonempty none
  | @notARule _ value here => exact h.noValue value (List.mem_of_getElem? here)
  | @misplaced place item _ choice here misfit =>
    rcases h.turns with hnone | ⟨_, hturns⟩
    · exact hnone choice
    · exact misfit (hturns place (List.getElem?_eq_some_iff.1 here).1 item here)
  | endsWithSeparator _ choice _ even =>
    rcases h.turns with hnone | ⟨hodd, _⟩
    · exact hnone choice
    · rw [even] at hodd
      cases hodd

/-- A composite is made of the items if and only if they make one. -/
theorem composite_eq_ok_iff : (∃ built, composite items = .ok built) ↔ Composes items := by
  have hcall := callFor_composite items
  cases hresult : composite items with
  | ok built =>
    rw [hresult] at hcall
    exact iff_of_true ⟨built, rfl⟩ hcall.1
  | error found =>
    rw [hresult] at hcall
    exact iff_of_false nofun fun hcomposes => hcomposes.not_offends hcall

/-- An error is the answer to the items if and only if it is their first offence. -/
theorem composite_eq_error_iff : composite items = .error error ↔ Offends items error := by
  have hcall := callFor_composite items
  cases hresult : composite items with
  | ok built =>
    rw [hresult] at hcall
    exact iff_of_false nofun hcall.1.not_offends
  | error found =>
    rw [hresult] at hcall
    constructor
    · rintro ⟨⟩
      exact hcall
    · exact fun hoffends => congrArg Except.error (hcall.unique hoffends)

theorem of_composite_eq_ok {built : Rule} (h : composite items = .ok built) :
    built.listing = items ∧ (built.isChoice = true ↔ Item.separator ∈ items) := by
  have hcall := callFor_composite items
  rw [h] at hcall
  exact hcall.2

end Composites

/-! ## Sequences and choices -/

section Builders

variable {items : List Item}

/-- An item that is neither a separator nor a plain value is a rule. -/
theorem isRule_iff {item : Item} : (∃ rule, item = .rule rule) ↔
    item ≠ .separator ∧ ∀ value, item ≠ .atom value := by
  cases item with
  | rule r => exact iff_of_true ⟨r, rfl⟩ ⟨nofun, nofun⟩
  | separator => exact iff_of_false nofun fun h => h.1 rfl
  | atom value => exact iff_of_false nofun fun h => h.2 value rfl

/-- Items without separators make a composite if and only if they are rules. -/
theorem composes_iff_of_not_mem (hnil : items ≠ []) (hseparator : Item.separator ∉ items) :
    Composes items ↔ ∀ item ∈ items, ∃ rule, item = .rule rule := by
  constructor
  · intro h item hitem
    refine isRule_iff.2 ⟨?_, ?_⟩
    · rintro rfl
      exact hseparator hitem
    · rintro value rfl
      exact h.noValue value hitem
  · intro h
    refine ⟨hnil, fun value hvalue => ?_, Or.inl hseparator⟩
    obtain ⟨_, hrule⟩ := h _ hvalue
    cases hrule

/-- What stands among items with separators between them: an item at an even place, a separator at
an odd one. -/
theorem separated_cases {place : Nat} {item : Item} (h : (separated items)[place]? = some item) :
    (∃ i, place = 2 * i ∧ items[i]? = some item) ∨ place % 2 = 1 ∧ item = .separator := by
  rcases Nat.mod_two_eq_zero_or_one place with heven | hodd
  · have hplace : place = 2 * (place / 2) := by omega
    rw [hplace, separated_getElem?] at h
    exact Or.inl ⟨place / 2, hplace, h⟩
  · have hplace : place = 2 * (place / 2) + 1 := by omega
    rw [hplace, separated_getElem?_odd] at h
    split at h
    · exact Or.inr ⟨hodd, (Option.some.inj h).symm⟩
    · cases h

theorem mem_separated {item : Item} (h : item ∈ items) : item ∈ separated items := by
  obtain ⟨i, hi⟩ := List.getElem?_of_mem h
  exact List.mem_of_getElem? ((separated_getElem? items i).trans hi)

theorem separator_mem_separated (h : 2 ≤ items.length) : Item.separator ∈ separated items := by
  have hfirst := separated_getElem?_odd items 0
  rw [if_pos (by omega)] at hfirst
  exact List.mem_of_getElem? hfirst

/-- With separators put between them items make a composite if and only if they are rules. -/
theorem composes_separated_iff (hnil : items ≠ []) :
    Composes (separated items) ↔ ∀ item ∈ items, ∃ rule, item = .rule rule := by
  constructor
  · intro h item hitem
    refine isRule_iff.2 ⟨?_, ?_⟩
    · rintro rfl
      obtain ⟨i, hi⟩ := List.getElem?_of_mem hitem
      rcases h.turns with hnone | ⟨_, hfit⟩
      · exact hnone (mem_separated hitem)
      · have hplace := (separated_getElem? items i).trans hi
        have hodd := (hfit _ (List.getElem?_eq_some_iff.1 hplace).1 _ hplace).1 rfl
        omega
    · rintro value rfl
      exact h.noValue value (mem_separated hitem)
  · intro h
    have hlength : 0 < items.length := List.length_pos_iff.2 hnil
    refine ⟨?_, fun value hvalue => ?_, Or.inr ⟨?_, fun place _ item hitem => ?_⟩⟩
    · rw [← List.length_pos_iff, length_separated]
      omega
    · obtain ⟨place, hplace⟩ := List.getElem?_of_mem hvalue
      rcases separated_cases hplace with ⟨i, _, hi⟩ | ⟨_, hseparator⟩
      · obtain ⟨_, hrule⟩ := h _ (List.mem_of_getElem? hi)
        cases hrule
      · cases hseparator
    · rw [length_separated]
      omega
    · rcases separated_cases hitem with ⟨i, rfl, hi⟩ | ⟨hodd, hseparator⟩
      · obtain ⟨_, rfl⟩ := h _ (List.mem_of_getElem? hi)
        exact iff_of_false nofun (by omega)
      · exact iff_of_true hseparator hodd

/-- Two or more items are not handed back as they are. -/
theorem sequence_of_length (h : 2 ≤ items.length) :
    sequence items = (composite items).map .rule := by
  match items, h with
  | _ :: _ :: _, _ => rfl

theorem choice_of_length (h : 2 ≤ items.length) :
    choice items = (composite (separated items)).map .rule := by
  match items, h with
  | _ :: _ :: _, _ => rfl

theorem map_eq_ok_iff {found : Except DefinitionError Rule} {built : Item} :
    found.map .rule = .ok built ↔ ∃ rule, found = .ok rule ∧ built = .rule rule := by
  cases found with
  | error error => exact iff_of_false nofun nofun
  | ok rule =>
    constructor
    · rintro ⟨⟩
      exact ⟨rule, rfl, rfl⟩
    · rintro ⟨_, ⟨⟩, rfl⟩
      rfl

/-- Something is built of a composite if and only if its items make one. -/
theorem exists_map_composite_iff :
    (∃ built : Item, (composite items).map .rule = .ok built) ↔ Composes items := by
  rw [← composite_eq_ok_iff]
  constructor
  · rintro ⟨_, hbuilt⟩
    obtain ⟨rule, hrule, _⟩ := map_eq_ok_iff.1 hbuilt
    exact ⟨rule, hrule⟩
  · rintro ⟨rule, hrule⟩
    exact ⟨.rule rule, map_eq_ok_iff.2 ⟨rule, hrule, rfl⟩⟩

theorem ne_nil_of_length (h : 2 ≤ items.length) : items ≠ [] := by
  rintro rfl
  cases h

/-- A sequence of items without separators is built if and only if they are rules, and lists them. -/
theorem sequence_of_items (hlength : 2 ≤ items.length) (hseparator : Item.separator ∉ items) :
    ((∃ built, sequence items = .ok built) ↔ ∀ item ∈ items, ∃ rule, item = .rule rule) ∧
      ∀ built, sequence items = .ok built →
        ∃ rule, built = .rule rule ∧ rule.isChoice = false ∧ rule.listing = items := by
  rw [sequence_of_length hlength, exists_map_composite_iff,
    composes_iff_of_not_mem (ne_nil_of_length hlength) hseparator]
  refine ⟨Iff.rfl, fun built hbuilt => ?_⟩
  obtain ⟨rule, hrule, rfl⟩ := map_eq_ok_iff.1 hbuilt
  obtain ⟨hlisting, hchoice⟩ := of_composite_eq_ok hrule
  exact ⟨rule, rfl, Bool.eq_false_iff.2 (mt hchoice.1 hseparator), hlisting⟩

/-- A choice between two or more items is built if and only if they are rules, and has them at the even
places of its listing. -/
theorem choice_of_items (hlength : 2 ≤ items.length) :
    ((∃ built, choice items = .ok built) ↔ ∀ item ∈ items, ∃ rule, item = .rule rule) ∧
      ∀ built, choice items = .ok built →
        ∃ rule, built = .rule rule ∧ rule.isChoice = true ∧ ∀ i, rule.listing[2 * i]? = items[i]? := by
  rw [choice_of_length hlength, exists_map_composite_iff,
    composes_separated_iff (ne_nil_of_length hlength)]
  refine ⟨Iff.rfl, fun built hbuilt => ?_⟩
  obtain ⟨rule, hrule, rfl⟩ := map_eq_ok_iff.1 hbuilt
  obtain ⟨hlisting, hchoice⟩ := of_composite_eq_ok hrule
  refine ⟨rule, rfl, hchoice.2 (separator_mem_separated hlength), fun i => ?_⟩
  rw [hlisting]
  exact separated_getElem? items i

end Builders

/-- What is made of a list of items, whatever they are. A composite is made if and only if they make
one, and then it lists them; an error is the answer if and only if it is their first offence, and its
message says which and where. Two or more items make a choice if and only if they are rules, and so does
a sequence of items without separators. -/
theorem composite_of_items (items : List Item) :
    ((∃ built, composite items = .ok built) ↔ Composes items) ∧
      (∀ built, composite items = .ok built →
        built.listing = items ∧ (built.isChoice = true ↔ Item.separator ∈ items)) ∧
      (∀ error, composite items = .error error ↔ Offends items error) ∧
      (∀ error, composite items = .error error → Explains items error.message error) ∧
      (2 ≤ items.length →
        ((∃ built, choice items = .ok built) ↔ ∀ item ∈ items, ∃ rule, item = .rule rule) ∧
        ∀ built, choice items = .ok built → ∃ rule, built = .rule rule ∧ rule.isChoice = true ∧
          ∀ i, rule.listing[2 * i]? = items[i]?) ∧
      (2 ≤ items.length → Item.separator ∉ items →
        ((∃ built, sequence items = .ok built) ↔ ∀ item ∈ items, ∃ rule, item = .rule rule) ∧
        ∀ built, sequence items = .ok built →
          ∃ rule, built = .rule rule ∧ rule.isChoice = false ∧ rule.listing = items) :=
  ⟨composite_eq_ok_iff, fun _ => of_composite_eq_ok, fun _ => composite_eq_error_iff,
    fun _ herror => (composite_eq_error_iff.1 herror).explains, choice_of_items, sequence_of_items⟩

/-- Two rules, of which a sequence and a choice can be made. -/
def samplePair : List Item := [.rule (.ref "a"), .rule (.ref "b")]

end Item

end AnyLibrary

namespace Item

theorem composite_of_items_sample :
    (∃ rule, composite samplePair = .ok rule ∧ rule.listing = samplePair) ∧
      2 ≤ samplePair.length ∧ Item.separator ∉ samplePair ∧
      (∃ rule, choice samplePair = .ok (.rule rule) ∧ rule.isChoice = true) ∧
      (∃ rule, sequence samplePair = .ok (.rule rule) ∧ rule.listing = samplePair) ∧
      ∃ error, composite (samplePair ++ [.separator]) = .error error ∧
        error.message = "PEG: malformed choice (Reference(name='a') Reference(name='b') ALT): " ++
          "branches must be single elements separated by ALT (offending element #1)" := by
  obtain ⟨hcomposite, hlists, _, _, hchoice, hsequence⟩ := composite_of_items samplePair
  have hlength : 2 ≤ samplePair.length := Nat.le_refl 2
  have hseparator : Item.separator ∉ samplePair := by decide
  have hrules : ∀ item ∈ samplePair, ∃ rule, item = Item.rule rule := by
    simp [samplePair]
  obtain ⟨hiff, hbranches⟩ := hchoice hlength
  obtain ⟨hiff', hparts⟩ := hsequence hlength hseparator
  obtain ⟨built, hbuilt⟩ := hiff.2 hrules
  obtain ⟨branched, rfl, hbranched, _⟩ := hbranches built hbuilt
  obtain ⟨built, hrow⟩ := hiff'.2 hrules
  obtain ⟨row, rfl, _, hlisting⟩ := hparts built hrow
  refine ⟨⟨.seq (.ref "a") [.ref "b"], rfl, (hlists _ rfl).1⟩, hlength, hseparator, ?_, ?_, ?_⟩
  · exact ⟨branched, hbuilt, hbranched⟩
  · exact ⟨row, hrow, hlisting⟩
  · exact ⟨_, rfl, by decide +kernel⟩

end Item

end PegMachine
