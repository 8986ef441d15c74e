import PegMachine.Machine.Event
import PegMachine.Proofs.Composites
import PegMachine.Proofs.Framing
import PegMachine.Proofs.Quotations
import PegMachine.Regex.Backtracking

/-!
# Written forms

Rules, and the separator that stands between the branches of a choice, are written alike only if they
are the same (`Item.written_apart`). A quoted text ends with its quote, so nothing that is quoted has a
say in where a written form ends, whatever it looks like. All else is told by what a part begins with:
matchers and rules by the letter of their kind or a parenthesis, the separator by a letter that no rule
begins with. So sequences, choices and lists of items are told apart as rows are.
-/

namespace PegMachine

section AnyLibrary

variable [RegexLibrary]

/-! ## Matchers -/

section Matchers

omit [RegexLibrary] in
theorem apart_quote (s t : String) : Apart (fun s : String => Text.quote s.toList) s t := by
  intro x y h
  simp only [Text.quote, String.toList_ofList] at h
  obtain ⟨htext, hbehind⟩ := Text.Quoted.quoted_append_inj h
  exact ⟨String.toList_inj.1 htext, hbehind⟩

omit [RegexLibrary] in
/-- A quoted text begins with one of the quotes. -/
theorem head_quote (s : String) : ∃ c rest, (Text.quote s.toList).toList = c :: rest ∧ c ≠ ')' := by
  rw [Text.quote, String.toList_ofList]
  refine ⟨_, _, rfl, ?_⟩
  rcases Text.Quoted.quoteFor_eq s.toList with h | h <;> rw [h] <;> decide

omit [RegexLibrary] in
theorem apart_renderBool (a b : Bool) : Apart renderBool a b := by
  intro x y h
  cases a <;> cases b
  · exact ⟨rfl, List.append_cancel_left h⟩
  · cases h
  · cases h
  · exact ⟨rfl, List.append_cancel_left h⟩

namespace CharClass

omit [RegexLibrary]

/-- The written form of a range. -/
def renderRange (r : Int × Int) : String := renderTuple [toString r.1, toString r.2]

theorem toList_renderRange (r : Int × Int) :
    (renderRange r).toList =
      '(' :: ((toString r.1).toList ++ ',' :: ' ' :: ((toString r.2).toList ++ [')'])) := by
  rw [renderRange, toList_renderTuple, tupleRest, closing_cons]
  rfl

theorem apart_renderRange (r s : Int × Int) : Apart renderRange r s := by
  intro x y h
  simp only [toList_renderRange, List.cons_append, List.nil_append, List.append_assoc] at h
  obtain ⟨hlow, hmore⟩ := toString_append_inj (by decide) (by decide) (List.cons.inj h).2
  obtain ⟨hhigh, hbehind⟩ := toString_append_inj (by decide) (by decide) (List.cons.inj hmore).2
  exact ⟨Prod.ext hlow hhigh, hbehind⟩

theorem apart_render (cls other : CharClass) : Apart render cls other := by
  intro x y h
  unfold render at h
  simp only [String.toList_append, List.append_assoc] at h
  obtain ⟨hnegated, h⟩ := apart_renderBool _ _ (List.append_cancel_left h)
  obtain ⟨hranges, h⟩ := renderTuple_append_inj apart_renderRange
    (fun r => ⟨_, _, toList_renderRange r, by decide⟩) (List.append_cancel_left h)
  obtain ⟨hsingles, h⟩ := renderTuple_append_inj apart_quote head_quote (List.append_cancel_left h)
  refine ⟨?_, List.append_cancel_left h⟩
  cases cls
  cases other
  rw [CharClass.mk.injEq]
  exact ⟨hnegated, hranges, hsingles⟩

end CharClass

namespace Matcher

/-- The first character of the written form. -/
def initial : Matcher → Char
  | .literal _ => 'L'
  | .regex _ => 'R'
  | .charClass _ => 'C'
  | .anyChar => 'A'

theorem toList_render (matcher : Matcher) :
    ∃ rest, matcher.render.toList = matcher.initial :: rest := by
  cases matcher with
  | literal s =>
    unfold render
    simp only [String.toList_append, List.append_assoc]
    exact ⟨_, rfl⟩
  | regex r =>
    unfold render
    simp only [String.toList_append, List.append_assoc]
    exact ⟨_, rfl⟩
  | charClass cls =>
    unfold render CharClass.render
    simp only [String.toList_append, List.append_assoc]
    exact ⟨_, rfl⟩
  | anyChar =>
    have hname : "AnyChar()".toList = 'A' :: "nyChar()".toList := rfl
    exact ⟨_, hname⟩

/-- Matchers are told apart by the names of their kinds and then by what they are made of. -/
theorem apart_render (a b : Matcher) : Apart render a b := by
  intro x y h
  have hkind : a.initial = b.initial := by
    obtain ⟨_, ha⟩ := a.toList_render
    obtain ⟨_, hb⟩ := b.toList_render
    rw [ha, hb] at h
    exact (List.cons.inj h).1
  cases a with
  | literal s =>
    cases b with
    | literal t =>
      unfold render at h
      simp only [String.toList_append, List.append_assoc] at h
      obtain ⟨rfl, hrest⟩ := apart_quote _ _ (List.append_cancel_left h)
      exact ⟨rfl, List.append_cancel_left hrest⟩
    | regex | charClass | anyChar => simp [initial] at hkind
  | regex r =>
    cases b with
    | regex s =>
      unfold render at h
      simp only [String.toList_append, List.append_assoc] at h
      obtain ⟨hpattern, h⟩ := apart_quote _ _ (List.append_cancel_left h)
      obtain ⟨hflags, h⟩ := apart_quote _ _ (List.append_cancel_left h)
      exact ⟨congrArg regex (Regex.ext_source hpattern hflags), List.append_cancel_left h⟩
    | literal | charClass | anyChar => simp [initial] at hkind
  | charClass cls =>
    cases b with
    | charClass other =>
      obtain ⟨rfl, hbehind⟩ := CharClass.apart_render cls other h
      exact ⟨rfl, hbehind⟩
    | literal | regex | anyChar => simp [initial] at hkind
  | anyChar =>
    cases b with
    | anyChar => exact ⟨rfl, List.append_cancel_left h⟩
    | literal | regex | charClass => simp [initial] at hkind

end Matcher

end Matchers

/-! ## Rules -/

namespace Rule

/-- The first character of the written form. -/
def initial : Rule → Char
  | .ref _ => 'R'
  | .terminal _ => 'T'
  | .seq .. => '('
  | .choice .. => '('

theorem toList_renderRest (between : String) (rest : List Rule) :
    (renderRest between rest).toList ++ [')'] = closing between (rest.map render) := by
  induction rest with
  | nil =>
    unfold renderRest
    rfl
  | cons rule rest ih =>
    unfold renderRest
    rw [String.toList_append, String.toList_append, List.append_assoc, List.append_assoc, ih,
      List.map_cons, closing_cons]

theorem toList_render_seq (first : Rule) (rest : List Rule) :
    (seq first rest).render.toList =
      '(' :: (first.render.toList ++ closing " " (rest.map render)) := by
  have hwritten : (seq first rest).render =
      "(" ++ first.render ++ renderRest " " rest ++ ")" := rfl
  rw [hwritten, ← toList_renderRest]
  simp only [String.toList_append, List.append_assoc]
  rfl

theorem toList_render_choice (first second : Rule) (rest : List Rule) :
    (choice first second rest).render.toList =
      '(' :: (first.render.toList ++ closing " ALT " ((second :: rest).map render)) := by
  have hwritten : (choice first second rest).render =
      "(" ++ first.render ++ " ALT " ++ second.render ++ renderRest " ALT " rest ++ ")" := rfl
  rw [hwritten, List.map_cons, closing_cons, ← toList_renderRest]
  simp only [String.toList_append, List.append_assoc]
  rfl

theorem toList_render (rule : Rule) : ∃ rest, rule.render.toList = rule.initial :: rest := by
  cases rule with
  | ref name =>
    unfold render
    simp only [String.toList_append, List.append_assoc]
    exact ⟨_, rfl⟩
  | terminal matcher =>
    unfold render
    simp only [String.toList_append, List.append_assoc]
    exact ⟨_, rfl⟩
  | seq first rest => exact ⟨_, toList_render_seq first rest⟩
  | choice first second rest => exact ⟨_, toList_render_choice first second rest⟩

theorem initial_eq {rule other : Rule} {x y : List Char}
    (h : rule.render.toList ++ x = other.render.toList ++ y) : rule.initial = other.initial := by
  obtain ⟨_, hrule⟩ := rule.toList_render
  obtain ⟨_, hother⟩ := other.toList_render
  rw [hrule, hother] at h
  exact (List.cons.inj h).1

/-- Rules begin with another character than the separator. -/
theorem initial_ne (rule : Rule) : rule.initial ≠ 'A' := by
  cases rule <;> simp [initial]

/-- The parts of a sequence do not go on as the branches of a choice do. -/
theorem closing_ne (rest branches : List Rule) (second : Rule) (x y : List Char) :
    closing " " (rest.map render) ++ x ≠ closing " ALT " ((second :: branches).map render) ++ y := by
  intro h
  cases rest with
  | nil => cases h
  | cons rule rest =>
    obtain ⟨more, hrule⟩ := rule.toList_render
    rw [List.map_cons, List.map_cons, closing_cons, closing_cons, hrule] at h
    exact rule.initial_ne (List.cons.inj (List.cons.inj h).2).1

/-- Rules are told apart by what they begin with and then by their parts. -/
theorem apart_render (rule other : Rule) : Apart render rule other := by
  have hspace : ∃ c rest, (" " : String).toList = c :: rest ∧ c ≠ ')' := ⟨' ', [], rfl, by decide⟩
  have hseparator : ∃ c rest, (" ALT " : String).toList = c :: rest ∧ c ≠ ')' :=
    ⟨' ', _, rfl, by decide⟩
  -- the other rule varies along, since each part is compared with whatever stands in its place
  induction rule using induct_parts generalizing other with
  | ref name =>
    intro x y h
    have hkind := initial_eq h
    cases other with
    | ref name' =>
      unfold render at h
      simp only [String.toList_append, List.append_assoc] at h
      obtain ⟨rfl, hrest⟩ := apart_quote _ _ (List.append_cancel_left h)
      exact ⟨rfl, List.append_cancel_left hrest⟩
    | terminal | seq | choice => simp [initial] at hkind
  | terminal matcher =>
    intro x y h
    have hkind := initial_eq h
    cases other with
    | terminal matcher' =>
      unfold render at h
      simp only [String.toList_append, List.append_assoc] at h
      obtain ⟨rfl, hrest⟩ := Matcher.apart_render _ _ (List.append_cancel_left h)
      exact ⟨rfl, List.append_cancel_left hrest⟩
    | ref | seq | choice => simp [initial] at hkind
  | seq first rest ihfirst ihrest =>
    intro x y h
    have hkind := initial_eq h
    cases other with
    | seq first' rest' =>
      rw [toList_render_seq, toList_render_seq, List.cons_append, List.cons_append,
        List.append_assoc, List.append_assoc] at h
      obtain ⟨rfl, hmore⟩ := ihfirst first' (List.cons.inj h).2
      obtain ⟨rfl, hbehind⟩ := closing_append_inj hspace (fun r hr s _ => ihrest r hr s) hmore
      exact ⟨rfl, hbehind⟩
    | choice first' second rest' =>
      -- the two share their first part, and behind it a sequence does not go on as a choice does
      rw [toList_render_seq, toList_render_choice, List.cons_append, List.cons_append,
        List.append_assoc, List.append_assoc] at h
      exact absurd (ihfirst first' (List.cons.inj h).2).2 (closing_ne _ _ _ _ _)
    | ref | terminal => simp [initial] at hkind
  | choice first second rest ihfirst ihsecond ihrest =>
    intro x y h
    have hkind := initial_eq h
    cases other with
    | choice first' second' rest' =>
      rw [toList_render_choice, toList_render_choice, List.cons_append, List.cons_append,
        List.append_assoc, List.append_assoc] at h
      obtain ⟨rfl, hmore⟩ := ihfirst first' (List.cons.inj h).2
      obtain ⟨hbranches, hbehind⟩ := closing_append_inj hseparator
        (fun r hr s _ => (List.mem_cons.1 hr).elim (fun hr => hr ▸ ihsecond s) (ihrest r · s)) hmore
      obtain ⟨rfl, rfl⟩ := List.cons.inj hbranches
      exact ⟨rfl, hbehind⟩
    | seq first' rest' =>
      rw [toList_render_seq, toList_render_choice, List.cons_append, List.cons_append,
        List.append_assoc, List.append_assoc] at h
      exact absurd (ihfirst first' (List.cons.inj h).2).2.symm (closing_ne _ _ _ _ _)
    | ref | terminal => simp [initial] at hkind

end Rule

/-! ## Elements of composites -/

namespace Item

/-- What a composite may be made of: rules, and the separator between branches. -/
def Element : Type := { item : Item // ∀ value, item ≠ .atom value }

namespace Element

/-- The written form of an element. -/
def render (element : Element) : String := element.val.render

theorem toList_render (element : Element) :
    ∃ c rest, element.render.toList = c :: rest ∧ c ≠ ')' := by
  obtain ⟨item, hitem⟩ := element
  cases item with
  | rule r =>
    obtain ⟨rest, hrule⟩ := r.toList_render
    refine ⟨_, rest, hrule, ?_⟩
    cases r <;> simp [Rule.initial]
  | separator =>
    have hwritten : "ALT".toList = ['A', 'L', 'T'] := rfl
    exact ⟨'A', ['L', 'T'], hwritten, by decide⟩
  | atom value => exact absurd rfl (hitem value)

/-- Elements are told apart: no rule begins as the separator does. -/
theorem apart_render (a b : Element) : Apart render a b := by
  have hother : ∀ (r : Rule) (x y : List Char), r.render.toList ++ x ≠ "ALT".toList ++ y := by
    intro r x y h
    obtain ⟨_, hrule⟩ := r.toList_render
    rw [hrule] at h
    exact r.initial_ne (List.cons.inj h).1
  intro x y h
  obtain ⟨item, ha⟩ := a
  obtain ⟨other, hb⟩ := b
  cases item with
  | rule r =>
    cases other with
    | rule s =>
      obtain ⟨rfl, hbehind⟩ := r.apart_render s h
      exact ⟨rfl, hbehind⟩
    | separator => exact absurd h (hother r x y)
    | atom value => exact absurd rfl (hb value)
  | separator =>
    cases other with
    | rule s => exact absurd h.symm (hother s y x)
    | separator => exact ⟨rfl, List.append_cancel_left h⟩
    | atom value => exact absurd rfl (hb value)
  | atom value => exact absurd rfl (ha value)

end Element

/-- Lists of elements of one composite are told apart. -/
theorem renderAll_append_inj {elements others : List Element} {x y : List Char}
    (h : (renderAll (elements.map (·.val))).toList ++ x =
      (renderAll (others.map (·.val))).toList ++ y) : elements = others ∧ x = y := by
  have hwritten : ∀ elements : List Element, renderAll (elements.map (·.val)) =
      parenthesized " " (elements.map Element.render) := by
    intro elements
    rw [renderAll, List.map_map]
    rfl
  rw [hwritten, hwritten] at h
  refine row_append_inj rfl (toList_parenthesized " ") Element.apart_render Element.toList_render
    (fun {as bs x y} hafter => ?_) h
  exact closing_append_inj ⟨' ', [], rfl, by decide⟩ (fun a _ b _ => a.apart_render b) hafter

/-- What a rule lists are elements of composites, from any place on. -/
theorem exists_elements (rule : Rule) (place : Nat) :
    ∃ elements : List Element, elements.map (·.val) = rule.listing.drop place := by
  have hlisting : ∀ item ∈ rule.listing.drop place, ∀ value, item ≠ .atom value := by
    rintro item hitem value rfl
    have hmem := List.mem_of_mem_drop hitem
    have hparts : Item.atom value ∉ rule.parts.map .rule := by simp
    rw [Rule.listing] at hmem
    split at hmem
    · obtain ⟨place, hplace⟩ := List.getElem?_of_mem hmem
      rcases separated_cases hplace with ⟨i, _, hi⟩ | ⟨_, hseparator⟩
      · exact hparts (List.mem_of_getElem? hi)
      · cases hseparator
    · exact hparts hmem
  exact ⟨(rule.listing.drop place).attachWith _ hlisting, List.attachWith_map_subtype_val hlisting⟩

/-- Other items than plain values are the same if and only if they are equal. -/
theorem same_iff {a b : Item} (h : ∀ value, a ≠ .atom value) : a.same b = true ↔ a = b := by
  cases a with
  | atom value => exact absurd rfl (h value)
  | rule r => exact beq_iff_eq
  | separator => exact beq_iff_eq

/-! ## Messages -/

theorem toList_message_misplaced (items : List Item) (place : Nat) :
    ∃ rest, (DefinitionError.misplaced items place).message.toList =
      "PEG: malformed choice ".toList ++ ((renderAll items).toList ++ rest) := by
  unfold DefinitionError.message
  simp only [String.toList_append, List.append_assoc]
  exact ⟨_, rfl⟩

theorem toList_message_endsWithSeparator (items : List Item) :
    ∃ rest, (DefinitionError.endsWithSeparator items).message.toList =
      "PEG: choice ".toList ++ ((renderAll items).toList ++ rest) := by
  unfold DefinitionError.message
  simp only [String.toList_append, List.append_assoc]
  exact ⟨_, rfl⟩

/-- What an error says of the elements that it refuses. Its sixth character tells which error it is. -/
theorem Offends.toList_message {elements : List Element} {error : DefinitionError}
    (h : Offends (elements.map (·.val)) error) :
    ∃ kind rest, error.message.toList[5]? = some kind ∧
      (kind = 'e' ∧ elements = [] ∨
        kind = 'm' ∧ error.message.toList =
          "PEG: malformed choice ".toList ++ ((renderAll (elements.map (·.val))).toList ++ rest) ∨
        kind = 'c' ∧ error.message.toList =
          "PEG: choice ".toList ++ ((renderAll (elements.map (·.val))).toList ++ rest)) := by
  cases h with
  | empty hnil =>
    have hkind : "PEG: empty composite".toList[5]? = some 'e' := rfl
    exact ⟨'e', [], hkind, Or.inl ⟨rfl, List.map_eq_nil_iff.1 hnil⟩⟩
  | notARule here =>
    obtain ⟨element, _, hvalue⟩ := List.mem_map.1 (List.mem_of_getElem? here)
    exact absurd hvalue (element.property _)
  | misplaced =>
    obtain ⟨rest, hrest⟩ := toList_message_misplaced (elements.map (·.val)) _
    refine ⟨'m', rest, ?_, Or.inr (Or.inl ⟨rfl, hrest⟩)⟩
    rw [hrest]
    rfl
  | endsWithSeparator =>
    obtain ⟨rest, hrest⟩ := toList_message_endsWithSeparator (elements.map (·.val))
    refine ⟨'c', rest, ?_, Or.inr (Or.inr ⟨rfl, hrest⟩)⟩
    rw [hrest]
    rfl

/-- Lists of elements are refused in the same words only if they are the same. -/
theorem Offends.eq_of_message_eq {elements others : List Element} {error other : DefinitionError}
    (h : Offends (elements.map (·.val)) error) (h' : Offends (others.map (·.val)) other)
    (hsame : error.message = other.message) : elements = others := by
  obtain ⟨kind, rest, hkind, hmessage⟩ := h.toList_message
  obtain ⟨kind', rest', hkind', hmessage'⟩ := h'.toList_message
  rw [hsame] at hkind hmessage
  obtain rfl : kind' = kind := Option.some.inj (hkind'.symm.trans hkind)
  rcases hmessage with ⟨rfl, rfl⟩ | ⟨rfl, hrow⟩ | ⟨rfl, hrow⟩
  · rcases hmessage' with ⟨-, rfl⟩ | ⟨hother, -⟩ | ⟨hother, -⟩
    · rfl
    · exact absurd hother (by decide)
    · exact absurd hother (by decide)
  · rcases hmessage' with ⟨hother, -⟩ | ⟨-, hrow'⟩ | ⟨hother, -⟩
    · exact absurd hother (by decide)
    · exact (renderAll_append_inj (List.append_cancel_left (hrow.symm.trans hrow'))).1
    · exact absurd hother (by decide)
  · rcases hmessage' with ⟨hother, -⟩ | ⟨hother, -⟩ | ⟨-, hrow'⟩
    · exact absurd hother (by decide)
    · exact absurd hother (by decide)
    · exact (renderAll_append_inj (List.append_cancel_left (hrow.symm.trans hrow'))).1

/-! ## Trace lines -/

theorem toList_text_pushed (item : Item) (offset depth : Nat) :
    ∃ rest, (Event.pushed item offset depth).text.toList =
      "[TRACE] push ".toList ++ (item.render.toList ++ rest) := by
  unfold Event.text
  simp only [String.toList_append, List.append_assoc]
  exact ⟨_, rfl⟩

/-- A place behind the end shows as much as the end. -/
theorem drop_clamp (items : List Item) (place : Nat) :
    items.drop (Text.clamp items.length place) = items.drop place := by
  by_cases h : place ≤ items.length
  · rw [Text.clamp_of_le h]
  · have hplace : Text.clamp items.length place = items.length := by
      unfold Text.clamp
      split <;> omega
    rw [hplace, List.drop_length, List.drop_eq_nil_of_le (by omega)]

/-- A choice that is resumed is shown from its place on, where the separator stands that follows the
branch that failed. -/
theorem toList_text_resumed {choice : Frame} {rule : Rule} (hitem : choice.item = .rule rule)
    (hchoice : rule.isChoice = true) :
    ∃ rest, (Event.resumed choice).text.toList = "[TRACE] resume choice ".toList ++
      ((renderAll (rule.listing.drop choice.place)).toList ++ rest) := by
  have hcomposite : rule.isComposite = true := by
    cases rule with
    | choice first second rest => rfl
    | ref | terminal | seq => cases hchoice
  rw [← drop_clamp]
  unfold Event.text Frame.render renderAt
  simp only [hitem, hcomposite, if_true, String.toList_append, List.append_assoc]
  exact ⟨_, rfl⟩

/-- Rules and the separator are written alike only if they are the same, whatever names, patterns and
texts they are made of. So lines that tell of a push tell of the same item, lines that tell of a choice
that is resumed show the same branches to come, and composites that are refused in the same words are
of the same elements. -/
theorem written_apart :
    (∀ a b : Element, (a.val.render = b.val.render ↔ a.val = b.val) ∧
      (a.val.same b.val = true ↔ a.val = b.val)) ∧
    (∀ (a b : Element) (offset depth offset' depth' : Nat),
      (Event.pushed a.val offset depth).text = (Event.pushed b.val offset' depth').text →
        a.val = b.val) ∧
    (∀ (choice other : Frame) (rule rule' : Rule), choice.item = .rule rule → rule.isChoice = true →
      other.item = .rule rule' → rule'.isChoice = true →
      (Event.resumed choice).text = (Event.resumed other).text →
        rule.listing.drop choice.place = rule'.listing.drop other.place) ∧
    ∀ (elements others : List Element) (error other : DefinitionError),
      composite (elements.map (·.val)) = .error error →
      composite (others.map (·.val)) = .error other →
      error.message = other.message → elements = others := by
  refine ⟨fun a b => ⟨?_, ?_⟩, ?_, ?_, ?_⟩
  · exact (a.apart_render b).write_eq_iff.trans Subtype.ext_iff
  · exact same_iff a.property
  · intro a b offset depth offset' depth' hsame
    obtain ⟨_, ha⟩ := toList_text_pushed a.val offset depth
    obtain ⟨_, hb⟩ := toList_text_pushed b.val offset' depth'
    rw [hsame, hb] at ha
    exact congrArg Subtype.val (b.apart_render a (List.append_cancel_left ha)).1.symm
  · intro choice other rule rule' hitem hchoice hitem' hchoice' hsame
    obtain ⟨_, hleft⟩ := toList_text_resumed hitem hchoice
    obtain ⟨_, hright⟩ := toList_text_resumed hitem' hchoice'
    obtain ⟨elements, helements⟩ := exists_elements rule choice.place
    obtain ⟨others, hothers⟩ := exists_elements rule' other.place
    rw [hsame, hright, ← helements, ← hothers] at hleft
    rw [← helements, ← hothers, (renderAll_append_inj (List.append_cancel_left hleft)).1]
  · intro elements others error other h h' hsame
    exact (composite_eq_error_iff.1 h).eq_of_message_eq (composite_eq_error_iff.1 h') hsame

theorem separator_ne_atom (value : Atom) : Item.separator ≠ .atom value :=
  nofun

/-- The separator is an element. -/
def Element.separator : Element := ⟨.separator, separator_ne_atom⟩

/-- A sequence of two rules. -/
def pair : Element := ⟨.rule (.seq (.ref "a") [.ref "b"]), nofun⟩

/-- A sequence of one rule, whose name looks like the middle of `pair`. -/
def impostor : Element := ⟨.rule (.seq (.ref "a') Reference(name='b") []), nofun⟩

/-- A choice behind whose first branch `pair` is left, at the separator between them. -/
def resumable (name : String) : Frame :=
  { item := .rule (.choice (.ref name) (.seq (.ref "a") [.ref "b"]) []), offset := 0, place := 1 }

end Item

end AnyLibrary

namespace Item

theorem written_apart_sample :
    impostor.val.render ≠ pair.val.render ∧
      (∃ built : Element, sequence [.rule (.ref "a"), .rule (.ref "b")] = .ok built.val ∧
        (Event.pushed built.val 0 0).text = (Event.pushed pair.val 0 0).text ∧
        built.val = pair.val ∧
        ∃ error other : DefinitionError, composite [built.val, .separator] = .error error ∧
          composite [pair.val, .separator] = .error other ∧ error.message = other.message ∧
          [built, .separator] = [pair, .separator]) ∧
      ∃ rule rule' : Rule, (resumable "c").item = .rule rule ∧ (resumable "d").item = .rule rule' ∧
        rule ≠ rule' ∧
        (Event.resumed (resumable "c")).text = (Event.resumed (resumable "d")).text ∧
        rule.listing.drop 1 = rule'.listing.drop 1 := by
  obtain ⟨hwritten, hpushed, hresumed, hrefused⟩ := written_apart
  refine ⟨mt (hwritten impostor pair).1.1 (by decide), ⟨pair, rfl, rfl, ?_, ?_⟩, ?_⟩
  · exact hpushed pair pair 0 0 0 0 rfl
  · exact ⟨_, _, rfl, rfl, rfl, hrefused [pair, .separator] [pair, .separator] _ _ rfl rfl rfl⟩
  · refine ⟨_, _, rfl, rfl, by decide, rfl, ?_⟩
    exact hresumed (resumable "c") (resumable "d") _ _ rfl rfl rfl rfl rfl

end Item

end PegMachine
