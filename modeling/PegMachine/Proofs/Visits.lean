import PegMachine.Proofs.Underway

/-!
# One visit after the other

An evaluation under way is determined by the number of visits that it has made
(`Underway.unique`): while one element of a sequence is evaluated, a later one cannot be, since the
first would have come to its verdict by then, and so for the branches of a choice.

With one visit more a derivation in the making is its successor (`Underway.next`): below one node of
its path nothing has changed, and that node has got a new frame under it. Either it was the frame in
hand, which has handed over, or it has moved on.
-/

namespace PegMachine

variable [RegexLibrary]

/-- The open derivation that comes next after one visit. -/
inductive OpenDerivation.Next : OpenDerivation → OpenDerivation → Prop where
  | handsOver {frame new} : Next (.hand frame) (.node frame [] (.hand new))
  | inside {frame done making making'} (h : Next making making') :
    Next (.node frame done making) (.node frame done making')
  | moves {frame place done making done' new} (later : frame.place < place) :
    Next (.node frame done making) (.node { frame with place } done' (.hand new))

section Visits

variable {rules : RuleMap} {text : List Char} {offset : Nat}

/-- Elements that come to a verdict take a visit, unless there are none. -/
theorem Evaluates.elements_visits_pos {parts : List Rule} {verdict : Verdict} {log : List Mismatch}
    {visits : Nat} (h : Evaluates rules text (.elements parts) offset verdict log visits)
    (hparts : parts ≠ []) : 0 < visits := by
  cases h with
  | noElements => exact absurd rfl hparts
  | element head => exact Nat.add_pos_left head.visits_pos _
  | elementStops _ head => exact head.visits_pos

/-- No visit is made of the elements before the first only. -/
theorem Evaluates.eq_first {parts : List Rule} {cursor middle visits : Nat}
    {trees : List Derivation} {log : List Mismatch}
    (done : Evaluates rules text (.elements (parts.take cursor)) offset (.success trees middle) log
      visits)
    (hvisits : visits = 0) (hparts : parts ≠ []) : cursor = 0 ∧ trees = [] := by
  have hnil : parts.take cursor = [] := by
    refine Decidable.byContradiction fun hne => ?_
    have hpos := done.elements_visits_pos hne
    omega
  rw [hnil] at done
  obtain ⟨rfl⟩ := List.length_eq_zero_iff.1 done.length_trees
  exact ⟨(List.take_eq_nil_iff.1 hnil).resolve_right hparts, rfl⟩

/-- The elements up to a later one take all visits of the one under way, and no others if the later
one comes next. -/
theorem Evaluates.visits_beyond {parts : List Rule} {part : Rule}
    {cursor cursor' middle middle' visits visits' made : Nat} {trees trees' : List Derivation}
    {log log' log'' : List Mismatch} {making : OpenDerivation}
    (done : Evaluates rules text (.elements (parts.take cursor)) offset (.success trees middle) log
      visits)
    (here : parts[cursor]? = some part)
    (body : Underway rules text (.rule part) middle making log'' made)
    (done' : Evaluates rules text (.elements (parts.take cursor')) offset (.success trees' middle')
      log' visits')
    (hlt : cursor < cursor') (hle : cursor' ≤ parts.length) :
    visits + made + 1 ≤ visits' ∧ (visits' = visits + made + 1 → cursor' = cursor + 1) := by
  -- `body` is short of the verdict of its element by a visit, and each element after it takes one
  obtain ⟨more, rfl⟩ := Nat.exists_eq_add_of_lt hlt
  have hsplit : parts.take (cursor + more + 1) =
      parts.take cursor ++ part :: (parts.drop (cursor + 1)).take more := by
    rw [Nat.add_assoc, List.take_add, Nat.add_comm more 1, List.take_add,
      List.take_one, List.head?_drop, here, List.drop_drop]
    rfl
  rw [hsplit] at done'
  obtain ⟨verdict, _, _, others, hverdict, -, rfl⟩ := done.elements_split done'
  cases others with
  | element head tail =>
    have hmade := (body.begins head).1
    refine ⟨by omega, fun hvisits => ?_⟩
    rcases Nat.eq_zero_or_pos more with rfl | hmore
    · rfl
    · have htail : (parts.drop (cursor + 1)).take more ≠ [] := by
        simp only [ne_eq, List.take_eq_nil_iff, List.drop_eq_nil_iff]
        omega
      have hpos := tail.elements_visits_pos htail
      omega
  | elementStops stops =>
    cases verdict with
    | success => exact absurd trivial stops
    | failure => cases hverdict
    | fault => cases hverdict

/-- The branches before a given one fail in one way only. -/
theorem BranchesFail.unique {choice : Rule} {branch visits visits' : Nat}
    {log log' : List Mismatch} (failed : BranchesFail rules text choice offset branch log visits)
    (failed' : BranchesFail rules text choice offset branch log' visits') :
    log = log' ∧ visits = visits' := by
  induction failed generalizing log' visits' with
  | start =>
    cases failed'
    exact ⟨rfl, rfl⟩
  | another _ here fails ih =>
    cases failed' with
    | another before here' fails' =>
      cases here.symm.trans here'
      obtain ⟨rfl, rfl⟩ := ih before
      obtain ⟨-, rfl, rfl⟩ := fails.deterministic fails'
      exact ⟨rfl, rfl⟩

/-- No visit is made of the branches before the first only. -/
theorem BranchesFail.eq_first {choice : Rule} {branch visits : Nat} {log : List Mismatch}
    (failed : BranchesFail rules text choice offset branch log visits) (hvisits : visits = 0) :
    branch = 0 := by
  cases failed with
  | start => rfl
  | another _ _ fails =>
    have hpos := fails.visits_pos
    omega

/-- The branches up to a later one take all visits of the one under way, and no others if the later
one comes next. -/
theorem BranchesFail.visits_beyond {choice part : Rule} {branch branch' visits visits' made : Nat}
    {log log' log'' : List Mismatch} {making : OpenDerivation}
    (failed : BranchesFail rules text choice offset branch log visits)
    (here : choice.parts[branch]? = some part)
    (body : Underway rules text (.rule part) offset making log'' made)
    (failed' : BranchesFail rules text choice offset branch' log' visits')
    (hlt : branch < branch') :
    visits + made + 1 ≤ visits' ∧ (visits' = visits + made + 1 → branch' = branch + 1) := by
  induction failed' with
  | start => exact absurd hlt (Nat.not_lt_zero _)
  | @another branch' _ _ _ visits' _ before here' fails ih =>
    rcases Nat.lt_succ_iff_lt_or_eq.1 hlt with hlt | rfl
    · have hpos := fails.visits_pos
      have hvisits := (ih hlt).1
      omega
    · cases here.symm.trans here'
      obtain ⟨-, rfl⟩ := failed.unique before
      have hmade := (body.begins fails).1
      omega

namespace Underway

variable {item : Item} {tree tree' : OpenDerivation} {log log' : List Mismatch}
  {visits visits' : Nat}

/-- Before its first visit an evaluation has its frame in hand. -/
theorem eq_begun (h : Underway rules text item offset tree log visits) (hvisits : visits = 0) :
    tree = .hand { item, offset } ∧ log = [] := by
  cases h with
  | begun => exact ⟨rfl, rfl⟩
  | reference => cases hvisits
  | sequence => cases hvisits
  | choice => cases hvisits

/-- An evaluation under way is determined by the number of its visits. -/
theorem unique (h : Underway rules text item offset tree log visits)
    (h' : Underway rules text item offset tree' log' visits) : tree = tree' ∧ log = log' := by
  induction h generalizing tree' log' with
  | begun =>
    obtain ⟨rfl, rfl⟩ := h'.eq_begun rfl
    exact ⟨rfl, rfl⟩
  | reference found _ ih =>
    cases h' with
    | reference found' body' =>
      cases found.symm.trans found'
      obtain ⟨rfl, rfl⟩ := ih body'
      exact ⟨rfl, rfl⟩
  | @sequence first rest offset cursor part trees middle making log _ visits made done here body
      ih =>
    generalize hvisits : visits + made + 1 = total at h'
    cases h' with
    | begun => omega
    | @sequence _ _ _ cursor' _ _ _ _ _ _ visits' made' done' here' body' =>
      have hlen := (List.getElem?_eq_some_iff.1 here).1
      have hlen' := (List.getElem?_eq_some_iff.1 here').1
      rcases Nat.lt_trichotomy cursor cursor' with hlt | rfl | hlt
      · have hbeyond := (done.visits_beyond here body done' hlt (Nat.le_of_lt hlen')).1
        omega
      · cases here.symm.trans here'
        obtain ⟨hsame, rfl, rfl⟩ := done.deterministic done'
        cases hsame
        obtain rfl : made = made' := by omega
        obtain ⟨rfl, rfl⟩ := ih body'
        exact ⟨rfl, rfl⟩
      · have hbeyond := (done'.visits_beyond here' body' done hlt (Nat.le_of_lt hlen)).1
        omega
  | @choice first second rest offset branch part making log _ visits made failed here body ih =>
    generalize hvisits : visits + made + 1 = total at h'
    cases h' with
    | begun => omega
    | @choice _ _ _ _ branch' _ _ _ _ visits' made' failed' here' body' =>
      rcases Nat.lt_trichotomy branch branch' with hlt | rfl | hlt
      · have hbeyond := (failed.visits_beyond here body failed' hlt).1
        omega
      · cases here.symm.trans here'
        obtain ⟨rfl, rfl⟩ := failed.unique failed'
        obtain rfl : made = made' := by omega
        obtain ⟨rfl, rfl⟩ := ih body'
        exact ⟨rfl, rfl⟩
      · have hbeyond := (failed'.visits_beyond here' body' failed hlt).1
        omega

/-- One visit leads from an open derivation to its successor. -/
theorem next (h : Underway rules text item offset tree log visits)
    (h' : Underway rules text item offset tree' log' visits') (hvisits : visits' = visits + 1) :
    tree.Next tree' := by
  induction h generalizing tree' log' visits' with
  | begun =>
    cases h' with
    | begun => cases hvisits
    | reference found body =>
      obtain ⟨rfl, -⟩ := body.eq_begun (by omega)
      exact .handsOver
    | sequence done here body =>
      obtain ⟨rfl, -⟩ := body.eq_begun (by omega)
      obtain ⟨rfl, rfl⟩ := done.eq_first (by omega) (by simp)
      exact .handsOver
    | choice failed here body =>
      obtain ⟨rfl, -⟩ := body.eq_begun (by omega)
      obtain rfl := failed.eq_first (by omega)
      exact .handsOver
  | reference found _ ih =>
    cases h' with
    | begun => cases hvisits
    | reference found' body' =>
      cases found.symm.trans found'
      exact .inside (ih body' (by omega))
  | @sequence first rest offset cursor part trees middle making log _ visits made done here body
      ih =>
    cases h' with
    | begun => cases hvisits
    | @sequence _ _ _ cursor' _ _ _ _ _ _ visits' made' done' here' body' =>
      have hlen := (List.getElem?_eq_some_iff.1 here).1
      have hlen' := (List.getElem?_eq_some_iff.1 here').1
      rcases Nat.lt_trichotomy cursor cursor' with hlt | rfl | hlt
      · obtain ⟨hle, hnext⟩ := done.visits_beyond here body done' hlt (Nat.le_of_lt hlen')
        obtain rfl := hnext (by omega)
        obtain ⟨rfl, -⟩ := body'.eq_begun (by omega)
        exact .moves (Nat.lt_succ_self _)
      · cases here.symm.trans here'
        obtain ⟨hsame, rfl, rfl⟩ := done.deterministic done'
        cases hsame
        exact .inside (ih body' (by omega))
      · have hbeyond := (done'.visits_beyond here' body' done hlt (Nat.le_of_lt hlen)).1
        omega
  | @choice first second rest offset branch part making log _ visits made failed here body ih =>
    cases h' with
    | begun => cases hvisits
    | @choice _ _ _ _ branch' _ _ _ _ visits' made' failed' here' body' =>
      rcases Nat.lt_trichotomy branch branch' with hlt | rfl | hlt
      · obtain ⟨hle, hnext⟩ := failed.visits_beyond here body failed' hlt
        obtain rfl := hnext (by omega)
        obtain ⟨rfl, -⟩ := body'.eq_begun (by omega)
        have hlater : 2 * branch < 2 * (branch + 1) := by omega
        exact .moves hlater
      · cases here.symm.trans here'
        obtain ⟨rfl, rfl⟩ := failed.unique failed'
        exact .inside (ih body' (by omega))
      · have hbeyond := (failed'.visits_beyond here' body' failed hlt).1
        omega

end Underway

end Visits

end PegMachine
