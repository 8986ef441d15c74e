import PegMachine.Proofs.Origins
import PegMachine.Proofs.Paths
import PegMachine.Proofs.Visits

/-!
# The frames in flight

While a machine is running, the frames in flight are those on the path of the open derivation that
its stack holds. The heights at which they stand, from the top down, are the lineage of the open
derivation. One more visit keeps the lowest of them, up to the frame that causes the push, and puts
the height of the new frame on top (`OpenDerivation.Next.lineage`).

So two frames in flight are of the same call if and only if the path meets a call again
(`Machine.repeatsInFlight_iff`).
-/

namespace PegMachine

variable [RegexLibrary]

/-! ## Lineages of open derivations -/

namespace OpenDerivation

/-- The heights of the frames on the path, from the frame in hand down, if the root stands at the
given height. -/
def lineage : OpenDerivation → (base : Nat) → List Nat
  | .hand _, base => [base]
  | .node _ done making, base =>
    making.lineage (base + 1 + (Derivation.listingAll done).length) ++ [base]

/-- The frames of a node stand in a row with those below it. -/
theorem append_listing_node (below : List Frame) (frame : Frame) (done : List Derivation)
    (making : OpenDerivation) :
    below ++ (node frame done making).listing =
      (below ++ frame :: Derivation.listingAll done) ++ making.listing := by
  simp [listing]

/-- The lineage of what is in the making stands above the frames that are done. -/
theorem lineage_node (below : List Frame) (frame : Frame) (done : List Derivation)
    (making : OpenDerivation) :
    (node frame done making).lineage below.length =
      making.lineage (below ++ frame :: Derivation.listingAll done).length ++ [below.length] := by
  rw [lineage, List.length_append, List.length_cons, Nat.add_assoc, Nat.add_comm 1]

/-- The lineage begins with the height of the frame in hand. -/
theorem head?_lineage (tree : OpenDerivation) (base : Nat) :
    (tree.lineage base).head? = some (base + tree.listing.length - 1) := by
  induction tree generalizing base with
  | hand frame => rfl
  | node frame done making ih =>
    rw [lineage, List.head?_append, ih, listing]
    simp only [List.length_cons, List.length_append, Option.some_or]
    congr 1
    omega

/-- The lineage descends to the root. -/
theorem pairwise_lineage (tree : OpenDerivation) (base : Nat) :
    (tree.lineage base).Pairwise (· > ·) ∧ ∀ height ∈ tree.lineage base, base ≤ height := by
  induction tree generalizing base with
  | hand frame => simp [lineage]
  | node frame done making ih =>
    obtain ⟨hpairwise, hle⟩ := ih (base + 1 + (Derivation.listingAll done).length)
    constructor
    · refine List.pairwise_append.2 ⟨hpairwise, List.pairwise_singleton _ _, ?_⟩
      intro height hheight root hroot
      rw [List.mem_singleton.1 hroot]
      have hbound := hle height hheight
      omega
    · intro height hheight
      rcases List.mem_append.1 hheight with hheight | hheight
      · have hbound := hle height hheight
        omega
      · rw [List.mem_singleton.1 hheight]

/-- At the heights of the lineage the frames of the path stand. -/
theorem map_lineage (tree : OpenDerivation) (below : List Frame) :
    (tree.lineage below.length).reverse.map (fun height => (below ++ tree.listing)[height]?) =
      tree.path.map some := by
  induction tree generalizing below with
  | hand frame => simp [lineage, listing]
  | node frame done making ih =>
    rw [lineage_node, append_listing_node, List.reverse_append, List.map_append, ih]
    simp

/-- No call is met again on the path if and only if no two frames of the lineage are of the same
call. -/
theorem nodup_calls_iff (tree : OpenDerivation) :
    tree.calls.Nodup ↔
      ∀ lower ∈ tree.lineage 0, ∀ upper ∈ tree.lineage 0, lower ≠ upper → ∀ call,
        tree.listing[lower]?.bind Frame.call? = some call →
        tree.listing[upper]?.bind Frame.call? ≠ some call := by
  have hcalls : tree.calls =
      (tree.lineage 0).reverse.filterMap fun height => tree.listing[height]?.bind Frame.call? := by
    have hmap : (tree.lineage 0).reverse.map (fun height => tree.listing[height]?) =
        tree.path.map some := tree.map_lineage []
    have hfilter := congrArg (List.filterMap (·.bind Frame.call?)) hmap
    rw [List.filterMap_map, List.filterMap_map] at hfilter
    exact hfilter.symm
  have hdistinct : (tree.lineage 0).reverse.Nodup :=
    List.nodup_reverse.2 ((tree.pairwise_lineage 0).1.imp Nat.ne_of_gt)
  rw [hcalls, List.Nodup, List.pairwise_filterMap]
  constructor
  · intro hpairwise lower hlower upper hupper hne call hcall hcall'
    have hsymm : Std.Symm fun a b : Nat => ∀ call,
        tree.listing[a]?.bind Frame.call? = some call → ∀ call',
        tree.listing[b]?.bind Frame.call? = some call' → call ≠ call' :=
      ⟨fun _ _ h call hcall call' hcall' heq => h call' hcall' call hcall heq.symm⟩
    exact hpairwise.forall (List.mem_reverse.2 hlower) (List.mem_reverse.2 hupper) hne call
      hcall call hcall' rfl
  · intro hall
    refine hdistinct.pairwise_of_forall_ne fun lower hlower upper hupper hne => ?_
    rintro call hcall call' hcall' rfl
    exact hall lower (List.mem_reverse.1 hlower) upper (List.mem_reverse.1 hupper) hne call hcall
      hcall'

end OpenDerivation

/-! ## The frame that causes a push -/

/-- Frames do not move against themselves. -/
theorem findIdx?_zip_self (frames : List Frame) :
    ((frames.zip frames).findIdx? fun pair => pair.1.place != pair.2.place) = none := by
  induction frames with
  | nil => rfl
  | cons frame rest ih => simp [List.findIdx?_cons, ih]

/-- If all frames stay as they are, the one on top has caused the push. -/
theorem causeOf_concat (frames : List Frame) (new : Frame) :
    causeOf frames (frames ++ [new]) = frames.length - 1 := by
  have hzip : frames.zip (frames ++ [new]) = frames.zip frames := by
    have happend : (frames ++ []).zip (frames ++ [new]) = frames.zip frames ++ [].zip [new] :=
      List.zip_append rfl
    simpa using happend
  rw [causeOf, hzip, findIdx?_zip_self]
  rfl

/-- A frame whose place has moved has caused the push. -/
theorem causeOf_moved {frame moved : Frame} (h : frame.place ≠ moved.place)
    (below above above' : List Frame) :
    causeOf (below ++ frame :: above) (below ++ moved :: above') = below.length := by
  rw [causeOf, List.zip_append rfl, List.findIdx?_append, findIdx?_zip_self, List.zip_cons_cons,
    List.findIdx?_cons]
  simp [h]

namespace OpenDerivation

/-- One more visit puts the new frame on what was the lineage from its cause down. -/
theorem Next.lineage {tree tree' : OpenDerivation} (h : tree.Next tree') (below : List Frame) :
    ∃ new rest, tree'.lineage below.length =
        new :: causeOf (below ++ tree.listing) (below ++ tree'.listing) :: rest ∧
      (causeOf (below ++ tree.listing) (below ++ tree'.listing) :: rest) <:+
        tree.lineage below.length := by
  induction h generalizing below with
  | @handsOver frame new =>
    have hlisting : below ++ (node frame [] (.hand new)).listing =
        (below ++ (hand frame).listing) ++ [new] := by
      simp [listing, Derivation.listingAll]
    have hcause : causeOf (below ++ (hand frame).listing)
        (below ++ (node frame [] (.hand new)).listing) = below.length := by
      rw [hlisting, causeOf_concat]
      simp [listing]
    rw [hcause]
    exact ⟨_, [], rfl, List.suffix_refl _⟩
  | @inside frame done making making' _ ih =>
    obtain ⟨new, rest, hnew, hsuffix⟩ := ih (below ++ frame :: Derivation.listingAll done)
    rw [append_listing_node, append_listing_node, lineage_node, lineage_node, hnew]
    refine ⟨new, rest ++ [below.length], rfl, ?_⟩
    obtain ⟨above, habove⟩ := hsuffix
    exact ⟨above, by rw [← habove]; simp⟩
  | @moves frame place done making done' new later =>
    have hcause : causeOf (below ++ (node frame done making).listing)
        (below ++ (node { frame with place } done' (.hand new)).listing) = below.length :=
      causeOf_moved (Nat.ne_of_lt later) _ _ _
    rw [hcause]
    exact ⟨_, [], rfl, List.suffix_append _ _⟩

end OpenDerivation

/-! ## Lineages of origins -/

/-- The heights, from the first one down, each with its cause after it, to a frame without cause. -/
inductive Lineage (origins : List Origin) : List Nat → Prop where
  | first {height origin} (here : origins[height]? = some origin)
    (uncaused : origin.cause? = none) : Lineage origins [height]
  | caused {height origin lower rest} (here : origins[height]? = some origin)
    (caused : origin.cause? = some lower) (h : Lineage origins (lower :: rest)) :
    Lineage origins (height :: lower :: rest)

namespace Lineage

variable {origins : List Origin} {heights : List Nat}

omit [RegexLibrary]

theorem suffix {height : Nat} {rest : List Nat} (h : Lineage origins heights)
    (hsuffix : (height :: rest) <:+ heights) : Lineage origins (height :: rest) := by
  induction h with
  | first here uncaused =>
    rcases List.suffix_cons_iff.1 hsuffix with heq | hsuffix
    · rw [heq]
      exact .first here uncaused
    · exact absurd (List.suffix_nil.1 hsuffix) (List.cons_ne_nil _ _)
  | caused here caused h ih =>
    rcases List.suffix_cons_iff.1 hsuffix with heq | hsuffix
    · rw [heq]
      exact .caused here caused h
    · exact ih hsuffix

/-- A lineage stays one where its origins stay as they are. -/
theorem congr {later : List Origin} (h : Lineage origins heights)
    (hsame : ∀ height ∈ heights, later[height]? = origins[height]?) : Lineage later heights := by
  induction h with
  | first here uncaused =>
    exact .first ((hsame _ List.mem_cons_self).trans here) uncaused
  | caused here caused _ ih =>
    refine .caused ((hsame _ List.mem_cons_self).trans here) caused (ih fun height hheight => ?_)
    exact hsame height (List.mem_cons_of_mem _ hheight)

/-- The cause of a frame of a lineage is of the lineage. -/
theorem mem_of_cause {height lower : Nat} {origin : Origin} (h : Lineage origins heights)
    (hmem : height ∈ heights) (here : origins[height]? = some origin)
    (caused : origin.cause? = some lower) : lower ∈ heights := by
  induction h with
  | first here' uncaused =>
    rw [List.mem_singleton.1 hmem, here'] at here
    cases here
    rw [uncaused] at caused
    cases caused
  | caused here' caused' _ ih =>
    rcases List.mem_cons.1 hmem with rfl | hmem
    · rw [here'] at here
      cases here
      rw [caused'] at caused
      cases caused
      exact List.mem_cons_of_mem _ List.mem_cons_self
    · exact List.mem_cons_of_mem _ (ih hmem)

/-- The frames in flight are those of the lineage of the frame on top. -/
theorem inFlight_iff {height : Nat} (h : Lineage origins heights)
    (htop : heights.head? = some (origins.length - 1)) :
    InFlight origins height ↔ height ∈ heights := by
  constructor
  · intro hflight
    induction hflight with
    | top hheight =>
      have heq : origins.length - 1 = _ := Nat.sub_eq_of_eq_add hheight.symm
      rw [heq] at htop
      exact List.mem_of_mem_head? htop
    | cause _ here caused ih => exact h.mem_of_cause ih here caused
  · -- down the lineage, which need not begin at the top for that
    have hall : ∀ heights, Lineage origins heights → ∀ first, heights.head? = some first →
        InFlight origins first → height ∈ heights → InFlight origins height := by
      intro heights h
      induction h with
      | first =>
        rintro _ ⟨⟩ hfirst hmem
        rw [List.mem_singleton.1 hmem]
        exact hfirst
      | caused here caused _ ih =>
        rintro _ ⟨⟩ hfirst hmem
        rcases List.mem_cons.1 hmem with rfl | hmem
        · exact hfirst
        · exact ih _ rfl (.cause hfirst here caused) hmem
    have hpos : 0 < origins.length := by
      cases h with
      | first here => exact Nat.zero_lt_of_lt (List.getElem?_eq_some_iff.1 here).1
      | caused here => exact Nat.zero_lt_of_lt (List.getElem?_eq_some_iff.1 here).1
    exact hall heights h _ htop (.top (Nat.sub_add_cancel hpos))

end Lineage

/-! ## Frames in flight along a run -/

namespace Machine

section Run

variable {rules : RuleMap} {text : List Char} {name : String} {calls : Nat} {tree : OpenDerivation}
  {log : List Mismatch}

/-- The machine is still on its way after no more calls than an evaluation under way has visits. -/
theorem Stage.underway_of_le {machine : Machine} {told : List Mismatch} {visits : Nat}
    (h : Stage rules text name calls machine told)
    (h' : Underway rules text (.rule (.ref name)) 0 tree log visits) (hle : calls ≤ visits) :
    ∃ tree, Underway rules text (.rule (.ref name)) 0 tree told calls ∧
      machine = .running tree.listing.reverse (FurthestFailures.empty.recordAll told) calls := by
  cases h with
  | underway h => exact ⟨_, h, rfl⟩
  | refused _ comesOut since =>
    have hlt := (h'.begins comesOut).1
    omega
  | accepted comesOut since =>
    have hlt := (h'.begins comesOut).1
    omega
  | rejected comesOut _ since =>
    have hlt := (h'.begins comesOut).1
    omega

/-- A machine that is running and whose next call is not refused holds an evaluation under way with
one visit for each call. -/
theorem Stage.underway_of_goes_on {machine : Machine} {told : List Mismatch}
    (h : Stage rules text name calls machine told) (hrunning : machine.status = .running)
    (hfault : (machine.advance rules text).fault? = none) :
    ∃ tree, Underway rules text (.rule (.ref name)) 0 tree told calls ∧
      machine = .running tree.listing.reverse (FurthestFailures.empty.recordAll told) calls := by
  cases h with
  | underway h => exact ⟨_, h, rfl⟩
  | refused h comesOut =>
    rw [h.advance_of_fault comesOut] at hfault
    cases hfault
  | accepted => cases hrunning
  | rejected => cases hrunning

/-- Every evaluation under way is reached, after as many calls as it has visits. -/
theorem reached (h : Underway rules text (.rule (.ref name)) 0 tree log calls) :
    ((start name).after rules text calls).status = .running ∧
      ((start name).after rules text calls).frames = tree.listing := by
  obtain ⟨tree', h', hmachine⟩ :=
    (stage rules text name calls).underway_of_le h (Nat.le_refl _)
  obtain ⟨rfl, -⟩ := h'.unique h
  rw [hmachine]
  exact ⟨rfl, List.reverse_reverse _⟩

/-- Each visit of an evaluation under way is a call that pushes a frame. -/
theorem pushes_of_underway (h : Underway rules text (.rule (.ref name)) 0 tree log (calls + 1)) :
    (((start name).after rules text calls).advance rules text).pushes = true := by
  refine pushes_iff.2 ⟨?_, ?_⟩
  · obtain ⟨before, h', hmachine⟩ :=
      (stage rules text name calls).underway_of_le h (Nat.le_succ _)
    rw [hmachine]
    have hadvanced := h'.advance (FurthestFailures.empty.recordAll (told rules text calls (start name)))
      calls
    generalize advance rules text _ = outcome at hadvanced ⊢
    cases hadvanced with
    | goesOn => rfl
    | succeeds => exact goOn_fault? _ _ _
    | fails => exact backtrack_fault? _
    | faults _ evaluated => exact absurd (h.begins evaluated).1 (Nat.lt_irrefl _)
  · rw [← after_succ]
    exact (reached h).1

/-- The lineage of the open derivation is that of the frame on top. -/
theorem lineage_of_underway (h : Underway rules text (.rule (.ref name)) 0 tree log calls) :
    Lineage (origins rules text name calls) (tree.lineage 0) := by
  induction calls generalizing tree log with
  | zero =>
    obtain ⟨rfl, -⟩ := h.eq_begun rfl
    exact .first rfl rfl
  | succ calls ih =>
    obtain ⟨before, hbefore, -⟩ :=
      (stage rules text name calls).underway_of_le h (Nat.le_succ _)
    obtain ⟨new, rest, hnew, hsuffix⟩ := (hbefore.next h rfl).lineage []
    have hpush := pushes_of_underway h
    -- the new frame stands right above those that the call has kept
    have hkept : (((start name).after rules text calls).advance rules text).kept = new := by
      have hhead := tree.head?_lineage 0
      have hlength := (kept_le rules text ((start name).after rules text calls)).2
      rw [← after_succ, (reached h).2, if_pos hpush] at hlength
      rw [List.length_nil] at hnew
      rw [hnew, List.head?_cons, Option.some.injEq] at hhead
      omega
    have hfirst := origins_succ_new hpush
    rw [hkept, (reached hbefore).2, (reached h).2] at hfirst
    have hdescends := (tree.pairwise_lineage 0).1
    rw [List.length_nil, List.nil_append, List.nil_append] at hnew hsuffix
    rw [hnew] at hdescends ⊢
    refine .caused hfirst rfl (((ih hbefore).suffix hsuffix).congr fun height hheight => ?_)
    have hlt : height < new := (List.pairwise_cons.1 hdescends).1 height hheight
    exact origins_succ_of_lt (hkept ▸ hlt)

/-- Two frames in flight are of the same call if and only if the path meets a call again. -/
theorem repeatsInFlight_iff (h : Underway rules text (.rule (.ref name)) 0 tree log calls) :
    RepeatsInFlight rules text name calls ↔ ¬ tree.calls.Nodup := by
  have hlineage := lineage_of_underway h
  have htop : (tree.lineage 0).head? = some ((origins rules text name calls).length - 1) := by
    rw [tree.head?_lineage, length_origins, (reached h).2, Nat.zero_add]
  unfold RepeatsInFlight
  rw [tree.nodup_calls_iff, (reached h).2]
  constructor
  · rintro ⟨lower, upper, call, hne, hlower, hupper, hcall, hcall'⟩ hall
    exact hall lower ((hlineage.inFlight_iff htop).1 hlower) upper
      ((hlineage.inFlight_iff htop).1 hupper) hne call hcall hcall'
  · intro hnot
    push Not at hnot
    obtain ⟨lower, hlower, upper, hupper, hne, call, hcall, hcall'⟩ := hnot
    exact ⟨lower, upper, call, hne, (hlineage.inFlight_iff htop).2 hlower,
      (hlineage.inFlight_iff htop).2 hupper, hcall, hcall'⟩

end Run

end Machine

end PegMachine
