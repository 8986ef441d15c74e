import PegMachine.Machine.Frame

/-!
# Derivations

A derivation is how a rule matched: a tree of frames in which a reference stands over the derivation
of what it names, a sequence over those of all its elements, a choice over that of the branch that
succeeded, and a terminal over nothing. The frames are the ones that a machine leaves on its stack,
and `listing` is the order in which it leaves them.
-/

namespace PegMachine

variable [RegexLibrary]

/-- A tree of frames. -/
inductive Derivation where
  | node (frame : Frame) (children : List Derivation)

namespace Derivation

/-- The frame at the root. -/
def root : Derivation → Frame
  | .node frame _ => frame

mutual
/-- The frames of a derivation, every node before its children. -/
def listing : Derivation → List Frame
  | .node frame children => frame :: listingAll children
/-- The frames of derivations one after the other. -/
def listingAll : List Derivation → List Frame
  | [] => []
  | tree :: rest => tree.listing ++ listingAll rest
end

theorem listingAll_append (a b : List Derivation) :
    listingAll (a ++ b) = listingAll a ++ listingAll b := by
  induction a with
  | nil => rfl
  | cons tree rest ih => simp [listingAll, ih]

theorem listingAll_cons (tree : Derivation) (more : List Derivation) :
    listingAll (tree :: more) = listingAll [tree] ++ listingAll more :=
  listingAll_append [tree] more

/-- The root of a derivation comes before all that is below it. -/
@[simp] theorem listingAll_node (frame : Frame) (children : List Derivation) :
    listingAll [.node frame children] = frame :: listingAll children := by
  simp [listingAll, listing]

/-- On a stack the root of derivations stands below them. -/
theorem stack_root (frame : Frame) (children : List Derivation) (below : List Frame) :
    (listingAll children).reverse ++ frame :: below =
      (listingAll [.node frame children]).reverse ++ below := by
  simp

end Derivation

namespace Frame

/-- The frame of a reference. -/
def reference (name : String) (offset : Nat) : Frame :=
  { item := .rule (.ref name), offset }

/-- The frame of a terminal that has matched. -/
def terminal (matcher : Matcher) (offset : Nat) (value : List Char) : Frame :=
  { item := .rule (.terminal matcher), offset, value := some value }

/-- The frame of a sequence all of whose elements have succeeded: its place is that of the last. -/
def sequence (first : Rule) (rest : List Rule) (offset : Nat) : Frame :=
  { item := .rule (.seq first rest), offset, place := rest.length }

/-- The frame of a choice whose branch of the given number has succeeded: it is settled if a branch
is left. Branches stand at the even places of the listing. -/
def choice (rule : Rule) (offset branch : Nat) : Frame :=
  { item := .rule rule, offset, place := 2 * branch, settled := branch + 1 < rule.parts.length }

end Frame

end PegMachine
