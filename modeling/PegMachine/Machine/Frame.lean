import PegMachine.Grammar.Basic
import PegMachine.Text.Offset

/-!
# Frames

A frame is one evaluation in progress or completed: an item at an offset. The place of a sequence or
choice is where it has come to in the listing of its rule, in which the separators of a choice count
too. The value is the text that a terminal has matched, and a choice is settled once its branch in
hand has succeeded while later branches were left.

A listing tells sequences and choices apart only by what stands in it. What follows the place of a
frame is an element to go on with, or a separator (`Frame.following?`); a separator may also come
later (`Frame.nextMarker?`).
-/

namespace PegMachine

variable [RegexLibrary]

/-- The written form of an item at an offset: of a composite only the listing from a place on, which
is any integer and is read as `Text.clamp` says. -/
def renderAt (item : Item) (offset place : Int) (value : Option (List Char)) : String :=
  let shown :=
    match item with
    | .rule r =>
      if r.isComposite then
        Item.renderAll (r.listing.drop (Text.clamp r.listing.length place))
      else r.render
    | other => other.render
  shown ++ "@" ++ toString offset ++
    match value with
    | some matched => "=" ++ Text.quote matched
    | none => ""

/-- An item under evaluation at an offset. -/
structure Frame where
  item : Item
  offset : Nat
  place : Nat := 0
  value : Option (List Char) := none
  settled : Bool := false
  deriving DecidableEq

namespace Frame

/-- The written form of a frame. -/
def render (frame : Frame) : String := renderAt frame.item frame.offset frame.place frame.value

/-- What stands at a place of the listing of a sequence or choice. -/
def listed? (frame : Frame) (place : Nat) : Option Item :=
  match frame.item with
  | .rule r => r.listing[place]?
  | _ => none

/-- What stands at the place of the frame. -/
def current? (frame : Frame) : Option Item := frame.listed? frame.place

/-- What stands right after the place of the frame. -/
def following? (frame : Frame) : Option Item := frame.listed? (frame.place + 1)

/-- The place of the first separator after the place of the frame. -/
def nextMarker? (frame : Frame) : Option Nat :=
  match frame.item with
  | .rule r =>
    ((r.listing.drop (frame.place + 1)).findIdx? Item.isSeparator).map (frame.place + 1 + ·)
  | _ => none

/-- Is the item of the frame a choice? -/
def isChoice (frame : Frame) : Bool :=
  match frame.item with
  | .rule r => r.isChoice
  | _ => false

end Frame

end PegMachine
