import StackMaps.Bitmap
import StackMaps.Convention
import StackMaps.Record

/-!
# Reference maps

A reference map tells the collector where the live references of one safepoint
are: a bitmap over the slots of the frame and a bitmap over the general-purpose
registers.

Frame bits count slots from the bottom of the frame, which starts with the
convention's reserved bytes. A spill slot at byte offset `o` is therefore bit
`(o + reserved) / width`. A register that a suspension saves to a fixed word of
the reserved area is reported through that word's bit. Incoming parameters are
the caller's to report.

The map depends only on which values are live, not on the order in which they
are presented, and when several values cannot be described the lowest-numbered
one is named.

`buildChecked` draws the map value by value in checked steps: signed sums, save
words looked up by register place, catalog indices, and bits set below a length.
`build` gives the same map from the placements of all values at once.
-/

namespace StackMaps

/-- The shape of a method's frame: bytes of spill area and the width of a slot,
which is never zero. -/
structure FrameLayout where
  size : UInt32
  width : UInt32
  width_pos : 0 < width.toNat

namespace FrameLayout

/-- A layout with slots of the given width. -/
def make (size width : UInt32) : Checked FrameLayout :=
  if positive : 0 < width.toNat then .ok ⟨size, width, positive⟩ else .error .zeroWidth

/-- A layout with the slots of a convention. -/
def ofConvention (convention : Convention) (size : UInt32) : Checked FrameLayout :=
  make size convention.slotSize

end FrameLayout

/-- The live references of one safepoint. -/
structure ReferenceMap where
  /-- Bit `i`: frame slot `i` holds a live reference. -/
  frame : Bitmap
  /-- Bit `i`: the general-purpose register with encoding `i` holds one. -/
  registers : Bitmap

namespace ReferenceMap

/-- Whether any bit is stored, by counting all of them. -/
def hasReferences (map : ReferenceMap) : Checked Bool := do
  let frame ← map.frame.count
  let registers ← map.registers.count
  let total ← Checked.addSize frame registers
  return total != 0

instance : BEq ReferenceMap :=
  ⟨fun left right => left.frame == right.frame && left.registers == right.registers⟩

end ReferenceMap

/-- A live reference whose location no map can describe. -/
inductive Rejection where
  | unassigned (value : ValueId)
  | immediate (value : ValueId) (bits : Int64)
  /-- The slot does not start at a slot boundary of the frame. -/
  | misaligned (value : ValueId) (slot : Slot)
  /-- The slot is not inside the frame. -/
  | outOfFrame (value : ValueId) (slot : Slot) (bit : Int) (frameBits : Nat)
  /-- The register is not a general-purpose register of the target. -/
  | foreignRegister (value : ValueId) (register : Register)
  deriving DecidableEq

namespace Rejection

/-- The value whose location was rejected. -/
def value : Rejection → ValueId
  | unassigned value => value
  | immediate value _ => value
  | misaligned value _ => value
  | outOfFrame value _ _ _ => value
  | foreignRegister value _ => value

/-- The wording of each rejection. -/
def message : Rejection → String
  | unassigned value =>
    "reference " ++ ValueId.text value ++ " is live at a safepoint but has no location"
  | immediate value bits =>
    "reference " ++ ValueId.text value ++ " is an immediate (" ++ Text.hex bits.toBitVec.toNat ++
      ")"
  | misaligned value slot =>
    "reference " ++ ValueId.text value ++ " is in misaligned stack slot " ++ slot.text
  | outOfFrame value slot bit frameBits =>
    "reference " ++ ValueId.text value ++ " in " ++ slot.text ++ " maps to bit " ++
      Text.decimal bit ++ " outside a " ++ toString frameBits ++ "-slot frame"
  | foreignRegister value register =>
    "reference " ++ ValueId.text value ++ " is in " ++ register.text ++
      ", which is not a general-purpose register of the target"

/-- The rejection to keep when one more is found: a later one replaces an earlier
one only if its value has a lower number. -/
def lower (best : Option Rejection) (next : Rejection) : Option Rejection :=
  match best with
  | none => some next
  | some kept => if next.value.number < kept.value.number then some next else some kept

/-- The rejection with the lowest value number; among equals, the first. -/
def lowest : List Rejection → Option Rejection := List.foldl lower none

end Rejection

/-- The bit that reports a reference. -/
inductive Placement where
  | frame (bit : Nat)
  | register (bit : Nat)
  deriving DecidableEq

namespace Placement

/-- The frame bit, if it is one. -/
def frame? : Placement → Option Nat
  | .frame bit => some bit
  | .register _ => none

/-- The register bit, if it is one. -/
def register? : Placement → Option Nat
  | .register bit => some bit
  | .frame _ => none

end Placement

/-- What is needed to build the maps of one method: a convention and a layout
whose frame, reserved bytes included, fits in 32 bits. -/
structure MapBuilder where
  convention : Convention
  layout : FrameLayout
  fits : convention.reserved.toNat + layout.size.toNat < UInt32.size

namespace MapBuilder

/-- A builder for a frame, which has to fit in 32 bits. -/
def make (convention : Convention) (layout : FrameLayout) : Checked MapBuilder :=
  if fits : convention.reserved.toNat + layout.size.toNat < UInt32.size then
    .ok ⟨convention, layout, fits⟩
  else .error .addOverflow

/-- The number of whole slots in the frame. -/
def frameBits (builder : MapBuilder) : Nat :=
  (builder.convention.reserved.toNat + builder.layout.size.toNat) / builder.layout.width.toNat

/-- The length of every frame bitmap: it covers the slots and the save words. -/
def frameLength (builder : MapBuilder) : Nat :=
  max builder.frameBits builder.convention.saveSpace

/-- The length of every register bitmap. -/
def registerLength (builder : MapBuilder) : Nat := builder.convention.catalog.referenceCount

/-- The frame bit of a spill slot that starts the given bytes above the bottom of
the frame. A slot that straddles two slots of the frame is refused, not rounded
to its neighbour. -/
def bitFrom (builder : MapBuilder) (value : ValueId) (slot : Slot) (start : Int) :
    Except Rejection Nat :=
  let width : Int := builder.layout.width.toNat
  let bit := start / width
  if start % width ≠ 0 then .error (.misaligned value slot)
  else if bit < 0 ∨ (builder.frameBits : Int) ≤ bit then
    .error (.outOfFrame value slot bit builder.frameBits)
  else .ok bit.toNat

/-- The frame bit of a spill slot. -/
def slotBit (builder : MapBuilder) (value : ValueId) (slot : Slot) : Except Rejection Nat :=
  builder.bitFrom value slot (slot.offset.toInt + builder.convention.reserved.toNat)

/-- The bit that reports a reference at a location. An incoming parameter has
none. -/
def place (builder : MapBuilder) (value : ValueId) : Location → Except Rejection (Option Placement)
  | .stack slot =>
    match slot.purpose with
    | .parameter => .ok none
    | .spill => (builder.slotBit value slot).map fun bit => some (.frame bit)
  | .register register =>
    if builder.convention.owns .general register then
      match builder.convention.saveWord? register with
      | some word => .ok (some (.frame word))
      | none => .ok (some (.register register.code.toNat))
    else .error (.foreignRegister value register)
  | .immediate bits => .error (.immediate value bits)
  | .unassigned => .error (.unassigned value)

/-- The verdict on every reference among the live values, in the given order. -/
def verdicts (builder : MapBuilder) (live : List (ValueId × Record)) :
    List (Except Rejection (Option Placement)) :=
  (live.filter fun entry => entry.2.isReference).map fun entry =>
    builder.place entry.1 entry.2.location

/-- The rejections among the verdicts. -/
def rejections (verdicts : List (Except Rejection (Option Placement))) : List Rejection :=
  verdicts.filterMap fun
    | .error rejection => some rejection
    | .ok _ => none

/-- The placements among the verdicts. -/
def placements (verdicts : List (Except Rejection (Option Placement))) : List Placement :=
  verdicts.filterMap fun
    | .ok placement => placement
    | .error _ => none

/-- The map of a safepoint at which exactly the given values are live. -/
def build (builder : MapBuilder) (live : List (ValueId × Record)) :
    Except Rejection ReferenceMap :=
  let verdicts := builder.verdicts live
  match Rejection.lowest (rejections verdicts) with
  | some rejection => .error rejection
  | none =>
    let placed := placements verdicts
    .ok {
      frame := Bitmap.ofPositions builder.frameLength (placed.filterMap Placement.frame?)
      registers :=
        Bitmap.ofPositions builder.registerLength (placed.filterMap Placement.register?) }

/-- The bit that reports a reference at a location, found in checked steps. -/
def placeChecked (builder : MapBuilder) (value : ValueId) :
    Location → Checked (Except Rejection (Option Placement))
  | .stack slot =>
    match slot.purpose with
    | .parameter => .ok (.ok none)
    | .spill => do
      let start ← Checked.addSigned slot.offset.toInt builder.convention.reserved.toNat
      return (builder.bitFrom value slot start).map fun bit => some (.frame bit)
  | .register register =>
    if builder.convention.owns .general register then do
      match ← builder.convention.saveWord register with
      | some word => return .ok (some (.frame word))
      | none =>
        let bit ← builder.convention.catalog.indexOf register
        return .ok (some (.register bit))
    else .ok (.error (.foreignRegister value register))
  | .immediate bits => .ok (.error (.immediate value bits))
  | .unassigned => .ok (.error (.unassigned value))

/-- A map in the making: the bits set so far, and the rejection to report. -/
structure Draft where
  frame : Bitmap
  registers : Bitmap
  rejection : Option Rejection

/-- Set the bit of a placement. -/
def Draft.mark (draft : Draft) : Placement → Checked Draft
  | .frame bit => do
    let frame ← draft.frame.set bit
    return { draft with frame }
  | .register bit => do
    let registers ← draft.registers.set bit
    return { draft with registers }

/-- Enter one live value. A rejection does not stop the drawing. -/
def enter (builder : MapBuilder) (draft : Draft) (entry : ValueId × Record) : Checked Draft :=
  if entry.2.isReference then do
    match ← builder.placeChecked entry.1 entry.2.location with
    | .ok (some placement) => draft.mark placement
    | .ok none => return draft
    | .error rejection =>
      return { draft with rejection := Rejection.lower draft.rejection rejection }
  else .ok draft

/-- The map of a safepoint, drawn value by value in checked steps. -/
def buildChecked (builder : MapBuilder) (live : List (ValueId × Record)) :
    Checked (Except Rejection ReferenceMap) := do
  let draft ← live.foldlM builder.enter
    ⟨.blank builder.frameLength, .blank builder.registerLength, none⟩
  match draft.rejection with
  | some rejection => return .error rejection
  | none => return .ok ⟨draft.frame, draft.registers⟩

end MapBuilder

end StackMaps
