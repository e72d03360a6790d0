import StackMaps.Register
import StackMaps.Text

/-!
# Storage locations

Where a value lives while the method is suspended: in a register, in a stack
slot, nowhere because it is a constant, or not yet decided. A stack slot belongs
either to the caller, as an incoming parameter, or to the method's own spill
area.
-/

namespace StackMaps

/-- Which frame a stack slot belongs to. -/
inductive Purpose where
  | parameter
  | spill
  deriving DecidableEq

/-- A stack slot: a signed byte offset inside the caller's outgoing area or
inside the method's spill area. -/
structure Slot where
  offset : Int32
  purpose : Purpose
  deriving DecidableEq

namespace Purpose

/-- The purpose as it is written in listings. -/
def text : Purpose → String
  | .parameter => "param"
  | .spill => "spill"

/-- The purpose as it is spelled in a full description. -/
def label : Purpose → String
  | .parameter => "Parameter"
  | .spill => "Spill"

/-- Parameters are listed before spills. -/
def rank : Purpose → Nat
  | .parameter => 0
  | .spill => 1

end Purpose

namespace Slot

/-- Short name with a signed offset. -/
def text (slot : Slot) : String :=
  slot.purpose.text ++ "[" ++ Text.signed slot.offset.toInt ++ "]"

/-- Full description with both components. -/
def describe (slot : Slot) : String :=
  "StackSlot \x7b offset: " ++ Text.decimal slot.offset.toInt ++ ", purpose: " ++
    slot.purpose.label ++ " \x7d"

end Slot

/-- Where a value lives. -/
inductive Location where
  | register (register : Register)
  | stack (slot : Slot)
  | immediate (bits : Int64)
  | unassigned
  deriving DecidableEq

namespace Location

/-- A slot of the method's own spill area. -/
def spill (offset : Int32) : Location := .stack ⟨offset, .spill⟩

/-- An incoming argument in the caller's frame. -/
def parameter (offset : Int32) : Location := .stack ⟨offset, .parameter⟩

/-- Whether a location has been decided. -/
def isAssigned : Location → Bool
  | .unassigned => false
  | _ => true

/-- The register, if the value is in one. -/
def register? : Location → Option Register
  | .register held => some held
  | _ => none

/-- The stack slot, if the value is in one. -/
def slot? : Location → Option Slot
  | .stack slot => some slot
  | _ => none

/-- The bank of the register, if the value is in one. -/
def bank? (location : Location) : Option Bank := location.register?.map Register.bank

/-- The location as it is written in messages. -/
def text : Location → String
  | .register held => held.text
  | .stack slot => slot.text
  | .immediate bits => "#" ++ Text.decimal bits.toInt
  | .unassigned => "unassigned"

/-- Full description with every component. -/
def describe : Location → String
  | .register held => "Register(" ++ held.describe ++ ")"
  | .stack slot => "Stack(" ++ slot.describe ++ ")"
  | .immediate bits => "Immediate(" ++ Text.decimal bits.toInt ++ ")"
  | .unassigned => "Unassigned"

/-- Registers come first, then stack slots by offset and purpose, then
constants by value, and undecided locations last. -/
def le : Location → Location → Bool
  | .register left, .register right => left.le right
  | .register _, _ => true
  | .stack _, .register _ => false
  | .stack left, .stack right =>
    left.offset < right.offset ||
      (left.offset == right.offset && left.purpose.rank ≤ right.purpose.rank)
  | .stack _, _ => true
  | .immediate left, .immediate right => left ≤ right
  | .immediate _, .unassigned => true
  | .immediate _, _ => false
  | .unassigned, .unassigned => true
  | .unassigned, _ => false

/-- Locations in listing order. -/
def sorted (locations : List Location) : List Location := locations.mergeSort le

/-- How many different locations a list holds. -/
def distinct (locations : List Location) : Nat := locations.eraseDups.length

end Location

end StackMaps
