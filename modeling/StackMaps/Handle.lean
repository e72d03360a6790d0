import StackMaps.Fault

/-!
# Handles into a table

Values and safepoints of a method are kept in tables and referred to by number.
A handle is such a number together with the type of what it refers to, so that a
value's handle is never taken for a safepoint's. Numbers have 32 bits; the
largest one refers to nothing, and using it as an index is a fault.
-/

namespace StackMaps

/-- A reference to an entry of a table of `α`. -/
structure Handle (α : Type) where
  number : UInt32

namespace Handle

variable {α : Type}

/-- Handles are equal when their numbers are. -/
theorem eq_of_number {left right : Handle α} (same : left.number = right.number) :
    left = right := by
  cases left
  cases right
  exact congrArg Handle.mk same

instance : DecidableEq (Handle α) := fun left right =>
  decidable_of_iff (left.number = right.number)
    ⟨eq_of_number, fun same => congrArg Handle.number same⟩

/-- The handle of a position. Only the low 32 bits of the position are kept. -/
def ofNat (position : Nat) : Handle α := ⟨UInt32.ofNat position⟩

/-- The handle that refers to nothing. -/
def nowhere : Handle α := ⟨4294967295⟩

/-- Whether a handle may be used as an index. -/
def isValid (handle : Handle α) : Bool := handle ≠ nowhere

/-- The position a handle refers to. -/
def index (handle : Handle α) : Checked Nat :=
  if handle.isValid then .ok handle.number.toNat else .error .invalidHandle

/-- The entry a handle refers to. -/
def fetch (handle : Handle α) (table : List α) : Checked α := do
  let position ← handle.index
  Checked.element table position

/-- The entries of a table with their handles, in table order. -/
def entries (table : List α) : List (Handle α × α) :=
  table.zipIdx.map fun entry => (ofNat entry.2, entry.1)

end Handle

end StackMaps
