import StackMaps.Convention

/-!
# Building a convention

The steps that complete a convention, as data, and what a sequence of them makes of a
bare one. Later steps replace what earlier ones bound. A save word for a register
without a place is a fault, which ends the sequence without a convention.
-/

namespace StackMaps

namespace Convention

/-- A step that binds a part of a convention. -/
inductive Binding where
  | allocatable (bank : Bank) (registers : List Register)
  | preserved (registers : RegisterSet)
  | role (role : Role) (register : Register)
  | result (kind : Kind) (location : Location)
  | saveWord (register : Register) (word : UInt16)
  deriving DecidableEq

/-- The convention that one step makes. -/
def perform (convention : Convention) : Binding → Checked Convention
  | .allocatable bank registers => .ok (convention.withAllocatable bank registers)
  | .preserved registers => .ok (convention.withPreserved registers)
  | .role role register => .ok (convention.bindRole role register)
  | .result kind location => .ok (convention.bindResult kind location)
  | .saveWord register word => convention.bindSaveWord register word

/-- The convention that a sequence of steps makes. -/
def build : Convention → List Binding → Checked Convention
  | convention, [] => .ok convention
  | convention, binding :: rest => do
    let next ← convention.perform binding
    build next rest

end Convention

end StackMaps
