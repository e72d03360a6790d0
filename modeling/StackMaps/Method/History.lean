import StackMaps.Method

/-!
# Histories of a method

The operations that change a method, as data, and what a sequence of them leaves
behind. A refused assignment leaves the method as the assignment left it; a fault
ends the history without a method.
-/

namespace StackMaps

namespace Method

/-- An operation that may change a method. -/
inductive Action where
  | newValue (kind : Kind)
  | constant (kind : Kind) (bits : Int64)
  | assign (value : ValueId) (location : Location)
  | newSpillSlot (kind : Kind)
  | reserveFrame (bytes : UInt32)
  | addSafepoint (pc : UInt32) (kind : SafepointKind)
  | markLive (value : ValueId) (safepoint : SafepointId)
  deriving DecidableEq

/-- The method that one operation leaves. -/
def perform (method : Method) : Action → Checked Method
  | .newValue kind => .ok (method.newValue kind).1
  | .constant kind bits => .ok (method.constant kind bits).1
  | .assign value location => Prod.fst <$> method.assign value location
  | .newSpillSlot kind => Prod.fst <$> method.newSpillSlot kind
  | .reserveFrame bytes => .ok (method.reserveFrame bytes)
  | .addSafepoint pc kind => .ok (method.addSafepoint pc kind).1
  | .markLive value safepoint => method.markLive value safepoint

/-- The method that a sequence of operations leaves. -/
def run : Method → List Action → Checked Method
  | method, [] => .ok method
  | method, action :: rest => do
    let next ← method.perform action
    run next rest

end Method

end StackMaps
