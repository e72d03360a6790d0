import StackMaps.Contract
import StackMaps.ReferenceMap

/-!
# Refusals of a compilation

Every reason for which a method has no reference maps, other than a fault. A
refusal that leaves the compilation of a method names the method and its target.
-/

namespace StackMaps

/-- Why a step of a compilation was refused. -/
inductive Failure where
  /-- The convention could not answer. -/
  | convention (problem : Convention.Problem)
  /-- A live reference has a location no map can describe. -/
  | rejected (rejection : Rejection)
  /-- The allocation contract is broken. -/
  | contract (violations : List Violation)
  /-- A location was decided a second time. -/
  | reassigned (value : ValueId) (held attempted : Location)
  /-- A value of this kind cannot be at this location. -/
  | invalidLocation (value : ValueId) (kind : Kind) (location : Location)
  /-- Two safepoints share a code offset. -/
  | duplicateSafepoint (pc : UInt32)
  /-- A stored method refers to a safepoint it does not have. -/
  | unknownSafepoint (value : ValueId) (number : UInt32)
  /-- Thrown objects do not arrive where references are returned. -/
  | inconsistentCatch (role : Register) (result : Location)
  deriving DecidableEq

namespace Failure

/-- The wording of each refusal. -/
def message : Failure → String
  | convention problem => problem.message
  | rejected rejection => rejection.message
  | contract violations => Violation.summary violations
  | reassigned value held attempted =>
    ValueId.text value ++ " already assigned to " ++ held.text ++ ", cannot move it to " ++
      attempted.text
  | invalidLocation value kind location =>
    ValueId.text value ++ " of kind " ++ kind.text ++ " cannot live in " ++ location.text
  | duplicateSafepoint pc => "more than one safepoint at pc offset " ++ Text.hex pc.toNat
  | unknownSafepoint value number =>
    ValueId.text value ++ " is live at unknown safepoint sp" ++ toString number.toNat
  | inconsistentCatch role result =>
    "exception result register " ++ role.text ++ " differs from reference result location " ++
      result.text

end Failure

/-- A refused compilation, with the method and the target it was for. -/
structure CompileFailure where
  method : String
  target : Architecture
  cause : Failure
  deriving DecidableEq

namespace CompileFailure

/-- The wording of a refused compilation. -/
def message (failure : CompileFailure) : String :=
  "compiling " ++ failure.method ++ " for " ++ failure.target.name ++ ": " ++ failure.cause.message

end CompileFailure

end StackMaps
