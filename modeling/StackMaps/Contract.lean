import StackMaps.Convention
import StackMaps.Record

/-!
# The allocation contract

Before any map is built, every safepoint is checked: a reference that is live
there must be in a stack slot or in a general-purpose register of the target, and
at a call in one that survives it. All violations are collected.

A reference that is nowhere, is a constant, or is in a register that cannot hold
it is reported once, at the first safepoint where it is live. A reference that a
call would destroy is reported at every such call.

`run` goes through the check in checked steps: it uses safepoint handles as
positions and asks a register set about registers, and either may be a fault.
`check` gives the same answer from answers that are always there.
-/

namespace StackMaps

/-- A breach of the allocation contract. -/
inductive Violation where
  /-- A call destroys the register the reference is in. -/
  | clobbered (value : ValueId) (safepoint : SafepointId) (pc : UInt32) (register : Register)
  | unassigned (value : ValueId) (safepoint : SafepointId)
  | immediate (value : ValueId) (safepoint : SafepointId)
  /-- The register cannot hold a reference on this target. -/
  | foreignRegister (value : ValueId) (safepoint : SafepointId) (register : Register)
  deriving DecidableEq

namespace Violation

/-- The value that breaches the contract. -/
def value : Violation → ValueId
  | clobbered value _ _ _ => value
  | unassigned value _ => value
  | immediate value _ => value
  | foreignRegister value _ _ => value

/-- The safepoint at which the breach is reported. -/
def safepoint : Violation → SafepointId
  | clobbered _ safepoint _ _ => safepoint
  | unassigned _ safepoint => safepoint
  | immediate _ safepoint => safepoint
  | foreignRegister _ safepoint _ => safepoint

/-- The wording of each breach. -/
def message : Violation → String
  | clobbered value safepoint pc register =>
    SafepointId.text safepoint ++ ": reference " ++ ValueId.text value ++
      " is live across the call at " ++ Text.hex pc.toNat ++ " in caller-saved " ++ register.text
  | unassigned value safepoint =>
    SafepointId.text safepoint ++ ": reference " ++ ValueId.text value ++ " has no location"
  | immediate value safepoint =>
    SafepointId.text safepoint ++ ": reference " ++ ValueId.text value ++ " is an immediate"
  | foreignRegister value safepoint register =>
    SafepointId.text safepoint ++ ": reference " ++ ValueId.text value ++ " is in " ++
      register.text ++ ", which cannot hold a reference"

/-- The wording of a list of breaches: their number, then one line for each. -/
def summary (violations : List Violation) : String :=
  toString violations.length ++ " allocation error(s):" ++
    String.join (violations.map fun violation => "\n  " ++ violation.message)

end Violation

namespace Contract

/-- What has been found so far: the violations in order, and the values whose
location was already reported as unusable. -/
structure Findings where
  violations : List Violation
  reported : List ValueId

namespace Findings

/-- Nothing found yet. -/
def empty : Findings := ⟨[], []⟩

/-- Add a violation that is due at every safepoint. -/
def add (findings : Findings) (violation : Violation) : Findings :=
  { findings with violations := findings.violations ++ [violation] }

/-- Add a violation that is due once for its value. -/
def addOnce (findings : Findings) (violation : Violation) : Findings :=
  if findings.reported.contains violation.value then findings
  else ⟨findings.violations ++ [violation], findings.reported ++ [violation.value]⟩

/-- Judge one reference that is live at a safepoint. -/
def judge (convention : Convention) (safepoint : SafepointId) (point : Safepoint)
    (findings : Findings) (live : ValueId × Location) : Findings :=
  match live.2 with
  | .stack _ => findings
  | .register register =>
    if !convention.owns .general register then
      findings.addOnce (.foreignRegister live.1 safepoint register)
    else if point.kind = .call ∧ convention.preserved.has register = false then
      findings.add (.clobbered live.1 safepoint point.pc register)
    else findings
  | .immediate _ => findings.addOnce (.immediate live.1 safepoint)
  | .unassigned => findings.addOnce (.unassigned live.1 safepoint)

/-- Judge every reference that is live at a safepoint, in value order. -/
def visit (convention : Convention) (values : List Record) (findings : Findings)
    (entry : SafepointId × Safepoint) : Findings :=
  (Record.liveReferences values entry.1).foldl (judge convention entry.1 entry.2) findings

/-- Judge one reference in checked steps. Whether its register survives is asked
at calls only, and only of a register that can hold the reference. -/
def judgeChecked (convention : Convention) (safepoint : SafepointId) (point : Safepoint)
    (findings : Findings) (live : ValueId × Location) : Checked Findings :=
  match live.2 with
  | .stack _ => .ok findings
  | .register register =>
    if !convention.owns .general register then
      .ok (findings.addOnce (.foreignRegister live.1 safepoint register))
    else if point.kind = .call then do
      let survives ← convention.survivesCall register
      return if survives then findings
        else findings.add (.clobbered live.1 safepoint point.pc register)
    else .ok findings
  | .immediate _ => .ok (findings.addOnce (.immediate live.1 safepoint))
  | .unassigned => .ok (findings.addOnce (.unassigned live.1 safepoint))

/-- Judge every reference that is live at a safepoint in checked steps. -/
def visitChecked (convention : Convention) (values : List Record) (findings : Findings)
    (entry : SafepointId × Safepoint) : Checked Findings := do
  let live ← Record.liveReferencesChecked values entry.1
  live.foldlM (judgeChecked convention entry.1 entry.2) findings

end Findings

/-- The answer that findings amount to. -/
def verdict (violations : List Violation) : Except (List Violation) Unit :=
  match violations with
  | [] => .ok ()
  | found => .error found

/-- All violations, in safepoint order and within a safepoint in value order. -/
def violations (convention : Convention) (values : List Record) (safepoints : List Safepoint) :
    List Violation :=
  ((Handle.entries safepoints).foldl (Findings.visit convention values) .empty).violations

/-- Accept values that keep the contract, or list every violation. -/
def check (convention : Convention) (values : List Record) (safepoints : List Safepoint) :
    Except (List Violation) Unit :=
  verdict (violations convention values safepoints)

/-- Check every safepoint in checked steps. -/
def run (convention : Convention) (values : List Record) (safepoints : List Safepoint) :
    Checked (Except (List Violation) Unit) := do
  let findings ← (Handle.entries safepoints).foldlM (Findings.visitChecked convention values) .empty
  return verdict findings.violations

end Contract

end StackMaps
