import StackMaps.Catalog
import StackMaps.Kind
import StackMaps.Location
import StackMaps.Register.Set

/-!
# Calling conventions

A convention answers every question about a target that depends on more than its
registers: the width of a stack slot, the bytes reserved at the bottom of every
frame, which registers an allocator may use, which of them survive a call, which
register plays which role, where a result is returned, and which registers are
found at a fixed word of the reserved area while a method is suspended.

A convention can be completed step by step. What was never bound is reported as
such when it is asked for. `validate` names the first inconsistency, in a fixed
order: geometry, allocatable registers, save words, result locations.
`validateChecked` does the same in the steps of the machine.
-/

namespace StackMaps

/-- What a register is kept for. -/
inductive Role where
  | stackPointer
  | framePointer
  /-- Where a result of the role's bank is returned. -/
  | result
  /-- Kept free for short code sequences. -/
  | scratch
  /-- Holds the address polled at safepoints. -/
  | safepointLatch
  /-- Where a thrown object is delivered to its handler. -/
  | exceptionResult
  deriving DecidableEq

namespace Role

/-- Every role. -/
def all : List Role :=
  [.stackPointer, .framePointer, .result, .scratch, .safepointLatch, .exceptionResult]

/-- Whether the register of this role must never be handed to an allocator. -/
def isReserved : Role → Bool
  | .stackPointer | .framePointer | .scratch | .safepointLatch => true
  | .result | .exceptionResult => false

/-- The role as it is spelled in messages. -/
def label : Role → String
  | .stackPointer => "StackPointer"
  | .framePointer => "FramePointer"
  | .result => "Result"
  | .scratch => "Scratch"
  | .safepointLatch => "SafepointLatch"
  | .exceptionResult => "ExceptionResult"

end Role

/-- The calling convention and frame geometry of one target. -/
structure Convention where
  target : Architecture
  /-- Bytes in a stack slot. -/
  slotSize : UInt32
  /-- Bytes reserved at the bottom of every frame, below the spill area. -/
  reserved : UInt32
  /-- Registers an allocator may use, in order of preference. -/
  allocatable : Bank → List Register
  /-- Registers whose value survives a call. -/
  preserved : RegisterSet
  /-- The register playing each role in each bank. -/
  roles : Role → Bank → Option Register
  /-- Where a result of each kind is returned. -/
  results : Kind → Option Location
  /-- For each register place, the word of the reserved area that holds the
  register's value while a method is suspended. -/
  saveWords : Fin Register.places → Option UInt16

namespace Convention

/-- An internal inconsistency of a convention. -/
inductive Defect where
  | slotSize
  | partialSlot
  | allocatableOutsideCatalog
  | allocatableReserved
  | savedOutsideCatalog
  | saveOverlapsSpills
  | resultBank
  | resultNotStorage
  deriving DecidableEq

namespace Defect

/-- The wording of each inconsistency. -/
def text : Defect → String
  | slotSize => "stack slot size differs from the word size"
  | partialSlot => "minimum frame size is not a whole number of slots"
  | allocatableOutsideCatalog => "allocatable register outside the catalog"
  | allocatableReserved => "reserved register is allocatable"
  | savedOutsideCatalog => "spill index for a register outside the catalog"
  | saveOverlapsSpills => "register spill index overlaps the spill area"
  | resultBank => "result register of the wrong class"
  | resultNotStorage => "result location is not storage"

end Defect

/-- A question that a convention could not answer. -/
inductive Problem where
  /-- Values of this kind cannot be returned directly. -/
  | unsupportedKind (target : Architecture) (kind : Kind)
  /-- No register was bound to this role. -/
  | unboundRole (target : Architecture) (role : Role) (bank : Bank)
  /-- The convention is inconsistent. -/
  | malformed (target : Architecture) (defect : Defect)
  deriving DecidableEq

namespace Problem

/-- The wording of each problem. -/
def message : Problem → String
  | unsupportedKind target kind =>
    target.name ++ " cannot return a " ++ kind.text ++ " value directly"
  | unboundRole target role bank =>
    target.name ++ " has no " ++ bank.label ++ " register bound to role " ++ role.label
  | malformed target defect =>
    "malformed " ++ target.name ++ " ABI descriptor: " ++ defect.text

end Problem

/-- A convention that fixes the frame geometry and binds nothing. -/
def bare (target : Architecture) (slotSize reserved : UInt32) : Convention where
  target := target
  slotSize := slotSize
  reserved := reserved
  allocatable := fun _ => []
  preserved := .empty
  roles := fun _ _ => none
  results := fun _ => none
  saveWords := fun _ => none

/-- Replace the allocatable registers of a bank. -/
def withAllocatable (convention : Convention) (bank : Bank) (registers : List Register) :
    Convention :=
  { convention with
    allocatable := fun other => if other = bank then registers else convention.allocatable other }

/-- Replace the registers that survive calls. -/
def withPreserved (convention : Convention) (registers : RegisterSet) : Convention :=
  { convention with preserved := registers }

/-- Let a register play a role in its own bank. -/
def bindRole (convention : Convention) (role : Role) (register : Register) : Convention :=
  { convention with
    roles := fun other bank =>
      if other = role ∧ bank = register.bank then some register else convention.roles other bank }

/-- Return results of a kind at a location. -/
def bindResult (convention : Convention) (kind : Kind) (location : Location) : Convention :=
  { convention with
    results := fun other => if other = kind then some location else convention.results other }

/-- Find a register's value at a word of the reserved area. The register must
have a place. -/
def bindSaveWord (convention : Convention) (register : Register) (word : UInt16) :
    Checked Convention :=
  match register.place? with
  | some place => .ok { convention with
      saveWords := fun other => if other = place then some word else convention.saveWords other }
  | none => .error (.outOfBounds Register.places register.index)

/-- The registers of the convention's target. -/
def catalog (convention : Convention) : Catalog := convention.target.catalog

/-- Where a result of a kind is returned. -/
def resultLocation (convention : Convention) (kind : Kind) : Except Problem Location :=
  match convention.results kind with
  | some location => .ok location
  | none => .error (.unsupportedKind convention.target kind)

/-- The register playing a role. -/
def registerFor (convention : Convention) (role : Role) (bank : Bank) : Except Problem Register :=
  match convention.roles role bank with
  | some register => .ok register
  | none => .error (.unboundRole convention.target role bank)

/-- Whether a register's value survives a call. -/
def survivesCall (convention : Convention) (register : Register) : Checked Bool :=
  convention.preserved.contains register

/-- The reserved word that holds a register's value during suspension. A
register without a place has none. -/
def saveWord? (convention : Convention) (register : Register) : Option Nat :=
  register.place?.bind fun place => (convention.saveWords place).map UInt16.toNat

/-- Ask for the save word of a register that must have a place. -/
def saveWord (convention : Convention) (register : Register) : Checked (Option Nat) :=
  match register.place? with
  | some place => .ok ((convention.saveWords place).map UInt16.toNat)
  | none => .error (.outOfBounds Register.places register.index)

/-- One past the largest save word, or zero when there is none. -/
def saveSpace (convention : Convention) : Nat :=
  ((List.finRange Register.places).filterMap fun place =>
    (convention.saveWords place).map fun word => word.toNat + 1).foldl max 0

/-- Whether the register is one of the target's and of the given bank. -/
def owns (convention : Convention) (bank : Bank) (register : Register) : Bool :=
  register.bank = bank && convention.catalog.contains register

/-- What is wrong with a register offered to the allocator of a bank. -/
def allocatableDefect? (convention : Convention) (bank : Bank) (register : Register) :
    Option Defect :=
  if !convention.owns bank register then some .allocatableOutsideCatalog
  else if Role.all.any fun role =>
      role.isReserved && convention.roles role bank == some register then
    some .allocatableReserved
  else none

/-- What is wrong with the save word bound to a register place. -/
def saveDefect? (convention : Convention) (place : Fin Register.places) : Option Defect :=
  match convention.saveWords place with
  | none => none
  | some word =>
    if !convention.owns .general (Register.ofIndex place) then some .savedOutsideCatalog
    else if (convention.reserved / convention.slotSize).toNat ≤ word.toNat then
      some .saveOverlapsSpills
    else none

/-- What is wrong with the result location bound to a kind. -/
def resultDefect? (convention : Convention) (kind : Kind) : Option Defect :=
  match convention.results kind with
  | some (.register register) =>
    if convention.owns kind.bank register then none else some .resultBank
  | some (.stack _) | none => none
  | some (.immediate _) | some .unassigned => some .resultNotStorage

/-- The first inconsistency of a convention. -/
def defect? (convention : Convention) : Option Defect :=
  if convention.slotSize ≠ convention.target.wordSize then some .slotSize
  else if convention.reserved % convention.slotSize ≠ 0 then some .partialSlot
  else
    (Bank.all.findSome? fun bank =>
      (convention.allocatable bank).findSome? (convention.allocatableDefect? bank))
    <|> (List.finRange Register.places).findSome? convention.saveDefect?
    <|> Kind.all.findSome? convention.resultDefect?

/-- Accept a consistent convention, or name its first inconsistency. -/
def validate (convention : Convention) : Except Problem Unit :=
  match convention.defect? with
  | none => .ok ()
  | some defect => .error (.malformed convention.target defect)

/-- The first defect among listed things, each examined in checked steps. -/
def firstDefect {α : Type} (examine : α → Checked (Option Defect)) :
    List α → Checked (Option Defect)
  | [] => .ok none
  | item :: rest => do
    match ← examine item with
    | some defect => .ok (some defect)
    | none => firstDefect examine rest

/-- What is wrong with the save word bound to a register place. The register is made
from its place, and the reserved slots are counted, in checked steps. -/
def saveDefectChecked (convention : Convention) (place : Fin Register.places) :
    Checked (Option Defect) :=
  match convention.saveWords place with
  | none => .ok none
  | some word => do
    let register ← Register.atPlace place
    if !convention.owns .general register then .ok (some .savedOutsideCatalog)
    else do
      let slots ← Checked.divide convention.reserved convention.slotSize
      .ok (if slots.toNat ≤ word.toNat then some .saveOverlapsSpills else none)

/-- The searches through what a convention binds, in order. -/
def searches (convention : Convention) : List (Checked (Option Defect)) :=
  [firstDefect (fun bank => firstDefect
      (fun register => .ok (convention.allocatableDefect? bank register))
      (convention.allocatable bank)) Bank.all,
    firstDefect convention.saveDefectChecked (List.finRange Register.places),
    firstDefect (fun kind => .ok (convention.resultDefect? kind)) Kind.all]

/-- The first inconsistency of a convention, in checked steps. The slot width is
compared before anything is divided by it. -/
def defectChecked (convention : Convention) : Checked (Option Defect) :=
  if convention.slotSize ≠ convention.target.wordSize then .ok (some .slotSize)
  else do
    let rest ← Checked.remainder convention.reserved convention.slotSize
    if rest ≠ 0 then .ok (some .partialSlot) else firstDefect id convention.searches

/-- Accept a consistent convention, or name its first inconsistency, in checked
steps. -/
def validateChecked (convention : Convention) : Checked (Except Problem Unit) := do
  match ← convention.defectChecked with
  | none => return .ok ()
  | some defect => return .error (.malformed convention.target defect)

end Convention

end StackMaps
