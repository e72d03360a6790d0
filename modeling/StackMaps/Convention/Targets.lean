import StackMaps.Convention

/-!
# The conventions of the supported targets

Each target returns references where its exception handlers receive them, keeps
its stack, frame, scratch and latch registers away from the allocator, and offers
registers that do not survive calls first, so that short-lived values leave the
surviving ones free.

Only the SPARC convention reserves frame space: sixteen words into which a
register window is flushed and six for outgoing register arguments. A flushed
window puts the locals in words 0 to 7 and the ins in words 8 to 15.
-/

namespace StackMaps

namespace Convention

/-- The general-purpose registers with the given encodings. -/
def generals (codes : List UInt8) : List Register := codes.map fun code => ⟨code, .general⟩

/-- The floating-point registers with the given encodings. -/
def floatings (codes : List UInt8) : List Register := codes.map fun code => ⟨code, .floating⟩

/-- The first floating-point registers. -/
def firstFloatings (count : Nat) : List Register := Catalog.firstRegisters count .floating

/-- The set of the listed registers, all of which have a place. -/
def surviving (registers : List Register) : RegisterSet :=
  registers.foldl RegisterSet.put .empty

/-- Role registers given as one encoding for each role, general-purpose first
and then floating-point. -/
def roleTable (general : Role → Option UInt8) (floating : Role → Option UInt8) :
    Role → Bank → Option Register
  | role, .general => (general role).map fun code => ⟨code, .general⟩
  | role, .floating => (floating role).map fun code => ⟨code, .floating⟩

/-- Every kind is returned in one register of its bank. -/
def resultsIn (general floating : UInt8) (kind : Kind) : Option Location :=
  match kind.bank with
  | .general => some (.register ⟨general, .general⟩)
  | .floating => some (.register ⟨floating, .floating⟩)

/-- 64-bit x86. -/
def amd64 : Convention where
  target := .amd64
  slotSize := 8
  reserved := 0
  allocatable
    | .general => generals [0, 1, 2, 6, 7, 8, 9, 10, 3, 12, 13, 15]
    | .floating => firstFloatings 15
  preserved := surviving (generals [3, 12, 13, 15])
  roles := roleTable
    (fun
      | .stackPointer => some 4
      | .framePointer => some 5
      | .result => some 0
      | .scratch => some 11
      | .safepointLatch => some 14
      | .exceptionResult => some 0)
    (fun
      | .result => some 0
      | .scratch => some 15
      | _ => none)
  results := resultsIn 0 0
  saveWords := fun _ => none

/-- 64-bit ARM. -/
def aarch64 : Convention where
  target := .aarch64
  slotSize := 8
  reserved := 0
  allocatable
    | .general => generals
        [0, 1, 2, 3, 4, 5, 6, 7, 8, 9, 10, 11, 12, 13, 14, 15, 19, 20, 21, 22, 23, 24, 25, 27, 28]
    | .floating => firstFloatings 31
  preserved := surviving
    (generals [19, 20, 21, 22, 23, 24, 25, 27, 28] ++ floatings [8, 9, 10, 11, 12, 13, 14, 15])
  roles := roleTable
    (fun
      | .stackPointer => some 31
      | .framePointer => some 29
      | .result => some 0
      | .scratch => some 16
      | .safepointLatch => some 26
      | .exceptionResult => some 0)
    (fun
      | .result => some 0
      | .scratch => some 31
      | _ => none)
  results := resultsIn 0 0
  saveWords := fun _ => none

/-- 32-bit x86. A 64-bit integer needs two registers and is not returned
directly. -/
def ia32 : Convention where
  target := .ia32
  slotSize := 4
  reserved := 0
  allocatable
    | .general => generals [0, 1, 3, 6]
    | .floating => firstFloatings 7
  preserved := surviving (generals [3, 6])
  roles := roleTable
    (fun
      | .stackPointer => some 4
      | .framePointer => some 5
      | .result => some 0
      | .scratch => some 2
      | .safepointLatch => some 7
      | .exceptionResult => some 0)
    (fun
      | .result => some 0
      | .scratch => some 7
      | _ => none)
  results
    | .long => none
    | kind => resultsIn 0 0 kind
  saveWords := fun _ => none

/-- 64-bit SPARC. Windowed registers survive calls, globals and outs do not. -/
def sparcv9 : Convention where
  target := .sparcv9
  slotSize := 8
  reserved := 176
  allocatable
    | .general => generals
        [8, 9, 10, 11, 12, 13, 3, 4, 16, 17, 18, 19, 20, 21, 22, 23, 24, 25, 26, 27, 28, 29]
    | .floating => firstFloatings 30
  preserved := surviving
    (generals [16, 17, 18, 19, 20, 21, 22, 23, 24, 25, 26, 27, 28, 29])
  roles := roleTable
    (fun
      | .stackPointer => some 14
      | .framePointer => some 30
      | .result => some 8
      | .scratch => some 1
      | .safepointLatch => some 2
      | .exceptionResult => some 8)
    (fun
      | .result => some 0
      | .scratch => some 30
      | _ => none)
  results := resultsIn 8 0
  saveWords := fun place =>
    if 16 ≤ place.val ∧ place.val < 32 then some (UInt16.ofNat (place.val - 16)) else none

end Convention

namespace Architecture

/-- The convention of a target. -/
def convention : Architecture → Convention
  | .amd64 => Convention.amd64
  | .aarch64 => Convention.aarch64
  | .ia32 => Convention.ia32
  | .sparcv9 => Convention.sparcv9

/-- The convention of a target is for that target. -/
theorem target_convention (target : Architecture) : target.convention.target = target := by
  cases target <;> rfl

end Architecture

end StackMaps
