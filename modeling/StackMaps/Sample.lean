import StackMaps.Sample.Source
import StackMaps.Snapshot

/-!
# Sample methods

Well-formed methods drawn from a source of choices, for exercising everything that
consumes a method. A target is chosen first, then safepoints at increasing offsets,
then values, each with a location and the safepoints at which it is live. The method
is built with its ordinary operations while it is drawn. A reference in a register
that calls destroy is never made live at a call, so a sample keeps the allocation
contract.
-/

namespace StackMaps

namespace Sample

/-- Bounds on the methods that are drawn. -/
structure Options where
  maxSafepoints : Nat
  maxValues : Nat
  /-- Put some values in incoming parameter slots. -/
  parameters : Bool

/-- The usual bounds. -/
def Options.usual : Options := ⟨16, 64, true⟩

variable {source : Source}

/-! ## Safepoints -/

/-- A method with the safepoints drawn so far: the offset of the last one, and the
handle and the kind of each. -/
structure Outline where
  method : Method
  pc : UInt32
  points : List (SafepointId × SafepointKind)

/-- Add a safepoint between 1 and 64 bytes after the one before. -/
def drawSafepoint (outline : Outline) : Draw source Outline := do
  let gap ← .ask (source.between 4 1 64)
  let pc ← .perform (Checked.add outline.pc (UInt32.ofNat gap.toNat))
  let isCall ← .ask source.flag
  let kind : SafepointKind := if isCall then .call else .poll
  let (method, safepoint) := outline.method.addSafepoint pc kind
  return ⟨method, pc, outline.points ++ [(safepoint, kind)]⟩

/-! ## Locations -/

/-- The allocatable general-purpose registers that survive calls. -/
def surviving (convention : Convention) : Checked (List Register) :=
  (convention.allocatable .general).filterM convention.survivesCall

/-- A parameter slot between four slots below and sixteen slots above the start
of the caller's outgoing area. -/
def drawParameter (convention : Convention) : Draw source Location := do
  let slots ← .ask (source.between 4 (-4) 16)
  let offset ← .perform (Checked.multiplySigned convention.slotSize.toInt32 (Int32.ofInt slots))
  return .parameter offset

/-- A register from a list of candidates. -/
def drawRegister (candidates : List Register) : Draw source Location := do
  let register ← .ask (source.choose candidates)
  return .register register

/-- A constant. -/
def drawImmediate : Draw source Location := do
  let bits ← .ask source.word
  return .immediate bits

/-- The location of a value of a kind, and the method after a fresh slot was taken from
it. What a choice asks for gives way to an allocatable register where it cannot be
had. -/
def drawLocation (options : Options) (preserved : List Register) (method : Method)
    (kind : Kind) : Draw source (Method × Location) := do
  let choice ← .ask (source.between 1 0 4)
  if choice = 0 ∧ options.parameters then
    return (method, ← drawParameter method.convention)
  else if choice = 0 ∨ choice = 1 then
    .perform (method.newSpillSlot kind)
  else if choice = 2 ∧ preserved ≠ [] ∧ kind.bank = .general then
    return (method, ← drawRegister preserved)
  else if choice = 4 ∧ kind.isReference = false then
    return (method, ← drawImmediate)
  else
    return (method, ← drawRegister (method.convention.allocatable kind.bank))

/-! ## Values -/

/-- Whether a call would destroy a value of a kind at a location. -/
def isClobbered (convention : Convention) (kind : Kind) : Location → Checked Bool
  | .register register =>
    if kind.isReference then (! ·) <$> convention.survivesCall register else .ok false
  | _ => .ok false

/-- Make a value live at a safepoint or not. A call that would destroy the value is
passed over without a draw. -/
def drawLive (value : ValueId) (clobbered : Bool) (method : Method)
    (point : SafepointId × SafepointKind) : Draw source Method := do
  if clobbered = true ∧ point.2 = .call then return method
  else
    let isLive ← .ask source.flag
    if isLive then .perform (method.markLive value point.1) else return method

/-- Add a value: its record, its location, then its liveness. -/
def drawValue (options : Options) (preserved : List Register)
    (points : List (SafepointId × SafepointKind)) (method : Method) : Draw source Method := do
  let kind ← .ask (source.choose Kind.all)
  let (extended, value) := method.newValue kind
  let (located, location) ← drawLocation options preserved extended kind
  let (assigned, outcome) ← .perform (located.assign value location)
  Draw.expect outcome
  let clobbered ← .perform (isClobbered method.convention kind location)
  points.foldlM (drawLive value clobbered) assigned

/-- Draw a method. -/
def draw (options : Options) : Draw source Method := do
  let target ← .ask (source.choose Architecture.all)
  let start := Method.begin ("fuzz_" ++ target.name) target.convention
  let safepointCount ← .ask (source.between 8 0 options.maxSafepoints)
  let outline ← Draw.times drawSafepoint safepointCount.toNat ⟨start, 0, []⟩
  let preserved ← .perform (surviving target.convention)
  let valueCount ← .ask (source.between 8 0 options.maxValues)
  Draw.times (drawValue options preserved outline.points) valueCount.toNat outline.method

end Sample

end StackMaps
