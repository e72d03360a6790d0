import StackMaps.Table

/-!
# Methods under compilation

A method collects values, their locations, safepoints, and the safepoints at
which values are live, while its spill area grows to cover the slots in use.
Every operation returns the state it leaves behind, also when it refuses, so a
refused assignment can be seen to change nothing.

`finish` checks the allocation contract, builds the reference map of every
safepoint in order, and packs the maps into a table.
-/

namespace StackMaps

/-- The reference maps of a compiled method. -/
structure CompiledMethod where
  name : String
  target : Architecture
  /-- Bytes of spill area above the convention's reserved bytes. -/
  frameSize : UInt32
  maps : Table
  deriving DecidableEq

/-- A method whose reference maps are not built yet. -/
structure Method where
  name : String
  convention : Convention
  values : List Record
  safepoints : List Safepoint
  /-- Bytes of spill area in use. -/
  frameSize : UInt32

namespace Method

/-- The result of an operation that may refuse: the method it leaves, and the
refusal if there was one. -/
abbrev Step : Type := Checked (Method × Except Failure Unit)

/-- Go on with another operation, unless this one refused. -/
def Step.andThen (step : Step) (next : Method → Step) : Step := do
  let (method, outcome) ← step
  match outcome with
  | .ok () => next method
  | .error failure => return (method, .error failure)

/-- A method without values, safepoints or spill area. -/
def begin (name : String) (convention : Convention) : Method := ⟨name, convention, [], [], 0⟩

/-- The target of a method. -/
def target (method : Method) : Architecture := method.convention.target

/-- Append a record and return its handle. -/
def addRecord (method : Method) (record : Record) : Method × ValueId :=
  ({ method with values := method.values ++ [record] }, Handle.ofNat method.values.length)

/-- A new value without a location. -/
def newValue (method : Method) (kind : Kind) : Method × ValueId :=
  method.addRecord (.fresh kind)

/-- A new value that is a constant. -/
def constant (method : Method) (kind : Kind) (bits : Int64) : Method × ValueId :=
  method.addRecord (.located kind (.immediate bits))

/-- Append a safepoint and return its handle. -/
def addSafepoint (method : Method) (pc : UInt32) (kind : SafepointKind) : Method × SafepointId :=
  ({ method with safepoints := method.safepoints ++ [⟨pc, kind⟩] },
    Handle.ofNat method.safepoints.length)

/-- Whether a value of a kind may be assigned a location: a register must be one
of the target's and of the kind's bank, and a location must be decided. -/
def admits (method : Method) (kind : Kind) : Location → Bool
  | .register register => method.convention.owns kind.bank register
  | .stack _ | .immediate _ => true
  | .unassigned => false

/-- The bytes of a value of a kind, rounded up to whole slots. -/
def slotBytes (method : Method) (kind : Kind) : Checked UInt32 := do
  let slot := method.convention.slotSize
  let padded ← Checked.add (kind.size method.target.wordSize) slot
  let slots ← Checked.divide (padded - 1) slot
  return slots * slot

/-- Replace the record of a value. -/
def setRecord (method : Method) (value : ValueId) (record : Record) : Method :=
  { method with values := method.values.set value.number.toNat record }

/-- Grow the spill area to at least the given bytes. -/
def reserveFrame (method : Method) (bytes : UInt32) : Method :=
  { method with frameSize := max method.frameSize bytes }

/-- Grow the spill area so that it covers a value of a kind at a location. Only
spill slots at or above the start of the area take part. -/
def cover (method : Method) (kind : Kind) : Location → Checked Method
  | .stack ⟨offset, .spill⟩ =>
    if 0 ≤ offset then do
      let bytes ← method.slotBytes kind
      let stop ← Checked.add offset.toUInt32 bytes
      return method.reserveFrame stop
    else .ok method
  | _ => .ok method

/-- Store an assigned location in the record of a value, if the location is
admissible and none was stored before. -/
def store (method : Method) (value : ValueId) (record : Record) (location : Location) :
    Except Failure Method :=
  if method.admits record.kind location then
    match record.settle location with
    | .ok settled => .ok (method.setRecord value settled)
    | .error held => .error (.reassigned value held location)
  else .error (.invalidLocation value record.kind location)

/-- Assign a value its location. A value is assigned exactly once. A spill slot
above the current spill area grows it. -/
def assign (method : Method) (value : ValueId) (location : Location) : Step := do
  let record ← value.fetch method.values
  match method.store value record location with
  | .error failure => return (method, .error failure)
  | .ok stored =>
    let covered ← stored.cover record.kind location
    return (covered, .ok ())

/-- A fresh spill slot for a value of a kind, at the end of the spill area. An
offset is 32 bits with a sign, so one past the signed range wraps. -/
def newSpillSlot (method : Method) (kind : Kind) : Checked (Method × Location) := do
  let bytes ← method.slotBytes kind
  let grown ← Checked.add method.frameSize bytes
  return ({ method with frameSize := grown }, .spill method.frameSize.toInt32)

/-- Make a value live at a safepoint of the method. -/
def markLive (method : Method) (value : ValueId) (safepoint : SafepointId) : Checked Method := do
  let position ← safepoint.index
  if position < method.safepoints.length then do
    let record ← value.fetch method.values
    return method.setRecord value (record.addLive safepoint)
  else throw .safepointBeyondEnd

/-- The record of a value. -/
def value (method : Method) (value : ValueId) : Checked Record := value.fetch method.values

/-- A safepoint of the method. -/
def safepoint (method : Method) (safepoint : SafepointId) : Checked Safepoint :=
  safepoint.fetch method.safepoints

/-- The values live at a safepoint, in value order. -/
def liveValues (method : Method) (safepoint : SafepointId) : Checked (List (ValueId × Record)) :=
  Record.liveEntriesChecked method.values safepoint

/-- The layout of the frame as it is now. -/
def layout (method : Method) : Checked FrameLayout :=
  FrameLayout.ofConvention method.convention method.frameSize

/-- A map builder for the frame as it is now. -/
def mapBuilder (method : Method) : Checked MapBuilder := do
  let layout ← method.layout
  MapBuilder.make method.convention layout

/-- The maps of safepoints in order, up to the first rejection. -/
def mapsOf (method : Method) (builder : MapBuilder) :
    List (SafepointId × Safepoint) → Checked (Except Rejection (List (UInt32 × ReferenceMap)))
  | [] => .ok (.ok [])
  | entry :: rest => do
    let live ← Record.liveEntriesChecked method.values entry.1
    match ← builder.buildChecked live with
    | .error rejection => return .error rejection
    | .ok map =>
      match ← method.mapsOf builder rest with
      | .error rejection => return .error rejection
      | .ok later => return .ok ((entry.2.pc, map) :: later)

/-- Check the contract, build the maps and pack them. -/
def table (method : Method) : Checked (Except Failure Table) := do
  match ← Contract.run method.convention method.values method.safepoints with
  | .error violations => return .error (.contract violations)
  | .ok () =>
    let builder ← method.mapBuilder
    match ← method.mapsOf builder (Handle.entries method.safepoints) with
    | .error rejection => return .error (.rejected rejection)
    | .ok maps => Table.ofMaps builder.frameLength builder.registerLength maps

/-- A refusal of this method's compilation. -/
def refuse (method : Method) (cause : Failure) : CompileFailure :=
  ⟨method.name, method.target, cause⟩

/-- The compiled method over a table. -/
def compiledWith (method : Method) (maps : Table) : CompiledMethod :=
  ⟨method.name, method.target, method.frameSize, maps⟩

/-- Finish the compilation. -/
def finish (method : Method) : Checked (Except CompileFailure CompiledMethod) := do
  match ← method.table with
  | .error cause => return .error (method.refuse cause)
  | .ok maps => return .ok (method.compiledWith maps)

end Method

/-- A target bound to its convention, which says where an exception handler
finds the thrown object. -/
structure Generator where
  convention : Convention
  catchParameter : Location

namespace Generator

/-- Bind a convention. The register that receives thrown objects must be the one
in which references are returned. -/
def make (convention : Convention) : Except Failure Generator :=
  match convention.registerFor .exceptionResult .general with
  | .error problem => .error (.convention problem)
  | .ok role =>
    match convention.resultLocation .reference with
    | .error problem => .error (.convention problem)
    | .ok result =>
      if result = .register role then .ok ⟨convention, result⟩
      else .error (.inconsistentCatch role result)

/-- Start a method. -/
def beginMethod (generator : Generator) (name : String) : Method :=
  Method.begin name generator.convention

end Generator

end StackMaps
