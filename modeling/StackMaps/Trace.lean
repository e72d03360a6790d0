import StackMaps.Listing
import StackMaps.Snapshot

/-!
# Traced operations

Each operation of a compilation in a form that also says what it does, line by
line and between the steps that do it. Lines that were said before a fault are
kept. The outcome of a traced operation is that of the plain one, with one
exception: binding a convention names the register that receives thrown objects,
and naming a register that the target does not have is a fault.
-/

namespace StackMaps

/-- The lines an operation said, and how it ended. -/
structure Traced (α : Type) where
  lines : List String
  outcome : Checked α

namespace Traced

/-- Say nothing. -/
def silent {α : Type} (outcome : Checked α) : Traced α := ⟨[], outcome⟩

/-- Go on with another operation, unless this one ended in a fault. -/
def next {α β : Type} (first : Traced α) (continuation : α → Traced β) : Traced β :=
  match first.outcome with
  | .error fault => ⟨first.lines, .error fault⟩
  | .ok value =>
    let second := continuation value
    ⟨first.lines ++ second.lines, second.outcome⟩

instance : Monad Traced where
  pure value := silent (.ok value)
  bind := next

instance : MonadLift Checked Traced := ⟨silent⟩

/-- Say lines. -/
def say (lines : List String) : Traced Unit := ⟨lines, .ok ()⟩

/-- Bind a convention, and name the register that receives thrown objects. The
target that is bound says what it is called and lists its registers itself. -/
def generatorFor (target : Architecture) (catalog : Catalog) (convention : Convention) :
    Traced (Except Failure Generator) := do
  match Generator.make convention with
  | .error failure => return .error failure
  | .ok bound =>
    match bound.catchParameter with
    | .register register =>
      let name ← catalog.name register
      say ["generator for " ++ target.name ++ ": catch parameter in " ++ name]
      return .ok bound
    | _ => return .ok bound

/-- Bind a convention on its own target. -/
def generator (convention : Convention) : Traced (Except Failure Generator) :=
  generatorFor convention.target convention.catalog convention

/-- The line of an assignment. -/
def assignmentLine (method : Method) (value : ValueId) (location : Location) : String :=
  method.name ++ ": " ++ ValueId.text value ++ " := " ++ location.text

/-- A traced operation that may refuse. -/
abbrev Step : Type := Traced (Method × Except Failure Unit)

/-- Go on with another operation, unless this one refused. -/
def Step.andThen (step : Step) (continuation : Method → Step) : Step := do
  let (method, outcome) ← step
  match outcome with
  | .ok () => continuation method
  | .error failure => return (method, .error failure)

/-- Assign a location. The line is said as soon as the location is stored. -/
def assign (method : Method) (value : ValueId) (location : Location) : Step := do
  let record ← value.fetch method.values
  match method.store value record location with
  | .error failure => return (method, .error failure)
  | .ok stored =>
    say [assignmentLine method value location]
    let covered ← stored.cover record.kind location
    return (covered, .ok ())

/-- The line of a placed reference. -/
def placementLine (value : ValueId) (location : Location) : Placement → String
  | .frame bit =>
    "  " ++ ValueId.text value ++ " in " ++ location.text ++ " -> frame bit " ++ toString bit
  | .register bit =>
    "  " ++ ValueId.text value ++ " in " ++ location.text ++ " -> register bit " ++ toString bit

/-- Enter one live value. The bit of a reference is said before it is set. -/
def enter (builder : MapBuilder) (draft : MapBuilder.Draft) (entry : ValueId × Record) :
    Traced MapBuilder.Draft :=
  if entry.2.isReference then do
    match ← builder.placeChecked entry.1 entry.2.location with
    | .ok (some placement) =>
      say [placementLine entry.1 entry.2.location placement]
      draft.mark placement
    | .ok none => return draft
    | .error rejection =>
      return { draft with rejection := Rejection.lower draft.rejection rejection }
  else return draft

/-- Build a map, and say the bit of every reference that has one. -/
def build (builder : MapBuilder) (live : List (ValueId × Record)) :
    Traced (Except Rejection ReferenceMap) := do
  let draft ← live.foldlM (enter builder)
    ⟨.blank builder.frameLength, .blank builder.registerLength, none⟩
  match draft.rejection with
  | some rejection => return .error rejection
  | none => return .ok ⟨draft.frame, draft.registers⟩

/-- The line that opens the check of a safepoint. -/
def safepointLine (entry : SafepointId × Safepoint) (references : Nat) : String :=
  "checker: " ++ SafepointId.text entry.1 ++ " (" ++ entry.2.kind.label ++ " at " ++
    Text.hex entry.2.pc.toNat ++ "): " ++ toString references ++ " live reference(s)"

/-- Say where a live reference is, and judge it. -/
def judge (convention : Convention) (entry : SafepointId × Safepoint)
    (findings : Contract.Findings) (live : ValueId × Location) : Traced Contract.Findings := do
  say ["  " ++ ValueId.text live.1 ++ " in " ++ live.2.text]
  findings.judgeChecked convention entry.1 entry.2 live

/-- Say how many references are live at a safepoint, and judge them one by one. -/
def visit (convention : Convention) (values : List Record) (findings : Contract.Findings)
    (entry : SafepointId × Safepoint) : Traced Contract.Findings := do
  let references ← Record.liveReferencesChecked values entry.1
  say [safepointLine entry references.length]
  references.foldlM (judge convention entry) findings

/-- Check the contract, and say what is live at every safepoint and how many
violations there are, if any. -/
def check (convention : Convention) (values : List Record) (safepoints : List Safepoint) :
    Traced (Except (List Violation) Unit) := do
  let findings ← (Handle.entries safepoints).foldlM (visit convention values) .empty
  match Contract.verdict findings.violations with
  | .ok () => return .ok ()
  | .error found =>
    say ["checker: " ++ toString found.length ++ " error(s)"]
    return .error found

/-- Build the maps of safepoints in order, up to the first rejection. -/
def maps (method : Method) (builder : MapBuilder) :
    List (SafepointId × Safepoint) → Traced (Except Rejection (List (UInt32 × ReferenceMap)))
  | [] => return .ok []
  | entry :: rest => do
    say [method.name ++ ": " ++ SafepointId.text entry.1 ++ " at " ++ Text.hex entry.2.pc.toNat]
    let live ← Record.liveEntriesChecked method.values entry.1
    match ← build builder live with
    | .error rejection => return .error rejection
    | .ok map =>
      match ← maps method builder rest with
      | .error rejection => return .error rejection
      | .ok later => return .ok ((entry.2.pc, map) :: later)

/-- Check the contract, build the maps and pack them. -/
def table (method : Method) : Traced (Except Failure Table) := do
  match ← check method.convention method.values method.safepoints with
  | .error violations => return .error (.contract violations)
  | .ok () =>
    let builder ← method.mapBuilder
    match ← maps method builder (Handle.entries method.safepoints) with
    | .error rejection => return .error (.rejected rejection)
    | .ok built => Table.ofMaps builder.frameLength builder.registerLength built

/-- Finish a compilation, and say the listing of the compiled method. -/
def finish (method : Method) : Traced (Except CompileFailure CompiledMethod) := do
  match ← table method with
  | .error cause => return .error (method.refuse cause)
  | .ok packed =>
    let compiled := method.compiledWith packed
    let listing ← compiled.listing
    say [listing]
    return .ok compiled

/-- Assign a stored location, if one was decided. -/
def replayLocation (method : Method) (value : ValueId) (location : Location) : Step :=
  if location.isAssigned then assign method value location else return (method, .ok ())

/-- Add one stored value. Making it live says nothing. -/
def replayValue (count : Nat) (method : Method) (stored : StoredValue) : Step :=
  let (extended, value) := method.newValue stored.kind
  (replayLocation extended value stored.location).andThen fun located =>
    Snapshot.replayLive count value located stored.live

/-- Add stored values one after another, up to the first refusal. -/
def replayValues (count : Nat) : Method → List StoredValue → Step
  | method, [] => return (method, .ok ())
  | method, stored :: rest =>
    (replayValue count method stored).andThen fun extended => replayValues count extended rest

/-- Add everything that was stored, as far as it is admissible. -/
def replay (snapshot : Snapshot) (bound : Generator) : Step :=
  replayValues snapshot.safepoints.length (snapshot.outline bound) snapshot.values

/-- Replay a stored method on its target and build its reference maps. -/
def compile (snapshot : Snapshot) : Traced (Except CompileFailure CompiledMethod) := do
  match ← generator snapshot.target.convention with
  | .error cause => return .error (snapshot.refuse cause)
  | .ok bound =>
    let (replayed, outcome) ← replay snapshot bound
    match outcome with
    | .error cause => return .error (snapshot.refuse cause)
    | .ok () => finish replayed

end Traced

end StackMaps
