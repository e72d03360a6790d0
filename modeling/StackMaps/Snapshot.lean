import StackMaps.Convention.Targets
import StackMaps.Method

/-!
# Stored methods

A snapshot is a method in a form that can be kept outside: its name, its target,
its spill area, its values with the numbers of the safepoints at which they are
live, and its safepoints. It keeps no convention. Replaying a snapshot goes
through the same operations as the method it was taken from, on the target's own
convention, and so checks again everything that may have been tampered with.
-/

namespace StackMaps

/-- A value of a stored method. -/
structure StoredValue where
  kind : Kind
  location : Location
  /-- Numbers of safepoints of the stored method, in the order they were read. -/
  live : List UInt32
  deriving DecidableEq

/-- A method in storable form. -/
structure Snapshot where
  name : String
  target : Architecture
  frameSize : UInt32
  values : List StoredValue
  safepoints : List Safepoint
  deriving DecidableEq

namespace Snapshot

/-- The storable form of a record. Every handle of a safepoint must refer to something. -/
def ofRecord (record : Record) : Checked StoredValue := do
  let safepoints ← record.safepoints
  let positions ← safepoints.mapM Handle.index
  return ⟨record.kind, record.location, positions.map UInt32.ofNat⟩

/-- The storable form of a method. -/
def ofMethod (method : Method) : Checked Snapshot := do
  let values ← method.values.mapM ofRecord
  return ⟨method.name, method.target, method.frameSize, values, method.safepoints⟩

/-- Add the stored safepoints to a method, in order. -/
def addSafepoints (method : Method) (safepoints : List Safepoint) : Method :=
  safepoints.foldl (fun so point => (so.addSafepoint point.pc point.kind).1) method

/-- Make a value live at the numbered safepoints, in order. The first number
that is not a safepoint of the stored method is refused. -/
def replayLive (count : Nat) (value : ValueId) : Method → List UInt32 → Method.Step
  | method, [] => .ok (method, .ok ())
  | method, number :: rest =>
    if number.toNat < count then do
      let marked ← method.markLive value (Handle.ofNat number.toNat)
      replayLive count value marked rest
    else .ok (method, .error (.unknownSafepoint value number))

/-- Assign a location, if one was decided. -/
def replayLocation (method : Method) (value : ValueId) (location : Location) : Method.Step :=
  if location.isAssigned then method.assign value location else .ok (method, .ok ())

/-- Add one stored value: its record, its location, then its liveness. -/
def replayValue (count : Nat) (method : Method) (stored : StoredValue) : Method.Step :=
  let (extended, value) := method.newValue stored.kind
  (replayLocation extended value stored.location).andThen fun located =>
    replayLive count value located stored.live

/-- Add stored values one after another, up to the first refusal. -/
def replayValues (count : Nat) : Method → List StoredValue → Method.Step
  | method, [] => .ok (method, .ok ())
  | method, stored :: rest =>
    (replayValue count method stored).andThen fun extended => replayValues count extended rest

/-- The method before its values are added. -/
def outline (snapshot : Snapshot) (generator : Generator) : Method :=
  addSafepoints ((generator.beginMethod snapshot.name).reserveFrame snapshot.frameSize)
    snapshot.safepoints

/-- The method with everything that was stored, as far as it is admissible. -/
def replay (snapshot : Snapshot) (generator : Generator) : Method.Step :=
  replayValues snapshot.safepoints.length (snapshot.outline generator) snapshot.values

/-- A refusal of the stored method's compilation. -/
def refuse (snapshot : Snapshot) (cause : Failure) : CompileFailure :=
  ⟨snapshot.name, snapshot.target, cause⟩

/-- Replay a stored method on its target and build its reference maps. -/
def compile (snapshot : Snapshot) : Checked (Except CompileFailure CompiledMethod) := do
  match Generator.make snapshot.target.convention with
  | .error cause => return .error (snapshot.refuse cause)
  | .ok generator =>
    let (replayed, outcome) ← snapshot.replay generator
    match outcome with
    | .error cause => return .error (snapshot.refuse cause)
    | .ok () => replayed.finish

/-- A location under the target's own register names. -/
def locationText (catalog : Catalog) (location : Location) : String :=
  match location with
  | .register register => (catalog.name register).toOption.getD location.text
  | _ => location.text

/-- The line of one safepoint. -/
def safepointLine (entry : SafepointId × Safepoint) : String :=
  "  " ++ SafepointId.text entry.1 ++ ": " ++ entry.2.kind.text ++ " at " ++
    Text.hex entry.2.pc.toNat ++ "\n"

/-- The line of one value. -/
def valueLine (catalog : Catalog) (stored : StoredValue) (position : Nat) : String :=
  let live :=
    if stored.live.isEmpty then ""
    else ", live at" ++ String.join (stored.live.map fun number => " sp" ++ toString number.toNat)
  "  v" ++ toString position ++ ": " ++ stored.kind.text ++ " in " ++
    locationText catalog stored.location ++ live ++ "\n"

/-- The listing of a stored method. -/
def listing (snapshot : Snapshot) : String :=
  "method " ++ snapshot.name ++ " (" ++ snapshot.target.name ++ ", frame " ++
    toString snapshot.frameSize.toNat ++ " bytes) \x7b\n" ++
    String.join ((Handle.entries snapshot.safepoints).map safepointLine) ++
    String.join (snapshot.values.zipIdx.map fun entry =>
      valueLine snapshot.target.catalog entry.1 entry.2) ++ "\x7d"

end Snapshot

end StackMaps
