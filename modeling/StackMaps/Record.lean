import StackMaps.BitSet
import StackMaps.Handle
import StackMaps.Kind
import StackMaps.Location

/-!
# Values and safepoints

A safepoint is a code offset at which the collector may run. A value record
holds a value's kind, its location, and the safepoints at which it is live. The
location is decided once: a second decision is refused and reports the one that
stands. The safepoints of a record are kept as the set of their numbers.
-/

namespace StackMaps

/-- What happens to registers at a safepoint. -/
inductive SafepointKind where
  /-- A call: registers that do not survive calls lose their value. -/
  | call
  /-- A poll: the whole register file is saved. -/
  | poll
  deriving DecidableEq

/-- A code offset at which the collector may run. -/
structure Safepoint where
  pc : UInt32
  kind : SafepointKind
  deriving DecidableEq

namespace SafepointKind

/-- The kind as it is spelled in messages. -/
def label : SafepointKind → String
  | .call => "Call"
  | .poll => "Poll"

/-- The kind as it is written in listings. -/
def text : SafepointKind → String
  | .call => "call"
  | .poll => "poll"

end SafepointKind

/-- A reference to a safepoint of a method. -/
abbrev SafepointId : Type := Handle Safepoint

namespace SafepointId

/-- The safepoint as it is written in messages. -/
def text (safepoint : SafepointId) : String := "sp" ++ toString safepoint.number.toNat

/-- The safepoint with its type spelled out. -/
def describe (safepoint : SafepointId) : String :=
  "Safepoint(" ++ toString safepoint.number.toNat ++ ")"

end SafepointId

/-- A compiler value: what it is, where it lives, and where it is live. -/
structure Record where
  kind : Kind
  location : Location
  /-- The numbers of the safepoints at which the value is live. -/
  live : BitSet
  deriving DecidableEq

/-- A reference to a value of a method. -/
abbrev ValueId : Type := Handle Record

namespace ValueId

/-- The value as it is written in messages. -/
def text (value : ValueId) : String := "v" ++ toString value.number.toNat

/-- The value with its type spelled out. -/
def describe (value : ValueId) : String := "Value(" ++ toString value.number.toNat ++ ")"

end ValueId

namespace Record

/-- A value without a location that is live nowhere. -/
def fresh (kind : Kind) : Record := ⟨kind, .unassigned, .empty⟩

/-- A value whose location is known from the start. -/
def located (kind : Kind) (location : Location) : Record := ⟨kind, location, .empty⟩

/-- Whether the collector follows the value. -/
def isReference (record : Record) : Bool := record.kind.isReference

/-- Decide the location. A location that was decided before stands, and is
returned as the reason of the refusal. -/
def settle (record : Record) (location : Location) : Except Location Record :=
  if record.location.isAssigned then .error record.location
  else .ok { record with location }

/-- Make the value live at one more safepoint. -/
def addLive (record : Record) (safepoint : SafepointId) : Record :=
  { record with live := record.live.insert safepoint.number.toNat }

/-- Make the value live at a safepoint whose handle must refer to something. -/
def markLive (record : Record) (safepoint : SafepointId) : Checked Record := do
  let _ ← safepoint.index
  return record.addLive safepoint

/-- Whether the value is live at a safepoint. -/
def isLiveAt (record : Record) (safepoint : SafepointId) : Bool :=
  record.live.contains safepoint.number.toNat

/-- Ask for liveness at a safepoint whose handle must refer to something. -/
def liveAt (record : Record) (safepoint : SafepointId) : Checked Bool := do
  let _ ← safepoint.index
  return record.isLiveAt safepoint

/-- The safepoints at which the value is live, in ascending order. -/
def safepoints (record : Record) : Checked (List SafepointId) := do
  let numbers ← record.live.enumerate
  return numbers.map Handle.ofNat

/-- The values live at a safepoint, in value order. -/
def liveEntries (values : List Record) (safepoint : SafepointId) : List (ValueId × Record) :=
  (Handle.entries values).filter fun entry => entry.2.isLiveAt safepoint

/-- Ask for the values live at a safepoint. The handle is only used, and so has
to refer to something, when there is a value to ask about. -/
def liveEntriesChecked (values : List Record) (safepoint : SafepointId) :
    Checked (List (ValueId × Record)) :=
  if values.isEmpty then .ok []
  else do
    let _ ← safepoint.index
    return liveEntries values safepoint

/-- The references live at a safepoint with their locations, in value order. -/
def liveReferences (values : List Record) (safepoint : SafepointId) : List (ValueId × Location) :=
  ((liveEntries values safepoint).filter fun entry => entry.2.isReference).map fun entry =>
    (entry.1, entry.2.location)

/-- Ask for the references live at a safepoint, on the same terms. -/
def liveReferencesChecked (values : List Record) (safepoint : SafepointId) :
    Checked (List (ValueId × Location)) :=
  if values.isEmpty then .ok []
  else do
    let _ ← safepoint.index
    return liveReferences values safepoint

end Record

end StackMaps
