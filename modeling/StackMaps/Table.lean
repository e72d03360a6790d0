import StackMaps.Failure

/-!
# Packed tables

The reference maps of a method in the form the collector reads: the code offsets
in ascending order, and beside them one flat run of bytes with an entry of fixed
size for each offset. An entry holds the frame bitmap and then the register
bitmap, each in whole bytes, least significant bit first.

A table made from maps is consistent. One that was read from outside may hold
too few bytes; reading an entry that is not there is a fault. Padding bits are
never read.
-/

namespace StackMaps

/-- One entry of a table, read in place. -/
structure Entry where
  pc : UInt32
  frame : List Byte
  registers : List Byte
  frameBits : Nat
  registerBits : Nat
  deriving DecidableEq

namespace Entry

/-- Read a bit of a bitmap in checked steps: below the length its byte must be
there. -/
def bitChecked (stored : Array Byte) (length position : Nat) : Checked Bool :=
  if position < length then Byte.read stored position else .ok false

/-- The set bits of a bitmap, ascending, each read in checked steps. -/
def setBitsChecked (stored : Array Byte) (length : Nat) : Checked (List Nat) :=
  (List.range length).filterM (bitChecked stored length)

/-- Ask in checked steps whether a frame slot holds a live reference. -/
def isFrameReferenceChecked (entry : Entry) (slot : Nat) : Checked Bool :=
  bitChecked entry.frame.toArray entry.frameBits slot

/-- Ask in checked steps whether a general-purpose register holds a live
reference. -/
def isRegisterReferenceChecked (entry : Entry) (code : Nat) : Checked Bool :=
  bitChecked entry.registers.toArray entry.registerBits code

/-- The frame slots that hold live references, ascending. -/
def frameSlots (entry : Entry) : List Nat := Byte.setBits entry.frame entry.frameBits

/-- The encodings of the registers that hold live references, ascending. -/
def registerCodes (entry : Entry) : List Nat := Byte.setBits entry.registers entry.registerBits

/-- List the frame slots that hold live references in checked steps. -/
def frameSlotsChecked (entry : Entry) : Checked (List Nat) :=
  setBitsChecked entry.frame.toArray entry.frameBits

/-- List the encodings of the registers that hold live references in checked
steps. -/
def registerCodesChecked (entry : Entry) : Checked (List Nat) :=
  setBitsChecked entry.registers.toArray entry.registerBits

/-- The map that the entry packs. -/
def toMap (entry : Entry) : ReferenceMap where
  frame := Bitmap.unpack entry.frame entry.frameBits
  registers := Bitmap.unpack entry.registers entry.registerBits

/-- Unpack the map in checked steps. -/
def toMapChecked (entry : Entry) : Checked ReferenceMap := do
  let frame ← Bitmap.ofBytes entry.frame entry.frameBits
  let registers ← Bitmap.ofBytes entry.registers entry.registerBits
  return ⟨frame, registers⟩

end Entry

/-- The packed reference maps of a method. -/
structure Table where
  frameBits : Nat
  registerBits : Nat
  pcs : List UInt32
  data : List Byte
  deriving DecidableEq

namespace Table

/-- A table without entries, for bitmaps of the given lengths. -/
def empty (frameBits registerBits : Nat) : Table := ⟨frameBits, registerBits, [], []⟩

/-- The number of entries. -/
def size (table : Table) : Nat := table.pcs.length

/-- The bytes of an entry. -/
def stride (table : Table) : Checked Nat := do
  let frame ← Byte.countForChecked table.frameBits
  let registers ← Byte.countForChecked table.registerBits
  return frame + registers

/-- The bytes of the entry at a position, which must be there. -/
def entryBytes (table : Table) (position : Nat) : Checked (List Byte) := do
  let stride ← table.stride
  let start ← Checked.multiplySize position stride
  let stop ← Checked.multiplySize (position + 1) stride
  Checked.range table.data start stop

/-- The entry at a position. -/
def entry (table : Table) (position : Nat) : Checked Entry := do
  let bytes ← table.entryBytes position
  let pc ← Checked.element table.pcs position
  return {
    pc
    frame := bytes.take (Byte.countFor table.frameBits)
    registers := bytes.drop (Byte.countFor table.frameBits)
    frameBits := table.frameBits
    registerBits := table.registerBits }

/-- All entries, in the order of the table. -/
def entries (table : Table) : Checked (List Entry) := (List.range table.size).mapM table.entry

/-- Halve a run of ascending offsets, given by its first position and its size,
until one is left, keeping the half that can hold the offset looked for. The run
shrinks at every step, so its size is fuel enough. -/
def narrow (pcs : List UInt32) (pc : UInt32) : Nat → Nat → Nat → Nat
  | 0, base, _ => base
  | fuel + 1, base, size =>
    if 1 < size then
      let middle := base + size / 2
      let next := if pc < pcs[middle]?.getD 0 then base else middle
      narrow pcs pc fuel next (size - size / 2)
    else base

/-- The position of an offset among ascending offsets. -/
def search (pcs : List UInt32) (pc : UInt32) : Option Nat :=
  let found := narrow pcs pc pcs.length 0 pcs.length
  if pcs[found]? = some pc then some found else none

/-- The entry for a code offset. -/
def lookup (table : Table) (pc : UInt32) : Checked (Option Entry) :=
  match search table.pcs pc with
  | some position => some <$> table.entry position
  | none => .ok none

/-- The first offset of an ascending list that stands there twice. -/
def firstRepeat : List UInt32 → Option UInt32
  | [] => none
  | first :: rest => if rest.head? = some first then some first else firstRepeat rest

/-- A bitmap must have the length that its table stores. -/
def requireLength (bitmap : Bitmap) (bits : Nat) : Checked Unit :=
  if bitmap.length = bits then .ok () else .error (.lengthMismatch bitmap.length bits)

/-- Pack one map, whose bitmaps must have the lengths of the table. -/
def packEntry (frameBits registerBits : Nat) (map : ReferenceMap) : Checked (List Byte) := do
  requireLength map.frame frameBits
  requireLength map.registers registerBits
  let frame ← map.frame.pack (Byte.countFor frameBits)
  let registers ← map.registers.pack (Byte.countFor registerBits)
  return frame ++ registers

/-- Insert a map before the first one with an offset at least as large. -/
def insertOrdered (entry : UInt32 × ReferenceMap) :
    List (UInt32 × ReferenceMap) → List (UInt32 × ReferenceMap)
  | [] => [entry]
  | first :: rest =>
    if entry.1 ≤ first.1 then entry :: first :: rest else first :: insertOrdered entry rest

/-- Order maps by code offset. -/
def ordered (maps : List (UInt32 × ReferenceMap)) : List (UInt32 × ReferenceMap) :=
  maps.foldr insertOrdered []

/-- Pack maps, in any order, into a table. Two maps for one offset are refused,
and the smallest such offset is named. -/
def ofMaps (frameBits registerBits : Nat) (maps : List (UInt32 × ReferenceMap)) :
    Checked (Except Failure Table) := do
  let sorted := ordered maps
  match firstRepeat (sorted.map Prod.fst) with
  | some pc => return .error (.duplicateSafepoint pc)
  | none =>
    let stride ← (empty frameBits registerBits).stride
    let total ← Checked.multiplySize sorted.length stride
    Checked.requireCapacity total
    let packed ← sorted.mapM fun entry => packEntry frameBits registerBits entry.2
    return .ok ⟨frameBits, registerBits, sorted.map Prod.fst, packed.flatten⟩

end Table

end StackMaps
