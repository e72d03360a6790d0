import StackMaps.Listing
import StackMaps.Snapshot

/-!
# The binary form

Stored and compiled methods as bytes: integers little-endian at their fixed
width, a choice between alternatives as the 32-bit number of the alternative, text
and lists as a 64-bit length followed by their content, and records as their
fields in order.

Reading consumes the front of the input and reports the first problem it meets.
Bytes after a complete method are left alone.
-/

namespace StackMaps

namespace Wire

/-- Why bytes could not be read. -/
inductive Error where
  /-- The input ends inside what is being read. -/
  | endOfInput
  /-- The bytes of a text are not UTF-8. -/
  | notText
  /-- The number of an alternative that does not exist. -/
  | unknownAlternative (number count : Nat)
  deriving DecidableEq

namespace Error

/-- The wording of a number that chooses nothing. -/
def alternativeMessage (number count : Nat) : String :=
  "invalid value: integer `" ++ toString number ++ "`, expected variant index 0 <= i < " ++
    toString count

end Error

/-! ## Writing -/

/-- A number as the given count of bytes, least significant first. -/
def littleEndian : Nat → Nat → List Byte
  | 0, _ => []
  | count + 1, number => BitVec.ofNat 8 number :: littleEndian count (number / 256)

/-- The number of an alternative. -/
def writeChoice (number : Nat) : List Byte := littleEndian 4 number

/-- A list: its length, then each element. -/
def writeList {α : Type} (write : α → List Byte) (elements : List α) : List Byte :=
  littleEndian 8 elements.length ++ elements.flatMap write

/-- A text: its length in bytes, then its bytes. -/
def writeText (text : String) : List Byte :=
  writeList (fun byte => [byte]) (text.toUTF8.toList.map UInt8.toBitVec)

/-- The number of a target. -/
def architectureNumber : Architecture → Nat
  | .amd64 => 0
  | .aarch64 => 1
  | .ia32 => 2
  | .sparcv9 => 3

/-- The number of a kind. -/
def kindNumber : Kind → Nat
  | .reference => 0
  | .word => 1
  | .int => 2
  | .long => 3
  | .float => 4
  | .double => 5

/-- The number of a safepoint kind. -/
def safepointNumber : SafepointKind → Nat
  | .call => 0
  | .poll => 1

/-- A 32-bit number. -/
def writeWord (number : UInt32) : List Byte := littleEndian 4 number.toNat

/-- A register: its encoding, then its bank. -/
def writeRegister (register : Register) : List Byte :=
  littleEndian 1 register.code.toNat ++ writeChoice register.bank.rank

/-- A stack slot: its offset, then its purpose. -/
def writeSlot (slot : Slot) : List Byte :=
  writeWord slot.offset.toUInt32 ++ writeChoice slot.purpose.rank

/-- A location: which of the four, then its content. -/
def writeLocation : Location → List Byte
  | .register register => writeChoice 0 ++ writeRegister register
  | .stack slot => writeChoice 1 ++ writeSlot slot
  | .immediate bits => writeChoice 2 ++ littleEndian 8 bits.toUInt64.toNat
  | .unassigned => writeChoice 3

/-- A stored value. -/
def writeValue (stored : StoredValue) : List Byte :=
  writeChoice (kindNumber stored.kind) ++ writeLocation stored.location ++
    writeList writeWord stored.live

/-- A safepoint. -/
def writeSafepoint (point : Safepoint) : List Byte :=
  writeWord point.pc ++ writeChoice (safepointNumber point.kind)

/-- A stored method. -/
def writeSnapshot (snapshot : Snapshot) : List Byte :=
  writeText snapshot.name ++ writeChoice (architectureNumber snapshot.target) ++
    writeWord snapshot.frameSize ++ writeList writeValue snapshot.values ++
    writeList writeSafepoint snapshot.safepoints

/-- A packed table. -/
def writeTable (table : Table) : List Byte :=
  littleEndian 8 table.frameBits ++ littleEndian 8 table.registerBits ++
    writeList writeWord table.pcs ++ writeList (fun byte => [byte]) table.data

/-- A compiled method. -/
def writeCompiled (method : CompiledMethod) : List Byte :=
  writeText method.name ++ writeChoice (architectureNumber method.target) ++
    writeWord method.frameSize ++ writeTable method.maps

/-! ## Reading -/

/-- Consumes the front of the input. -/
abbrev Reader (α : Type) : Type := StateT (List Byte) (Except Error) α

/-- The first bytes of the input and the rest, if there are enough. -/
def split : Nat → List Byte → Option (List Byte × List Byte)
  | 0, input => some ([], input)
  | _ + 1, [] => none
  | count + 1, byte :: rest => (split count rest).map fun parts => (byte :: parts.1, parts.2)

/-- Read a fixed number of bytes. -/
def readBytes (count : Nat) : Reader (List Byte) := fun input =>
  match split count input with
  | some parts => .ok parts
  | none => .error .endOfInput

/-- The number that bytes spell, least significant first. -/
def ofLittleEndian : List Byte → Nat
  | [] => 0
  | byte :: rest => byte.toNat + 256 * ofLittleEndian rest

/-- Read a number of a fixed count of bytes. -/
def readNumber (count : Nat) : Reader Nat := do
  let bytes ← readBytes count
  return ofLittleEndian bytes

/-- Read the number of an alternative and choose it. -/
def readChoice {α : Type} (alternatives : List α) : Reader α := do
  let number ← readNumber 4
  match alternatives[number]? with
  | some chosen => return chosen
  | none => throw (.unknownAlternative number alternatives.length)

/-- Read a fixed count of elements. -/
def readMany {α : Type} (read : Reader α) : Nat → Reader (List α)
  | 0 => return []
  | count + 1 => do
    let first ← read
    let rest ← readMany read count
    return first :: rest

/-- Read a list. -/
def readList {α : Type} (read : Reader α) : Reader (List α) := do
  let count ← readNumber 8
  readMany read count

/-- Read a text. -/
def readText : Reader String := do
  let count ← readNumber 8
  let bytes ← readBytes count
  match String.fromUTF8? ⟨(bytes.map UInt8.ofBitVec).toArray⟩ with
  | some text => return text
  | none => throw .notText

/-- Read a 32-bit number. -/
def readWord : Reader UInt32 := do
  let number ← readNumber 4
  return UInt32.ofNat number

/-- Read a register. -/
def readRegister : Reader Register := do
  let code ← readNumber 1
  let bank ← readChoice Bank.all
  return ⟨UInt8.ofNat code, bank⟩

/-- Read a stack slot. -/
def readSlot : Reader Slot := do
  let offset ← readWord
  let purpose ← readChoice [Purpose.parameter, Purpose.spill]
  return ⟨offset.toInt32, purpose⟩

/-- Read a constant. -/
def readImmediate : Reader Location := do
  let bits ← readNumber 8
  return .immediate (UInt64.ofNat bits).toInt64

/-- Read a location. -/
def readLocation : Reader Location := do
  let content ← readChoice
    [Location.register <$> readRegister, Location.stack <$> readSlot, readImmediate,
      return .unassigned]
  content

/-- Read a stored value. -/
def readValue : Reader StoredValue := do
  let kind ← readChoice Kind.all
  let location ← readLocation
  let live ← readList readWord
  return ⟨kind, location, live⟩

/-- Read a safepoint. -/
def readSafepoint : Reader Safepoint := do
  let pc ← readWord
  let kind ← readChoice [SafepointKind.call, SafepointKind.poll]
  return ⟨pc, kind⟩

/-- Read a stored method. -/
def readSnapshot : Reader Snapshot := do
  let name ← readText
  let target ← readChoice Architecture.all
  let frameSize ← readWord
  let values ← readList readValue
  let safepoints ← readList readSafepoint
  return ⟨name, target, frameSize, values, safepoints⟩

/-- The stored method at the front of the input. -/
def decodeSnapshot (input : List Byte) : Except Error Snapshot :=
  Prod.fst <$> readSnapshot.run input

end Wire

end StackMaps
