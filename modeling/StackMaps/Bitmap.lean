import StackMaps.BitSet
import StackMaps.Fault
import StackMaps.Text

/-!
# Fixed-length bitmaps

A bitmap is a bit set read below a fixed length. Packed into bytes it takes the
fewest whole bytes that hold its length, least significant bit first.

A bitmap built here stores no bit at or above its length. One that was read from
outside may. Such bits are counted and listed but not readable by position, and
packing them is a fault as soon as one lies beyond the last byte.

Packing and unpacking go bit by bit in checked steps. `firstBytes` and `unpack` give
the same bytes and the same bitmap at once.
-/

namespace StackMaps

namespace Byte

/-- The byte with the given bits, least significant first. -/
def ofBits (bit : Nat → Bool) : Byte :=
  BitVec.ofBoolListLE [bit 0, bit 1, bit 2, bit 3, bit 4, bit 5, bit 6, bit 7]

/-- The bit at a position of packed bytes; past the end there is none. -/
def bitAt (bytes : List Byte) (position : Nat) : Bool :=
  (bytes[position / 8]?.getD 0).getLsbD (position % 8)

/-- The set bits among the first ones of packed bytes, ascending. The bytes are
put in an array once, so that every position is read directly. -/
def setBits (bytes : List Byte) (length : Nat) : List Nat :=
  let stored := bytes.toArray
  (List.range length).filter fun position =>
    (stored[position / 8]?.getD 0).getLsbD (position % 8)

/-- Read the bit at a position of packed bytes, whose byte must be there. -/
def read (stored : Array Byte) (position : Nat) : Checked Bool :=
  match stored[position / 8]? with
  | some byte => .ok (byte.getLsbD (position % 8))
  | none => .error (.outOfBounds stored.size (position / 8))

/-- Set the bit at a position of packed bytes, whose byte must be there. -/
def write (stored : Array Byte) (position : Nat) : Checked (Array Byte) :=
  if position / 8 < stored.size then
    .ok (stored.modify (position / 8) (· ||| BitVec.twoPow 8 (position % 8)))
  else .error (.outOfBounds stored.size (position / 8))

/-- The fewest whole bytes that hold a number of bits. -/
def countFor (bits : Nat) : Nat := (bits + 7) / 8

/-- The bytes for a number of bits, rounded up in machine arithmetic. -/
def countForChecked (bits : Nat) : Checked Nat := do
  let padded ← Checked.addSize bits 7
  return padded / 8

end Byte

/-- A bit set read below a fixed length. -/
structure Bitmap where
  bits : BitSet
  length : Nat

namespace Bitmap

/-- All bits clear. -/
def blank (length : Nat) : Bitmap := ⟨.withCapacity length, length⟩

/-- The bitmap with exactly the given bits set. -/
def ofPositions (length : Nat) (positions : List Nat) : Bitmap :=
  ⟨(BitSet.withCapacity length).insertAll positions, length⟩

/-- Set a bit, which must lie below the length. -/
def set (bitmap : Bitmap) (position : Nat) : Checked Bitmap :=
  if position < bitmap.length then .ok { bitmap with bits := bitmap.bits.insert position }
  else .error (.bitBeyondLength position bitmap.length)

/-- Read the first bits of packed bytes. -/
def unpack (bytes : List Byte) (length : Nat) : Bitmap :=
  ofPositions length (Byte.setBits bytes length)

/-- Take over one bit of packed bytes. -/
def copyBit (stored : Array Byte) (bitmap : Bitmap) (position : Nat) : Checked Bitmap := do
  if ← Byte.read stored position then bitmap.set position else return bitmap

/-- Read the first bits of packed bytes one after another. The bytes must be enough:
the bits that they hold, and the words that the length takes, are counted in machine
arithmetic. -/
def ofBytes (bytes : List Byte) (length : Nat) : Checked Bitmap := do
  let held ← Checked.multiplySize bytes.length 8
  if length ≤ held then do
    let _ ← Checked.addSize length 64
    (List.range length).foldlM (copyBit bytes.toArray) (blank length)
  else throw .tooFewBytes

/-- Whether there are no positions. -/
def isEmpty (bitmap : Bitmap) : Bool := bitmap.length == 0

/-- Read a bit; positions at or above the length are clear. -/
def get (bitmap : Bitmap) (position : Nat) : Bool :=
  position < bitmap.length && bitmap.bits.contains position

/-- The number of stored bits. -/
def count (bitmap : Bitmap) : Checked Nat := bitmap.bits.count

/-- The stored bits in ascending order. -/
def toList (bitmap : Bitmap) : List Nat := bitmap.bits.toList

/-- The first bytes of a bit set. The words are put in an array once, so that
every position is read directly. -/
def firstBytes (bits : BitSet) (size : Nat) : List Byte :=
  let stored := bits.words.toArray
  (List.range size).map fun byte => Byte.ofBits fun bit =>
    (stored[(8 * byte + bit) / 64]?.getD 0).getLsbD ((8 * byte + bit) % 64)

/-- Write the stored bits into a given number of bytes, as the walk comes to them. The
first bit without a byte is a fault. -/
def pack (bitmap : Bitmap) (size : Nat) : Checked (List Byte) := do
  let stored ← BitSet.walk.fold Byte.write (Array.replicate size 0) bitmap.bits.cursor
  return stored.toList

/-- Pack the stored bits into the bytes that the length asks for. -/
def toBytes (bitmap : Bitmap) : Checked (List Byte) := do
  let size ← Byte.countForChecked bitmap.length
  bitmap.pack size

instance : BEq Bitmap :=
  ⟨fun left right => left.bits == right.bits && left.length == right.length⟩

/-- The length followed by the stored bits. -/
def text (bitmap : Bitmap) : Checked String := do
  return toString bitmap.length ++ (← bitmap.bits.text)

/-- How many different bitmaps a list holds. -/
def distinct (bitmaps : List Bitmap) : Nat := bitmaps.eraseDups.length

end Bitmap

end StackMaps
