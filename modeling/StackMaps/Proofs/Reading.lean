import Mathlib.Data.List.Sort
import StackMaps.Proofs.RoundTrip

/-!
# Reading entries in place

An entry of a table answers in three ways which slots and registers hold references:
bit by bit, as a list of positions, and as an unpacked map. The first two read the
packed bytes where they are, the third copies every bit into words and reads those.

The table may come from outside. Its offsets, its bytes and its padding may be
anything, as long as there are bytes for all of its entries. Every entry is then
whole, so that no reading runs past its bytes, and the three ways agree. What they
answer depends on the bits of the entry below the lengths of its bitmaps: neither the
padding nor the bytes of another entry are looked at.
-/

namespace StackMaps

/-- A filter of checked steps that complete keeps what the plain filter keeps. -/
theorem Checked.filterM_eq_ok {α : Type} (step : α → Checked Bool) (plain : α → Bool)
    (list : List α) (agrees : ∀ item ∈ list, step item = .ok (plain item)) :
    list.filterM step = .ok (list.filter plain) := by
  have gathered : ∀ kept, list.filterAuxM step kept =
      .ok ((list.filter plain).reverse ++ kept) := by
    induction list with
    | nil => exact fun _ => rfl
    | cons first rest induction =>
      intro kept
      have later := induction fun item member => agrees item (by simp [member])
      rw [List.filterAuxM, agrees first (by simp), Checked.ok_bind, later]
      cases chosen : plain first <;> simp [chosen]
  rw [List.filterM, gathered, Checked.ok_bind, List.append_nil, List.reverse_reverse]
  rfl

/-- The bits of a run of packed bytes are those of the bytes it was cut from, counted
from where it starts. -/
theorem Byte.bitAt_cut {bytes : List Byte} {start count bit : Nat} (inside : bit / 8 < count) :
    bitAt ((bytes.drop start).take count) bit = bitAt bytes (8 * start + bit) := by
  have quotient : (8 * start + bit) / 8 = start + bit / 8 := by omega
  have remainder : (8 * start + bit) % 8 = bit % 8 := by omega
  rw [bitAt, bitAt, List.getElem?_take_of_lt inside, List.getElem?_drop, quotient, remainder]

namespace Bitmap

/-- Unpacked bits are listed as they are found in the bytes. -/
theorem toList_unpack (bytes : List Byte) (length : Nat) :
    (unpack bytes length).toList = Byte.setBits bytes length := by
  have ascending : (Byte.setBits bytes length).Pairwise (· < ·) := by
    rw [Byte.setBits_eq]
    exact List.pairwise_lt_range.filter _
  refine (BitSet.toList_ascending _).eq_of_mem_iff ascending ?_
  intro position
  rw [BitSet.mem_toList, contains_unpack, Byte.mem_setBits, Bool.and_eq_true, decide_eq_true_eq]

/-- There are no more unpacked bits than the length. -/
theorem length_toList_unpack (bytes : List Byte) (length : Nat) :
    (unpack bytes length).toList.length ≤ length := by
  rw [toList_unpack, Byte.setBits_eq]
  exact Nat.le_trans (List.length_filter_le ..) (Nat.le_of_eq List.length_range)

/-- An unpacked bit is the bit that is found in the bytes below the length. -/
theorem get_unpack (bytes : List Byte) (length position : Nat) :
    (unpack bytes length).get position =
      (decide (position < length) && Byte.bitAt bytes position) := by
  rw [get_of_within (within_unpack bytes length), contains_unpack]

/-- Unpacking reads the bits below the length only. -/
theorem unpack_congr {left right : List Byte} {length : Nat}
    (same : ∀ bit < length, Byte.bitAt left bit = Byte.bitAt right bit) :
    unpack left length = unpack right length := by
  have found : Byte.setBits left length = Byte.setBits right length := by
    rw [Byte.setBits_eq, Byte.setBits_eq]
    apply List.filter_congr
    intro bit member
    exact same bit (List.mem_range.mp member)
  rw [unpack, unpack, found]

end Bitmap

/-- A map whose stored bits can be counted has references exactly when one of its bitmaps
lists some. -/
theorem ReferenceMap.hasReferences_exact {map : ReferenceMap}
    (few : map.frame.toList.length + map.registers.toList.length < 2 ^ 64) :
    ∃ answer, map.hasReferences = .ok answer ∧
      (answer = true ↔ map.frame.toList ≠ [] ∨ map.registers.toList ≠ []) := by
  have frame : map.frame.count = .ok map.frame.toList.length :=
    BitSet.count_eq_ok.mpr ⟨rfl, Nat.lt_of_le_of_lt (Nat.le_add_right _ _) few⟩
  have registers : map.registers.count = .ok map.registers.toList.length :=
    BitSet.count_eq_ok.mpr ⟨rfl, Nat.lt_of_le_of_lt (Nat.le_add_left _ _) few⟩
  have total := Checked.addSize_eq_ok.mpr ⟨few, rfl⟩
  refine ⟨map.frame.toList.length + map.registers.toList.length != 0, ?_, ?_⟩
  · simp only [hasReferences, frame, registers, total, Checked.ok_bind, Checked.pure_eq_ok]
  · simp only [bne_iff_ne, ne_eq, ← List.length_eq_zero_iff]
    omega

namespace Entry

/-- The set bits of a bitmap that has all its bytes are listed without a fault. -/
theorem setBitsChecked_eq {bytes : List Byte} {length : Nat}
    (whole : bytes.length = Byte.countFor length) :
    setBitsChecked bytes.toArray length = .ok (Byte.setBits bytes length) := by
  rw [Byte.setBits_eq]
  apply Checked.filterM_eq_ok
  intro position member
  rw [bitChecked_eq whole, decide_eq_true (List.mem_range.mp member), Bool.true_and]

/-- The ways of reading one bitmap of an entry agree: bit by bit, as a list, and
unpacked. The list is the ascending list of all bits below the length that are set, and
what the walk through the unpacked bitmap comes to. -/
structure Agree (length : Nat) (reads : Nat → Checked Bool) (listed : Checked (List Nat))
    (bitmap : Bitmap) : Prop where
  unpacked : ∀ position, reads position = .ok (bitmap.get position)
  listed : listed = .ok bitmap.toList
  enumerated : bitmap.bits.enumerate = .ok bitmap.toList
  ascending : bitmap.toList.Pairwise (· < ·)
  complete : ∀ position, position ∈ bitmap.toList ↔ position < length ∧ reads position = .ok true

/-- The ways of reading a bitmap that has all its bytes agree. -/
theorem agree_of_whole {bytes : List Byte} {length : Nat}
    (whole : bytes.length = Byte.countFor length) (small : length < 2 ^ 64) :
    Agree length (bitChecked bytes.toArray length) (setBitsChecked bytes.toArray length)
      (Bitmap.unpack bytes length) where
  unpacked position := by rw [bitChecked_eq whole, Bitmap.get_unpack]
  listed := by rw [setBitsChecked_eq whole, Bitmap.toList_unpack]
  enumerated := BitSet.enumerate_eq fun position stored =>
    Nat.lt_trans (Bitmap.within_unpack bytes length position stored) small
  ascending := BitSet.toList_ascending _
  complete position := by
    rw [Bitmap.toList_unpack, Byte.mem_setBits, bitChecked_eq whole, Except.ok.injEq,
      Bool.and_eq_true, decide_eq_true_eq]
    exact ⟨fun found => ⟨found.1, found⟩, And.right⟩

/-- All ways of reading an entry agree with a map. -/
structure ReadsAs (entry : Entry) (map : ReferenceMap) : Prop where
  unpacks : entry.toMapChecked = .ok map
  frame : Agree entry.frameBits entry.isFrameReferenceChecked entry.frameSlotsChecked map.frame
  registers : Agree entry.registerBits entry.isRegisterReferenceChecked
    entry.registerCodesChecked map.registers

/-- A whole entry reads as the map that it packs. -/
theorem Whole.readsAs {entry : Entry} (whole : entry.Whole)
    (frameSmall : entry.frameBits + 64 < 2 ^ 64)
    (registersSmall : entry.registerBits + 64 < 2 ^ 64) : entry.ReadsAs entry.toMap where
  unpacks := Table.toMapChecked_of_whole whole frameSmall registersSmall
  frame := agree_of_whole whole.frame (by omega)
  registers := agree_of_whole whole.registers (by omega)

end Entry

namespace Table

/-- There are bytes for every entry of a table, and its lengths and its bytes are those
of a machine with 64-bit addresses. -/
structure Readable (table : Table) : Prop where
  frame : table.frameBits < 2 ^ 63
  registers : table.registerBits < 2 ^ 63
  bytes : table.size * strideFor table.frameBits table.registerBits ≤ table.data.length
  memory : table.data.length < 2 ^ 64

/-- The entry that stands at a position of a table, under a code offset. -/
def entryAt (table : Table) (position : Nat) (pc : UInt32) : Entry where
  pc := pc
  frame := (table.data.drop (position * strideFor table.frameBits table.registerBits)).take
    (Byte.countFor table.frameBits)
  registers := (table.data.drop (position * strideFor table.frameBits table.registerBits +
    Byte.countFor table.frameBits)).take (Byte.countFor table.registerBits)
  frameBits := table.frameBits
  registerBits := table.registerBits

variable {table other : Table} {position : Nat}

/-- The bytes of an entry end inside the bytes of a readable table. -/
theorem Readable.stops (readable : table.Readable) (inside : position < table.size) :
    position * strideFor table.frameBits table.registerBits +
      strideFor table.frameBits table.registerBits ≤ table.data.length := by
  rw [← Nat.succ_mul]
  exact Nat.le_trans (Nat.mul_le_mul_right _ inside) readable.bytes

/-- The entry of a readable table is whole. -/
theorem Readable.whole (readable : table.Readable) (inside : position < table.size)
    (pc : UInt32) : (table.entryAt position pc).Whole := by
  have stops := readable.stops inside
  unfold strideFor at stops
  constructor
  · simp only [entryAt, strideFor, List.length_take, List.length_drop]
    omega
  · simp only [entryAt, strideFor, List.length_take, List.length_drop]
    omega

/-- The entry of a readable table reads as the map that it packs. -/
theorem Readable.readsAs (readable : table.Readable) (inside : position < table.size)
    (pc : UInt32) : (table.entryAt position pc).ReadsAs (table.entryAt position pc).toMap := by
  have frameSmall : table.frameBits + 64 < 2 ^ 64 :=
    Nat.lt_of_lt_of_le (Nat.add_lt_add_right readable.frame 64) (by decide)
  have registersSmall : table.registerBits + 64 < 2 ^ 64 :=
    Nat.lt_of_lt_of_le (Nat.add_lt_add_right readable.registers 64) (by decide)
  exact (readable.whole inside pc).readsAs frameSmall registersSmall

/-- Reading an entry of a readable table completes. -/
theorem Readable.entry_eq (readable : table.Readable) {pc : UInt32}
    (held : table.pcs[position]? = some pc) :
    table.entry position = .ok (table.entryAt position pc) := by
  have inside : position < table.size := (List.getElem?_eq_some_iff.mp held).1
  have stops := readable.stops inside
  have memory := readable.memory
  have next : (position + 1) * strideFor table.frameBits table.registerBits =
      position * strideFor table.frameBits table.registerBits +
        strideFor table.frameBits table.registerBits := Nat.succ_mul _ _
  have sized : table.stride = .ok (strideFor table.frameBits table.registerBits) := by
    have frame := readable.frame
    have registers := readable.registers
    exact stride_eq (by omega) (by omega)
  have start : Checked.multiplySize position (strideFor table.frameBits table.registerBits) =
      .ok (position * strideFor table.frameBits table.registerBits) :=
    Checked.multiplySize_eq_ok.mpr ⟨by omega, rfl⟩
  have stop : Checked.multiplySize (position + 1) (strideFor table.frameBits table.registerBits) =
      .ok ((position + 1) * strideFor table.frameBits table.registerBits) :=
    Checked.multiplySize_eq_ok.mpr ⟨by omega, rfl⟩
  have bytes : table.entryBytes position = .ok ((table.data.drop
      (position * strideFor table.frameBits table.registerBits)).take
        (strideFor table.frameBits table.registerBits)) := by
    simp only [entryBytes, sized, start, stop, Checked.ok_bind]
    rw [Checked.range_eq (by omega) (by omega), next, Nat.add_sub_cancel_left]
  have offset : Checked.element table.pcs position = .ok pc := Checked.element_eq_ok.mpr held
  simp only [entry, bytes, offset, Checked.ok_bind, Checked.pure_eq_ok, entryAt, List.take_take,
    List.drop_take, List.drop_drop, strideFor, Nat.add_sub_cancel_left,
    Nat.min_eq_left (Nat.le_add_right _ _)]

/-- All entries of a readable table are read. -/
theorem Readable.entries_eq (readable : table.Readable) :
    table.entries = .ok (table.pcs.mapIdx table.entryAt) := by
  rw [entries, size]
  apply Checked.mapM_range
  intro position pc held
  exact readable.entry_eq held

/-- What stands at a position of the entries of a readable table. -/
theorem Readable.entry_of_entries (readable : table.Readable) {entries : List Entry}
    (read : table.entries = .ok entries) {entry : Entry} (held : entries[position]? = some entry) :
    ∃ pc, position < table.size ∧ entry = table.entryAt position pc := by
  obtain rfl := Except.ok.inj (readable.entries_eq.symm.trans read)
  rw [List.getElem?_mapIdx, Option.map_eq_some_iff] at held
  obtain ⟨pc, found, same⟩ := held
  exact ⟨pc, (List.getElem?_eq_some_iff.mp found).1, same.symm⟩

/-- Two tables store the same bits for the entry at a position. Padding bits and the
bytes of other entries are left out, and so are the code offsets. -/
structure SameEntry (table other : Table) (position : Nat) : Prop where
  frameBits : other.frameBits = table.frameBits
  registerBits : other.registerBits = table.registerBits
  frame : ∀ bit < table.frameBits,
    Byte.bitAt other.data (8 * (position * strideFor table.frameBits table.registerBits) + bit) =
      Byte.bitAt table.data (8 * (position * strideFor table.frameBits table.registerBits) + bit)
  registers : ∀ bit < table.registerBits,
    Byte.bitAt other.data (8 * (position * strideFor table.frameBits table.registerBits +
        Byte.countFor table.frameBits) + bit) =
      Byte.bitAt table.data (8 * (position * strideFor table.frameBits table.registerBits +
        Byte.countFor table.frameBits) + bit)

/-- The entries of tables that store the same bits for a position pack the same map. -/
theorem SameEntry.toMap_eq (same : table.SameEntry other position) (pc otherPc : UInt32) :
    (other.entryAt position otherPc).toMap = (table.entryAt position pc).toMap := by
  have frame : Bitmap.unpack (other.entryAt position otherPc).frame other.frameBits =
      Bitmap.unpack (table.entryAt position pc).frame table.frameBits := by
    rw [same.frameBits]
    apply Bitmap.unpack_congr
    intro bit inside
    have stored := Byte.lt_countFor inside
    simp only [entryAt, same.frameBits, same.registerBits, Byte.bitAt_cut stored]
    exact same.frame bit inside
  have registers : Bitmap.unpack (other.entryAt position otherPc).registers other.registerBits =
      Bitmap.unpack (table.entryAt position pc).registers table.registerBits := by
    rw [same.registerBits]
    apply Bitmap.unpack_congr
    intro bit inside
    have stored := Byte.lt_countFor inside
    simp only [entryAt, same.frameBits, same.registerBits, Byte.bitAt_cut stored]
    exact same.registers bit inside
  exact congrArg₂ ReferenceMap.mk frame registers

end Table

/-- Every table that has the bytes for its entries is read, and every entry reads as one
map: unpacking gives the map, a bit that is asked for is the bit of the map, and the
listed positions are the ascending list of the set bits, which the map enumerates too, for
slots and for registers. The map has references exactly when one of the lists is not
empty. The same entry of any table that stores the same bits for it reads as the same
map, whatever its padding and its other bytes are. -/
theorem entry_readings_agree {table : Table} (readable : table.Readable) :
    ∃ entries, table.entries = .ok entries ∧ entries.length = table.size ∧
      ∀ position entry, entries[position]? = some entry →
        ∃ map, entry.ReadsAs map ∧ entry.frameBits = table.frameBits ∧
          entry.registerBits = table.registerBits ∧
          (∃ answer, map.hasReferences = .ok answer ∧ (answer = true ↔
            entry.frameSlotsChecked ≠ .ok [] ∨ entry.registerCodesChecked ≠ .ok [])) ∧
          ∀ other : Table, other.Readable → table.SameEntry other position →
            ∀ otherEntries otherEntry, other.entries = .ok otherEntries →
              otherEntries[position]? = some otherEntry → otherEntry.ReadsAs map := by
  refine ⟨_, readable.entries_eq, by simp [Table.size], ?_⟩
  intro position entry held
  obtain ⟨pc, inside, rfl⟩ := readable.entry_of_entries readable.entries_eq held
  have reads := readable.readsAs inside pc
  refine ⟨_, reads, rfl, rfl, ?_, ?_⟩
  · have few : (table.entryAt position pc).toMap.frame.toList.length +
        (table.entryAt position pc).toMap.registers.toList.length < 2 ^ 64 := by
      have frame := Bitmap.length_toList_unpack (table.entryAt position pc).frame table.frameBits
      have registers :=
        Bitmap.length_toList_unpack (table.entryAt position pc).registers table.registerBits
      have frameSmall := readable.frame
      have registersSmall := readable.registers
      exact Nat.lt_of_le_of_lt (Nat.add_le_add frame registers) (by omega)
    rw [reads.frame.listed, reads.registers.listed]
    simpa using ReferenceMap.hasReferences_exact few
  · intro other otherReadable same otherEntries otherEntry read present
    obtain ⟨otherPc, otherInside, rfl⟩ := otherReadable.entry_of_entries read present
    rw [← same.toMap_eq pc otherPc]
    exact otherReadable.readsAs otherInside otherPc

/-- Two entries of eleven slots and three registers. The offsets do not ascend, the first
entry is all ones, and so is the padding of the second. -/
def paddedTable : Table := ⟨11, 3, [9, 4], [0xFF, 0xFF, 0xFF, 0x01, 0xFC, 0xFA]⟩

/-- The same second entry with its padding cleared, after an empty first one. -/
def clearedTable : Table := ⟨11, 3, [4, 9], [0, 0, 0, 0x01, 0x04, 0x02]⟩

/-- Both second entries read as the slots 0 and 10 and the register 1. -/
theorem entry_readings_agree_padded :
    paddedTable.Readable ∧ clearedTable.Readable ∧ paddedTable.SameEntry clearedTable 1 ∧
    ∃ entries cleared entry other map, paddedTable.entries = .ok entries ∧
      clearedTable.entries = .ok cleared ∧ entries[1]? = some entry ∧ cleared[1]? = some other ∧
      entry.ReadsAs map ∧ other.ReadsAs map ∧ map.frame.toList = [0, 10] ∧
      map.registers.toList = [1] := by
  have readable : paddedTable.Readable := ⟨by decide, by decide, by decide, by decide⟩
  have clearedReadable : clearedTable.Readable := ⟨by decide, by decide, by decide, by decide⟩
  have same : paddedTable.SameEntry clearedTable 1 := ⟨rfl, rfl, by decide, by decide⟩
  obtain ⟨entries, read, _, reads⟩ := entry_readings_agree readable
  obtain ⟨cleared, clearedRead, _, _⟩ := entry_readings_agree clearedReadable
  obtain rfl := Except.ok.inj (readable.entries_eq.symm.trans read)
  obtain rfl := Except.ok.inj (clearedReadable.entries_eq.symm.trans clearedRead)
  obtain ⟨map, mapped, _, _, _, others⟩ := reads 1 _ rfl
  have slots := mapped.frame.listed
  have codes := mapped.registers.listed
  exact ⟨readable, clearedReadable, same, _, _, _, _, map, read, clearedRead, rfl, rfl, mapped,
    others clearedTable clearedReadable same _ _ clearedRead rfl,
    (Except.ok.inj (slots.symm.trans (by decide))), (Except.ok.inj (codes.symm.trans (by decide)))⟩

end StackMaps
