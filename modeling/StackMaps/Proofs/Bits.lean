import StackMaps.Bitmap
import StackMaps.Proofs.FiniteSets

/-!
# Stored bits and packed bytes

Packing writes the members of a bit set into bytes, as the walk through the set comes to
them, so a bit read from the packed bytes is the bit that was stored. A bitmap that stores
no bit at or above its length is packed without a fault, and unpacking its bytes gives an
equal bitmap.
-/

namespace StackMaps

namespace Byte

/-- A byte has the bits it was made of. -/
theorem getLsbD_ofBits (bit : Nat → Bool) {position : Nat} (inside : position < 8) :
    (ofBits bit).getLsbD position = bit position := by
  unfold ofBits
  rw [BitVec.getLsbD_ofBoolListLE]
  match position, inside with
  | 0, _ | 1, _ | 2, _ | 3, _ | 4, _ | 5, _ | 6, _ | 7, _ => rfl

/-- Rounded up to bytes, every bit has a byte. -/
theorem lt_countFor {bits position : Nat} (inside : position < bits) :
    position / 8 < countFor bits := by
  unfold countFor
  omega

/-- A length is rounded up to bytes exactly inside the address space. -/
theorem countForChecked_eq_ok {bits size : Nat} :
    countForChecked bits = .ok size ↔ bits + 7 < 2 ^ 64 ∧ size = countFor bits := by
  rw [countForChecked, Checked.bind_eq_ok]
  constructor
  · rintro ⟨padded, added, rounded⟩
    obtain ⟨small, rfl⟩ := Checked.addSize_eq_ok.mp added
    exact ⟨small, (Except.ok.inj rounded).symm⟩
  · rintro ⟨small, rfl⟩
    exact ⟨bits + 7, Checked.addSize_eq_ok.mpr ⟨small, rfl⟩, rfl⟩

/-- Rounding up completes for lengths away from the end of the address space. -/
theorem countForChecked_eq {bits : Nat} (small : bits + 7 < 2 ^ 64) :
    countForChecked bits = .ok (countFor bits) :=
  countForChecked_eq_ok.mpr ⟨small, rfl⟩

/-- Past the end of packed bytes no bit is set. -/
theorem bitAt_of_le {bytes : List Byte} {position : Nat} (past : bytes.length ≤ position / 8) :
    bitAt bytes position = false := by
  rw [bitAt, List.getElem?_eq_none past]
  exact BitVec.getLsbD_zero

/-- Bytes of one length with the same bits are the same bytes. -/
theorem eq_of_bitAt {left right : List Byte} (length : left.length = right.length)
    (same : ∀ position, bitAt left position = bitAt right position) : left = right := by
  apply List.ext_getElem length
  intro index leftInside rightInside
  apply BitVec.eq_of_getLsbD_eq
  intro bit inside
  have quotient : (8 * index + bit) / 8 = index := by omega
  have remainder : (8 * index + bit) % 8 = bit := by omega
  have read := same (8 * index + bit)
  rwa [bitAt, bitAt, quotient, remainder, List.getElem?_eq_getElem leftInside,
    List.getElem?_eq_getElem rightInside] at read

/-- A bit whose byte is there is read. -/
theorem read_eq {bytes : List Byte} {position : Nat} (inside : position / 8 < bytes.length) :
    read bytes.toArray position = .ok (bitAt bytes position) := by
  rw [read, bitAt, List.getElem?_toArray, List.getElem?_eq_getElem inside]
  rfl

/-- Writing a bit whose byte is there sets that bit and no other. Another bit is in
another byte, or at another place of the same byte. -/
theorem write_exact {stored : Array Byte} {position : Nat} (inside : position / 8 < stored.size) :
    ∃ written, write stored position = .ok written ∧ written.size = stored.size ∧
      ∀ tested, bitAt written.toList tested =
        (decide (tested = position) || bitAt stored.toList tested) := by
  refine ⟨_, if_pos inside, Array.size_modify .., ?_⟩
  intro tested
  by_cases sameByte : position / 8 = tested / 8
  · have samePosition : position % 8 = tested % 8 ↔ tested = position := by omega
    have bit : position % 8 < 8 := Nat.mod_lt _ (by decide)
    rw [sameByte] at inside ⊢
    simp only [bitAt, Array.getElem?_toList, Array.getElem?_modify, if_true,
      Array.getElem?_eq_getElem inside, Option.map_some, Option.getD_some, BitVec.getLsbD_or,
      BitVec.getLsbD_twoPow, bit, decide_true, Bool.true_and, samePosition, Bool.or_comm]
  · have distinct : tested ≠ position := by
      intro same
      exact sameByte (same ▸ rfl)
    simp only [bitAt, Array.getElem?_toList, Array.getElem?_modify, sameByte, if_false, distinct,
      decide_false, Bool.false_or]

/-- Writing bits whose bytes are there one after another sets exactly those bits. -/
theorem foldlM_write {stored : Array Byte} {positions : List Nat}
    (inside : ∀ position ∈ positions, position / 8 < stored.size) :
    ∃ written, positions.foldlM write stored = .ok written ∧ written.size = stored.size ∧
      ∀ tested, bitAt written.toList tested =
        (decide (tested ∈ positions) || bitAt stored.toList tested) := by
  induction positions generalizing stored with
  | nil => exact ⟨stored, rfl, rfl, by simp⟩
  | cons first rest induction =>
    obtain ⟨next, wrote, sameSize, nextBits⟩ := write_exact (inside first (by simp))
    have restInside : ∀ position ∈ rest, position / 8 < next.size := by
      intro position member
      rw [sameSize]
      exact inside position (by simp [member])
    obtain ⟨written, completed, size, bits⟩ := induction restInside
    refine ⟨written, by rw [List.foldlM_cons, wrote]; exact completed, size.trans sameSize, ?_⟩
    intro tested
    rw [bits, nextBits]
    by_cases isFirst : tested = first
    · simp [isFirst]
    · simp [isFirst]

/-- Writing completes only if each bit has a byte. -/
theorem inside_of_foldlM_write {stored written : Array Byte} {positions : List Nat}
    (completed : positions.foldlM write stored = .ok written) :
    ∀ position ∈ positions, position / 8 < stored.size := by
  induction positions generalizing stored with
  | nil => simp
  | cons first rest induction =>
    obtain ⟨next, wrote, later⟩ := Checked.bind_eq_ok.mp completed
    have inside : first / 8 < stored.size := by
      rw [write] at wrote
      split at wrote
      · assumption
      · cases wrote
    obtain ⟨_, alsoWrote, sameSize, _⟩ := write_exact inside
    cases wrote.symm.trans alsoWrote
    exact List.forall_mem_cons.mpr ⟨inside, sameSize ▸ induction later⟩

/-- The set bits of packed bytes are picked by reading every position below the
length. -/
theorem setBits_eq (bytes : List Byte) (length : Nat) :
    setBits bytes length = (List.range length).filter (bitAt bytes) := by
  simp only [setBits, List.getElem?_toArray]
  rfl

/-- The set bits of packed bytes are the positions below the length that read as
set. -/
theorem mem_setBits {bytes : List Byte} {length position : Nat} :
    position ∈ setBits bytes length ↔ position < length ∧ bitAt bytes position = true := by
  rw [setBits_eq, List.mem_filter, List.mem_range]

end Byte

namespace Bitmap

/-- No bit is stored at or above the length. -/
def Within (bitmap : Bitmap) : Prop :=
  ∀ position, bitmap.bits.contains position = true → position < bitmap.length

/-- A bitmap made of positions has exactly those bits. -/
theorem contains_ofPositions (length : Nat) (positions : List Nat) (tested : Nat) :
    (ofPositions length positions).bits.contains tested = decide (tested ∈ positions) := by
  simp [ofPositions, BitSet.contains_insertAll, BitSet.contains_withCapacity]

/-- Reading a bitmap that stores nothing beyond its length is reading its bits. -/
theorem get_of_within {bitmap : Bitmap} (within : bitmap.Within) (position : Nat) :
    bitmap.get position = bitmap.bits.contains position := by
  unfold get
  by_cases stored : bitmap.bits.contains position = true
  · simp [stored, within position stored]
  · simp [stored]

/-- Packing gives the number of bytes that was asked for. -/
@[simp] theorem length_firstBytes (bits : BitSet) (size : Nat) :
    (firstBytes bits size).length = size := by
  simp [firstBytes]

/-- A bit of the packed bytes is the stored bit. -/
theorem bitAt_firstBytes (bits : BitSet) {size position : Nat} (inside : position / 8 < size) :
    Byte.bitAt (firstBytes bits size) position = bits.contains position := by
  have bit : position % 8 < 8 := Nat.mod_lt _ (by decide)
  have whole : 8 * (position / 8) + position % 8 = position := by omega
  simp only [Byte.bitAt, firstBytes, List.getElem?_map, List.getElem?_range inside,
    Option.map_some, Option.getD_some, Byte.getLsbD_ofBits _ bit, whole, List.getElem?_toArray]
  rfl

/-- Written into enough bytes, the listed bits are the stored ones. -/
theorem foldlM_write_blank {bitmap : Bitmap} {size : Nat}
    (housed : ∀ position, bitmap.bits.contains position = true → position / 8 < size) :
    ∃ written, bitmap.bits.toList.foldlM Byte.write (Array.replicate size 0) = .ok written ∧
      written.toList = firstBytes bitmap.bits size := by
  have blank : (Array.replicate size (0 : Byte)).size = size := Array.size_replicate
  have listed : ∀ position ∈ bitmap.bits.toList, position / 8 <
      (Array.replicate size (0 : Byte)).size := by
    intro position member
    rw [blank]
    exact housed position ((BitSet.mem_toList bitmap.bits position).mp member)
  obtain ⟨written, completed, length, bits⟩ := Byte.foldlM_write listed
  refine ⟨written, completed, Byte.eq_of_bitAt (by simp [length]) ?_⟩
  intro position
  have clear : Byte.bitAt (Array.replicate size (0 : Byte)).toList position = false := by
    rw [Byte.bitAt, Array.getElem?_toList, Array.getElem?_replicate]
    split <;> exact BitVec.getLsbD_zero
  by_cases stored : position / 8 < size
  · rw [bits, clear, bitAt_firstBytes bitmap.bits stored, Bool.or_false, Bool.eq_iff_iff,
      decide_eq_true_eq]
    exact BitSet.mem_toList bitmap.bits position
  · rw [Byte.bitAt_of_le (by simp [length]; omega), Byte.bitAt_of_le (by simp; omega)]

/-- Packing completes exactly when every stored bit is in the machine's range and has a
byte, and then gives the stored bits. -/
theorem pack_eq_ok {bitmap : Bitmap} {size : Nat} {bytes : List Byte} :
    bitmap.pack size = .ok bytes ↔
      (∀ position, bitmap.bits.contains position = true →
        position < 2 ^ 64 ∧ position / 8 < size) ∧ bytes = firstBytes bitmap.bits size := by
  rw [pack, Checked.bind_eq_ok]
  constructor
  · rintro ⟨written, completed, same⟩
    obtain ⟨small, listed⟩ := BitSet.fold_walk_eq_ok.mp completed
    have housed : ∀ position, bitmap.bits.contains position = true → position / 8 < size := by
      intro position stored
      have inside := Byte.inside_of_foldlM_write listed position
        ((BitSet.mem_toList bitmap.bits position).mpr stored)
      rwa [Array.size_replicate] at inside
    obtain ⟨again, alsoListed, packed⟩ := foldlM_write_blank housed
    cases listed.symm.trans alsoListed
    refine ⟨fun position stored => ⟨small position stored, housed position stored⟩, ?_⟩
    rw [← packed]
    exact (Except.ok.inj same).symm
  · rintro ⟨fits, rfl⟩
    obtain ⟨written, listed, packed⟩ :=
      foldlM_write_blank fun position stored => (fits position stored).2
    refine ⟨written, BitSet.fold_walk_eq_ok.mpr ⟨?_, listed⟩, congrArg Except.ok packed⟩
    exact fun position stored => (fits position stored).1

/-- A bitmap that stores nothing beyond its length fits into the bytes that the
length asks for. -/
theorem pack_eq {bitmap : Bitmap} (within : bitmap.Within) (small : bitmap.length < 2 ^ 64) :
    bitmap.pack (Byte.countFor bitmap.length) =
      .ok (firstBytes bitmap.bits (Byte.countFor bitmap.length)) := by
  refine pack_eq_ok.mpr ⟨?_, rfl⟩
  intro position stored
  have below := within position stored
  exact ⟨Nat.lt_trans below small, Byte.lt_countFor below⟩

/-- Setting a bit below the length completes. -/
theorem set_eq {bitmap : Bitmap} {position : Nat} (inside : position < bitmap.length) :
    bitmap.set position = .ok { bitmap with bits := bitmap.bits.insert position } := by
  rw [set, if_pos inside]

/-- Packing reads nothing but which numbers a set contains. -/
theorem firstBytes_congr {left right : BitSet}
    (same : ∀ number, left.contains number = right.contains number) (size : Nat) :
    firstBytes left size = firstBytes right size := by
  have words : ∀ position : Nat, left.words[position]?.getD 0 = right.words[position]?.getD 0 :=
    BitSet.word_congr same
  simp only [firstBytes, List.getElem?_toArray, words]

/-- Unpacking stores the bits that are set below the length. -/
theorem contains_unpack (bytes : List Byte) (length tested : Nat) :
    (unpack bytes length).bits.contains tested =
      (decide (tested < length) && Byte.bitAt bytes tested) := by
  rw [unpack, contains_ofPositions, Bool.eq_iff_iff]
  simp [Byte.mem_setBits]

/-- The bytes of a bitmap that stores nothing beyond its length are unpacked to the
bits it stores. -/
theorem contains_unpack_firstBytes {bitmap : Bitmap} (within : bitmap.Within) (tested : Nat) :
    (unpack (firstBytes bitmap.bits (Byte.countFor bitmap.length)) bitmap.length).bits.contains
      tested = bitmap.bits.contains tested := by
  rw [contains_unpack]
  by_cases inside : tested < bitmap.length
  · simp [inside, bitAt_firstBytes bitmap.bits (Byte.lt_countFor inside)]
  · have absent : bitmap.bits.contains tested = false := by
      rw [Bool.eq_false_iff]
      intro stored
      exact inside (within tested stored)
    simp [inside, absent]

/-- Unpacking stores nothing beyond the length. -/
theorem within_unpack (bytes : List Byte) (length : Nat) : (unpack bytes length).Within := by
  intro position stored
  rw [contains_unpack, Bool.and_eq_true, decide_eq_true_eq] at stored
  exact stored.1

/-- Bitmaps of one length that store the same bits are equal. -/
theorem beq_of_contains {left right : Bitmap}
    (bits : ∀ position, left.bits.contains position = right.bits.contains position)
    (length : left.length = right.length) : (left == right) = true := by
  have sameBits : (left.bits == right.bits) = true := BitSet.beq_of_contains bits
  change (left.bits == right.bits && left.length == right.length) = true
  rw [sameBits, length, beq_self_eq_true, Bool.and_self]

/-- Taking over bits one after another, each below the length and with its byte
there, inserts those that are set. -/
theorem foldlM_copyBit {bytes : List Byte} {bitmap : Bitmap} {positions : List Nat}
    (inside : ∀ position ∈ positions, position / 8 < bytes.length ∧ position < bitmap.length) :
    positions.foldlM (copyBit bytes.toArray) bitmap =
      .ok { bitmap with bits := bitmap.bits.insertAll (positions.filter (Byte.bitAt bytes)) } := by
  induction positions generalizing bitmap with
  | nil => rfl
  | cons first rest induction =>
    obtain ⟨stored, below⟩ := inside first (by simp)
    have later : ∀ position ∈ rest, position / 8 < bytes.length ∧ position < bitmap.length := by
      intro position member
      exact inside position (by simp [member])
    rw [List.foldlM_cons, copyBit, Byte.read_eq stored, Checked.ok_bind]
    cases set : Byte.bitAt bytes first with
    | true =>
      rw [if_pos rfl, set_eq below, Checked.ok_bind, List.filter_cons_of_pos set]
      exact induction later
    | false =>
      rw [if_neg Bool.false_ne_true, Checked.pure_eq_ok, Checked.ok_bind,
        List.filter_cons_of_neg (Bool.not_eq_true _ ▸ set)]
      exact induction later

/-- Enough bytes are read without a fault, for lengths away from the end of the
address space. -/
theorem ofBytes_eq {bytes : List Byte} {length : Nat} (enough : length ≤ bytes.length * 8)
    (held : bytes.length * 8 < 2 ^ 64) (small : length + 64 < 2 ^ 64) :
    ofBytes bytes length = .ok (unpack bytes length) := by
  have bits : Checked.multiplySize bytes.length 8 = .ok (bytes.length * 8) :=
    Checked.multiplySize_eq_ok.mpr ⟨held, rfl⟩
  have room : Checked.addSize length 64 = .ok (length + 64) :=
    Checked.addSize_eq_ok.mpr ⟨small, rfl⟩
  have copied : (List.range length).foldlM (copyBit bytes.toArray) (blank length) =
      .ok (unpack bytes length) := by
    rw [unpack, Byte.setBits_eq]
    refine @foldlM_copyBit bytes (blank length) (List.range length) ?_
    intro position member
    have below := List.mem_range.mp member
    exact ⟨by omega, below⟩
  simp only [ofBytes, bits, Checked.ok_bind, enough, if_true, room, copied]

end Bitmap

end StackMaps
