import StackMaps.Proofs.Bits

/-!
# Bitmaps as bytes and back

Encoding writes the stored bits into whole bytes, decoding reads bits one by one into
words. Decoding and encoding again keeps the bytes up to the length, with the padding of
the last one cleared. Encoding and decoding again keeps a bitmap that stores nothing
beyond its length, however many words it has, and two such bitmaps of one length are
equal exactly when their bytes are.

A bitmap from outside may store bits beyond its length. It is encoded exactly when each
of them has a byte, and then the bytes hold all of them.

All of this is inside the address space. Encoding rounds the length up by 7, decoding
counts the bits of the bytes and rounds the length up by 64, and each of the three can
leave the address space on its own.
-/

namespace StackMaps

namespace Bitmap

/-- Bitmaps are equal exactly when they have one length and store the same bits. -/
theorem beq_iff {left right : Bitmap} :
    (left == right) = true ↔ left.length = right.length ∧
      ∀ position, left.bits.contains position = right.bits.contains position := by
  change (left.bits == right.bits && left.length == right.length) = true ↔ _
  rw [Bool.and_eq_true, BitSet.beq_iff, beq_iff_eq, and_comm]

end Bitmap

/-! ## Padding -/

namespace Byte

/-- The first bytes of a string, as many as a number of bits takes, with the bits from
that number on cleared. -/
def cleared (bytes : List Byte) (length : Nat) : List Byte :=
  (bytes.take (countFor length)).mapIdx fun index byte =>
    ofBits fun bit => byte.getLsbD bit && decide (8 * index + bit < length)

/-- There are as many cleared bytes as the bits take. -/
theorem length_cleared {bytes : List Byte} {length : Nat} (enough : length ≤ bytes.length * 8) :
    (cleared bytes length).length = countFor length := by
  rw [cleared, List.length_mapIdx, List.length_take, countFor]
  omega

/-- A cleared bit is the bit of the bytes below the length. -/
theorem bitAt_cleared (bytes : List Byte) (length position : Nat) :
    bitAt (cleared bytes length) position =
      (decide (position < length) && bitAt bytes position) := by
  have bit : position % 8 < 8 := Nat.mod_lt _ (by decide)
  have whole : 8 * (position / 8) + position % 8 = position := by omega
  rw [bitAt, bitAt, cleared, List.getElem?_mapIdx, List.getElem?_take]
  by_cases inside : position / 8 < countFor length
  · rw [if_pos inside]
    cases bytes[position / 8]? with
    | none => simp
    | some byte =>
      rw [Option.map_some, Option.getD_some, Option.getD_some, getLsbD_ofBits _ bit, whole,
        Bool.and_comm]
  · have beyond : ¬ position < length := fun below => inside (lt_countFor below)
    simp [inside, beyond]

end Byte

/-! ## Encoding and decoding -/

namespace Bitmap

variable {bitmap other decoded : Bitmap} {bytes packed : List Byte} {length : Nat}

/-- A bitmap is encoded exactly when its length can be rounded up and each stored bit has
a byte. -/
theorem toBytes_eq_ok :
    bitmap.toBytes = .ok packed ↔ bitmap.length + 7 < 2 ^ 64 ∧
      (∀ position, bitmap.bits.contains position = true →
        position / 8 < Byte.countFor bitmap.length) ∧
      packed = firstBytes bitmap.bits (Byte.countFor bitmap.length) := by
  rw [toBytes, Checked.bind_eq_ok]
  constructor
  · rintro ⟨size, rounded, written⟩
    obtain ⟨small, rfl⟩ := Byte.countForChecked_eq_ok.mp rounded
    obtain ⟨housed, same⟩ := pack_eq_ok.mp written
    exact ⟨small, fun position stored => (housed position stored).2, same⟩
  · rintro ⟨small, housed, same⟩
    refine ⟨_, Byte.countForChecked_eq small, pack_eq_ok.mpr ⟨?_, same⟩⟩
    intro position stored
    -- What has a byte is in the machine's range, since the length is.
    have inside := housed position stored
    rw [Byte.countFor] at inside
    exact ⟨by omega, housed position stored⟩

/-- The bytes of a bitmap are as many as its length takes, and hold the stored bits. -/
theorem bitAt_of_toBytes (encoded : bitmap.toBytes = .ok packed) :
    packed.length = Byte.countFor bitmap.length ∧
      ∀ position, Byte.bitAt packed position = bitmap.bits.contains position := by
  obtain ⟨_, housed, rfl⟩ := toBytes_eq_ok.mp encoded
  refine ⟨length_firstBytes _ _, ?_⟩
  intro position
  by_cases inside : position / 8 < Byte.countFor bitmap.length
  · exact bitAt_firstBytes bitmap.bits inside
  · have absent : bitmap.bits.contains position = false :=
      Bool.eq_false_iff.mpr fun stored => inside (housed position stored)
    rw [absent, Byte.bitAt_of_le (by rw [length_firstBytes]; omega)]

/-- A bitmap that stores nothing beyond its length is encoded. -/
theorem toBytes_of_within (within : bitmap.Within) (small : bitmap.length + 7 < 2 ^ 64) :
    ∃ packed, bitmap.toBytes = .ok packed := by
  refine ⟨_, toBytes_eq_ok.mpr ⟨small, ?_, rfl⟩⟩
  intro position stored
  exact Byte.lt_countFor (within position stored)

/-- Enough bytes are decoded exactly when their bits can be counted and the length can be
rounded up to words. -/
theorem ofBytes_eq_ok (enough : length ≤ bytes.length * 8) :
    ofBytes bytes length = .ok decoded ↔
      (bytes.length * 8 < 2 ^ 64 ∧ length + 64 < 2 ^ 64) ∧ decoded = unpack bytes length := by
  constructor
  · intro read
    obtain ⟨held, counted, rest⟩ := Checked.bind_eq_ok.mp read
    obtain ⟨fits, rfl⟩ := Checked.multiplySize_eq_ok.mp counted
    rw [if_pos enough] at rest
    obtain ⟨_, rounded, _⟩ := Checked.bind_eq_ok.mp rest
    obtain ⟨small, _⟩ := Checked.addSize_eq_ok.mp rounded
    have whole := ofBytes_eq enough fits small
    exact ⟨⟨fits, small⟩, Except.ok.inj (read.symm.trans whole)⟩
  · rintro ⟨⟨fits, small⟩, rfl⟩
    exact ofBytes_eq enough fits small

/-- What was decoded is encoded as the bytes up to the length with their padding
cleared. -/
theorem toBytes_of_ofBytes (enough : length ≤ bytes.length * 8)
    (read : ofBytes bytes length = .ok decoded) :
    decoded.toBytes = .ok (Byte.cleared bytes length) := by
  obtain ⟨⟨_, small⟩, rfl⟩ := (ofBytes_eq_ok enough).mp read
  have room : length + 7 < 2 ^ 64 := by omega
  obtain ⟨packed, encoded⟩ := toBytes_of_within (within_unpack bytes length) room
  obtain ⟨size, bits⟩ := bitAt_of_toBytes encoded
  rw [encoded, Except.ok.injEq]
  refine Byte.eq_of_bitAt (size.trans (Byte.length_cleared enough).symm) ?_
  intro position
  rw [bits, contains_unpack, Byte.bitAt_cleared]

/-- What a bitmap that stores nothing beyond its length was encoded as is decoded to an
equal bitmap, if it is decoded. -/
theorem beq_of_ofBytes_toBytes (within : bitmap.Within) (encoded : bitmap.toBytes = .ok packed)
    (read : ofBytes packed bitmap.length = .ok decoded) : (decoded == bitmap) = true := by
  obtain ⟨size, bits⟩ := bitAt_of_toBytes encoded
  have enough : bitmap.length ≤ packed.length * 8 := by
    rw [size, Byte.countFor]
    omega
  obtain ⟨_, rfl⟩ := (ofBytes_eq_ok enough).mp read
  refine beq_iff.mpr ⟨rfl, ?_⟩
  intro position
  rw [contains_unpack, bits, Bool.and_eq_right_iff_imp]
  intro stored
  exact decide_eq_true (within position stored)

/-- Bitmaps of one length that store nothing beyond it are equal exactly when their bytes
are. -/
theorem beq_iff_toBytes_eq (within : bitmap.Within) (otherWithin : other.Within)
    (length : bitmap.length = other.length) (small : bitmap.length + 7 < 2 ^ 64) :
    (bitmap == other) = true ↔ bitmap.toBytes = other.toBytes := by
  obtain ⟨packed, encoded⟩ := toBytes_of_within within small
  obtain ⟨otherPacked, otherEncoded⟩ := toBytes_of_within otherWithin (length ▸ small)
  obtain ⟨size, bits⟩ := bitAt_of_toBytes encoded
  obtain ⟨otherSize, otherBits⟩ := bitAt_of_toBytes otherEncoded
  rw [encoded, otherEncoded, Except.ok.injEq, beq_iff]
  constructor
  · rintro ⟨_, same⟩
    refine Byte.eq_of_bitAt (by rw [size, otherSize, length]) ?_
    intro position
    rw [bits, otherBits, same]
  · rintro rfl
    refine ⟨length, ?_⟩
    intro position
    rw [← bits, otherBits]

/-- Encoding a bitmap is a fault exactly when its length cannot be rounded up or a stored
bit has no byte. -/
theorem toBytes_eq_error :
    (∃ fault, bitmap.toBytes = .error fault) ↔ 2 ^ 64 ≤ bitmap.length + 7 ∨
      ∃ position, bitmap.bits.contains position = true ∧
        Byte.countFor bitmap.length ≤ position / 8 := by
  constructor
  · rintro ⟨fault, failed⟩
    by_cases small : bitmap.length + 7 < 2 ^ 64
    · refine Or.inr (Classical.byContradiction fun housed => ?_)
      have encoded : bitmap.toBytes = .ok _ := toBytes_eq_ok.mpr ⟨small, fun position stored =>
        Nat.lt_of_not_le fun beyond => housed ⟨position, stored, beyond⟩, rfl⟩
      rw [encoded] at failed
      cases failed
    · exact Or.inl (Nat.le_of_not_lt small)
  · intro cause
    cases outcome : bitmap.toBytes with
    | error fault => exact ⟨fault, rfl⟩
    | ok packed =>
      obtain ⟨small, housed, _⟩ := toBytes_eq_ok.mp outcome
      rcases cause with large | ⟨position, stored, beyond⟩
      · exact absurd small (Nat.not_lt.mpr large)
      · exact absurd (housed position stored) (Nat.not_lt.mpr beyond)

end Bitmap

/-- The codec of bitmaps. Bytes that are enough for a length are decoded exactly when
their bits can be counted and the length can be rounded up to words, and are then
encoded as the same bytes up to the length with the padding cleared. A bitmap that stores
nothing beyond its length is encoded if the length can be rounded up to bytes, is decoded
again exactly when it can be rounded up to words, and is then what it was; two of one
length are equal exactly when their bytes are. Encoding any bitmap is a fault exactly when
its length cannot be rounded up to bytes or a stored bit has no byte, and otherwise the
bytes hold exactly the stored bits. -/
theorem bitmap_codec_exact (bytes : List Byte) (length : Nat) (bitmap other : Bitmap) :
    (length ≤ 8 * bytes.length →
      ((∃ decoded, Bitmap.ofBytes bytes length = .ok decoded) ↔
        8 * bytes.length < 2 ^ 64 ∧ length + 64 < 2 ^ 64) ∧
      ∀ decoded, Bitmap.ofBytes bytes length = .ok decoded →
        decoded.toBytes = .ok (Byte.cleared bytes length)) ∧
    (bitmap.Within → bitmap.length + 7 < 2 ^ 64 →
      ∃ packed, bitmap.toBytes = .ok packed ∧
        ((∃ again, Bitmap.ofBytes packed bitmap.length = .ok again) ↔
          bitmap.length + 64 < 2 ^ 64) ∧
        ∀ again, Bitmap.ofBytes packed bitmap.length = .ok again → (again == bitmap) = true) ∧
    (bitmap.Within → other.Within → bitmap.length = other.length →
      bitmap.length + 7 < 2 ^ 64 →
      ((bitmap == other) = true ↔ bitmap.toBytes = other.toBytes)) ∧
    ((∃ fault, bitmap.toBytes = .error fault) ↔ 2 ^ 64 ≤ bitmap.length + 7 ∨
      ∃ position, bitmap.bits.contains position = true ∧
        Byte.countFor bitmap.length ≤ position / 8) ∧
    ∀ packed, bitmap.toBytes = .ok packed → packed.length = Byte.countFor bitmap.length ∧
      ∀ position, Byte.bitAt packed position = bitmap.bits.contains position := by
  refine ⟨?_, ?_, Bitmap.beq_iff_toBytes_eq, Bitmap.toBytes_eq_error,
    fun _ => Bitmap.bitAt_of_toBytes⟩
  · intro enough
    rw [Nat.mul_comm] at enough ⊢
    simp only [Bitmap.ofBytes_eq_ok enough, exists_and_left, exists_eq, and_true, true_and]
    intro decoded read
    exact Bitmap.toBytes_of_ofBytes enough ((Bitmap.ofBytes_eq_ok enough).mpr read)
  · intro within small
    obtain ⟨packed, encoded⟩ := Bitmap.toBytes_of_within within small
    obtain ⟨size, _⟩ := Bitmap.bitAt_of_toBytes encoded
    have enough : bitmap.length ≤ packed.length * 8 := by
      rw [size, Byte.countFor]
      omega
    have counted : packed.length * 8 < 2 ^ 64 := by
      rw [size, Byte.countFor]
      omega
    refine ⟨packed, encoded, ?_, fun _ => Bitmap.beq_of_ofBytes_toBytes within encoded⟩
    simp only [Bitmap.ofBytes_eq_ok enough, exists_and_left, exists_eq, and_true, counted, true_and]

/-- Eleven bits of two bytes lose the padding of the second byte. A bit beyond the length
is encoded while it has a byte, and is a fault without one. -/
theorem bitmap_codec_exact_padded :
    (∃ decoded, Bitmap.ofBytes [0xFF, 0xFC] 11 = .ok decoded ∧
      decoded.toBytes = .ok [0xFF, 0x04]) ∧
    (∃ fault, (⟨⟨[0x10000]⟩, 11⟩ : Bitmap).toBytes = .error fault) ∧
    (⟨⟨[0x8001, 0]⟩, 11⟩ : Bitmap).toBytes = .ok [0x01, 0x80] ∧
    ∀ position, Byte.bitAt [0x01, 0x80] position = (⟨[0x8001, 0]⟩ : BitSet).contains position := by
  obtain ⟨decodes, _, _, faults, _⟩ :=
    bitmap_codec_exact [0xFF, 0xFC] 11 ⟨⟨[0x10000]⟩, 11⟩ ⟨⟨[]⟩, 11⟩
  obtain ⟨_, _, _, _, holds⟩ := bitmap_codec_exact [] 0 ⟨⟨[0x8001, 0]⟩, 11⟩ ⟨⟨[]⟩, 11⟩
  obtain ⟨read, again⟩ := decodes (by decide)
  obtain ⟨decoded, made⟩ := read.mpr ⟨by decide, by decide⟩
  have listed : (⟨[0x8001, 0]⟩ : BitSet).toList = [0, 15] := by decide +kernel
  have encoded : (⟨⟨[0x8001, 0]⟩, 11⟩ : Bitmap).toBytes = .ok [0x01, 0x80] := by
    refine Bitmap.toBytes_eq_ok.mpr ⟨by decide, fun position stored => ?_, by decide⟩
    rw [← BitSet.mem_toList, listed] at stored
    exact (by decide : ∀ position ∈ [0, 15], position / 8 < 2) position stored
  exact ⟨⟨decoded, made, again decoded made⟩, faults.mpr (Or.inr ⟨16, rfl, by decide⟩), encoded,
    (holds _ encoded).2⟩

/-- The longest bitmaps without a stored bit. Seven below the end of the address space,
encoding is a fault although no bit lacks a byte. Sixty-four below it, encoding completes
and decoding is the fault. So it is for bytes whose bits cannot be counted, at length
zero. -/
theorem codec_faults_without_bits :
    (¬ ∃ position, (⟨⟨[]⟩, 2 ^ 64 - 7⟩ : Bitmap).bits.contains position = true) ∧
    (⟨⟨[]⟩, 2 ^ 64 - 7⟩ : Bitmap).toBytes = .error .addOverflow ∧
    (∃ packed, (⟨⟨[]⟩, 2 ^ 64 - 64⟩ : Bitmap).toBytes = .ok packed ∧
      ¬ ∃ again, Bitmap.ofBytes packed (2 ^ 64 - 64) = .ok again) ∧
    Bitmap.ofBytes (List.replicate (2 ^ 61) 0) 0 = .error .multiplyOverflow := by
  have bare : ¬ ∃ position, (⟨[]⟩ : BitSet).contains position = true := by
    rintro ⟨position, stored⟩
    have clear : (⟨[]⟩ : BitSet).contains position = false := BitVec.getLsbD_zero
    rw [clear] at stored
    cases stored
  refine ⟨bare, rfl, ?_, ?_⟩
  · have within : (⟨⟨[]⟩, 2 ^ 64 - 64⟩ : Bitmap).Within := by
      intro position stored
      exact absurd ⟨position, stored⟩ bare
    obtain ⟨packed, encoded⟩ := Bitmap.toBytes_of_within within (by decide)
    have size : packed.length = 2 ^ 61 - 8 := (Bitmap.bitAt_of_toBytes encoded).1
    refine ⟨packed, encoded, ?_⟩
    rintro ⟨again, read⟩
    have small := ((Bitmap.ofBytes_eq_ok (by rw [size]; decide)).mp read).1.2
    exact absurd small (by decide)
  · rw [Bitmap.ofBytes, List.length_replicate]
    rfl

end StackMaps
