import Mathlib.Data.List.Nodup
import StackMaps.Proofs.Tables

/-!
# Packed tables read back

Maps are packed in the order of their offsets, whatever order they were given in,
and only their bits are packed, whatever words store them. So the table depends on
the set of offsets with their bits alone. Reading every entry gives the maps back in
the order of offsets, and packing those gives the same table again.

Packing completes exactly when the sizes it computes fit the machine: both lengths,
rounded up to whole bytes, inside the address space, and all bytes of the table
inside the half of it that one run of memory can have.
-/

namespace StackMaps

/-- Steps over the positions of a list that complete with a function of the position and
of what stands there complete with the list of its values. -/
theorem Checked.mapM_range {α β : Type} {list : List α} {step : Nat → Checked β}
    {plain : Nat → α → β}
    (agrees : ∀ position item, list[position]? = some item →
      step position = .ok (plain position item)) :
    (List.range list.length).mapM step = .ok (list.mapIdx plain) := by
  have positions : List.range list.length = list.zipIdx.map Prod.snd := by
    rw [List.zipIdx_map_snd, List.range_eq_range']
  rw [positions, List.mapM_map, List.mapIdx_eq_zipIdx_map]
  apply Checked.mapM_eq_ok
  intro entry member
  exact agrees entry.2 entry.1 (List.mem_zipIdx_iff_getElem?.mp member)

namespace Table

variable {frameBits registerBits : Nat} {maps : List (UInt32 × ReferenceMap)}

/-! ## Offsets that repeat -/

/-- No offset stands twice among the ordered maps exactly when none was given
twice. -/
theorem firstRepeat_ordered_eq_none :
    firstRepeat ((ordered maps).map Prod.fst) = none ↔ (maps.map Prod.fst).Nodup := by
  have reordered := (ordered_perm maps).map Prod.fst
  constructor
  · intro unrepeated
    have ascending := firstRepeat_eq_none (ordered_pcs_ascending maps) unrepeated
    exact reordered.nodup_iff.mp (ascending.imp UInt32.ne_of_lt)
  · intro distinct
    cases found : firstRepeat ((ordered maps).map Prod.fst) with
    | none => rfl
    | some pc =>
      obtain ⟨twice, _⟩ := firstRepeat_eq_some (ordered_pcs_ascending maps) found
      have once := List.nodup_iff_count.mp (reordered.nodup_iff.mpr distinct) pc
      omega

/-- Maps with a repeated offset are refused, and the smallest such offset is named.
Nothing else is looked at. -/
theorem ofMaps_repeated (frameBits registerBits : Nat) (repeated : ¬ (maps.map Prod.fst).Nodup) :
    ∃ pc, ofMaps frameBits registerBits maps = .ok (.error (.duplicateSafepoint pc)) ∧
      2 ≤ (maps.map Prod.fst).count pc ∧
      ∀ other, 2 ≤ (maps.map Prod.fst).count other → pc ≤ other := by
  have counts : ∀ pc, ((ordered maps).map Prod.fst).count pc = (maps.map Prod.fst).count pc :=
    ((ordered_perm maps).map Prod.fst).count_eq
  cases found : firstRepeat ((ordered maps).map Prod.fst) with
  | none => exact absurd (firstRepeat_ordered_eq_none.mp found) repeated
  | some pc =>
    obtain ⟨twice, smallest⟩ := firstRepeat_eq_some (ordered_pcs_ascending maps) found
    simp only [counts] at twice smallest
    refine ⟨pc, ?_, twice, smallest⟩
    dsimp only [ofMaps]
    rw [found]
    rfl

/-! ## Sizes -/

/-- The sizes of a table fit the machine. -/
structure Storable (frameBits registerBits count : Nat) : Prop where
  frame : frameBits + 7 < 2 ^ 64
  registers : registerBits + 7 < 2 ^ 64
  bytes : count * (Byte.countFor frameBits + Byte.countFor registerBits) < 2 ^ 63

/-- A table is made only when its sizes fit. -/
theorem storable_of_ofMaps {table : Table}
    (made : ofMaps frameBits registerBits maps = .ok (.ok table)) :
    Storable frameBits registerBits maps.length := by
  dsimp only [ofMaps] at made
  split at made
  · cases made
  · obtain ⟨stride, sized, made⟩ := Checked.bind_eq_ok.mp made
    obtain ⟨total, multiplied, made⟩ := Checked.bind_eq_ok.mp made
    obtain ⟨_, stored, _⟩ := Checked.bind_eq_ok.mp made
    obtain ⟨frame, frameRounded, sized⟩ := Checked.bind_eq_ok.mp sized
    obtain ⟨registers, registersRounded, sized⟩ := Checked.bind_eq_ok.mp sized
    obtain ⟨frameSmall, rfl⟩ := Byte.countForChecked_eq_ok.mp frameRounded
    obtain ⟨registersSmall, rfl⟩ := Byte.countForChecked_eq_ok.mp registersRounded
    cases sized
    obtain ⟨_, rfl⟩ := Checked.multiplySize_eq_ok.mp multiplied
    have fits := Checked.requireCapacity_eq_ok.mp stored
    rw [(ordered_perm maps).length_eq] at fits
    exact ⟨frameSmall, registersSmall, fits⟩

/-- Shaped maps with different offsets, whose sizes fit, are packed. -/
theorem ofMaps_packed (storable : Storable frameBits registerBits maps.length)
    (shaped : ∀ entry ∈ maps, Shaped frameBits registerBits entry.2)
    (distinct : (maps.map Prod.fst).Nodup) :
    ofMaps frameBits registerBits maps = .ok (.ok (packed frameBits registerBits maps)) := by
  rw [ofMaps_eq storable.frame storable.registers storable.bytes shaped,
    firstRepeat_ordered_eq_none.mpr distinct]

/-! ## What a table depends on -/

/-- An offset with the bytes of its map. -/
def coded (frameBits registerBits : Nat) (entry : UInt32 × ReferenceMap) : UInt32 × List Byte :=
  (entry.1, bytesOf frameBits registerBits entry.2)

/-- Ordered maps are coded in one order only: of two coded entries with one offset,
different offsets leave one. -/
theorem coded_ordered_eq {first second : List (UInt32 × ReferenceMap)}
    (same : (first.map (coded frameBits registerBits)).Perm
      (second.map (coded frameBits registerBits)))
    (distinct : (first.map Prod.fst).Nodup) :
    (ordered first).map (coded frameBits registerBits) =
      (ordered second).map (coded frameBits registerBits) := by
  have offsets : ((first.map (coded frameBits registerBits)).map Prod.fst).Nodup := by
    rwa [List.map_map]
  have fromFirst := (ordered_perm first).map (coded frameBits registerBits)
  have fromSecond := (ordered_perm second).map (coded frameBits registerBits)
  have firstAscending : ((ordered first).map (coded frameBits registerBits)).Pairwise
      fun left right => left.1 ≤ right.1 := List.pairwise_map.mpr (ordered_ascending first)
  have secondAscending : ((ordered second).map (coded frameBits registerBits)).Pairwise
      fun left right => left.1 ≤ right.1 := List.pairwise_map.mpr (ordered_ascending second)
  refine List.Perm.eq_of_pairwise ?_ firstAscending secondAscending
    (fromFirst.trans (same.trans fromSecond.symm))
  intro left right inFirst inSecond below above
  exact List.inj_on_of_nodup_map offsets (fromFirst.mem_iff.mp inFirst)
    (same.mem_iff.mpr (fromSecond.mem_iff.mp inSecond)) (UInt32.le_antisymm below above)

/-- A packed table is made of the ordered offsets with their bytes. -/
theorem packed_of_coded {first second : List (UInt32 × ReferenceMap)}
    (order : (ordered first).map (coded frameBits registerBits) =
      (ordered second).map (coded frameBits registerBits)) :
    packed frameBits registerBits first = packed frameBits registerBits second := by
  have pcs : (ordered first).map Prod.fst = (ordered second).map Prod.fst := by
    simpa [coded, Function.comp_def] using congrArg (List.map Prod.fst) order
  have bytes : (ordered first).map (fun entry => bytesOf frameBits registerBits entry.2) =
      (ordered second).map fun entry => bytesOf frameBits registerBits entry.2 := by
    simpa [coded, Function.comp_def] using congrArg (List.map Prod.snd) order
  rw [packed, packed, pcs, bytes]

/-- A packed table is determined by the offsets with their bytes. -/
theorem packed_congr {first second : List (UInt32 × ReferenceMap)}
    (same : (first.map (coded frameBits registerBits)).Perm
      (second.map (coded frameBits registerBits)))
    (distinct : (first.map Prod.fst).Nodup) :
    packed frameBits registerBits first = packed frameBits registerBits second :=
  packed_of_coded (coded_ordered_eq same distinct)

/-! ## Reading back -/

/-- The bytes of a map depend on its bits only. -/
theorem bytesOf_congr {left right : ReferenceMap}
    (frame : ∀ bit, left.frame.bits.contains bit = right.frame.bits.contains bit)
    (registers : ∀ bit, left.registers.bits.contains bit = right.registers.bits.contains bit) :
    bytesOf frameBits registerBits left = bytesOf frameBits registerBits right := by
  rw [bytesOf, bytesOf, Bitmap.firstBytes_congr frame, Bitmap.firstBytes_congr registers]

section

variable {map : ReferenceMap} (shaped : Shaped frameBits registerBits map) (pc : UInt32)

include shaped

/-- The frame bits that are read from the entry of a map are those of the map. -/
theorem contains_frame_entryOf (bit : Nat) :
    (entryOf frameBits registerBits pc map).toMap.frame.bits.contains bit =
      map.frame.bits.contains bit := by
  have read := Bitmap.contains_unpack_firstBytes shaped.frameWithin bit
  rwa [shaped.frameLength] at read

/-- The register bits that are read from the entry of a map are those of the map. -/
theorem contains_registers_entryOf (bit : Nat) :
    (entryOf frameBits registerBits pc map).toMap.registers.bits.contains bit =
      map.registers.bits.contains bit := by
  have read := Bitmap.contains_unpack_firstBytes shaped.registersWithin bit
  rwa [shaped.registerLength] at read

/-- The map that is read from the entry of a map is equal to it. -/
theorem toMap_entryOf : ((entryOf frameBits registerBits pc map).toMap == map) = true := by
  have frame := Bitmap.beq_of_contains (contains_frame_entryOf shaped pc) shaped.frameLength.symm
  have registers := Bitmap.beq_of_contains (contains_registers_entryOf shaped pc)
    shaped.registerLength.symm
  change (_ && _) = true
  rw [Bool.and_eq_true]
  exact ⟨frame, registers⟩

end

/-- What packing and unpacking make of a map, with its offset. -/
def readBack (frameBits registerBits : Nat) (entry : UInt32 × ReferenceMap) :
    UInt32 × ReferenceMap :=
  (entry.1, (entryOf frameBits registerBits entry.1 entry.2).toMap)

/-- A map that was read back is packed into the bytes it was read from. -/
theorem coded_readBack {entry : UInt32 × ReferenceMap}
    (shaped : Shaped frameBits registerBits entry.2) :
    coded frameBits registerBits (readBack frameBits registerBits entry) =
      coded frameBits registerBits entry :=
  congrArg (Prod.mk entry.1) (bytesOf_congr (contains_frame_entryOf shaped entry.1)
    (contains_registers_entryOf shaped entry.1))

/-- A map that was read back has the shape of the table. -/
theorem shaped_readBack (frameBits registerBits : Nat) (entry : UInt32 × ReferenceMap) :
    Shaped frameBits registerBits (readBack frameBits registerBits entry).2 where
  frameLength := rfl
  registerLength := rfl
  frameWithin := Bitmap.within_unpack _ _
  registersWithin := Bitmap.within_unpack _ _

/-- Rounding a length up to bytes and counting their bits stays inside the address
space. -/
theorem countFor_bounds {bits : Nat} (small : bits + 64 < 2 ^ 64) :
    bits ≤ Byte.countFor bits * 8 ∧ Byte.countFor bits * 8 < 2 ^ 64 := by
  unfold Byte.countFor
  omega

/-- Unpacking the map of a whole entry completes. -/
theorem toMapChecked_of_whole {entry : Entry} (whole : entry.Whole)
    (frameSmall : entry.frameBits + 64 < 2 ^ 64)
    (registersSmall : entry.registerBits + 64 < 2 ^ 64) :
    entry.toMapChecked = .ok entry.toMap := by
  obtain ⟨frameEnough, frameHeld⟩ := countFor_bounds frameSmall
  obtain ⟨registersEnough, registersHeld⟩ := countFor_bounds registersSmall
  rw [← whole.frame] at frameEnough frameHeld
  rw [← whole.registers] at registersEnough registersHeld
  rw [Entry.toMapChecked, Bitmap.ofBytes_eq frameEnough frameHeld frameSmall, Checked.ok_bind,
    Bitmap.ofBytes_eq registersEnough registersHeld registersSmall]
  rfl

/-- Unpacking the entry of a map completes. -/
theorem toMapChecked_entryOf (frameSmall : frameBits + 64 < 2 ^ 64)
    (registersSmall : registerBits + 64 < 2 ^ 64) (pc : UInt32) (map : ReferenceMap) :
    (entryOf frameBits registerBits pc map).toMapChecked =
      .ok (entryOf frameBits registerBits pc map).toMap :=
  toMapChecked_of_whole (whole_entryOf frameBits registerBits pc map) frameSmall registersSmall

/-- The entries of a packed table are those of the ordered maps. -/
theorem entries_packed (storable : Storable frameBits registerBits maps.length) :
    (packed frameBits registerBits maps).entries =
      .ok ((ordered maps).map fun entry => entryOf frameBits registerBits entry.1 entry.2) := by
  have size : (packed frameBits registerBits maps).size = (ordered maps).length :=
    List.length_map ..
  have read : (List.range (ordered maps).length).mapM (packed frameBits registerBits maps).entry =
      .ok ((ordered maps).mapIdx fun _ entry =>
        entryOf frameBits registerBits entry.1 entry.2) := by
    apply Checked.mapM_range
    rintro position ⟨pc, map⟩ held
    exact entry_packed storable.frame storable.registers storable.bytes held
  rw [entries, size, read, Except.ok.injEq]
  apply List.ext_getElem?
  intro position
  rw [List.getElem?_mapIdx, List.getElem?_map]

/-- The maps that are read from the entries of a table, with their offsets. -/
def reread (entries : List Entry) : Checked (List (UInt32 × ReferenceMap)) :=
  entries.mapM fun entry => do
    let map ← entry.toMapChecked
    return (entry.pc, map)

/-- Reading the entries of maps completes with the maps read back. -/
theorem reread_entryOf (frameSmall : frameBits + 64 < 2 ^ 64)
    (registersSmall : registerBits + 64 < 2 ^ 64) (maps : List (UInt32 × ReferenceMap)) :
    reread (maps.map fun entry => entryOf frameBits registerBits entry.1 entry.2) =
      .ok (maps.map (readBack frameBits registerBits)) := by
  rw [reread, List.mapM_map]
  apply Checked.mapM_eq_ok
  intro entry _
  simp only [Function.comp_apply, toMapChecked_entryOf frameSmall registersSmall,
    Checked.ok_bind, Checked.pure_eq_ok]
  rfl

/-- The maps read back from a packed table are packed into the same table. -/
theorem ofMaps_readBack (storable : Storable frameBits registerBits maps.length)
    (shaped : ∀ entry ∈ maps, Shaped frameBits registerBits entry.2)
    (distinct : (maps.map Prod.fst).Nodup) :
    ofMaps frameBits registerBits ((ordered maps).map (readBack frameBits registerBits)) =
      .ok (.ok (packed frameBits registerBits maps)) := by
  have againShaped : ∀ entry ∈ (ordered maps).map (readBack frameBits registerBits),
      Shaped frameBits registerBits entry.2 := by
    intro entry member
    obtain ⟨given, _, rfl⟩ := List.mem_map.mp member
    exact shaped_readBack frameBits registerBits given
  have againDistinct :
      (((ordered maps).map (readBack frameBits registerBits)).map Prod.fst).Nodup := by
    rw [List.map_map]
    exact ((ordered_perm maps).map Prod.fst).nodup_iff.mpr distinct
  have length : ((ordered maps).map (readBack frameBits registerBits)).length = maps.length := by
    rw [List.length_map, (ordered_perm maps).length_eq]
  have codes : ((ordered maps).map (readBack frameBits registerBits)).map
      (coded frameBits registerBits) = (ordered maps).map (coded frameBits registerBits) := by
    rw [List.map_map]
    apply List.map_congr_left
    intro entry member
    exact coded_readBack (shaped entry ((ordered_perm maps).mem_iff.mp member))
  rw [ofMaps_packed (length ▸ storable) againShaped againDistinct]
  refine congrArg (fun table => Except.ok (Except.ok table)) (packed_congr ?_ againDistinct)
  rw [codes]
  exact (ordered_perm maps).map _

/-- Maps whose bitmaps have the lengths of a table and store nothing beyond them are
packed and read back. Two maps for one offset are refused with the smallest such
offset. Maps for different offsets are packed exactly when the sizes of the table
fit. Its offsets are then those of the maps in ascending order, its bytes are one
entry of whole bytes for each map, an offset of a map is looked up to an entry that
unpacks to an equal map, any other offset is looked up to nothing, the maps in any
other order give the same table, and so do the maps unpacked from its own entries.
Unpacking counts the words of a bitmap, and so needs lengths 64 below the end of the
address space. -/
theorem packed_table_reads_back (frameBits registerBits : Nat)
    (maps : List (UInt32 × ReferenceMap))
    (shaped : ∀ entry ∈ maps, Shaped frameBits registerBits entry.2) :
    (¬ (maps.map Prod.fst).Nodup →
      ∃ pc, ofMaps frameBits registerBits maps = .ok (.error (.duplicateSafepoint pc)) ∧
        2 ≤ (maps.map Prod.fst).count pc ∧
        ∀ other, 2 ≤ (maps.map Prod.fst).count other → pc ≤ other) ∧
    ((maps.map Prod.fst).Nodup →
      ((∃ table, ofMaps frameBits registerBits maps = .ok (.ok table)) ↔
        Storable frameBits registerBits maps.length) ∧
      ∀ table, ofMaps frameBits registerBits maps = .ok (.ok table) →
        table.frameBits = frameBits ∧ table.registerBits = registerBits ∧
        table.pcs.Pairwise (· < ·) ∧ table.pcs.Perm (maps.map Prod.fst) ∧
        table.data.length =
          maps.length * (Byte.countFor frameBits + Byte.countFor registerBits) ∧
        (∀ pc map, (pc, map) ∈ maps → ∃ entry, table.lookup pc = .ok (some entry) ∧
          entry.pc = pc ∧ (entry.toMap == map) = true ∧
          (frameBits + 64 < 2 ^ 64 → registerBits + 64 < 2 ^ 64 →
            entry.toMapChecked = .ok entry.toMap)) ∧
        (∀ pc, pc ∉ maps.map Prod.fst → table.lookup pc = .ok none) ∧
        (∀ others, others.Perm maps → ofMaps frameBits registerBits others = .ok (.ok table)) ∧
        ∃ entries, table.entries = .ok entries ∧
          (frameBits + 64 < 2 ^ 64 → registerBits + 64 < 2 ^ 64 →
            ∃ again, reread entries = .ok again ∧
              ofMaps frameBits registerBits again = .ok (.ok table))) := by
  refine ⟨ofMaps_repeated frameBits registerBits, fun distinct => ⟨⟨?_, ?_⟩, ?_⟩⟩
  · rintro ⟨table, made⟩
    exact storable_of_ofMaps made
  · intro storable
    exact ⟨_, ofMaps_packed storable shaped distinct⟩
  · intro table made
    have storable := storable_of_ofMaps made
    have ascending : ((ordered maps).map Prod.fst).Pairwise (· < ·) :=
      firstRepeat_eq_none (ordered_pcs_ascending maps) (firstRepeat_ordered_eq_none.mpr distinct)
    obtain rfl : packed frameBits registerBits maps = table := by
      have same := (ofMaps_packed storable shaped distinct).symm.trans made
      exact Except.ok.inj (Except.ok.inj same)
    refine ⟨rfl, rfl, ascending, (ordered_perm maps).map Prod.fst,
      length_data frameBits registerBits maps, ?_, ?_, ?_, ?_⟩
    · intro pc map given
      refine ⟨_, lookup_packed storable.frame storable.registers storable.bytes ascending given,
        rfl, toMap_entryOf (shaped _ given) pc, ?_⟩
      intro frameSmall registersSmall
      exact toMapChecked_entryOf frameSmall registersSmall pc map
    · intro pc absent
      exact lookup_absent frameBits registerBits absent
    · intro others reordered
      have othersShaped : ∀ entry ∈ others, Shaped frameBits registerBits entry.2 := by
        intro entry member
        exact shaped entry (reordered.mem_iff.mp member)
      have othersDistinct := (reordered.map Prod.fst).nodup_iff.mpr distinct
      rw [ofMaps_packed (reordered.length_eq ▸ storable) othersShaped othersDistinct,
        packed_congr (reordered.map _) othersDistinct]
    · refine ⟨_, entries_packed storable, ?_⟩
      intro frameSmall registersSmall
      exact ⟨_, reread_entryOf frameSmall registersSmall _,
        ofMaps_readBack storable shaped distinct⟩

/-- Two maps, given against the order of their offsets, with lengths that end inside
a byte. -/
def unorderedMaps : List (UInt32 × ReferenceMap) :=
  [(9, ⟨.ofPositions 11 [10, 0], .ofPositions 3 [2]⟩),
    (4, ⟨.ofPositions 11 [8], .ofPositions 3 []⟩)]

/-- The two maps are packed into three bytes each and unpacked again. -/
theorem packed_table_reads_back_unordered :
    (∀ entry ∈ unorderedMaps, Shaped 11 3 entry.2) ∧
    ∃ table, ofMaps 11 3 unorderedMaps = .ok (.ok table) ∧ table.pcs = [4, 9] ∧
      table.data = [0, 1, 0, 1, 4, 4] ∧
      (∃ entry, table.lookup 9 = .ok (some entry) ∧
        entry.toMap == ⟨.ofPositions 11 [10, 0], .ofPositions 3 [2]⟩) ∧
      ofMaps 11 3 unorderedMaps.reverse = .ok (.ok table) := by
  have shaped : ∀ entry ∈ unorderedMaps, Shaped 11 3 entry.2 := by
    intro entry member
    have within : ∀ length positions, (∀ position ∈ positions, position < length) →
        (Bitmap.ofPositions length positions).Within := by
      intro length positions inside position stored
      rw [Bitmap.contains_ofPositions, decide_eq_true_eq] at stored
      exact inside position stored
    rcases List.mem_cons.mp member with rfl | member
    · exact ⟨rfl, rfl, within _ _ (by decide), within _ _ (by decide)⟩
    · obtain rfl := List.mem_singleton.mp member
      exact ⟨rfl, rfl, within _ _ (by decide), within _ _ (by decide)⟩
  obtain ⟨_, packs⟩ := packed_table_reads_back 11 3 unorderedMaps shaped
  obtain ⟨stored, reads⟩ := packs (by decide)
  obtain ⟨table, made⟩ := stored.mpr ⟨by decide, by decide, by decide⟩
  obtain ⟨_, _, _, _, _, found, _, reordered, _⟩ := reads table made
  obtain ⟨entry, looked, _, same, _⟩ := found 9 _ (List.mem_cons_self)
  have shown : table = ⟨11, 3, [4, 9], [0, 1, 0, 1, 4, 4]⟩ :=
    Except.ok.inj (Except.ok.inj
      (made.symm.trans (ofMaps_packed (storable_of_ofMaps made) shaped (by decide))))
  exact ⟨shaped, table, made, by rw [shown], by rw [shown], ⟨entry, looked, same⟩,
    reordered _ (List.reverse_perm _)⟩

/-- A table without maps takes no bytes, but the length of its bitmaps is still
rounded up, and the sum leaves the address space for the longest lengths. -/
theorem ofMaps_faults_without_maps :
    ([] : List (UInt32 × ReferenceMap)).length *
        (Byte.countFor (2 ^ 64 - 7) + Byte.countFor 0) = 0 ∧
      (∀ entry ∈ ([] : List (UInt32 × ReferenceMap)), Shaped (2 ^ 64 - 7) 0 entry.2) ∧
      (([] : List (UInt32 × ReferenceMap)).map Prod.fst).Nodup ∧
      ofMaps (2 ^ 64 - 7) 0 [] = .error .addOverflow ∧
      ¬ ∃ table, ofMaps (2 ^ 64 - 7) 0 [] = .ok (.ok table) := by
  have faults : ofMaps (2 ^ 64 - 7) 0 [] = .error .addOverflow := by decide
  refine ⟨by decide, by simp, by decide, faults, ?_⟩
  rw [faults]
  simp

end Table

end StackMaps
