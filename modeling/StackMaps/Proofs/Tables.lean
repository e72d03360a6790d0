import StackMaps.Table
import StackMaps.Proofs.Bits

/-!
# Tables made from maps

Packing orders the maps by code offset, refuses the smallest offset that stands
twice, and writes every map into an entry of one fixed size. Reading goes the
other way: a halving search finds the position of an offset among ascending
ones, and the entry there is cut out of the flat bytes.

The maps that may be packed are the ones whose bitmaps have the lengths of the
table and store nothing beyond them. For those, packing completes as long as the
bytes fit into memory, an offset of the table is looked up to exactly the map
that was given for it, and any other offset to nothing.
-/

namespace StackMaps

/-- An entry has the bytes of both of its bitmaps. -/
structure Entry.Whole (entry : Entry) : Prop where
  frame : entry.frame.length = Byte.countFor entry.frameBits
  registers : entry.registers.length = Byte.countFor entry.registerBits

namespace Entry

/-- A bit of a bitmap that has all its bytes is read without a fault. -/
theorem bitChecked_eq {bytes : List Byte} {length : Nat}
    (whole : bytes.length = Byte.countFor length) (position : Nat) :
    bitChecked bytes.toArray length position =
      .ok (decide (position < length) && Byte.bitAt bytes position) := by
  unfold bitChecked
  by_cases inside : position < length
  · rw [if_pos inside, Byte.read_eq (whole ▸ Byte.lt_countFor inside)]
    simp [inside]
  · simp [inside]

/-- The bytes of a bitmap are read as its bits. -/
theorem bitChecked_firstBytes {bitmap : Bitmap} {length : Nat} (sized : bitmap.length = length)
    (position : Nat) :
    bitChecked (Bitmap.firstBytes bitmap.bits (Byte.countFor length)).toArray length position =
      .ok (bitmap.get position) := by
  rw [bitChecked_eq (Bitmap.length_firstBytes _ _), Bitmap.get, sized]
  by_cases inside : position < length
  · rw [Bitmap.bitAt_firstBytes _ (Byte.lt_countFor inside)]
  · simp [inside]

end Entry

namespace Table

/-! ## Order -/

/-- Inserting in order adds one map and moves none out. -/
theorem insertOrdered_perm (entry : UInt32 × ReferenceMap)
    (maps : List (UInt32 × ReferenceMap)) : (insertOrdered entry maps).Perm (entry :: maps) := by
  induction maps with
  | nil => exact List.Perm.refl _
  | cons first rest induction =>
    unfold insertOrdered
    split
    · exact List.Perm.refl _
    · exact (induction.cons first).trans (List.Perm.swap entry first rest)

/-- Ordering keeps the maps. -/
theorem ordered_perm (maps : List (UInt32 × ReferenceMap)) : (ordered maps).Perm maps := by
  induction maps with
  | nil => exact List.Perm.refl _
  | cons first rest induction =>
    exact (insertOrdered_perm first (ordered rest)).trans (induction.cons first)

/-- Inserting into ascending maps leaves them ascending. -/
theorem insertOrdered_ascending (entry : UInt32 × ReferenceMap)
    (maps : List (UInt32 × ReferenceMap))
    (ascending : maps.Pairwise fun left right => left.1 ≤ right.1) :
    (insertOrdered entry maps).Pairwise fun left right => left.1 ≤ right.1 := by
  induction maps with
  | nil => simp [insertOrdered]
  | cons first rest induction =>
    obtain ⟨least, restAscending⟩ := List.pairwise_cons.mp ascending
    unfold insertOrdered
    by_cases before : entry.1 ≤ first.1
    · rw [if_pos before]
      refine List.pairwise_cons.mpr ⟨?_, ascending⟩
      intro other member
      rcases List.mem_cons.mp member with rfl | later
      · exact before
      · exact UInt32.le_trans before (least other later)
    · rw [if_neg before]
      refine List.pairwise_cons.mpr ⟨?_, induction restAscending⟩
      intro other member
      rcases List.mem_cons.mp ((insertOrdered_perm entry rest).mem_iff.mp member) with rfl | later
      · exact UInt32.le_of_lt (UInt32.not_le.mp before)
      · exact least other later

/-- Ordered maps ascend. -/
theorem ordered_ascending (maps : List (UInt32 × ReferenceMap)) :
    (ordered maps).Pairwise fun left right => left.1 ≤ right.1 := by
  induction maps with
  | nil => exact List.Pairwise.nil
  | cons first rest induction => exact insertOrdered_ascending first (ordered rest) induction

/-- The offsets of ordered maps ascend. -/
theorem ordered_pcs_ascending (maps : List (UInt32 × ReferenceMap)) :
    ((ordered maps).map Prod.fst).Pairwise (· ≤ ·) := by
  rw [List.pairwise_map]
  exact ordered_ascending maps

/-- In ascending offsets whose first one does not stand next to itself, the first
one is below all others. -/
theorem below_of_head_ne {first : UInt32} {rest : List UInt32}
    (ascending : (first :: rest).Pairwise (· ≤ ·)) (apart : rest.head? ≠ some first) :
    ∀ other ∈ rest, first < other := by
  obtain ⟨least, restAscending⟩ := List.pairwise_cons.mp ascending
  cases rest with
  | nil => simp
  | cons second tail =>
    have secondAbove : first < second := by
      refine UInt32.lt_of_le_of_ne (least second (by simp)) ?_
      intro same
      exact apart (by simp [same])
    intro other member
    rcases List.mem_cons.mp member with rfl | later
    · exact secondAbove
    · exact UInt32.lt_of_lt_of_le secondAbove ((List.pairwise_cons.mp restAscending).1 other later)

/-- Ascending offsets without a repeat ascend strictly. -/
theorem firstRepeat_eq_none {pcs : List UInt32} (ascending : pcs.Pairwise (· ≤ ·))
    (unrepeated : firstRepeat pcs = none) : pcs.Pairwise (· < ·) := by
  induction pcs with
  | nil => exact List.Pairwise.nil
  | cons first rest induction =>
    unfold firstRepeat at unrepeated
    by_cases twice : rest.head? = some first
    · simp [twice] at unrepeated
    · rw [if_neg twice] at unrepeated
      refine List.pairwise_cons.mpr ⟨below_of_head_ne ascending twice, ?_⟩
      exact induction (List.pairwise_cons.mp ascending).2 unrepeated

/-- The repeat that is found in ascending offsets is the smallest offset that
stands there twice. An offset passed over stands there once, because the next
one is already larger. -/
theorem firstRepeat_eq_some {pcs : List UInt32} {pc : UInt32}
    (ascending : pcs.Pairwise (· ≤ ·)) (repeated : firstRepeat pcs = some pc) :
    2 ≤ pcs.count pc ∧ ∀ other, 2 ≤ pcs.count other → pc ≤ other := by
  induction pcs with
  | nil => simp [firstRepeat] at repeated
  | cons first rest induction =>
    unfold firstRepeat at repeated
    by_cases twice : rest.head? = some first
    · rw [if_pos twice, Option.some.injEq] at repeated
      subst repeated
      have again : first ∈ rest := List.mem_of_mem_head? twice
      have counted : 0 < rest.count first := List.count_pos_iff.mpr again
      refine ⟨by rw [List.count_cons_self]; omega, ?_⟩
      intro other present
      have member : other ∈ first :: rest := List.count_pos_iff.mp (by omega)
      rcases List.mem_cons.mp member with rfl | later
      · exact UInt32.le_refl _
      · exact (List.pairwise_cons.mp ascending).1 other later
    · rw [if_neg twice] at repeated
      have above := below_of_head_ne ascending twice
      have once : rest.count first = 0 := by
        rw [List.count_eq_zero]
        intro member
        exact UInt32.lt_irrefl first (above first member)
      obtain ⟨counted, smallest⟩ := induction (List.pairwise_cons.mp ascending).2 repeated
      refine ⟨Nat.le_trans counted (List.count_le_count_cons), ?_⟩
      intro other present
      have different : first ≠ other := by
        rintro rfl
        rw [List.count_cons_self] at present
        omega
      rw [List.count_cons_of_ne different] at present
      exact smallest other present

/-! ## Search -/

/-- In strictly ascending offsets, positions are in the order of what they
hold. -/
theorem lt_iff_of_ascending {pcs : List UInt32} (ascending : pcs.Pairwise (· < ·))
    {left right : Nat} {low high : UInt32} (atLeft : pcs[left]? = some low)
    (atRight : pcs[right]? = some high) : low < high ↔ left < right := by
  obtain ⟨leftInside, rfl⟩ := List.getElem?_eq_some_iff.mp atLeft
  obtain ⟨rightInside, rfl⟩ := List.getElem?_eq_some_iff.mp atRight
  have ordered := List.pairwise_iff_getElem.mp ascending
  constructor
  · intro below
    rcases Nat.lt_trichotomy left right with before | same | after
    · exact before
    · subst same
      exact absurd below (UInt32.lt_irrefl _)
    · exact absurd below (UInt32.lt_asymm (ordered right left rightInside leftInside after))
  · exact ordered left right leftInside rightInside

/-- Halving keeps the position of the offset looked for inside the run, and a run
of one position is that position. -/
theorem narrow_eq {pcs : List UInt32} (ascending : pcs.Pairwise (· < ·)) {pc : UInt32}
    {position : Nat} (held : pcs[position]? = some pc) (fuel base size : Nat)
    (enough : size ≤ fuel) (inside : base + size ≤ pcs.length) (low : base ≤ position)
    (high : position < base + size) : narrow pcs pc fuel base size = position := by
  induction fuel generalizing base size with
  | zero => omega
  | succ fuel induction =>
    unfold narrow
    by_cases several : 1 < size
    · rw [if_pos several]
      have middleInside : base + size / 2 < pcs.length := by omega
      have atMiddle := List.getElem?_eq_getElem middleInside
      have compared : pc < pcs[base + size / 2] ↔ position < base + size / 2 :=
        lt_iff_of_ascending ascending held atMiddle
      by_cases before : pc < pcs[base + size / 2]
      · have left := compared.mp before
        simp only [atMiddle, Option.getD_some, before, if_true]
        exact induction base (size - size / 2) (by omega) (by omega) low (by omega)
      · have right : ¬ position < base + size / 2 := fun left => before (compared.mpr left)
        simp only [atMiddle, Option.getD_some, before, if_false]
        exact induction (base + size / 2) (size - size / 2) (by omega) (by omega) (by omega)
          (by omega)
    · rw [if_neg several]
      omega

/-- The search finds the position of an offset that is there, and nothing else. -/
theorem search_eq_some {pcs : List UInt32} (ascending : pcs.Pairwise (· < ·)) {pc : UInt32}
    {position : Nat} : search pcs pc = some position ↔ pcs[position]? = some pc := by
  unfold search
  constructor
  · intro found
    by_cases held : pcs[narrow pcs pc pcs.length 0 pcs.length]? = some pc
    · rw [if_pos held, Option.some.injEq] at found
      exact found ▸ held
    · simp [held] at found
  · intro held
    obtain ⟨inside, _⟩ := List.getElem?_eq_some_iff.mp held
    have arrived : narrow pcs pc pcs.length 0 pcs.length = position :=
      narrow_eq ascending held pcs.length 0 pcs.length (by omega) (by omega) (by omega) (by omega)
    rw [arrived, if_pos held]

/-- The search finds nothing for an offset that is not there. -/
theorem search_eq_none {pcs : List UInt32} {pc : UInt32} (absent : pc ∉ pcs) :
    search pcs pc = none := by
  unfold search
  have missing : pcs[narrow pcs pc pcs.length 0 pcs.length]? ≠ some pc := by
    intro held
    exact absent (List.mem_of_getElem? held)
  rw [if_neg missing]

/-! ## Packing -/

/-- A map whose bitmaps have the lengths of a table and store nothing beyond
them. -/
structure Shaped (frameBits registerBits : Nat) (map : ReferenceMap) : Prop where
  frameLength : map.frame.length = frameBits
  registerLength : map.registers.length = registerBits
  frameWithin : map.frame.Within
  registersWithin : map.registers.Within

/-- The bytes of one entry. -/
def strideFor (frameBits registerBits : Nat) : Nat :=
  Byte.countFor frameBits + Byte.countFor registerBits

/-- The entry that reads a map back. -/
def entryOf (frameBits registerBits : Nat) (pc : UInt32) (map : ReferenceMap) : Entry where
  pc := pc
  frame := Bitmap.firstBytes map.frame.bits (Byte.countFor frameBits)
  registers := Bitmap.firstBytes map.registers.bits (Byte.countFor registerBits)
  frameBits := frameBits
  registerBits := registerBits

/-- The entry of a map is whole. -/
theorem whole_entryOf (frameBits registerBits : Nat) (pc : UInt32) (map : ReferenceMap) :
    (entryOf frameBits registerBits pc map).Whole :=
  ⟨Bitmap.length_firstBytes _ _, Bitmap.length_firstBytes _ _⟩

/-- The bytes that a map is packed into. -/
def bytesOf (frameBits registerBits : Nat) (map : ReferenceMap) : List Byte :=
  Bitmap.firstBytes map.frame.bits (Byte.countFor frameBits) ++
    Bitmap.firstBytes map.registers.bits (Byte.countFor registerBits)

/-- The table that maps with different offsets are packed into. -/
def packed (frameBits registerBits : Nat) (maps : List (UInt32 × ReferenceMap)) : Table where
  frameBits := frameBits
  registerBits := registerBits
  pcs := (ordered maps).map Prod.fst
  data := ((ordered maps).map fun entry => bytesOf frameBits registerBits entry.2).flatten

/-- A packed map takes the bytes of one entry. -/
@[simp] theorem length_bytesOf (frameBits registerBits : Nat) (map : ReferenceMap) :
    (bytesOf frameBits registerBits map).length = strideFor frameBits registerBits := by
  simp [bytesOf, strideFor]

/-- A shaped map is packed without a fault. -/
theorem packEntry_eq {frameBits registerBits : Nat} {map : ReferenceMap}
    (frameSmall : frameBits < 2 ^ 64) (registersSmall : registerBits < 2 ^ 64)
    (shaped : Shaped frameBits registerBits map) :
    packEntry frameBits registerBits map = .ok (bytesOf frameBits registerBits map) := by
  have frame : map.frame.pack (Byte.countFor frameBits) =
      .ok (Bitmap.firstBytes map.frame.bits (Byte.countFor frameBits)) := by
    have fitted := Bitmap.pack_eq shaped.frameWithin (shaped.frameLength ▸ frameSmall)
    rwa [shaped.frameLength] at fitted
  have registers : map.registers.pack (Byte.countFor registerBits) =
      .ok (Bitmap.firstBytes map.registers.bits (Byte.countFor registerBits)) := by
    have fitted := Bitmap.pack_eq shaped.registersWithin (shaped.registerLength ▸ registersSmall)
    rwa [shaped.registerLength] at fitted
  simp only [packEntry, requireLength, shaped.frameLength, shaped.registerLength, if_true,
    Checked.ok_bind, frame, registers, Checked.pure_eq_ok, bytesOf]

/-- The stride completes for lengths away from the end of the address space. -/
theorem stride_eq {table : Table} (frameSmall : table.frameBits + 7 < 2 ^ 64)
    (registersSmall : table.registerBits + 7 < 2 ^ 64) :
    table.stride = .ok (strideFor table.frameBits table.registerBits) := by
  simp only [stride, Byte.countForChecked_eq frameSmall, Byte.countForChecked_eq registersSmall,
    Checked.ok_bind, Checked.pure_eq_ok, strideFor]

/-- Shaped maps whose bytes fit into memory are packed without a fault: the
answer is the smallest repeated offset or the packed table. -/
theorem ofMaps_eq {frameBits registerBits : Nat} {maps : List (UInt32 × ReferenceMap)}
    (frameSmall : frameBits + 7 < 2 ^ 64) (registersSmall : registerBits + 7 < 2 ^ 64)
    (fits : maps.length * strideFor frameBits registerBits < 2 ^ 63)
    (shaped : ∀ entry ∈ maps, Shaped frameBits registerBits entry.2) :
    ofMaps frameBits registerBits maps =
      .ok (match firstRepeat ((ordered maps).map Prod.fst) with
        | some pc => .error (.duplicateSafepoint pc)
        | none => .ok (packed frameBits registerBits maps)) := by
  dsimp only [ofMaps]
  cases firstRepeat ((ordered maps).map Prod.fst) with
  | some pc => rfl
  | none =>
    have length : (ordered maps).length = maps.length := (ordered_perm maps).length_eq
    have sized : (empty frameBits registerBits).stride =
        .ok (strideFor frameBits registerBits) := stride_eq frameSmall registersSmall
    have total : Checked.multiplySize (ordered maps).length (strideFor frameBits registerBits) =
        .ok ((ordered maps).length * strideFor frameBits registerBits) := by
      rw [length]
      exact Checked.multiplySize_eq_ok.mpr ⟨by omega, rfl⟩
    have capacity : Checked.requireCapacity
        ((ordered maps).length * strideFor frameBits registerBits) = .ok () := by
      rw [length]
      exact Checked.requireCapacity_eq_ok.mpr fits
    have entries : (ordered maps).mapM (fun entry => packEntry frameBits registerBits entry.2) =
        .ok ((ordered maps).map fun entry => bytesOf frameBits registerBits entry.2) := by
      apply Checked.mapM_eq_ok
      intro entry member
      exact packEntry_eq (by omega) (by omega)
        (shaped entry ((ordered_perm maps).mem_iff.mp member))
    simp only [sized, total, capacity, entries, Checked.ok_bind, Checked.pure_eq_ok, packed]

/-! ## Reading -/

/-- Runs of one length, written one after another, are cut out again by
position. -/
theorem cut_flatten {α : Type} {runs : List (List α)} {size position : Nat} {run : List α}
    (uniform : ∀ other ∈ runs, other.length = size) (held : runs[position]? = some run) :
    (runs.flatten.drop (position * size)).take size = run := by
  induction runs generalizing position with
  | nil => simp at held
  | cons first rest induction =>
    have firstSize : first.length = size := uniform first (by simp)
    cases position with
    | zero =>
      have same : first = run := by simpa using held
      rw [Nat.zero_mul, List.drop_zero, List.flatten_cons, ← firstSize, List.take_left, same]
    | succ position =>
      have later : rest[position]? = some run := by simpa using held
      have restUniform : ∀ other ∈ rest, other.length = size := by
        intro other member
        exact uniform other (by simp [member])
      have skipped : (position + 1) * size = first.length + position * size := by
        rw [firstSize, Nat.succ_mul, Nat.add_comm]
      rw [List.flatten_cons, skipped, List.drop_length_add_append]
      exact induction restUniform later

/-- Entries of one size, written one after another, take that many bytes each. -/
theorem length_data (frameBits registerBits : Nat) (maps : List (UInt32 × ReferenceMap)) :
    (packed frameBits registerBits maps).data.length =
      maps.length * strideFor frameBits registerBits := by
  have uniform : ((ordered maps).map fun entry => bytesOf frameBits registerBits entry.2).map
      List.length = List.replicate maps.length (strideFor frameBits registerBits) := by
    rw [List.map_map, List.eq_replicate_iff]
    refine ⟨by rw [List.length_map, (ordered_perm maps).length_eq], ?_⟩
    intro size member
    obtain ⟨entry, _, rfl⟩ := List.mem_map.mp member
    exact length_bytesOf frameBits registerBits entry.2
  simp only [packed, List.length_flatten, uniform, List.sum_replicate_nat]

variable {frameBits registerBits : Nat} {maps : List (UInt32 × ReferenceMap)}

/-- The bytes at a position of a packed table are those of the map that stands at
the position in the order of offsets. -/
theorem entryBytes_packed (frameSmall : frameBits + 7 < 2 ^ 64)
    (registersSmall : registerBits + 7 < 2 ^ 64)
    (fits : maps.length * strideFor frameBits registerBits < 2 ^ 63) {position : Nat}
    {pc : UInt32} {map : ReferenceMap} (held : (ordered maps)[position]? = some (pc, map)) :
    (packed frameBits registerBits maps).entryBytes position =
      .ok (bytesOf frameBits registerBits map) := by
  obtain ⟨inside, _⟩ := List.getElem?_eq_some_iff.mp held
  have below : position < maps.length := by rwa [(ordered_perm maps).length_eq] at inside
  have stopped : (position + 1) * strideFor frameBits registerBits ≤
      maps.length * strideFor frameBits registerBits := Nat.mul_le_mul_right _ below
  have started : position * strideFor frameBits registerBits ≤
      (position + 1) * strideFor frameBits registerBits := Nat.mul_le_mul_right _ (by omega)
  have width : (position + 1) * strideFor frameBits registerBits -
      position * strideFor frameBits registerBits = strideFor frameBits registerBits := by
    rw [Nat.succ_mul, Nat.add_sub_cancel_left]
  have sized : (packed frameBits registerBits maps).stride =
      .ok (strideFor frameBits registerBits) := stride_eq frameSmall registersSmall
  have start : Checked.multiplySize position (strideFor frameBits registerBits) =
      .ok (position * strideFor frameBits registerBits) :=
    Checked.multiplySize_eq_ok.mpr ⟨by omega, rfl⟩
  have stop : Checked.multiplySize (position + 1) (strideFor frameBits registerBits) =
      .ok ((position + 1) * strideFor frameBits registerBits) :=
    Checked.multiplySize_eq_ok.mpr ⟨by omega, rfl⟩
  have cut : ((packed frameBits registerBits maps).data.drop
      (position * strideFor frameBits registerBits)).take (strideFor frameBits registerBits) =
      bytesOf frameBits registerBits map := by
    apply cut_flatten
    · intro run member
      obtain ⟨entry, _, rfl⟩ := List.mem_map.mp member
      exact length_bytesOf frameBits registerBits entry.2
    · rw [List.getElem?_map, held, Option.map_some]
  have ranged : Checked.range (packed frameBits registerBits maps).data
      (position * strideFor frameBits registerBits)
      ((position + 1) * strideFor frameBits registerBits) =
      .ok (bytesOf frameBits registerBits map) := by
    rw [Checked.range_eq (by rw [length_data]; omega) (by rw [length_data]; omega), width, cut]
  simp only [entryBytes, sized, start, stop, Checked.ok_bind, ranged]

/-- The entry at a position of a packed table reads the map that stands at the
position in the order of offsets. -/
theorem entry_packed (frameSmall : frameBits + 7 < 2 ^ 64)
    (registersSmall : registerBits + 7 < 2 ^ 64)
    (fits : maps.length * strideFor frameBits registerBits < 2 ^ 63) {position : Nat}
    {pc : UInt32} {map : ReferenceMap} (held : (ordered maps)[position]? = some (pc, map)) :
    (packed frameBits registerBits maps).entry position =
      .ok (entryOf frameBits registerBits pc map) := by
  have bytes := entryBytes_packed frameSmall registersSmall fits held
  have offset : Checked.element (packed frameBits registerBits maps).pcs position = .ok pc := by
    rw [Checked.element_eq_ok]
    simp only [packed, List.getElem?_map, held, Option.map_some]
  have frameLength : (Bitmap.firstBytes map.frame.bits (Byte.countFor frameBits)).length =
      Byte.countFor frameBits := Bitmap.length_firstBytes _ _
  simp only [entry, bytes, offset, Checked.ok_bind, Checked.pure_eq_ok]
  simp only [packed, bytesOf, entryOf, List.take_left' frameLength, List.drop_left' frameLength]

/-- An offset that was given a map is looked up to that map. -/
theorem lookup_packed (frameSmall : frameBits + 7 < 2 ^ 64)
    (registersSmall : registerBits + 7 < 2 ^ 64)
    (fits : maps.length * strideFor frameBits registerBits < 2 ^ 63)
    (ascending : ((ordered maps).map Prod.fst).Pairwise (· < ·)) {pc : UInt32}
    {map : ReferenceMap} (given : (pc, map) ∈ maps) :
    (packed frameBits registerBits maps).lookup pc =
      .ok (some (entryOf frameBits registerBits pc map)) := by
  obtain ⟨position, held⟩ := List.getElem?_of_mem ((ordered_perm maps).mem_iff.mpr given)
  have found : search (packed frameBits registerBits maps).pcs pc = some position := by
    apply (search_eq_some ascending).mpr
    rw [List.getElem?_map, held, Option.map_some]
  simp only [lookup, found, entry_packed frameSmall registersSmall fits held]
  rfl

/-- An offset that was given no map is looked up to nothing. -/
theorem lookup_absent (frameBits registerBits : Nat) {pc : UInt32}
    (absent : pc ∉ maps.map Prod.fst) :
    (packed frameBits registerBits maps).lookup pc = .ok none := by
  have missing : pc ∉ (packed frameBits registerBits maps).pcs := by
    intro member
    exact absent (((ordered_perm maps).map Prod.fst).mem_iff.mp member)
  rw [lookup, search_eq_none missing]

/-- A frame slot of the entry of a shaped map is answered by the frame bit of the map. -/
theorem isFrameReferenceChecked_entryOf {map : ReferenceMap}
    (shaped : Shaped frameBits registerBits map) (pc : UInt32) (slot : Nat) :
    (entryOf frameBits registerBits pc map).isFrameReferenceChecked slot =
      .ok (map.frame.get slot) :=
  Entry.bitChecked_firstBytes shaped.frameLength slot

/-- A register of the entry of a shaped map is answered by the register bit of the map. -/
theorem isRegisterReferenceChecked_entryOf {map : ReferenceMap}
    (shaped : Shaped frameBits registerBits map) (pc : UInt32) (code : Nat) :
    (entryOf frameBits registerBits pc map).isRegisterReferenceChecked code =
      .ok (map.registers.get code) :=
  Entry.bitChecked_firstBytes shaped.registerLength code

end Table

end StackMaps
