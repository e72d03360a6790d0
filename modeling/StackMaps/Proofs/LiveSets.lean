import StackMaps.Proofs.Growth
import StackMaps.Proofs.Precision

/-!
# The map of a set of values

Drawing a map is total: for every convention, every frame below 2³² bytes, every
width of its slots and every list of values it ends in a map or in a rejection. Which
of the two, and which bits the map has, can be said without the drawing. A map is drawn
exactly when every listed reference is at a location that a frame can describe, and its
bits are then those of the listed locations. The width of the slots need not be the
convention's own, so the save words of registers may reach above the slots of the
frame; the frame bitmap is as long as either needs.

Nothing in this depends on the order or the repetition of the list. The same values in
another list are drawn to the same map, word for word, since no bit lies outside the
words that a bitmap starts with. A failed list is rejected for its lowest value. That
names one rejection only if no value is listed with two records, and then the rejection
is the same for the other list.
-/

namespace StackMaps

/-! ## Locations that a frame can describe -/

/-- The locations at which a reference can be described, in a frame of a size with
slots of a width. -/
inductive Describable (convention : Convention) (size width : UInt32) : Location → Prop where
  /-- A parameter is the caller's to describe. -/
  | parameter (offset : Int32) : Describable convention size width (.parameter offset)
  /-- A spill slot starts at a slot of the frame, not below its bottom, and ends inside
  the spill area. -/
  | slot (offset : Int32)
      (even : (width.toNat : Int) ∣ offset.toInt + convention.reserved.toNat)
      (above : 0 ≤ offset.toInt + convention.reserved.toNat)
      (inside : offset.toInt + width.toNat ≤ size.toNat) :
      Describable convention size width (.spill offset)
  /-- A register is one of the target's general-purpose registers. -/
  | register (register : Register)
      (listed : register ∈ convention.catalog.registers .general) :
      Describable convention size width (.register register)

namespace MapBuilder

variable {builder : MapBuilder} {location : Location}

/-- A location has its place in a map, or needs none, exactly when the frame can
describe it. -/
theorem placed_iff_describable : (∃ placement, builder.Placed location placement) ↔
    Describable builder.convention builder.layout.size builder.layout.width location := by
  constructor
  · rintro ⟨placement, placed⟩
    cases placed with
    | parameter offset => exact .parameter offset
    | slot offset bit starts inside =>
      have even : (builder.layout.width.toNat : Int) ∣ builder.startOf offset :=
        ⟨bit, by rw [starts, Int.mul_comm]⟩
      have within : ¬ (builder.startOf offset < 0 ∨
          (builder.layout.size.toNat : Int) < offset.toInt + builder.layout.width.toNat) := by
        intro beyond
        have unplaced : builder.Unplaced Handle.nowhere (.spill offset) _ :=
          .outside offset even beyond
        exact (Placed.slot offset bit starts inside).not_unplaced unplaced
      exact .slot offset even (by unfold startOf at within; omega) (by omega)
    | saved register word owned found =>
      exact .register register (Convention.owns_general_iff_mem.mp owned)
    | held register owned unsaved =>
      exact .register register (Convention.owns_general_iff_mem.mp owned)
  · intro describable
    rcases place_spec builder Handle.nowhere location with
      ⟨placement, _, placed⟩ | ⟨rejection, _, unplaced⟩
    · exact ⟨placement, placed⟩
    · cases describable with
      | parameter offset => cases unplaced
      | slot offset even above inside =>
        cases unplaced with
        | misaligned _ uneven => exact absurd even uneven
        | outside _ _ beyond =>
          unfold startOf at beyond
          omega
      | register register listed =>
        cases unplaced with
        | foreign _ unowned =>
          rw [Convention.owns_general_iff_mem.mpr listed] at unowned
          cases unowned

variable {live : List (ValueId × Record)}

/-- Values are drawn to a map exactly when every reference among them is at a location
that the frame can describe. -/
theorem build_isOk_iff : (∃ map, builder.build live = .ok map) ↔
    ∀ entry ∈ live, entry.2.isReference = true →
      Describable builder.convention builder.layout.size builder.layout.width
        entry.2.location := by
  constructor
  · rintro ⟨map, built⟩ entry member reference
    exact placed_iff_describable.mp ((build_eq_ok built).1 entry member reference)
  · intro describable
    cases built : builder.build live with
    | ok map => exact ⟨map, rfl⟩
    | error rejection =>
      obtain ⟨⟨entry, member, reference, unplaced⟩, _⟩ := build_eq_error built
      obtain ⟨placement, placed⟩ :=
        placed_iff_describable.mpr (describable entry member reference)
      exact (placed.not_unplaced unplaced).elim

/-- The bit of a describable slot is the number of slots below it. -/
theorem startOf_eq_iff {offset : Int32} {bit : Nat}
    (describable : Describable builder.convention builder.layout.size builder.layout.width
      (.spill offset)) :
    builder.startOf offset = bit * builder.layout.width.toNat ↔
      (offset.toInt + builder.convention.reserved.toNat) / builder.layout.width.toNat = bit := by
  have width : (builder.layout.width.toNat : Int) ≠ 0 := by
    have positive := builder.layout.width_pos
    omega
  cases describable with
  | slot _ even _ _ => exact (Int.ediv_eq_iff_eq_mul_left width even).symm

end MapBuilder

/-- A bitmap of a length whose set bits are exactly the positions with a property,
whether they are read one by one or listed, as the walk through them comes to them. -/
structure Bitmap.Shows (bitmap : Bitmap) (length : Nat) (marked : Nat → Prop) : Prop where
  length : bitmap.length = length
  get : ∀ position, bitmap.get position = true ↔ marked position
  enumerated : bitmap.bits.enumerate = .ok bitmap.toList
  toList : ∀ position, position ∈ bitmap.toList ↔ marked position

/-- In a bitmap that stores nothing beyond its length, the bits that are read are those
that are listed. -/
theorem Bitmap.shows_of_within {bitmap : Bitmap} {length : Nat} {marked : Nat → Prop}
    (covers : bitmap.length = length) (small : length < 2 ^ 64) (within : bitmap.Within)
    (read : ∀ position, bitmap.get position = true ↔ marked position) :
    bitmap.Shows length marked := by
  refine ⟨covers, read, BitSet.enumerate_eq ?_, ?_⟩
  · intro position stored
    exact Nat.lt_trans (within position stored) (covers ▸ small)
  · intro position
    rw [Bitmap.toList, BitSet.mem_toList, ← Bitmap.get_of_within within, read]

/-- Drawing a map is total and exact. It ends in a map exactly when every listed
reference is a parameter, a spill slot that is a slot of the frame, or a
general-purpose register of the target. The frame bitmap covers the slots of the frame
and the save words, and its set bits are the slots of the listed spills and the words
of the listed registers that are saved. The register bitmap has a bit for each
general-purpose register, and its set bits are the encodings of the listed registers
that are not saved. -/
theorem build_describes_exactly (convention : Convention) {size width : UInt32}
    (positive : 0 < width.toNat)
    (fits : convention.reserved.toNat + size.toNat < 2 ^ 32) (live : List (ValueId × Record)) :
    ∃ layout builder result, FrameLayout.make size width = .ok layout ∧
      MapBuilder.make convention layout = .ok builder ∧
      builder.buildChecked live = .ok result ∧
      ((∃ map, result = .ok map) ↔ ∀ entry ∈ live, entry.2.isReference = true →
        Describable convention size width entry.2.location) ∧
      ∀ map, result = .ok map →
        map.frame.Shows
          (max ((convention.reserved.toNat + size.toNat) / width.toNat) convention.saveSpace)
          (fun bit =>
            (∃ offset, MapBuilder.Lists live (.spill offset) ∧
              (offset.toInt + convention.reserved.toNat) / width.toNat = bit) ∨
            ∃ register, MapBuilder.Lists live (.register register) ∧
              convention.saveWord register = .ok (some bit)) ∧
        map.registers.Shows (convention.catalog.registers .general).length
          (fun bit => ∃ register, MapBuilder.Lists live (.register register) ∧
            register.code.toNat = bit ∧ convention.saveWord register = .ok none) := by
  let builder : MapBuilder := ⟨convention, ⟨size, width, positive⟩, fits⟩
  refine ⟨builder.layout, builder, builder.build live, dif_pos positive, dif_pos fits,
    MapBuilder.buildChecked_eq builder live, MapBuilder.build_isOk_iff, ?_⟩
  intro map built
  have described := MapBuilder.build_isOk_iff.mp ⟨map, built⟩
  have shaped := MapBuilder.shaped_of_build built
  have frameSmall := builder.frameLength_lt
  have registersSmall := builder.registerLength_le
  refine ⟨?_, ?_⟩
  · apply Bitmap.shows_of_within shaped.frameLength (by omega) shaped.frameWithin
    intro bit
    rw [MapBuilder.frame_get_iff built]
    refine or_congr (exists_congr fun offset => and_congr_right ?_) Iff.rfl
    rintro ⟨entry, member, reference, located⟩
    exact MapBuilder.startOf_eq_iff (located ▸ described entry member reference)
  · apply Bitmap.shows_of_within shaped.registerLength (by omega) shaped.registersWithin
    intro bit
    rw [MapBuilder.register_get_iff built]
    constructor
    · rintro ⟨register, listed, _, code, unsaved⟩
      exact ⟨register, listed, code, unsaved⟩
    · rintro ⟨register, ⟨entry, member, reference, located⟩, code, unsaved⟩
      have general : register.bank = .general := by
        have describable := described entry member reference
        rw [located] at describable
        cases describable with
        | register _ listed =>
          exact (Convention.owns_general.mp (Convention.owns_general_iff_mem.mpr listed)).1
      exact ⟨register, ⟨entry, member, reference, located⟩, general, code, unsaved⟩

/-- References in a frame of 40 bytes with slots of 16 bytes: one at the bottom of the
reserved bytes, one in the spill area under the same handle, a parameter, and two
registers of which the first is saved. The other value is in no slot. -/
def wideLive : List (ValueId × Record) :=
  [(Handle.ofNat 4, ⟨.reference, .register ⟨31, .general⟩, .empty⟩),
    (Handle.ofNat 1, ⟨.reference, .spill 16, .empty⟩),
    (Handle.ofNat 1, ⟨.reference, .spill (-176), .empty⟩),
    (Handle.ofNat 2, ⟨.int, .spill 3, .empty⟩),
    (Handle.ofNat 3, ⟨.reference, .register ⟨3, .general⟩, .empty⟩),
    (Handle.ofNat 0, ⟨.reference, .parameter 5, .empty⟩)]

/-- The frame has 13 whole slots, and the word of the saved register is above them. -/
theorem build_describes_wide_slots :
    ∃ layout builder map, FrameLayout.make 40 16 = .ok layout ∧
      MapBuilder.make Convention.sparcv9 layout = .ok builder ∧
      builder.buildChecked wideLive = .ok (.ok map) ∧ map.frame.length = 16 ∧
      map.frame.get 0 = true ∧ map.frame.get 12 = true ∧ map.frame.get 15 = true ∧
      map.registers.get 3 = true := by
  obtain ⟨layout, builder, result, laid, made, built, isOk, exact⟩ :=
    build_describes_exactly Convention.sparcv9 (by decide : 0 < (16 : UInt32).toNat)
      (by decide : Convention.sparcv9.reserved.toNat + (40 : UInt32).toNat < 2 ^ 32) wideLive
  have described : ∀ entry ∈ wideLive, entry.2.isReference = true →
      Describable Convention.sparcv9 40 16 entry.2.location := by
    simp only [wideLive, List.forall_mem_cons]
    refine ⟨fun _ => .register _ (by decide), fun _ => .slot _ (by decide) (by decide) (by decide),
      fun _ => .slot _ (by decide) (by decide) (by decide), ?_, fun _ => .register _ (by decide),
      fun _ => .parameter _, ?_⟩
    · intro reference
      cases reference
    · exact List.forall_mem_nil _
  obtain ⟨map, rfl⟩ := isOk.mpr described
  obtain ⟨frame, registers⟩ := exact map rfl
  refine ⟨layout, builder, map, laid, made, built, frame.length.trans (by decide), ?_, ?_, ?_, ?_⟩
  · exact (frame.get 0).mpr (Or.inl ⟨-176, by decide, by decide⟩)
  · exact (frame.get 12).mpr (Or.inl ⟨16, by decide, by decide⟩)
  · exact (frame.get 15).mpr (Or.inr ⟨⟨31, .general⟩, by decide, rfl⟩)
  · exact (registers.get 3).mpr ⟨⟨3, .general⟩, by decide, rfl, rfl⟩

/-! ## Order and repetition -/

/-- A bitmap is determined by which positions it is made of, all below its length. -/
theorem Bitmap.ofPositions_congr {length : Nat} {left right : List Nat}
    (inside : ∀ position ∈ left, position < length)
    (same : ∀ position, position ∈ left ↔ position ∈ right) :
    ofPositions length left = ofPositions length right := by
  have words : ∀ positions : List Nat, (∀ position ∈ positions, position < length) →
      ((BitSet.withCapacity length).insertAll positions).words.length =
        (BitSet.withCapacity length).words.length := by
    intro positions below
    apply BitSet.length_insertAll
    intro position member
    have bound := below position member
    simp only [BitSet.withCapacity, List.length_replicate]
    omega
  have bits : (BitSet.withCapacity length).insertAll left =
      (BitSet.withCapacity length).insertAll right := by
    apply BitSet.eq_of_contains
    · rw [words left inside, words right fun position member => inside position
        ((same position).mpr member)]
    · intro position
      simp only [BitSet.contains_insertAll, same]
  simp only [ofPositions, bits]

/-- The lowest rejection depends only on which rejections there are, if no value has
two. -/
theorem Rejection.lowest_congr {left right : List Rejection}
    (same : ∀ rejection, rejection ∈ left ↔ rejection ∈ right)
    (single : ∀ first ∈ left, ∀ second ∈ left, first.value = second.value → first = second) :
    lowest left = lowest right := by
  cases leftLowest : lowest left with
  | none =>
    have empty : right = [] := by
      rw [List.eq_nil_iff_forall_not_mem]
      intro rejection member
      rw [← same, lowest_eq_none.mp leftLowest] at member
      cases member
    exact (lowest_eq_none.mpr empty).symm
  | some kept =>
    obtain ⟨keptMember, keptLeast⟩ := lowest_eq_some leftLowest
    cases rightLowest : lowest right with
    | none =>
      rw [same, lowest_eq_none.mp rightLowest] at keptMember
      cases keptMember
    | some other =>
      obtain ⟨otherMember, otherLeast⟩ := lowest_eq_some rightLowest
      have below := keptLeast other ((same other).mpr otherMember)
      have above := otherLeast kept ((same kept).mp keptMember)
      have value := Handle.eq_of_number (UInt32.le_antisymm below above)
      rw [single kept keptMember other ((same other).mpr otherMember) value]

namespace MapBuilder

variable {builder : MapBuilder} {left right : List (ValueId × Record)}

/-- No value is listed with two records. -/
def Single (live : List (ValueId × Record)) : Prop :=
  ∀ first ∈ live, ∀ second ∈ live, first.1 = second.1 → first.2 = second.2

instance (live : List (ValueId × Record)) : Decidable (Single live) :=
  inferInstanceAs (Decidable (∀ first ∈ live, ∀ second ∈ live, _))

/-- Values that are listed with one record each have one rejection at most. -/
theorem Single.rejection_eq (single : Single left) :
    ∀ first ∈ rejections (builder.verdicts left), ∀ second ∈ rejections (builder.verdicts left),
      first.value = second.value → first = second := by
  intro first firstMember second secondMember sameValue
  obtain ⟨entry, listed, _, rejected⟩ := mem_verdicts.mp (mem_rejections.mp firstMember)
  obtain ⟨other, otherListed, _, otherRejected⟩ := mem_verdicts.mp (mem_rejections.mp secondMember)
  have unplaced := place_eq_error.mp rejected
  have otherUnplaced := place_eq_error.mp otherRejected
  have sameHandle : entry.1 = other.1 := by
    rw [← unplaced.value_eq, sameValue, otherUnplaced.value_eq]
  rw [← sameHandle, ← single entry listed other otherListed sameHandle] at otherUnplaced
  exact unplaced.unique otherUnplaced

/-- The bits among the verdicts lie inside their bitmaps. -/
theorem placements_inside (builder : MapBuilder) (live : List (ValueId × Record)) :
    (∀ bit ∈ (placements (builder.verdicts live)).filterMap Placement.frame?,
      bit < builder.frameLength) ∧
    ∀ bit ∈ (placements (builder.verdicts live)).filterMap Placement.register?,
      bit < builder.registerLength := by
  have placed : ∀ placement ∈ placements (builder.verdicts live),
      ∃ location, builder.Placed location (some placement) := by
    intro placement member
    obtain ⟨entry, _, _, located⟩ := mem_verdicts.mp (mem_placements.mp member)
    exact ⟨entry.2.location, place_eq_ok.mp located⟩
  constructor
  · intro bit member
    obtain ⟨placement, present, isFrame⟩ := List.mem_filterMap.mp member
    obtain ⟨location, described⟩ := placed placement present
    cases placement with
    | register _ => cases isFrame
    | frame _ => exact Option.some.inj isFrame ▸ described.frame_lt
  · intro bit member
    obtain ⟨placement, present, isRegister⟩ := List.mem_filterMap.mp member
    obtain ⟨location, described⟩ := placed placement present
    cases placement with
    | frame _ => cases isRegister
    | register _ => exact Option.some.inj isRegister ▸ described.register_lt

/-- Lists of the same values are drawn to the same map or rejected alike. -/
theorem build_congr (same : ∀ entry, entry ∈ left ↔ entry ∈ right) (single : Single left) :
    builder.build left = builder.build right := by
  have verdicts : ∀ verdict,
      verdict ∈ builder.verdicts left ↔ verdict ∈ builder.verdicts right := by
    intro verdict
    simp only [mem_verdicts, same]
  have rejected : Rejection.lowest (rejections (builder.verdicts left)) =
      Rejection.lowest (rejections (builder.verdicts right)) := by
    apply Rejection.lowest_congr _ single.rejection_eq
    intro rejection
    rw [mem_rejections, mem_rejections, verdicts]
  have placed : ∀ placement, placement ∈ placements (builder.verdicts left) ↔
      placement ∈ placements (builder.verdicts right) := by
    intro placement
    rw [mem_placements, mem_placements, verdicts]
  obtain ⟨frameInside, registersInside⟩ := placements_inside builder left
  have bits : ∀ (bit? : Placement → Option Nat) (bit : Nat),
      bit ∈ (placements (builder.verdicts left)).filterMap bit? ↔
        bit ∈ (placements (builder.verdicts right)).filterMap bit? := by
    intro bit? bit
    simp only [List.mem_filterMap, placed]
  have frame := Bitmap.ofPositions_congr frameInside (bits Placement.frame?)
  have registers := Bitmap.ofPositions_congr registersInside (bits Placement.register?)
  simp only [build, rejected, frame, registers]

/-- A list in which no value has two records is rejected exactly for the lowest of its
values that cannot be described. -/
theorem Single.build_eq_error_iff (single : Single left) {rejection : Rejection} :
    builder.build left = .error rejection ↔
      ∃ entry ∈ left, entry.2.isReference = true ∧
        builder.Unplaced entry.1 entry.2.location rejection ∧
        ∀ other ∈ left, other.2.isReference = true →
          (∃ another, builder.Unplaced other.1 other.2.location another) →
          entry.1.number ≤ other.1.number := by
  constructor
  · intro failed
    obtain ⟨⟨entry, member, reference, unplaced⟩, least⟩ := build_eq_error failed
    refine ⟨entry, member, reference, unplaced, ?_⟩
    rintro other present otherReference ⟨another, otherUnplaced⟩
    have below := least other present otherReference another otherUnplaced
    rwa [unplaced.value_eq] at below
  · rintro ⟨entry, member, reference, unplaced, least⟩
    cases built : builder.build left with
    | ok map =>
      obtain ⟨placement, placed⟩ := (build_eq_ok built).1 entry member reference
      exact (placed.not_unplaced unplaced).elim
    | error kept =>
      obtain ⟨⟨other, present, otherReference, otherUnplaced⟩, lowest⟩ := build_eq_error built
      have below := lowest entry member reference rejection unplaced
      rw [otherUnplaced.value_eq] at below
      have above := least other present otherReference ⟨kept, otherUnplaced⟩
      have sameHandle : entry.1 = other.1 :=
        Handle.eq_of_number (UInt32.le_antisymm above below)
      rw [← sameHandle, ← single entry member other present sameHandle] at otherUnplaced
      rw [unplaced.unique otherUnplaced]

end MapBuilder

/-- A map depends on the set of listed values only. Two lists with the same values, in
any order and with any repetition, and without two records of one value, end alike: in
the same map, or in the same rejection, which is that of the lowest reference among
them whose location cannot be described. -/
theorem build_depends_on_set (builder : MapBuilder) {left right : List (ValueId × Record)}
    (same : ∀ entry, entry ∈ left ↔ entry ∈ right) (single : MapBuilder.Single left) :
    ∃ result, builder.buildChecked left = .ok result ∧ builder.buildChecked right = .ok result ∧
      ∀ rejection, result = .error rejection ↔
        ∃ entry ∈ left, entry.2.isReference = true ∧
          builder.Unplaced entry.1 entry.2.location rejection ∧
          ∀ other ∈ left, other.2.isReference = true →
            (∃ another, builder.Unplaced other.1 other.2.location another) →
            entry.1.number ≤ other.1.number := by
  refine ⟨builder.build left, MapBuilder.buildChecked_eq builder left, ?_, ?_⟩
  · rw [MapBuilder.buildChecked_eq, MapBuilder.build_congr same single]
  · intro rejection
    exact single.build_eq_error_iff

/-- A constant, a value without a location, and a slot that starts between two slots;
the first is listed twice. -/
def offendingLive : List (ValueId × Record) :=
  [(Handle.ofNat 2, ⟨.reference, .immediate 7, .empty⟩),
    (Handle.ofNat 0, ⟨.long, .unassigned, .empty⟩),
    (Handle.ofNat 1, ⟨.reference, .spill 3, .empty⟩),
    (Handle.ofNat 2, ⟨.reference, .immediate 7, .empty⟩)]

/-- Either way the slot is named, since the value without a location is no reference. -/
theorem build_depends_on_offending_set :
    ∃ layout builder, FrameLayout.make 16 8 = .ok layout ∧
      MapBuilder.make Convention.amd64 layout = .ok builder ∧
      builder.buildChecked offendingLive =
        .ok (.error (.misaligned (Handle.ofNat 1) ⟨3, .spill⟩)) ∧
      builder.buildChecked offendingLive.tail.reverse =
        .ok (.error (.misaligned (Handle.ofNat 1) ⟨3, .spill⟩)) := by
  let builder : MapBuilder := ⟨Convention.amd64, ⟨16, 8, by decide⟩, by decide⟩
  have same : ∀ entry, entry ∈ offendingLive ↔ entry ∈ offendingLive.tail.reverse := by
    have forward : ∀ entry ∈ offendingLive, entry ∈ offendingLive.tail.reverse := by decide
    have backward : ∀ entry ∈ offendingLive.tail.reverse, entry ∈ offendingLive := by decide
    exact fun entry => ⟨forward entry, backward entry⟩
  obtain ⟨result, left, right, lowest⟩ := build_depends_on_set builder same (by decide)
  have rejected : result = .error (.misaligned (Handle.ofNat 1) ⟨3, .spill⟩) := by
    refine (lowest _).mpr ⟨(Handle.ofNat 1, ⟨.reference, .spill 3, .empty⟩), by decide, rfl,
      .misaligned 3 (by decide), ?_⟩
    have references : ∀ other ∈ offendingLive, other.2.isReference = true →
        (Handle.ofNat 1 : ValueId).number ≤ other.1.number := by decide
    exact fun other listed reference _ => references other listed reference
  subst rejected
  exact ⟨builder.layout, builder, rfl, rfl, left, right⟩

end StackMaps
