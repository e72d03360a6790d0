import Mathlib.Data.List.FinRange
import Mathlib.Data.List.Nodup
import StackMaps.Proofs.Compiling
import StackMaps.Proofs.RoundTrip

/-!
# Numbering does not matter

The numbers of values and safepoints are how the parts of a stored method refer to
each other, and nothing more. Of a method, finishing sees its name, convention and
spill area, and for each safepoint the locations that hold a reference there: the
check and the placement of a bit ask a location, not a value, and the table orders
its maps by offset. Methods that agree in this compile to the same result.

A stored method whose safepoints and values are put in another order, with the
numbers of safepoints changed accordingly, describes such a method. So does one
whose lists of safepoints are reordered or repeat themselves, since a record keeps
a set of them, and the spill area is a largest number.
-/

namespace StackMaps

/-- The entries of a table without their handles are what is in the table. -/
theorem Handle.exists_mem_entries {α : Type} {table : List α} {value : α} :
    (∃ handle, (handle, value) ∈ Handle.entries table) ↔ value ∈ table := by
  constructor
  · rintro ⟨handle, member⟩
    obtain ⟨entry, stored, same⟩ := List.mem_map.mp member
    obtain ⟨_, rfl⟩ := Prod.mk.inj same
    exact List.fst_mem_of_mem_zipIdx stored
  · intro member
    obtain ⟨position, stored⟩ := List.getElem?_of_mem member
    refine ⟨Handle.ofNat position, ?_⟩
    have placed : (Handle.entries table)[position]? = some (Handle.ofNat position, value) := by
      rw [Handle.getElem?_entries, stored, Option.map_some]
    exact List.mem_of_getElem? placed

/-- Whether something is due for a location depends on the kind of the safepoint
only. -/
theorem Contract.due_eq_none_congr {convention : Convention} {here there : SafepointId}
    {point other : Safepoint} (kind : point.kind = other.kind) {value otherValue : ValueId}
    {location : Location} :
    due convention ⟨here, point, value, location⟩ = none ↔
      due convention ⟨there, other, otherValue, location⟩ = none := by
  cases location with
  | stack slot => simp [due]
  | immediate bits => simp [due]
  | unassigned => simp [due]
  | register register =>
    cases owned : convention.owns .general register with
    | false => simp [due, owned]
    | true => simp [due, owned, kind]

namespace Method

/-- A location holds a reference that is live at a safepoint. -/
def Holds (method : Method) (safepoint : SafepointId) (location : Location) : Prop :=
  ∃ record ∈ method.values,
    record.kind = .reference ∧ record.isLiveAt safepoint = true ∧ record.location = location

/-- What finishing sees of two methods is the same: each safepoint of one has a
safepoint of the other with its offset and kind, at which the same locations hold
references. -/
structure Alike (left right : Method) : Prop where
  name : left.name = right.name
  convention : left.convention = right.convention
  frameSize : left.frameSize = right.frameSize
  offsets : (left.safepoints.map Safepoint.pc).Perm (right.safepoints.map Safepoint.pc)
  there : ∀ entry ∈ Handle.entries left.safepoints, ∃ other ∈ Handle.entries right.safepoints,
    other.2 = entry.2 ∧ ∀ location, right.Holds other.1 location ↔ left.Holds entry.1 location
  back : ∀ entry ∈ Handle.entries right.safepoints, ∃ other ∈ Handle.entries left.safepoints,
    other.2 = entry.2 ∧ ∀ location, left.Holds other.1 location ↔ right.Holds entry.1 location

/-- Alikeness goes both ways. -/
theorem Alike.symm {left right : Method} (alike : Alike left right) : Alike right left :=
  ⟨alike.name.symm, alike.convention.symm, alike.frameSize.symm, alike.offsets.symm, alike.back,
    alike.there⟩

variable {method left right : Method} {builder : MapBuilder}

/-- The locations that hold references are those of the live references. -/
theorem holds_iff {safepoint : SafepointId} {location : Location} :
    method.Holds safepoint location ↔ ∃ entry ∈ Record.liveEntries method.values safepoint,
      entry.2.isReference = true ∧ entry.2.location = location := by
  constructor
  · rintro ⟨record, member, reference, live, located⟩
    obtain ⟨value, entry⟩ := Handle.exists_mem_entries.mpr member
    exact ⟨(value, record), List.mem_filter.mpr ⟨entry, live⟩,
      Record.isReference_iff.mpr reference, located⟩
  · rintro ⟨entry, member, reference, located⟩
    obtain ⟨present, live⟩ := List.mem_filter.mp member
    exact ⟨entry.2, Handle.exists_mem_entries.mp ⟨entry.1, present⟩,
      Record.isReference_iff.mp reference, live, located⟩

/-- The check accepts a method that is like one that it accepts. -/
theorem Alike.accepted (alike : Alike left right)
    (accepted : Contract.check left.convention left.values left.safepoints = .ok ()) :
    Contract.check right.convention right.values right.safepoints = .ok () := by
  rw [Contract.check_eq_ok, Contract.violations_eq_nil] at accepted ⊢
  intro item judged
  obtain ⟨present, live⟩ := Contract.mem_items.mp judged
  obtain ⟨record, member, reference, located⟩ := Record.mem_liveReferences.mp live
  obtain ⟨other, otherPresent, samePoint, sameHolds⟩ := alike.back _ present
  have held := (sameHolds item.location).mpr (holds_iff.mpr ⟨_, member, reference, located⟩)
  obtain ⟨entry, otherMember, otherReference, otherLocated⟩ := holds_iff.mp held
  have otherJudged : ⟨other.1, other.2, entry.1, item.location⟩ ∈
      Contract.items left.values left.safepoints :=
    Contract.mem_items.mpr ⟨otherPresent,
      Record.mem_liveReferences.mpr ⟨entry.2, otherMember, otherReference, otherLocated⟩⟩
  have nothing := accepted _ otherJudged
  rw [alike.convention] at nothing
  exact (Contract.due_eq_none_congr (congrArg Safepoint.kind samePoint)).mp nothing

/-- The bits of a map are those of the locations that hold references. -/
theorem bits_of_mapAt {safepoint : SafepointId} {map : ReferenceMap}
    (drawn : method.mapAt builder safepoint = .ok map) :
    (∀ location, method.Holds safepoint location →
      ∃ placement, builder.Placed location placement) ∧
    (∀ bit, map.frame.bits.contains bit = true ↔ ∃ location, method.Holds safepoint location ∧
      builder.Placed location (some (.frame bit))) ∧
    ∀ bit, map.registers.bits.contains bit = true ↔ ∃ location,
      method.Holds safepoint location ∧ builder.Placed location (some (.register bit)) := by
  obtain ⟨placed, frameBits, registerBits, _⟩ := MapBuilder.build_eq_ok drawn
  have through : ∀ placement, (∃ entry ∈ Record.liveEntries method.values safepoint,
      entry.2.isReference = true ∧ builder.Placed entry.2.location placement) ↔
      ∃ location, method.Holds safepoint location ∧ builder.Placed location placement := by
    intro placement
    constructor
    · rintro ⟨entry, member, reference, found⟩
      exact ⟨_, holds_iff.mpr ⟨entry, member, reference, rfl⟩, found⟩
    · rintro ⟨location, held, found⟩
      obtain ⟨entry, member, reference, rfl⟩ := holds_iff.mp held
      exact ⟨entry, member, reference, found⟩
  refine ⟨?_, ?_, ?_⟩
  · intro location held
    obtain ⟨entry, member, reference, rfl⟩ := holds_iff.mp held
    exact placed entry member reference
  · intro bit
    rw [frameBits, through]
  · intro bit
    rw [registerBits, through]

/-- Where the same locations hold references, the maps have the same bits. -/
theorem mapAt_congr {here there : SafepointId} {map : ReferenceMap}
    (same : ∀ location, right.Holds there location ↔ left.Holds here location)
    (drawn : left.mapAt builder here = .ok map) :
    ∃ other, right.mapAt builder there = .ok other ∧
      (∀ bit, other.frame.bits.contains bit = map.frame.bits.contains bit) ∧
      ∀ bit, other.registers.bits.contains bit = map.registers.bits.contains bit := by
  obtain ⟨placed, frameBits, registerBits⟩ := bits_of_mapAt drawn
  cases redrawn : right.mapAt builder there with
  | error rejection =>
    obtain ⟨⟨entry, member, reference, unplaced⟩, _⟩ := MapBuilder.build_eq_error redrawn
    have held := (same entry.2.location).mp (holds_iff.mpr ⟨entry, member, reference, rfl⟩)
    obtain ⟨placement, found⟩ := placed _ held
    exact absurd unplaced found.not_unplaced
  | ok other =>
    obtain ⟨_, otherFrameBits, otherRegisterBits⟩ := bits_of_mapAt redrawn
    refine ⟨other, rfl, ?_, ?_⟩
    · intro bit
      rw [Bool.eq_iff_iff, otherFrameBits, frameBits]
      simp only [same]
    · intro bit
      rw [Bool.eq_iff_iff, otherRegisterBits, registerBits]
      simp only [same]

/-- For different offsets, the maps of the safepoints are exactly the maps that are
drawn at them. -/
theorem Mapped.mem_iff {maps : List (UInt32 × ReferenceMap)}
    (mapped : method.Mapped builder (Handle.entries method.safepoints) maps)
    (distinct : (maps.map Prod.fst).Nodup) {item : UInt32 × ReferenceMap} :
    item ∈ maps ↔ ∃ entry ∈ Handle.entries method.safepoints, entry.2.pc = item.1 ∧
      method.mapAt builder entry.1 = .ok item.2 := by
  -- offsets differ, so the map in the list for an offset is the one drawn there
  have drawn : ∀ entry ∈ Handle.entries method.safepoints, ∀ other ∈ maps,
      entry.2.pc = other.1 → method.mapAt builder entry.1 = .ok other.2 := by
    intro entry present other member same
    obtain ⟨map, inMaps, built⟩ := mapped.drawn entry present
    have equal := List.inj_on_of_nodup_map distinct inMaps member same
    rw [built, ← equal]
  constructor
  · intro member
    have offset : item.1 ∈ (Handle.entries method.safepoints).map fun entry => entry.2.pc := by
      rw [← mapped.pcs]
      exact List.mem_map_of_mem member
    obtain ⟨entry, present, same⟩ := List.mem_map.mp offset
    exact ⟨entry, present, same, drawn entry present item member same⟩
  · rintro ⟨entry, present, same, built⟩
    obtain ⟨map, inMaps, rebuilt⟩ := mapped.drawn entry present
    have equal : map = item.2 := Except.ok.inj (rebuilt.symm.trans built)
    rwa [same, equal] at inMaps

/-- The coded maps of a method are among those of a method that is like it. -/
theorem Alike.coded_mem (alike : Alike left right) {maps others : List (UInt32 × ReferenceMap)}
    (mapped : left.Mapped builder (Handle.entries left.safepoints) maps)
    (remapped : right.Mapped builder (Handle.entries right.safepoints) others)
    (distinct : (maps.map Prod.fst).Nodup) (otherDistinct : (others.map Prod.fst).Nodup)
    {code : UInt32 × List Byte}
    (member : code ∈ maps.map (Table.coded builder.frameLength builder.registerLength)) :
    code ∈ others.map (Table.coded builder.frameLength builder.registerLength) := by
  obtain ⟨item, inMaps, rfl⟩ := List.mem_map.mp member
  obtain ⟨entry, present, offset, drawn⟩ := (mapped.mem_iff distinct).mp inMaps
  obtain ⟨other, otherPresent, samePoint, sameHolds⟩ := alike.there entry present
  obtain ⟨map, redrawn, frame, registers⟩ := mapAt_congr sameHolds drawn
  have inOthers : (item.1, map) ∈ others :=
    (remapped.mem_iff otherDistinct).mpr ⟨other, otherPresent, by rw [samePoint, offset], redrawn⟩
  have sameCode : Table.coded builder.frameLength builder.registerLength (item.1, map) =
      Table.coded builder.frameLength builder.registerLength item :=
    congrArg (Prod.mk item.1) (Table.bytesOf_congr frame registers)
  exact List.mem_map.mpr ⟨_, inOthers, sameCode⟩

/-- Maps of methods that are alike are packed into one table. -/
theorem Alike.packed_eq (alike : Alike left right) {maps others : List (UInt32 × ReferenceMap)}
    (mapped : left.Mapped builder (Handle.entries left.safepoints) maps)
    (remapped : right.Mapped builder (Handle.entries right.safepoints) others)
    (distinct : (maps.map Prod.fst).Nodup) (otherDistinct : (others.map Prod.fst).Nodup) :
    Table.packed builder.frameLength builder.registerLength maps =
      Table.packed builder.frameLength builder.registerLength others := by
  have offsets : ∀ list : List (UInt32 × ReferenceMap),
      (list.map (Table.coded builder.frameLength builder.registerLength)).map Prod.fst =
        list.map Prod.fst := by
    intro list
    rw [List.map_map]
    rfl
  refine Table.packed_congr ?_ distinct
  rw [List.perm_ext_iff_of_nodup (List.Nodup.of_map Prod.fst (offsets maps ▸ distinct))
    (List.Nodup.of_map Prod.fst (offsets others ▸ otherDistinct))]
  intro code
  exact ⟨alike.coded_mem mapped remapped distinct otherDistinct,
    alike.symm.coded_mem remapped mapped otherDistinct distinct⟩

/-- Methods that are alike have one builder. -/
theorem Alike.mapBuilder (alike : Alike left right) (made : left.mapBuilder = .ok builder) :
    right.mapBuilder = .ok builder := by
  rw [mapBuilder_eq_ok, ← alike.convention, ← alike.frameSize]
  exact mapBuilder_eq_ok.mp made

/-- If the maps of all safepoints are drawn, so are those of a method that is like it. -/
theorem Alike.drawn (alike : Alike left right) {maps : List (UInt32 × ReferenceMap)}
    (mapped : left.Mapped builder (Handle.entries left.safepoints) maps)
    {entry : SafepointId × Safepoint} (present : entry ∈ Handle.entries right.safepoints) :
    ∃ map, right.mapAt builder entry.1 = .ok map := by
  obtain ⟨other, otherPresent, _, sameHolds⟩ := alike.back entry present
  obtain ⟨map, _, drawn⟩ := mapped.drawn other otherPresent
  obtain ⟨redrawn, found, _⟩ := mapAt_congr (fun location => (sameHolds location).symm) drawn
  exact ⟨redrawn, found⟩

/-- Methods that are alike compile to the same result. -/
theorem Alike.finish (alike : Alike left right)
    (fewSafepoints : left.safepoints.length < 2 ^ 32 - 1) {compiled : CompiledMethod}
    (finished : left.finish = .ok (.ok compiled)) : right.finish = .ok (.ok compiled) := by
  have sameCount : left.safepoints.length = right.safepoints.length := by
    simpa using alike.offsets.length_eq
  obtain ⟨builder, made⟩ := mapBuilder_of_finish fewSafepoints finished
  obtain ⟨outcome, ended, kind⟩ := finish_outcome made fewSafepoints
  obtain rfl : outcome = .ok compiled := Except.ok.inj (ended.symm.trans finished)
  obtain ⟨other, otherEnded, otherKind⟩ :=
    finish_outcome (alike.mapBuilder made) (sameCount ▸ fewSafepoints)
  rw [otherEnded]
  -- the one compiled, and each refusal of the other would have been a refusal of the one
  cases kind with
  | @compiled maps accepted mapped distinct =>
    have different := Table.firstRepeat_ordered_eq_none.mp distinct
    cases otherKind with
    | breached refused =>
      rw [alike.accepted accepted] at refused
      cases refused
    | @rejected _ _ entry _ _ order _ failed =>
      have present : entry ∈ Handle.entries right.safepoints := by
        rw [order]
        exact List.mem_append_right _ List.mem_cons_self
      obtain ⟨map, drawn⟩ := alike.drawn mapped present
      rw [drawn] at failed
      cases failed
    | @repeated others _ _ remapped repeats =>
      have otherDifferent : (others.map Prod.fst).Nodup := by
        rw [remapped.offsets]
        rw [mapped.offsets] at different
        exact alike.offsets.nodup_iff.mp different
      rw [Table.firstRepeat_ordered_eq_none.mpr otherDifferent] at repeats
      cases repeats
    | @compiled others _ remapped otherDistinct =>
      have otherDifferent := Table.firstRepeat_ordered_eq_none.mp otherDistinct
      rw [alike.packed_eq mapped remapped different otherDifferent, compiledWith, compiledWith,
        target, target, alike.name, alike.convention, alike.frameSize]

end Method

/-! ## Stored methods -/

/-- The number of a safepoint after the safepoints are put in another order. A number
that is not one of theirs is left alone. -/
def renumber {count : Nat} (order : Equiv.Perm (Fin count)) (number : UInt32) : UInt32 :=
  if inside : number.toNat < count then UInt32.ofNat (order ⟨number.toNat, inside⟩).val
  else number

section

variable {count : Nat} {order : Equiv.Perm (Fin count)}

/-- The number of a safepoint becomes the number of its new position. -/
theorem toNat_renumber (few : count < 2 ^ 32 - 1) {number : UInt32}
    (inside : number.toNat < count) :
    (renumber order number).toNat = (order ⟨number.toNat, inside⟩).val := by
  have position := (order ⟨number.toNat, inside⟩).isLt
  have small : (order ⟨number.toNat, inside⟩).val < 2 ^ 32 := by omega
  rw [renumber, dif_pos inside]
  exact UInt32.toNat_ofNat_of_lt' small

/-- Renumbering keeps apart what numbers a safepoint and what does not. -/
theorem renumber_lt_iff (few : count < 2 ^ 32 - 1) {number : UInt32} :
    (renumber order number).toNat < count ↔ number.toNat < count := by
  by_cases inside : number.toNat < count
  · rw [toNat_renumber few inside]
    exact iff_of_true (order _).isLt inside
  · rw [renumber, dif_neg inside]

/-- Renumbering is undone by putting the safepoints back. -/
theorem renumber_symm (few : count < 2 ^ 32 - 1) (number : UInt32) :
    renumber order (renumber order.symm number) = number := by
  by_cases inside : number.toNat < count
  · have back : (renumber order.symm number).toNat < count := (renumber_lt_iff few).mpr inside
    have position : (⟨(renumber order.symm number).toNat, back⟩ : Fin count) =
        order.symm ⟨number.toNat, inside⟩ := Fin.ext (toNat_renumber few inside)
    apply UInt32.toNat_inj.mp
    rw [toNat_renumber few back, position, Equiv.apply_symm_apply]
  · have unchanged : renumber order.symm number = number := by
      rw [renumber, dif_neg inside]
    rw [unchanged, renumber, dif_neg inside]

/-- Different numbers stay different. -/
theorem renumber_injective (few : count < 2 ^ 32 - 1) {left right : UInt32}
    (same : renumber order left = renumber order right) : left = right := by
  have undone : ∀ number, renumber order.symm (renumber order number) = number :=
    fun number => renumber_symm few number
  rw [← undone left, same, undone right]

end

/-- A stored value says the same as another about renumbered safepoints: it may list
them in another order, and more or less often. -/
structure StoredValue.Restates {count : Nat} (order : Equiv.Perm (Fin count))
    (stored restated : StoredValue) : Prop where
  kind : restated.kind = stored.kind
  location : restated.location = stored.location
  live : ∀ number, number ∈ restated.live ↔ ∃ old ∈ stored.live, number = renumber order old

namespace StoredValue.Restates

variable {count : Nat} {order : Equiv.Perm (Fin count)} {stored restated : StoredValue}

/-- What a value asks for can be had exactly when it can be had under other numbers. -/
theorem admissible_iff (same : stored.Restates order restated) (few : count < 2 ^ 32 - 1)
    (catalog : Catalog) :
    stored.Admissible catalog count ↔ restated.Admissible catalog count := by
  constructor
  · intro admissible
    refine ⟨?_, ?_⟩
    · rw [same.kind, same.location]
      exact admissible.listed
    · intro number member
      obtain ⟨old, oldMember, rfl⟩ := (same.live number).mp member
      exact (renumber_lt_iff few).mpr (admissible.known old oldMember)
  · intro admissible
    refine ⟨?_, ?_⟩
    · rw [← same.kind, ← same.location]
      exact admissible.listed
    · intro number member
      have known := admissible.known _ ((same.live _).mpr ⟨number, member, rfl⟩)
      exact (renumber_lt_iff few).mp known

/-- The slots of a value end where they end under other numbers. -/
theorem stop_eq (same : stored.Restates order restated) (convention : Convention) :
    restated.stop convention = stored.stop convention := by
  rw [stop, same.kind, same.location, stop]

end StoredValue.Restates

namespace Snapshot

/-- A location holds a reference of the described method if a stored reference that
is live there is at it. -/
theorem holds_rebuilt {snapshot : Snapshot} {convention : Convention} {safepoint : SafepointId}
    {location : Location} :
    (snapshot.rebuilt convention).Holds safepoint location ↔ ∃ stored ∈ snapshot.values,
      stored.kind = .reference ∧ safepoint.number ∈ stored.live ∧ stored.location = location := by
  constructor
  · rintro ⟨record, member, reference, live, located⟩
    obtain ⟨stored, present, rfl⟩ := List.mem_map.mp member
    exact ⟨stored, present, stored.record_kind ▸ reference, StoredValue.isLiveAt_record.mp live,
      stored.record_location ▸ located⟩
  · rintro ⟨stored, present, reference, live, located⟩
    exact ⟨stored.record, List.mem_map_of_mem present, stored.record_kind.trans reference,
      StoredValue.isLiveAt_record.mpr live, stored.record_location.trans located⟩

/-- A stored method with its safepoints and its values in another order, and with the
numbers of safepoints changed accordingly. -/
structure Renumbered {safepointCount valueCount : Nat} (order : Equiv.Perm (Fin safepointCount))
    (valueOrder : Equiv.Perm (Fin valueCount)) (before after : Snapshot) : Prop where
  name : after.name = before.name
  target : after.target = before.target
  frameSize : after.frameSize = before.frameSize
  safepointsBefore : before.safepoints.length = safepointCount
  safepointsAfter : after.safepoints.length = safepointCount
  safepoints : ∀ position : Fin safepointCount,
    after.safepoints[(order position).val]? = before.safepoints[position.val]?
  valuesBefore : before.values.length = valueCount
  valuesAfter : after.values.length = valueCount
  values : ∀ (position : Fin valueCount) (stored restated : StoredValue),
    before.values[position.val]? = some stored →
    after.values[(valueOrder position).val]? = some restated → stored.Restates order restated

namespace Renumbered

variable {safepointCount valueCount : Nat} {order : Equiv.Perm (Fin safepointCount)}
  {valueOrder : Equiv.Perm (Fin valueCount)} {before after : Snapshot}

/-- Every stored value is restated. -/
theorem restated (renumbered : Renumbered order valueOrder before after) {stored : StoredValue}
    (member : stored ∈ before.values) :
    ∃ restated ∈ after.values, stored.Restates order restated := by
  obtain ⟨position, present⟩ := List.getElem?_of_mem member
  have inside : position < valueCount :=
    renumbered.valuesBefore ▸ (List.getElem?_eq_some_iff.mp present).1
  have otherInside : (valueOrder ⟨position, inside⟩).val < after.values.length :=
    renumbered.valuesAfter ▸ (valueOrder ⟨position, inside⟩).isLt
  exact ⟨_, List.getElem_mem otherInside, renumbered.values ⟨position, inside⟩ stored _ present
    (List.getElem?_eq_getElem otherInside)⟩

/-- Every value restates a stored one. -/
theorem restates (renumbered : Renumbered order valueOrder before after) {restated : StoredValue}
    (member : restated ∈ after.values) :
    ∃ stored ∈ before.values, stored.Restates order restated := by
  obtain ⟨position, present⟩ := List.getElem?_of_mem member
  have inside : position < valueCount :=
    renumbered.valuesAfter ▸ (List.getElem?_eq_some_iff.mp present).1
  have otherInside : (valueOrder.symm ⟨position, inside⟩).val < before.values.length :=
    renumbered.valuesBefore ▸ (valueOrder.symm ⟨position, inside⟩).isLt
  refine ⟨_, List.getElem_mem otherInside, renumbered.values (valueOrder.symm ⟨position, inside⟩) _
    restated (List.getElem?_eq_getElem otherInside) ?_⟩
  rw [Equiv.apply_symm_apply]
  exact present

/-- Renumbering changes neither what is asked for nor whether it can be had. -/
theorem met_iff (renumbered : Renumbered order valueOrder before after)
    (few : safepointCount < 2 ^ 32 - 1) (catalog : Catalog) :
    before.refusal? catalog = none ↔ after.refusal? catalog = none := by
  rw [refusal?_eq_none, refusal?_eq_none, renumbered.safepointsBefore, renumbered.safepointsAfter]
  constructor
  · intro admissible restated member
    obtain ⟨stored, present, same⟩ := renumbered.restates member
    exact (same.admissible_iff few catalog).mp (admissible stored present)
  · intro admissible stored member
    obtain ⟨restated, present, same⟩ := renumbered.restated member
    exact (same.admissible_iff few catalog).mpr (admissible restated present)

/-- The slots of the values end where they ended. -/
theorem spillArea_eq (renumbered : Renumbered order valueOrder before after)
    (convention : Convention) : before.spillArea convention = after.spillArea convention := by
  have covers : ∀ bound, before.spillArea convention ≤ bound ↔
      after.spillArea convention ≤ bound := by
    intro bound
    rw [spillArea_le_iff, spillArea_le_iff, renumbered.frameSize]
    refine and_congr_right fun _ => ⟨?_, ?_⟩
    · intro covered restated member
      obtain ⟨stored, present, same⟩ := renumbered.restates member
      rw [same.stop_eq]
      exact covered stored present
    · intro covered stored member
      obtain ⟨restated, present, same⟩ := renumbered.restated member
      rw [← same.stop_eq]
      exact covered restated present
  exact Nat.le_antisymm ((covers _).mpr (Nat.le_refl _)) ((covers _).mp (Nat.le_refl _))

/-- The locations that hold references at a safepoint hold them at its new number. -/
theorem holds_iff (renumbered : Renumbered order valueOrder before after)
    (few : safepointCount < 2 ^ 32 - 1) (convention : Convention) (safepoint : SafepointId)
    (location : Location) :
    (after.rebuilt convention).Holds ⟨renumber order safepoint.number⟩ location ↔
      (before.rebuilt convention).Holds safepoint location := by
  rw [holds_rebuilt, holds_rebuilt]
  constructor
  · rintro ⟨restated, member, reference, live, located⟩
    obtain ⟨stored, present, same⟩ := renumbered.restates member
    obtain ⟨old, oldMember, equal⟩ := (same.live _).mp live
    rw [renumber_injective few equal]
    exact ⟨stored, present, same.kind ▸ reference, oldMember, same.location ▸ located⟩
  · rintro ⟨stored, member, reference, live, located⟩
    obtain ⟨restated, present, same⟩ := renumbered.restated member
    exact ⟨restated, present, same.kind.trans reference,
      (same.live _).mpr ⟨_, live, rfl⟩, same.location.trans located⟩

/-- A safepoint is found at its new number. -/
theorem mem_entries_iff (renumbered : Renumbered order valueOrder before after)
    (few : safepointCount < 2 ^ 32 - 1) {safepoint : SafepointId} {point : Safepoint} :
    (⟨renumber order safepoint.number⟩, point) ∈ Handle.entries after.safepoints ↔
      (safepoint, point) ∈ Handle.entries before.safepoints := by
  have lengths := renumbered.safepointsBefore
  have otherLengths := renumbered.safepointsAfter
  rw [Handle.mem_entries (by omega), Handle.mem_entries (by omega),
    Handle.fetch_of_short (by omega), Handle.fetch_of_short (by omega)]
  by_cases inside : safepoint.number.toNat < safepointCount
  · rw [toNat_renumber few inside, renumbered.safepoints ⟨safepoint.number.toNat, inside⟩]
  · have outside : ¬ (renumber order safepoint.number).toNat < safepointCount := by
      rwa [renumber_lt_iff few]
    have here : before.safepoints[safepoint.number.toNat]? = none :=
      List.getElem?_eq_none (by omega)
    have there : after.safepoints[(renumber order safepoint.number).toNat]? = none :=
      List.getElem?_eq_none (by omega)
    rw [here, there]

/-- The offsets of the safepoints are in another order. -/
theorem offsets_perm (renumbered : Renumbered order valueOrder before after) :
    (before.safepoints.map Safepoint.pc).Perm (after.safepoints.map Safepoint.pc) := by
  have lengths := renumbered.safepointsBefore
  have otherLengths := renumbered.safepointsAfter
  subst otherLengths
  have listed : before.safepoints = List.ofFn (after.safepoints.get ∘ order) := by
    apply List.ext_getElem?
    intro position
    by_cases inside : position < after.safepoints.length
    · rw [← renumbered.safepoints ⟨position, inside⟩, List.getElem?_ofFn, dif_pos inside,
        List.getElem?_eq_getElem (order ⟨position, inside⟩).isLt]
      rfl
    · rw [List.getElem?_eq_none (by omega), List.getElem?_eq_none (by simpa using inside)]
  have reordered := order.ofFn_comp_perm after.safepoints.get
  rw [← listed, List.ofFn_get] at reordered
  exact reordered.map Safepoint.pc

/-- Renumbered methods describe methods that are alike. -/
theorem alike (renumbered : Renumbered order valueOrder before after)
    (few : safepointCount < 2 ^ 32 - 1) (convention : Convention) :
    (before.rebuilt convention).Alike (after.rebuilt convention) where
  name := renumbered.name.symm
  convention := rfl
  frameSize := congrArg UInt32.ofNat (renumbered.spillArea_eq convention)
  offsets := renumbered.offsets_perm
  there := by
    rintro ⟨safepoint, point⟩ member
    exact ⟨(⟨renumber order safepoint.number⟩, point), (renumbered.mem_entries_iff few).mpr member,
      rfl, renumbered.holds_iff few convention safepoint⟩
  back := by
    rintro ⟨safepoint, point⟩ member
    have number : (⟨renumber order (renumber order.symm safepoint.number)⟩ : SafepointId) =
        safepoint := Handle.eq_of_number (renumber_symm few safepoint.number)
    rw [← number] at member
    refine ⟨(⟨renumber order.symm safepoint.number⟩, point),
      (renumbered.mem_entries_iff few).mp member, rfl, ?_⟩
    intro location
    rw [← renumbered.holds_iff few convention ⟨renumber order.symm safepoint.number⟩ location,
      number]

end Renumbered

end Snapshot

/-- Numbering does not matter. If the safepoints of a stored method and its values are
put in any other order, with the numbers of the safepoints changed accordingly, and
the safepoints of a value are listed in any order and any number of times, then the
two stored methods compile to the same results: if one compiles, so does the other,
and to the same name, target, spill area, offsets and bytes. -/
theorem compile_renumbered {safepointCount valueCount : Nat}
    (order : Equiv.Perm (Fin safepointCount)) (valueOrder : Equiv.Perm (Fin valueCount))
    (before after : Snapshot) (renumbered : Snapshot.Renumbered order valueOrder before after)
    (fewValues : before.values.length < 2 ^ 32 - 1)
    (fewSafepoints : before.safepoints.length < 2 ^ 32 - 1) (compiled : CompiledMethod) :
    before.compile = .ok (.ok compiled) ↔ after.compile = .ok (.ok compiled) := by
  have valueCounts := renumbered.valuesBefore.trans renumbered.valuesAfter.symm
  have safepointCounts := renumbered.safepointsBefore.trans renumbered.safepointsAfter.symm
  have few : safepointCount < 2 ^ 32 - 1 := renumbered.safepointsBefore ▸ fewSafepoints
  have otherFewSafepoints := safepointCounts ▸ fewSafepoints
  have alike := renumbered.alike few before.target.convention
  rw [Snapshot.compile_eq_ok fewValues fewSafepoints,
    Snapshot.compile_eq_ok (valueCounts ▸ fewValues) otherFewSafepoints, renumbered.target,
    renumbered.met_iff few]
  exact and_congr_right fun _ =>
    ⟨alike.finish fewSafepoints, alike.symm.finish otherFewSafepoints⟩

/-- A stored method with two safepoints, two references and a long value. -/
def orderedSnapshot : Snapshot where
  name := "either"
  target := .amd64
  frameSize := 0
  values :=
    [⟨.reference, .spill 8, [0, 1]⟩, ⟨.reference, .register ⟨3, .general⟩, [1]⟩,
      ⟨.long, .spill 24, []⟩]
  safepoints := [⟨16, .poll⟩, ⟨4, .call⟩]

/-- The same method, from the last safepoint and the last value to the first. -/
def reversedSnapshot : Snapshot where
  name := "either"
  target := .amd64
  frameSize := 0
  values :=
    [⟨.long, .spill 24, []⟩, ⟨.reference, .register ⟨3, .general⟩, [0, 0]⟩,
      ⟨.reference, .spill 8, [0, 1, 0]⟩]
  safepoints := [⟨4, .call⟩, ⟨16, .poll⟩]

/-- Both orders compile, and to the same result. -/
theorem compile_renumbered_reversed :
    Snapshot.Renumbered (Fin.revPerm : Equiv.Perm (Fin 2)) (Fin.revPerm : Equiv.Perm (Fin 3))
      orderedSnapshot reversedSnapshot ∧
    ∃ compiled, orderedSnapshot.compile = .ok (.ok compiled) ∧
      reversedSnapshot.compile = .ok (.ok compiled) := by
  have first : renumber (Fin.revPerm : Equiv.Perm (Fin 2)) 0 = 1 := by decide
  have second : renumber (Fin.revPerm : Equiv.Perm (Fin 2)) 1 = 0 := by decide
  have renumbered : Snapshot.Renumbered (Fin.revPerm : Equiv.Perm (Fin 2))
      (Fin.revPerm : Equiv.Perm (Fin 3)) orderedSnapshot reversedSnapshot := by
    refine ⟨rfl, rfl, rfl, rfl, rfl, by decide, rfl, rfl, ?_⟩
    rintro ⟨_ | _ | _ | position, inside⟩ stored restated present otherPresent
    · cases present
      cases otherPresent
      exact ⟨rfl, rfl, fun number => by simp [first, second, or_comm]⟩
    · cases present
      cases otherPresent
      exact ⟨rfl, rfl, fun number => by simp [second]⟩
    · cases present
      cases otherPresent
      exact ⟨rfl, rfl, fun number => by simp⟩
    · omega
  have compiled : orderedSnapshot.compile = _ :=
    Snapshot.compile_of_met (by decide) (by decide) rfl
  rw [Method.finish_of_maps rfl (by decide) rfl rfl rfl] at compiled
  exact ⟨renumbered, _, compiled, (compile_renumbered _ _ orderedSnapshot reversedSnapshot
    renumbered (by decide) (by decide) _).mp compiled⟩

end StackMaps
