import StackMaps.Proofs.Placing
import StackMaps.Proofs.Tables

/-!
# Drawing a reference map

The loop over the live values keeps, after each value, the map of the values seen
so far: the bits of those that are placed, and the rejection of the lowest value
among those that are not. Every bit lies below the length of its bitmap, so no
step of the loop faults, and the checked drawing is the map built from all
placements at once.

From there the bits of a map and the rejection of a failed one are read off the
single locations.
-/

namespace StackMaps

namespace Rejection

/-- One more rejection leaves one: an earlier one or the new one, and of no higher
value than either. -/
theorem lower_eq_some (best : Option Rejection) (next : Rejection) :
    ∃ kept, lower best next = some kept ∧ (best = some kept ∨ kept = next) ∧
      kept.value.number ≤ next.value.number ∧
      ∀ earlier, best = some earlier → kept.value.number ≤ earlier.value.number := by
  cases best with
  | none => exact ⟨next, rfl, .inr rfl, UInt32.le_refl _, by simp⟩
  | some earlier =>
    by_cases replaced : next.value.number < earlier.value.number
    · refine ⟨next, by simp [lower, replaced], .inr rfl, UInt32.le_refl _, ?_⟩
      intro other found
      exact Option.some.inj found ▸ UInt32.le_of_lt replaced
    · refine ⟨earlier, by simp [lower, replaced], .inl rfl, UInt32.not_lt.mp replaced, ?_⟩
      intro other found
      exact Option.some.inj found ▸ UInt32.le_refl _

/-- The kept rejection is one of those met, and no rejection met is of a lower
value. -/
theorem foldl_lower (rejections : List Rejection) (best : Option Rejection) (kept : Rejection)
    (result : rejections.foldl lower best = some kept) :
    (best = some kept ∨ kept ∈ rejections) ∧
      (∀ earlier, best = some earlier → kept.value.number ≤ earlier.value.number) ∧
      ∀ other ∈ rejections, kept.value.number ≤ other.value.number := by
  induction rejections generalizing best with
  | nil =>
    have same : best = some kept := result
    refine ⟨.inl same, ?_, by simp⟩
    intro earlier found
    exact Option.some.inj (same.symm.trans found) ▸ UInt32.le_refl _
  | cons first rest induction =>
    obtain ⟨middle, stepped, source, belowFirst, belowBest⟩ := lower_eq_some best first
    rw [List.foldl_cons, stepped] at result
    obtain ⟨laterSource, belowMiddle, belowRest⟩ := induction (some middle) result
    have low := belowMiddle middle rfl
    refine ⟨?_, ?_, ?_⟩
    · rcases laterSource with isMiddle | later
      · rw [Option.some.inj isMiddle] at source
        exact source.imp id fun isFirst => List.mem_cons.mpr (.inl isFirst)
      · exact .inr (List.mem_cons.mpr (.inr later))
    · intro earlier found
      exact UInt32.le_trans low (belowBest earlier found)
    · intro other member
      rcases List.mem_cons.mp member with rfl | later
      · exact UInt32.le_trans low belowFirst
      · exact belowRest other later

/-- The lowest rejection is one of the list, of the lowest value. -/
theorem lowest_eq_some {rejections : List Rejection} {kept : Rejection}
    (result : lowest rejections = some kept) :
    kept ∈ rejections ∧ ∀ other ∈ rejections, kept.value.number ≤ other.value.number := by
  obtain ⟨source, _, below⟩ := foldl_lower rejections none kept result
  exact ⟨source.resolve_left (by simp), below⟩

/-- Once a rejection was met, one is kept. -/
theorem foldl_lower_ne_none (rejections : List Rejection) (earlier : Rejection) :
    rejections.foldl lower (some earlier) ≠ none := by
  induction rejections generalizing earlier with
  | nil => simp
  | cons first rest induction =>
    obtain ⟨middle, stepped, _⟩ := lower_eq_some (some earlier) first
    rw [List.foldl_cons, stepped]
    exact induction middle

/-- There is no lowest rejection exactly when there is none. -/
theorem lowest_eq_none {rejections : List Rejection} :
    lowest rejections = none ↔ rejections = [] := by
  cases rejections with
  | nil => simp [lowest]
  | cons first rest =>
    have kept : lowest (first :: rest) ≠ none := foldl_lower_ne_none rest first
    simp [kept]

end Rejection

namespace MapBuilder

variable {builder : MapBuilder} {live : List (ValueId × Record)}

/-- The map in the making after the given values. -/
def draftOf (builder : MapBuilder) (seen : List (ValueId × Record)) : Draft where
  frame := Bitmap.ofPositions builder.frameLength
    ((placements (builder.verdicts seen)).filterMap Placement.frame?)
  registers := Bitmap.ofPositions builder.registerLength
    ((placements (builder.verdicts seen)).filterMap Placement.register?)
  rejection := Rejection.lowest (rejections (builder.verdicts seen))

/-- One more position is one more insertion. -/
theorem ofPositions_concat (length : Nat) (positions : List Nat) (position : Nat) :
    Bitmap.ofPositions length (positions ++ [position]) =
      { Bitmap.ofPositions length positions with
        bits := (Bitmap.ofPositions length positions).bits.insert position } := by
  simp [Bitmap.ofPositions, BitSet.insertAll]

/-- A value that is no reference adds no verdict. -/
theorem verdicts_concat_other (builder : MapBuilder) (seen : List (ValueId × Record))
    {entry : ValueId × Record} (other : entry.2.isReference = false) :
    builder.verdicts (seen ++ [entry]) = builder.verdicts seen := by
  simp [verdicts, other]

/-- A reference adds the verdict on its location. -/
theorem verdicts_concat_reference (builder : MapBuilder) (seen : List (ValueId × Record))
    {entry : ValueId × Record} (reference : entry.2.isReference = true) :
    builder.verdicts (seen ++ [entry]) =
      builder.verdicts seen ++ [builder.place entry.1 entry.2.location] := by
  simp [verdicts, reference]

/-- Entering a value into the map of the values seen so far completes and gives
the map with that value. -/
theorem enter_draftOf (builder : MapBuilder) (seen : List (ValueId × Record))
    (entry : ValueId × Record) :
    builder.enter (builder.draftOf seen) entry = .ok (builder.draftOf (seen ++ [entry])) := by
  unfold enter
  cases reference : entry.2.isReference with
  | false =>
    rw [draftOf, draftOf, verdicts_concat_other builder seen reference]
    rfl
  | true =>
    simp only [if_true, placeChecked_eq, Checked.ok_bind]
    have verdicts := verdicts_concat_reference builder seen reference
    cases located : builder.place entry.1 entry.2.location with
    | error rejection =>
      simp [draftOf, verdicts, located, rejections, placements, Rejection.lowest]
    | ok found =>
      have placed := place_eq_ok.mp located
      cases found with
      | none => simp [draftOf, verdicts, located, rejections, placements]
      | some placement =>
        cases placement with
        | frame bit =>
          have inside : bit < (builder.draftOf seen).frame.length := placed.frame_lt
          simp only [Draft.mark, Bitmap.set_eq inside, Checked.ok_bind]
          simp [draftOf, verdicts, located, rejections, placements, Placement.frame?,
            Placement.register?, ofPositions_concat, List.filterMap_cons]
        | register bit =>
          have inside : bit < (builder.draftOf seen).registers.length := placed.register_lt
          simp only [Draft.mark, Bitmap.set_eq inside, Checked.ok_bind]
          simp [draftOf, verdicts, located, rejections, placements, Placement.frame?,
            Placement.register?, ofPositions_concat, List.filterMap_cons]

/-- Entering values one after another gives the map of all of them. -/
theorem foldlM_enter (builder : MapBuilder) (seen live : List (ValueId × Record)) :
    live.foldlM builder.enter (builder.draftOf seen) = .ok (builder.draftOf (seen ++ live)) := by
  induction live generalizing seen with
  | nil => simp
  | cons first rest induction =>
    rw [List.foldlM_cons, enter_draftOf, Checked.ok_bind, induction, List.append_assoc,
      List.singleton_append]

/-- Drawing a map never faults, and gives the map built from all placements. -/
theorem buildChecked_eq (builder : MapBuilder) (live : List (ValueId × Record)) :
    builder.buildChecked live = .ok (builder.build live) := by
  have drawn : live.foldlM builder.enter
      ⟨.blank builder.frameLength, .blank builder.registerLength, none⟩ =
      .ok (builder.draftOf live) := foldlM_enter builder [] live
  simp only [buildChecked, drawn, Checked.ok_bind, build, draftOf]
  cases Rejection.lowest (rejections (builder.verdicts live)) <;> rfl

/-- The verdicts on live values are those on the locations of the references
among them. -/
theorem mem_verdicts {verdict : Except Rejection (Option Placement)} :
    verdict ∈ builder.verdicts live ↔
      ∃ entry ∈ live, entry.2.isReference = true ∧
        builder.place entry.1 entry.2.location = verdict := by
  simp only [verdicts, List.mem_map, List.mem_filter, and_assoc]

/-- A rejection among the verdicts is one of them. -/
theorem mem_rejections {verdicts : List (Except Rejection (Option Placement))}
    {rejection : Rejection} : rejection ∈ rejections verdicts ↔ .error rejection ∈ verdicts := by
  simp only [rejections, List.mem_filterMap]
  constructor
  · rintro ⟨verdict, member, same⟩
    cases verdict with
    | error other => exact Option.some.inj same ▸ member
    | ok placement => cases same
  · intro member
    exact ⟨_, member, rfl⟩

/-- A placement among the verdicts is one of them. -/
theorem mem_placements {verdicts : List (Except Rejection (Option Placement))}
    {placement : Placement} :
    placement ∈ placements verdicts ↔ .ok (some placement) ∈ verdicts := by
  simp only [placements, List.mem_filterMap]
  constructor
  · rintro ⟨verdict, member, same⟩
    cases verdict with
    | error other => cases same
    | ok found => exact same ▸ member
  · intro member
    exact ⟨_, member, rfl⟩

/-- A map that was built reports exactly the placed references: its frame bits and
its register bits are those of their locations, and no reference is rejected. -/
theorem build_eq_ok {map : ReferenceMap} (built : builder.build live = .ok map) :
    (∀ entry ∈ live, entry.2.isReference = true →
      ∃ placement, builder.Placed entry.2.location placement) ∧
    (∀ bit, map.frame.bits.contains bit = true ↔ ∃ entry ∈ live, entry.2.isReference = true ∧
      builder.Placed entry.2.location (some (.frame bit))) ∧
    (∀ bit, map.registers.bits.contains bit = true ↔ ∃ entry ∈ live,
      entry.2.isReference = true ∧ builder.Placed entry.2.location (some (.register bit))) ∧
    map.frame.length = builder.frameLength ∧ map.registers.length = builder.registerLength := by
  unfold build at built
  cases kept : Rejection.lowest (rejections (builder.verdicts live)) with
  | some rejection => simp [kept] at built
  | none =>
    simp only [kept, Except.ok.injEq] at built
    subst built
    have noRejection := Rejection.lowest_eq_none.mp kept
    refine ⟨?_, ?_, ?_, rfl, rfl⟩
    · intro entry member reference
      rcases place_spec builder entry.1 entry.2.location with
        ⟨placement, _, placed⟩ | ⟨rejection, same, _⟩
      · exact ⟨placement, placed⟩
      · have rejected := mem_rejections.mpr (mem_verdicts.mpr ⟨entry, member, reference, same⟩)
        rw [noRejection] at rejected
        cases rejected
    · intro bit
      simp only [Bitmap.contains_ofPositions, decide_eq_true_eq, List.mem_filterMap,
        mem_placements, mem_verdicts]
      constructor
      · rintro ⟨placement, ⟨entry, member, reference, located⟩, isFrame⟩
        cases placement with
        | register _ => cases isFrame
        | frame found =>
          rw [Option.some.inj isFrame] at located
          exact ⟨entry, member, reference, place_eq_ok.mp located⟩
      · rintro ⟨entry, member, reference, placed⟩
        exact ⟨.frame bit, ⟨entry, member, reference, place_eq_ok.mpr placed⟩, rfl⟩
    · intro bit
      simp only [Bitmap.contains_ofPositions, decide_eq_true_eq, List.mem_filterMap,
        mem_placements, mem_verdicts]
      constructor
      · rintro ⟨placement, ⟨entry, member, reference, located⟩, isRegister⟩
        cases placement with
        | frame _ => cases isRegister
        | register found =>
          rw [Option.some.inj isRegister] at located
          exact ⟨entry, member, reference, place_eq_ok.mp located⟩
      · rintro ⟨entry, member, reference, placed⟩
        exact ⟨.register bit, ⟨entry, member, reference, place_eq_ok.mpr placed⟩, rfl⟩

/-- A map that was built has the shape of its table. -/
theorem shaped_of_build {map : ReferenceMap} (built : builder.build live = .ok map) :
    Table.Shaped builder.frameLength builder.registerLength map := by
  obtain ⟨_, frameBits, registerBits, frameLength, registerLength⟩ := build_eq_ok built
  refine ⟨frameLength, registerLength, ?_, ?_⟩
  · intro bit stored
    obtain ⟨entry, _, _, placed⟩ := (frameBits bit).mp stored
    exact frameLength ▸ placed.frame_lt
  · intro bit stored
    obtain ⟨entry, _, _, placed⟩ := (registerBits bit).mp stored
    exact registerLength ▸ placed.register_lt

/-- A failed map is rejected for one of the references, and for none of a higher
number than another that could be named. -/
theorem build_eq_error {rejection : Rejection} (failed : builder.build live = .error rejection) :
    (∃ entry ∈ live, entry.2.isReference = true ∧
      builder.Unplaced entry.1 entry.2.location rejection) ∧
    ∀ entry ∈ live, entry.2.isReference = true → ∀ other,
      builder.Unplaced entry.1 entry.2.location other →
        rejection.value.number ≤ entry.1.number := by
  unfold build at failed
  cases kept : Rejection.lowest (rejections (builder.verdicts live)) with
  | none => simp [kept] at failed
  | some lowest =>
    simp only [kept, Except.error.injEq] at failed
    subst failed
    obtain ⟨member, least⟩ := Rejection.lowest_eq_some kept
    refine ⟨?_, ?_⟩
    · obtain ⟨entry, present, reference, located⟩ := mem_verdicts.mp (mem_rejections.mp member)
      exact ⟨entry, present, reference, place_eq_error.mp located⟩
    · intro entry present reference other unplaced
      have rejected := mem_rejections.mpr
        (mem_verdicts.mpr ⟨entry, present, reference, place_eq_error.mpr unplaced⟩)
      exact unplaced.value_eq ▸ least other rejected

end MapBuilder

end StackMaps
