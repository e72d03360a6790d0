import StackMaps.Proofs.Finishing
import StackMaps.Proofs.Growth

/-!
# What finishing refuses

For a method that a history reaches, the refusals of finishing are described by
the live references alone, without the order of tests in which they are found.
The contract is breached by a reference that is nowhere, is a constant, or is lost
at a call. Otherwise the first spill slot that is not a slot of the frame is
rejected, first by safepoint and then by value. Otherwise the smallest offset that
two safepoints share is named.

Two refusals that the stages know cannot occur. A register that cannot hold a
reference was never assigned to one, and the spill area covers every slot at or
above its start, so such a slot is rejected only between two slots of the frame.
-/

namespace StackMaps

namespace Method

variable {method : Method} {builder : MapBuilder}

/-- A reference of the method is live at a safepoint and is at a location. -/
def LiveAt (method : Method) (safepoint : SafepointId) (value : ValueId) (location : Location) :
    Prop :=
  ∃ record, method.value value = .ok record ∧ record.kind = .reference ∧
    record.isLiveAt safepoint = true ∧ record.location = location

/-- A live reference breaches the contract: it is nowhere, it is a constant, or a
call destroys the register it is in. -/
def Breached (method : Method) : Prop :=
  ∃ safepoint point value location, method.safepoint safepoint = .ok point ∧
    method.LiveAt safepoint value location ∧
    (location = .unassigned ∨ (∃ bits, location = .immediate bits) ∨
      (point.kind = .call ∧ ∃ register, location = .register register ∧
        method.convention.survivesCall register = .ok false))

/-- A spill slot is not a slot of the frame, and is rejected for it. It starts
between two slots, or it starts below the frame or ends above it. -/
inductive Misplaced (method : Method) (value : ValueId) (offset : Int32) : Rejection → Prop where
  | misaligned
      (uneven : ¬ (method.convention.slotSize.toNat : Int) ∣
        offset.toInt + method.convention.reserved.toNat) :
      Misplaced method value offset (.misaligned value ⟨offset, .spill⟩)
  | outOfFrame
      (even : (method.convention.slotSize.toNat : Int) ∣
        offset.toInt + method.convention.reserved.toNat)
      (beyond : offset.toInt + method.convention.reserved.toNat < 0 ∨
        (method.frameSize.toNat : Int) < offset.toInt + method.convention.slotSize.toNat) :
      Misplaced method value offset (.outOfFrame value ⟨offset, .spill⟩
        ((offset.toInt + method.convention.reserved.toNat) / method.convention.slotSize.toNat)
        ((method.convention.reserved.toNat + method.frameSize.toNat) /
          method.convention.slotSize.toNat))

/-- A reference that is live at a safepoint is in a spill slot that is rejected. -/
def Misplaces (method : Method) (safepoint : SafepointId) (value : ValueId)
    (rejection : Rejection) : Prop :=
  ∃ offset, method.LiveAt safepoint value (.spill offset) ∧ method.Misplaced value offset rejection

/-- The rejection of the lowest-numbered value at the lowest-numbered safepoint
that has one. -/
structure FirstMisplaced (method : Method) (safepoint : SafepointId) (value : ValueId)
    (rejection : Rejection) : Prop where
  misplaces : method.Misplaces safepoint value rejection
  lowest : ∀ other otherValue otherRejection, method.Misplaces other otherValue otherRejection →
    safepoint.number ≤ other.number ∧ (other = safepoint → value.number ≤ otherValue.number)

/-- The smallest offset that is the offset of two safepoints. -/
structure SmallestRepeat (method : Method) (pc : UInt32) : Prop where
  repeated : 2 ≤ (method.safepoints.map Safepoint.pc).count pc
  smallest : ∀ other, 2 ≤ (method.safepoints.map Safepoint.pc).count other → pc ≤ other

/-- Live references are the ones that are judged and drawn. -/
theorem liveAt_iff (fewValues : method.values.length < 2 ^ 32 - 1) {safepoint : SafepointId}
    {value : ValueId} {location : Location} :
    method.LiveAt safepoint value location ↔
      (value, location) ∈ Record.liveReferences method.values safepoint := by
  rw [Record.mem_liveReferences]
  constructor
  · rintro ⟨record, held, kind, live, located⟩
    exact ⟨record, (Record.mem_liveEntries fewValues).mpr ⟨held, live⟩,
      Record.isReference_iff.mpr kind, located⟩
  · rintro ⟨record, member, reference, located⟩
    obtain ⟨held, live⟩ := (Record.mem_liveEntries fewValues).mp member
    exact ⟨record, held, Record.isReference_iff.mp reference, live, located⟩

/-- A value is at one location. -/
theorem LiveAt.unique {first second : SafepointId} {value : ValueId} {left right : Location}
    (here : method.LiveAt first value left) (there : method.LiveAt second value right) :
    left = right := by
  obtain ⟨record, held, _, _, rfl⟩ := here
  obtain ⟨other, otherHeld, _, _, rfl⟩ := there
  rw [Except.ok.inj (held.symm.trans otherHeld)]

/-- A reference in a register of a coherent method is in one that can hold it. -/
theorem LiveAt.owned (coherent : method.Coherent) {safepoint : SafepointId} {value : ValueId}
    {register : Register} (live : method.LiveAt safepoint value (.register register)) :
    method.convention.owns .general register = true := by
  obtain ⟨record, held, kind, _, located⟩ := live
  have fits := coherent.fits held
  have owned := fits.owned register located
  rwa [kind] at owned

/-- A reference is live at safepoints of a coherent method only. -/
theorem LiveAt.present (coherent : method.Coherent) {safepoint : SafepointId} {value : ValueId}
    {location : Location} (live : method.LiveAt safepoint value location) :
    ∃ point, method.safepoint safepoint = .ok point := by
  obtain ⟨record, held, _, isLive, _⟩ := live
  have fits := coherent.fits held
  obtain ⟨valid, inside⟩ := fits.present safepoint.number.toNat isLive
  exact ⟨_, Handle.fetch_eq_ok.mpr ⟨valid, List.getElem?_eq_getElem inside⟩⟩

/-! ## The contract -/

/-- Nothing is due for a reference whose register, if it is in one, can hold it,
exactly when it breaches nothing. -/
theorem due_eq_none_iff {convention : Convention} {item : Contract.Item}
    (owned : ∀ register, item.location = .register register →
      convention.owns .general register = true) :
    Contract.due convention item = none ↔
      ¬ (item.location = .unassigned ∨ (∃ bits, item.location = .immediate bits) ∨
        (item.point.kind = .call ∧ ∃ register, item.location = .register register ∧
          convention.survivesCall register = .ok false)) := by
  cases located : item.location with
  | stack slot => simp [Contract.due, located]
  | immediate bits => simp [Contract.due, located]
  | unassigned => simp [Contract.due, located]
  | register register =>
    have holds := owned register located
    simp [Contract.due, located, holds, Convention.survivesCall_of_owns holds]

/-- The check accepts a coherent method exactly when no live reference breaches the
contract. -/
theorem check_accepts_iff (coherent : method.Coherent)
    (fewValues : method.values.length < 2 ^ 32 - 1)
    (fewSafepoints : method.safepoints.length < 2 ^ 32 - 1) :
    Contract.check method.convention method.values method.safepoints = .ok () ↔
      ¬ method.Breached := by
  rw [Contract.check_eq_ok, Contract.violations_eq_nil]
  constructor
  · rintro nothing ⟨safepoint, point, value, location, present, live, breach⟩
    have judged : ⟨safepoint, point, value, location⟩ ∈
        Contract.items method.values method.safepoints :=
      Contract.mem_items.mpr
        ⟨(Handle.mem_entries fewSafepoints).mpr present, (liveAt_iff fewValues).mp live⟩
    refine (due_eq_none_iff ?_).mp (nothing _ judged) breach
    rintro register rfl
    exact live.owned coherent
  · intro kept item judged
    obtain ⟨present, member⟩ := Contract.mem_items.mp judged
    have live := (liveAt_iff fewValues).mpr member
    refine (due_eq_none_iff ?_).mpr ?_
    · intro register located
      rw [located] at live
      exact live.owned coherent
    · intro breach
      exact kept ⟨item.safepoint, item.point, item.value, item.location,
        (Handle.mem_entries fewSafepoints).mp present, live, breach⟩

/-- A violation is of a live reference that is not in the stack, and is never about
a register that cannot hold a reference. -/
theorem violation_source (coherent : method.Coherent)
    (fewValues : method.values.length < 2 ^ 32 - 1) {violation : Violation}
    (found : violation ∈
      Contract.violations method.convention method.values method.safepoints) :
    (∃ safepoint location, method.LiveAt safepoint violation.value location ∧
      ∀ slot, location ≠ .stack slot) ∧
    ∀ value safepoint register, violation ≠ .foreignRegister value safepoint register := by
  obtain ⟨item, judged, isDue⟩ := Contract.due_of_mem found
  have live := (liveAt_iff fewValues).mpr (Contract.mem_items.mp judged).2
  constructor
  · rw [Contract.due_value isDue]
    refine ⟨item.safepoint, item.location, live, ?_⟩
    intro slot located
    simp [Contract.due, located] at isDue
  · rintro value safepoint register rfl
    cases located : item.location with
    | stack slot => simp [Contract.due, located] at isDue
    | immediate bits => simp [Contract.due, located] at isDue
    | unassigned => simp [Contract.due, located] at isDue
    | register held =>
      rw [located] at live
      simp [Contract.due, located, live.owned coherent] at isDue

/-! ## The maps -/

/-- A safepoint at which a reference is misplaced is among the safepoints. -/
theorem Misplaces.present (coherent : method.Coherent)
    (fewSafepoints : method.safepoints.length < 2 ^ 32 - 1) {safepoint : SafepointId}
    {value : ValueId} {rejection : Rejection}
    (misplaces : method.Misplaces safepoint value rejection) :
    ∃ point, (safepoint, point) ∈ Handle.entries method.safepoints := by
  obtain ⟨offset, live, _⟩ := misplaces
  obtain ⟨point, present⟩ := live.present coherent
  exact ⟨point, (Handle.mem_entries fewSafepoints).mpr present⟩

section

variable (made : method.mapBuilder = .ok builder) (coherent : method.Coherent)
  (kept : ¬ method.Breached)

include made coherent kept

/-- In a method that keeps the contract, the live references that no map can
describe are the misplaced ones. -/
theorem unplaced_iff {safepoint : SafepointId} {value : ValueId} {location : Location}
    (live : method.LiveAt safepoint value location) {rejection : Rejection} :
    builder.Unplaced value location rejection ↔
      ∃ offset, location = .spill offset ∧ method.Misplaced value offset rejection := by
  obtain ⟨sameConvention, sameSize, sameWidth⟩ := mapBuilder_eq_ok.mp made
  have start : ∀ offset : Int32, builder.startOf offset =
      offset.toInt + method.convention.reserved.toNat := by
    intro offset
    rw [MapBuilder.startOf, sameConvention]
  have bits : builder.frameBits = (method.convention.reserved.toNat + method.frameSize.toNat) /
      method.convention.slotSize.toNat := by
    rw [MapBuilder.frameBits, sameConvention, sameSize, sameWidth]
  obtain ⟨point, present⟩ := live.present coherent
  constructor
  · intro unplaced
    cases unplaced with
    | unassigned =>
      exact absurd ⟨safepoint, point, value, _, present, live, Or.inl rfl⟩ kept
    | immediate constant =>
      exact absurd ⟨safepoint, point, value, _, present, live, Or.inr (Or.inl ⟨constant, rfl⟩)⟩
        kept
    | foreign register unowned =>
      rw [sameConvention, live.owned coherent] at unowned
      cases unowned
    | misaligned offset uneven =>
      rw [start, sameWidth] at uneven
      exact ⟨offset, rfl, .misaligned uneven⟩
    | outside offset even beyond =>
      rw [start, sameWidth] at even
      rw [start, sameWidth, sameSize] at beyond
      rw [start, sameWidth, bits]
      exact ⟨offset, rfl, .outOfFrame even beyond⟩
  · rintro ⟨offset, rfl, misplaced⟩
    cases misplaced with
    | misaligned uneven =>
      rw [← start, ← sameWidth] at uneven
      exact .misaligned offset uneven
    | outOfFrame even beyond =>
      rw [← start, ← sameWidth] at even
      rw [← start, ← sameWidth, ← sameSize] at beyond
      rw [← start, ← bits, ← sameWidth]
      exact .outside offset even beyond

/-- A map that is drawn has no misplaced reference. -/
theorem not_misplaces_of_mapAt (fewValues : method.values.length < 2 ^ 32 - 1)
    {safepoint : SafepointId} {map : ReferenceMap}
    (drawn : method.mapAt builder safepoint = .ok map) (value : ValueId)
    (rejection : Rejection) : ¬ method.Misplaces safepoint value rejection := by
  rintro ⟨offset, live, misplaced⟩
  have unplaced := (unplaced_iff made coherent kept live).mpr ⟨offset, rfl, misplaced⟩
  obtain ⟨record, member, reference, located⟩ :=
    Record.mem_liveReferences.mp ((liveAt_iff fewValues).mp live)
  obtain ⟨placement, placed⟩ :=
    (MapBuilder.build_eq_ok drawn).1 (value, record) member reference
  rw [located] at placed
  exact placed.not_unplaced unplaced

/-- A map that is rejected has a misplaced reference, and names the
lowest-numbered one. -/
theorem misplaces_of_mapAt (fewValues : method.values.length < 2 ^ 32 - 1)
    {safepoint : SafepointId} {rejection : Rejection}
    (failed : method.mapAt builder safepoint = .error rejection) :
    method.Misplaces safepoint rejection.value rejection ∧
      ∀ otherValue otherRejection, method.Misplaces safepoint otherValue otherRejection →
        rejection.value.number ≤ otherValue.number := by
  obtain ⟨⟨⟨value, record⟩, member, reference, unplaced⟩, lowest⟩ :=
    MapBuilder.build_eq_error failed
  constructor
  · have live : method.LiveAt safepoint value record.location :=
      (liveAt_iff fewValues).mpr (Record.mem_liveReferences.mpr ⟨record, member, reference, rfl⟩)
    obtain ⟨offset, located, misplaced⟩ := (unplaced_iff made coherent kept live).mp unplaced
    rw [unplaced.value_eq]
    rw [located] at live
    exact ⟨offset, live, misplaced⟩
  · rintro otherValue otherRejection ⟨offset, live, misplaced⟩
    have otherUnplaced := (unplaced_iff made coherent kept live).mpr ⟨offset, rfl, misplaced⟩
    obtain ⟨other, otherMember, otherReference, otherLocated⟩ :=
      Record.mem_liveReferences.mp ((liveAt_iff fewValues).mp live)
    rw [← otherLocated] at otherUnplaced
    exact lowest (otherValue, other) otherMember otherReference otherRejection otherUnplaced

/-- The first map that is rejected is that of the first safepoint with a misplaced
reference. -/
theorem firstMisplaced_of_order (fewValues : method.values.length < 2 ^ 32 - 1)
    (fewSafepoints : method.safepoints.length < 2 ^ 32 - 1)
    {before after : List (SafepointId × Safepoint)} {entry : SafepointId × Safepoint}
    {rejection : Rejection} (order : Handle.entries method.safepoints = before ++ entry :: after)
    (earlier : ∀ other ∈ before, ∃ map, method.mapAt builder other.1 = .ok map)
    (failed : method.mapAt builder entry.1 = .error rejection) :
    method.FirstMisplaced entry.1 rejection.value rejection := by
  obtain ⟨misplaces, lowest⟩ := misplaces_of_mapAt made coherent kept fewValues failed
  refine ⟨misplaces, ?_⟩
  intro other otherValue otherRejection otherMisplaces
  obtain ⟨point, member⟩ := otherMisplaces.present coherent fewSafepoints
  rw [order, List.mem_append, List.mem_cons] at member
  rcases member with inBefore | rfl | inAfter
  · obtain ⟨map, drawn⟩ := earlier _ inBefore
    exact absurd otherMisplaces
      (not_misplaces_of_mapAt made coherent kept fewValues drawn otherValue otherRejection)
  · exact ⟨UInt32.le_refl _, fun _ => lowest otherValue otherRejection otherMisplaces⟩
  · have ascending := Handle.entries_ascending fewSafepoints
    rw [order] at ascending
    have above : entry.1.number.toNat < other.number.toNat :=
      (List.pairwise_cons.mp (List.pairwise_append.mp ascending).2.1).1 _ inAfter
    refine ⟨UInt32.le_iff_toNat_le.mpr (Nat.le_of_lt above), ?_⟩
    rintro rfl
    omega

end

/-- A rejection names the value that is misplaced. -/
theorem Misplaced.value_eq {value : ValueId} {offset : Int32} {rejection : Rejection}
    (misplaced : method.Misplaced value offset rejection) : rejection.value = value := by
  cases misplaced <;> rfl

/-- A reference in an aligned slot at or above the start of the spill area is not
misplaced. -/
theorem not_misplaced_of_aligned (coherent : method.Coherent) {safepoint : SafepointId}
    {value : ValueId} {offset : Int32} (live : method.LiveAt safepoint value (.spill offset))
    (above : 0 ≤ offset)
    (even : (method.convention.slotSize.toNat : Int) ∣
      offset.toInt + method.convention.reserved.toNat)
    (rejection : Rejection) : ¬ method.Misplaced value offset rejection := by
  obtain ⟨record, held, _, _, located⟩ := live
  have fits := coherent.fits held
  obtain ⟨bytes, sized, inside⟩ := fits.covered offset located above
  have wide := slotSize_le_slotBytes sized
  have spelled := toNat_toUInt32_of_nonneg above
  intro misplaced
  cases misplaced with
  | misaligned uneven => exact uneven even
  | outOfFrame _ beyond => omega

/-! ## The table -/

section

variable {maps : List (UInt32 × ReferenceMap)}
  (mapped : method.Mapped builder (Handle.entries method.safepoints) maps)

include mapped

/-- Ordering the maps of all safepoints keeps how often an offset occurs. -/
theorem count_ordered (pc : UInt32) :
    ((Table.ordered maps).map Prod.fst).count pc =
      (method.safepoints.map Safepoint.pc).count pc := by
  rw [((Table.ordered_perm maps).map Prod.fst).count_eq, mapped.offsets]

/-- The repeat that is found is the smallest offset that two safepoints share. -/
theorem smallestRepeat_of_firstRepeat {pc : UInt32}
    (repeats : Table.firstRepeat ((Table.ordered maps).map Prod.fst) = some pc) :
    method.SmallestRepeat pc := by
  obtain ⟨twice, smallest⟩ :=
    Table.firstRepeat_eq_some (Table.ordered_pcs_ascending maps) repeats
  rw [count_ordered mapped] at twice
  refine ⟨twice, ?_⟩
  intro other otherTwice
  rw [← count_ordered mapped] at otherTwice
  exact smallest other otherTwice

/-- Without a repeat, the safepoints have different offsets. -/
theorem nodup_of_firstRepeat
    (distinct : Table.firstRepeat ((Table.ordered maps).map Prod.fst) = none) :
    (method.safepoints.map Safepoint.pc).Nodup := by
  have ascending := Table.firstRepeat_eq_none (Table.ordered_pcs_ascending maps) distinct
  rw [← mapped.offsets]
  exact ((Table.ordered_perm maps).map Prod.fst).nodup_iff.mp (ascending.imp UInt32.ne_of_lt)

end

/-- Different offsets have no repeat. -/
theorem SmallestRepeat.not_nodup {pc : UInt32} (repeats : method.SmallestRepeat pc) :
    ¬ (method.safepoints.map Safepoint.pc).Nodup := by
  intro distinct
  have once := List.nodup_iff_count.mp distinct pc
  have twice := repeats.repeated
  omega

/-! ## All outcomes -/

/-- What the outcome of finishing a method says about its live references and its
safepoints. -/
inductive Verdict (method : Method) : Except CompileFailure CompiledMethod → Prop where
  | contract (breached : method.Breached) :
      Verdict method (.error (method.refuse (.contract
        (Contract.violations method.convention method.values method.safepoints))))
  | rejected {rejection : Rejection} (kept : ¬ method.Breached)
      (first : ∃ safepoint value, method.FirstMisplaced safepoint value rejection) :
      Verdict method (.error (method.refuse (.rejected rejection)))
  | duplicate {pc : UInt32} (kept : ¬ method.Breached)
      (placed : ∀ safepoint value rejection, ¬ method.Misplaces safepoint value rejection)
      (repeats : method.SmallestRepeat pc) :
      Verdict method (.error (method.refuse (.duplicateSafepoint pc)))
  | compiled {compiled : CompiledMethod} (kept : ¬ method.Breached)
      (placed : ∀ safepoint value rejection, ¬ method.Misplaces safepoint value rejection)
      (distinct : (method.safepoints.map Safepoint.pc).Nodup) : Verdict method (.ok compiled)

/-- The outcome of finishing a coherent method says what the verdict says. -/
theorem Outcome.verdict (made : method.mapBuilder = .ok builder) (coherent : method.Coherent)
    (fewValues : method.values.length < 2 ^ 32 - 1)
    (fewSafepoints : method.safepoints.length < 2 ^ 32 - 1)
    {outcome : Except CompileFailure CompiledMethod} (ended : method.Outcome builder outcome) :
    method.Verdict outcome := by
  have accepts := check_accepts_iff coherent fewValues fewSafepoints
  have allPlaced : ∀ maps, method.Mapped builder (Handle.entries method.safepoints) maps →
      ¬ method.Breached → ∀ safepoint value rejection,
        ¬ method.Misplaces safepoint value rejection := by
    intro maps mapped kept safepoint value rejection misplaces
    obtain ⟨point, member⟩ := misplaces.present coherent fewSafepoints
    obtain ⟨map, _, drawn⟩ := mapped.drawn _ member
    exact not_misplaces_of_mapAt made coherent kept fewValues drawn value rejection misplaces
  cases ended with
  | breached refused =>
    have breached : method.Breached := by
      refine Classical.byContradiction fun kept => ?_
      rw [accepts.mpr kept] at refused
      cases refused
    rw [← (Contract.check_eq_error.mp refused).2]
    exact .contract breached
  | rejected accepted order earlier failed =>
    have kept := accepts.mp accepted
    exact .rejected kept ⟨_, _,
      firstMisplaced_of_order made coherent kept fewValues fewSafepoints order earlier failed⟩
  | repeated accepted mapped repeats =>
    have kept := accepts.mp accepted
    exact .duplicate kept (allPlaced _ mapped kept) (smallestRepeat_of_firstRepeat mapped repeats)
  | compiled accepted mapped distinct =>
    have kept := accepts.mp accepted
    exact .compiled kept (allPlaced _ mapped kept) (nodup_of_firstRepeat mapped distinct)

section

variable {outcome : Except CompileFailure CompiledMethod}

/-- The contract is the reason exactly when it is breached. -/
theorem Verdict.contract_iff (verdict : method.Verdict outcome) :
    (∃ found, outcome = .error (method.refuse (.contract found))) ↔ method.Breached := by
  cases verdict with
  | contract breached => exact ⟨fun _ => breached, fun _ => ⟨_, rfl⟩⟩
  | rejected kept first => simp [refuse, kept]
  | duplicate kept placed repeats => simp [refuse, kept]
  | compiled kept placed distinct => simp [kept]

/-- A rejection is the reason exactly when the contract is kept and a reference is
misplaced. -/
theorem Verdict.rejected_iff (verdict : method.Verdict outcome) :
    (∃ rejection, outcome = .error (method.refuse (.rejected rejection))) ↔
      ¬ method.Breached ∧
        ∃ safepoint value rejection, method.Misplaces safepoint value rejection := by
  cases verdict with
  | contract breached => simp [refuse, breached]
  | rejected kept first =>
    obtain ⟨safepoint, value, first⟩ := first
    exact ⟨fun _ => ⟨kept, safepoint, value, _, first.misplaces⟩, fun _ => ⟨_, rfl⟩⟩
  | duplicate kept placed repeats => simp [refuse, placed]
  | compiled kept placed distinct => simp [placed]

/-- The reference that is rejected is the first that is misplaced. -/
theorem Verdict.rejected_first (verdict : method.Verdict outcome) {rejection : Rejection}
    (reason : outcome = .error (method.refuse (.rejected rejection))) :
    ∃ safepoint value, method.FirstMisplaced safepoint value rejection := by
  cases verdict with
  | rejected kept first =>
    simp only [refuse, Except.error.injEq, CompileFailure.mk.injEq, Failure.rejected.injEq,
      true_and] at reason
    rwa [← reason]
  | contract breached => simp [refuse] at reason
  | duplicate kept placed repeats => simp [refuse] at reason
  | compiled kept placed distinct => cases reason

/-- A shared offset is the reason exactly when nothing before it is and two
safepoints share one. -/
theorem Verdict.duplicate_iff (verdict : method.Verdict outcome) :
    (∃ pc, outcome = .error (method.refuse (.duplicateSafepoint pc))) ↔
      ¬ method.Breached ∧
        (∀ safepoint value rejection, ¬ method.Misplaces safepoint value rejection) ∧
        ¬ (method.safepoints.map Safepoint.pc).Nodup := by
  cases verdict with
  | contract breached => simp [refuse, breached]
  | rejected kept first =>
    obtain ⟨safepoint, value, first⟩ := first
    simp only [refuse, Except.error.injEq, CompileFailure.mk.injEq, reduceCtorEq, and_false,
      exists_false, false_iff]
    rintro ⟨_, placed, _⟩
    exact placed safepoint value _ first.misplaces
  | duplicate kept placed repeats =>
    exact ⟨fun _ => ⟨kept, placed, repeats.not_nodup⟩, fun _ => ⟨_, rfl⟩⟩
  | compiled kept placed distinct => simp [distinct]

/-- The offset that is named is the smallest that is shared. -/
theorem Verdict.duplicate_smallest (verdict : method.Verdict outcome) {pc : UInt32}
    (reason : outcome = .error (method.refuse (.duplicateSafepoint pc))) :
    method.SmallestRepeat pc := by
  cases verdict with
  | duplicate kept placed repeats =>
    simp only [refuse, Except.error.injEq, CompileFailure.mk.injEq,
      Failure.duplicateSafepoint.injEq, true_and] at reason
    rwa [← reason]
  | contract breached => simp [refuse] at reason
  | rejected kept first => simp [refuse] at reason
  | compiled kept placed distinct => cases reason

/-- A method compiles exactly when there is no reason against it. -/
theorem Verdict.compiled_iff (verdict : method.Verdict outcome) :
    (∃ compiled, outcome = .ok compiled) ↔
      ¬ method.Breached ∧
        (∀ safepoint value rejection, ¬ method.Misplaces safepoint value rejection) ∧
        (method.safepoints.map Safepoint.pc).Nodup := by
  cases verdict with
  | contract breached => simp [breached]
  | rejected kept first =>
    obtain ⟨safepoint, value, first⟩ := first
    simp only [reduceCtorEq, exists_false, false_iff]
    rintro ⟨_, placed, _⟩
    exact placed safepoint value _ first.misplaces
  | duplicate kept placed repeats => simp [repeats.not_nodup]
  | compiled kept placed distinct => exact ⟨fun _ => ⟨kept, placed, distinct⟩, fun _ => ⟨_, rfl⟩⟩

/-- The violations that are reported are all that were found. -/
theorem Verdict.contract_found (verdict : method.Verdict outcome) {found : List Violation}
    (reason : outcome = .error (method.refuse (.contract found))) :
    found = Contract.violations method.convention method.values method.safepoints := by
  cases verdict with
  | contract breached =>
    simp only [refuse, Except.error.injEq, CompileFailure.mk.injEq, Failure.contract.injEq,
      true_and] at reason
    exact reason.symm
  | rejected kept first => simp [refuse] at reason
  | duplicate kept placed repeats => simp [refuse] at reason
  | compiled kept placed distinct => cases reason

end

end Method

/-- Finishing a method that a history reaches, with slots of some width and a frame
below 2³² bytes, completes. It refuses for the contract exactly when a live
reference breaches it. Otherwise it rejects a reference exactly when one is
misplaced, and then the lowest-numbered one at the lowest-numbered safepoint that
has one. Otherwise it names the smallest shared offset exactly when two safepoints
share one, and otherwise it compiles. There are no other refusals, no register is
ever foreign, and a reference in an aligned slot at or above the start of the spill
area is never to blame. -/
theorem finish_refuses_exactly {name : String} {convention : Convention}
    {actions : List Method.Action} {method : Method}
    (width : 0 < convention.slotSize.toNat)
    (reached : (Method.begin name convention).run actions = .ok method)
    (fits : convention.reserved.toNat + method.frameSize.toNat < 2 ^ 32)
    (fewValues : method.values.length < 2 ^ 32 - 1)
    (fewSafepoints : method.safepoints.length < 2 ^ 32 - 1) :
    ∃ outcome, method.finish = .ok outcome ∧
      ((∃ found, outcome = .error (method.refuse (.contract found))) ↔ method.Breached) ∧
      ((∃ rejection, outcome = .error (method.refuse (.rejected rejection))) ↔
        ¬ method.Breached ∧
          ∃ safepoint value rejection, method.Misplaces safepoint value rejection) ∧
      (∀ rejection, outcome = .error (method.refuse (.rejected rejection)) →
        ∃ safepoint value, method.FirstMisplaced safepoint value rejection) ∧
      ((∃ pc, outcome = .error (method.refuse (.duplicateSafepoint pc))) ↔
        ¬ method.Breached ∧
          (∀ safepoint value rejection, ¬ method.Misplaces safepoint value rejection) ∧
          ¬ (method.safepoints.map Safepoint.pc).Nodup) ∧
      (∀ pc, outcome = .error (method.refuse (.duplicateSafepoint pc)) →
        method.SmallestRepeat pc) ∧
      ((∃ compiled, outcome = .ok compiled) ↔
        ¬ method.Breached ∧
          (∀ safepoint value rejection, ¬ method.Misplaces safepoint value rejection) ∧
          (method.safepoints.map Safepoint.pc).Nodup) ∧
      (∀ failure, outcome = .error failure →
        (∃ found, failure = method.refuse (.contract found) ∧
          ∀ value safepoint register, .foreignRegister value safepoint register ∉ found) ∨
        (∃ rejection, failure = method.refuse (.rejected rejection)) ∨
        ∃ pc, failure = method.refuse (.duplicateSafepoint pc)) ∧
      ∀ safepoint value offset, method.LiveAt safepoint value (.spill offset) → 0 ≤ offset →
        (convention.slotSize.toNat : Int) ∣ offset.toInt + convention.reserved.toNat →
        (∀ found, outcome = .error (method.refuse (.contract found)) →
          ∀ violation ∈ found, violation.value ≠ value) ∧
        ∀ rejection, outcome = .error (method.refuse (.rejected rejection)) →
          rejection.value ≠ value := by
  obtain rfl := (Method.identity_run reached).1
  have coherent := Method.coherent_run reached
  obtain ⟨builder, made⟩ := Method.mapBuilder_exists width fits
  obtain ⟨outcome, finished, ended⟩ := Method.finish_outcome made fewSafepoints
  have verdict := ended.verdict made coherent fewValues fewSafepoints
  refine ⟨outcome, finished, verdict.contract_iff, verdict.rejected_iff,
    fun _ => verdict.rejected_first, verdict.duplicate_iff, fun _ => verdict.duplicate_smallest,
    verdict.compiled_iff, ?_, ?_⟩
  · rintro failure rfl
    cases ended with
    | breached refused =>
      refine Or.inl ⟨_, rfl, ?_⟩
      intro value safepoint register foreign
      rw [verdict.contract_found rfl] at foreign
      exact (Method.violation_source coherent fewValues foreign).2 _ _ _ rfl
    | rejected => exact Or.inr (Or.inl ⟨_, rfl⟩)
    | repeated => exact Or.inr (Or.inr ⟨_, rfl⟩)
  · intro safepoint value offset live above even
    constructor
    · intro found reason violation member same
      rw [verdict.contract_found reason] at member
      obtain ⟨⟨other, location, otherLive, notStack⟩, _⟩ :=
        Method.violation_source coherent fewValues member
      rw [same] at otherLive
      exact notStack _ (otherLive.unique live)
    · intro rejection reason same
      obtain ⟨other, otherValue, first⟩ := verdict.rejected_first reason
      obtain ⟨otherOffset, otherLive, misplaced⟩ := first.misplaces
      obtain rfl : otherValue = value := misplaced.value_eq.symm.trans same
      obtain rfl : otherOffset = offset := by
        have located := otherLive.unique live
        simpa [Location.spill] using located
      exact Method.not_misplaced_of_aligned coherent live above even rejection misplaced

/-- A history whose second safepoint has a reference between two slots and one
below the frame, and the offset of the first. -/
def misplacedHistory : List Method.Action :=
  [.newValue .reference, .newValue .reference, .newValue .reference,
    .assign (Handle.ofNat 0) (.spill 4), .assign (Handle.ofNat 1) (.spill (-184)),
    .assign (Handle.ofNat 2) (.spill 8), .addSafepoint 8 .poll, .addSafepoint 8 .call,
    .markLive (Handle.ofNat 2) (Handle.ofNat 0), .markLive (Handle.ofNat 1) (Handle.ofNat 1),
    .markLive (Handle.ofNat 0) (Handle.ofNat 1)]

/-- The reference between two slots has the lowest number, and the shared offset is
not looked at. -/
theorem finish_refuses_exactly_misplaced :
    ∃ method, (Method.begin "misplaced" Convention.sparcv9).run misplacedHistory = .ok method ∧
      method.finish = .ok (.error (method.refuse
        (.rejected (.misaligned (Handle.ofNat 0) ⟨4, .spill⟩)))) ∧
      (∃ safepoint value, method.FirstMisplaced safepoint value
        (.misaligned (Handle.ofNat 0) ⟨4, .spill⟩)) ∧
      ¬ method.Breached := by
  obtain ⟨outcome, finished, _, rejected, first, _⟩ := finish_refuses_exactly (by decide)
    (rfl : (Method.begin "misplaced" Convention.sparcv9).run misplacedHistory = .ok _)
    (by decide) (by decide) (by decide)
  have reason := Except.ok.inj (finished.symm.trans rfl)
  exact ⟨_, rfl, rfl, first _ reason, (rejected.mp ⟨_, reason⟩).1⟩

end StackMaps
