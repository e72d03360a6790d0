import StackMaps.Method
import StackMaps.Proofs.Checking
import StackMaps.Proofs.Drawing

/-!
# The outcomes of finishing

Finishing goes through three stages, and each can refuse: the allocation contract,
the maps of the safepoints in order, and the table, which takes no offset twice.
`Outcome` has one case for each refusal and one for success, and says which stages
were passed. Once the frame has a builder, finishing always completes with one of
these outcomes: a frame below 2³² bytes with fewer than 2³² safepoints takes less
than 2⁶³ bytes of table.
-/

namespace StackMaps

namespace Convention

/-- A running maximum of numbers up to a bound stays below it. -/
theorem foldl_max_le {numbers : List Nat} {start bound : Nat} (startBelow : start ≤ bound)
    (below : ∀ number ∈ numbers, number ≤ bound) : numbers.foldl max start ≤ bound := by
  induction numbers generalizing start with
  | nil => exact startBelow
  | cons first rest induction =>
    have firstBelow : first ≤ bound := below first (by simp)
    refine induction (by omega) ?_
    intro number member
    exact below number (by simp [member])

/-- Save words have 16 bits. -/
theorem saveSpace_le (convention : Convention) : convention.saveSpace ≤ 2 ^ 16 := by
  refine foldl_max_le (by decide) ?_
  intro number member
  obtain ⟨place, _, found⟩ := List.mem_filterMap.mp member
  obtain ⟨word, _, rfl⟩ := Option.map_eq_some_iff.mp found
  have small : word.toNat < 2 ^ 16 := word.toNat_lt
  omega

end Convention

namespace MapBuilder

variable (builder : MapBuilder)

/-- The bits of a frame are fewer than the bytes that a frame can have. -/
theorem frameLength_lt : builder.frameLength < 2 ^ 32 := by
  have slots : builder.frameBits < 2 ^ 32 :=
    Nat.lt_of_le_of_lt (Nat.div_le_self _ _) builder.fits
  have words : builder.convention.saveSpace ≤ 2 ^ 16 := builder.convention.saveSpace_le
  rw [frameLength]
  omega

/-- A register bitmap has a bit for each register that may hold a reference. -/
theorem registerLength_le : builder.registerLength ≤ 32 :=
  builder.convention.target.length_registers_le .general

/-- The table of fewer than 2³² maps fits into memory. -/
theorem capacity (count : Nat) (few : count < 2 ^ 32) :
    count * Table.strideFor builder.frameLength builder.registerLength < 2 ^ 63 := by
  have frame := builder.frameLength_lt
  have registers := builder.registerLength_le
  have stride : Table.strideFor builder.frameLength builder.registerLength ≤ 2 ^ 30 := by
    simp only [Table.strideFor, Byte.countFor]
    omega
  calc count * Table.strideFor builder.frameLength builder.registerLength
      ≤ 2 ^ 32 * 2 ^ 30 := Nat.mul_le_mul (by omega) stride
    _ < 2 ^ 63 := by decide

end MapBuilder

namespace Method

variable {method : Method} {builder : MapBuilder}

/-- The builder of a method is the one with its convention and its frame. -/
theorem mapBuilder_eq_ok : method.mapBuilder = .ok builder ↔
    builder.convention = method.convention ∧ builder.layout.size = method.frameSize ∧
      builder.layout.width = method.convention.slotSize := by
  simp only [mapBuilder, layout, FrameLayout.ofConvention, FrameLayout.make, MapBuilder.make,
    Checked.bind_eq_ok]
  constructor
  · rintro ⟨layout, laid, made⟩
    split at laid
    · cases laid
      split at made
      · cases made
        exact ⟨rfl, rfl, rfl⟩
      · cases made
    · cases laid
  · rintro ⟨sameConvention, sameSize, sameWidth⟩
    refine ⟨builder.layout, ?_, ?_⟩
    · have positive : 0 < method.convention.slotSize.toNat := sameWidth ▸ builder.layout.width_pos
      rw [dif_pos positive]
      simp only [← sameSize, ← sameWidth]
    · rw [← sameConvention, dif_pos builder.fits]

/-- A method has a builder when its slots have a width and its frame is below 2³²
bytes. -/
theorem mapBuilder_exists (width : 0 < method.convention.slotSize.toNat)
    (fits : method.convention.reserved.toNat + method.frameSize.toNat < 2 ^ 32) :
    ∃ builder, method.mapBuilder = .ok builder :=
  ⟨⟨method.convention, ⟨method.frameSize, method.convention.slotSize, width⟩, fits⟩,
    mapBuilder_eq_ok.mpr ⟨rfl, rfl, rfl⟩⟩

/-- The map at a safepoint, or its rejection. -/
def mapAt (method : Method) (builder : MapBuilder) (safepoint : SafepointId) :
    Except Rejection ReferenceMap :=
  builder.build (Record.liveEntries method.values safepoint)

/-- Maps that belong to safepoints, one for each, in order. -/
structure Mapped (method : Method) (builder : MapBuilder)
    (entries : List (SafepointId × Safepoint)) (maps : List (UInt32 × ReferenceMap)) : Prop where
  pcs : maps.map Prod.fst = entries.map fun entry => entry.2.pc
  drawn : ∀ entry ∈ entries, ∃ map, (entry.2.pc, map) ∈ maps ∧
    method.mapAt builder entry.1 = .ok map
  shaped : ∀ item ∈ maps, Table.Shaped builder.frameLength builder.registerLength item.2

/-- The first map comes first: its rejection ends the drawing, and otherwise the
other maps follow it. -/
theorem mapsOf_cons (method : Method) (builder : MapBuilder) {entry : SafepointId × Safepoint}
    (rest : List (SafepointId × Safepoint)) (valid : entry.1.number.toNat < 2 ^ 32 - 1) :
    method.mapsOf builder (entry :: rest) =
      match method.mapAt builder entry.1 with
      | .error rejection => .ok (.error rejection)
      | .ok map => do
        match ← method.mapsOf builder rest with
        | .error rejection => return .error rejection
        | .ok later => return .ok ((entry.2.pc, map) :: later) := by
  rw [mapsOf, Record.liveEntriesChecked_eq valid, Checked.ok_bind, MapBuilder.buildChecked_eq,
    Checked.ok_bind, mapAt]
  cases builder.build (Record.liveEntries method.values entry.1) <;> rfl

/-- Drawing the maps completes: all are drawn, or the first that is rejected ends
it. -/
theorem mapsOf_spec (method : Method) (builder : MapBuilder)
    (entries : List (SafepointId × Safepoint))
    (valid : ∀ entry ∈ entries, entry.1.number.toNat < 2 ^ 32 - 1) :
    (∃ maps, method.mapsOf builder entries = .ok (.ok maps) ∧
      method.Mapped builder entries maps) ∨
    ∃ before entry after rejection, entries = before ++ entry :: after ∧
      (∀ earlier ∈ before, ∃ map, method.mapAt builder earlier.1 = .ok map) ∧
      method.mapAt builder entry.1 = .error rejection ∧
      method.mapsOf builder entries = .ok (.error rejection) := by
  induction entries with
  | nil => exact Or.inl ⟨[], rfl, rfl, by simp, by simp⟩
  | cons first rest induction =>
    have unfolded := mapsOf_cons method builder rest (valid first (by simp))
    cases drawn : method.mapAt builder first.1 with
    | error rejection =>
      rw [drawn] at unfolded
      exact Or.inr ⟨[], first, rest, rejection, rfl, by simp, drawn, unfolded⟩
    | ok map =>
      rw [drawn] at unfolded
      have later : ∀ entry ∈ rest, entry.1.number.toNat < 2 ^ 32 - 1 := by
        intro entry member
        exact valid entry (by simp [member])
      rcases induction later with ⟨maps, all, mapped⟩ |
        ⟨before, entry, after, rejection, rfl, earlier, failed, ended⟩
      · refine Or.inl ⟨(first.2.pc, map) :: maps, by rw [unfolded, all]; rfl, ?_, ?_, ?_⟩
        · simp [mapped.pcs]
        · intro entry member
          rcases List.mem_cons.mp member with rfl | inRest
          · exact ⟨map, by simp, drawn⟩
          · obtain ⟨other, present, built⟩ := mapped.drawn entry inRest
            exact ⟨other, by simp [present], built⟩
        · intro item member
          rcases List.mem_cons.mp member with rfl | inRest
          · exact MapBuilder.shaped_of_build drawn
          · exact mapped.shaped item inRest
      · refine Or.inr ⟨first :: before, entry, after, rejection, rfl, ?_, failed, ?_⟩
        · intro other member
          rcases List.mem_cons.mp member with rfl | inBefore
          · exact ⟨map, drawn⟩
          · exact earlier other inBefore
        · rw [unfolded, ended]
          rfl

/-- How finishing a method ends, for the builder of its frame. -/
inductive Outcome (method : Method) (builder : MapBuilder) :
    Except CompileFailure CompiledMethod → Prop where
  /-- The contract is breached. -/
  | breached {found : List Violation}
      (refused : Contract.check method.convention method.values method.safepoints = .error found) :
      Outcome method builder (.error (method.refuse (.contract found)))
  /-- The first map that cannot be drawn is rejected. -/
  | rejected {before after : List (SafepointId × Safepoint)} {entry : SafepointId × Safepoint}
      {rejection : Rejection}
      (accepted : Contract.check method.convention method.values method.safepoints = .ok ())
      (order : Handle.entries method.safepoints = before ++ entry :: after)
      (earlier : ∀ other ∈ before, ∃ map, method.mapAt builder other.1 = .ok map)
      (failed : method.mapAt builder entry.1 = .error rejection) :
      Outcome method builder (.error (method.refuse (.rejected rejection)))
  /-- Two maps are for one offset. -/
  | repeated {maps : List (UInt32 × ReferenceMap)} {pc : UInt32}
      (accepted : Contract.check method.convention method.values method.safepoints = .ok ())
      (mapped : method.Mapped builder (Handle.entries method.safepoints) maps)
      (repeats : Table.firstRepeat ((Table.ordered maps).map Prod.fst) = some pc) :
      Outcome method builder (.error (method.refuse (.duplicateSafepoint pc)))
  | compiled {maps : List (UInt32 × ReferenceMap)}
      (accepted : Contract.check method.convention method.values method.safepoints = .ok ())
      (mapped : method.Mapped builder (Handle.entries method.safepoints) maps)
      (distinct : Table.firstRepeat ((Table.ordered maps).map Prod.fst) = none) :
      Outcome method builder
        (.ok (method.compiledWith
          (Table.packed builder.frameLength builder.registerLength maps)))

/-- Maps of all safepoints are as many as the safepoints. -/
theorem Mapped.length {maps : List (UInt32 × ReferenceMap)}
    (mapped : method.Mapped builder (Handle.entries method.safepoints) maps) :
    maps.length = method.safepoints.length := by
  have same := congrArg List.length mapped.pcs
  simpa [Handle.entries] using same

/-- Maps of all safepoints are for the offsets of the safepoints. -/
theorem Mapped.offsets {maps : List (UInt32 × ReferenceMap)}
    (mapped : method.Mapped builder (Handle.entries method.safepoints) maps) :
    maps.map Prod.fst = method.safepoints.map Safepoint.pc := by
  rw [mapped.pcs]
  apply List.ext_getElem?
  intro position
  simp only [List.getElem?_map, Handle.getElem?_entries, Option.map_map]
  rfl

/-- The handles of the entries of a method are valid. -/
theorem entries_valid (fewSafepoints : method.safepoints.length < 2 ^ 32 - 1) :
    ∀ entry ∈ Handle.entries method.safepoints, entry.1.number.toNat < 2 ^ 32 - 1 := by
  intro entry member
  have inside := Handle.entries_bounded fewSafepoints member
  omega

section

variable (made : method.mapBuilder = .ok builder)
  (fewSafepoints : method.safepoints.length < 2 ^ 32 - 1)

include made fewSafepoints

/-- Where the contract is kept, the maps that are drawn are packed, unless two of them are
for one offset. -/
theorem table_of_maps
    (accepted : Contract.check method.convention method.values method.safepoints = .ok ())
    {maps : List (UInt32 × ReferenceMap)}
    (drawn : method.mapsOf builder (Handle.entries method.safepoints) = .ok (.ok maps)) :
    method.table = .ok (match Table.firstRepeat ((Table.ordered maps).map Prod.fst) with
      | some pc => .error (.duplicateSafepoint pc)
      | none => .ok (Table.packed builder.frameLength builder.registerLength maps)) := by
  have mapped : method.Mapped builder (Handle.entries method.safepoints) maps := by
    rcases mapsOf_spec method builder _ (entries_valid fewSafepoints) with
      ⟨_, alsoDrawn, mapped⟩ | ⟨_, _, _, _, _, _, _, ended⟩
    · cases drawn.symm.trans alsoDrawn
      exact mapped
    · cases drawn.symm.trans ended
  have frameSmall := builder.frameLength_lt
  have registersSmall := builder.registerLength_le
  have fits := builder.capacity maps.length (by rw [mapped.length]; omega)
  rw [table, Contract.run_eq method.convention method.values fewSafepoints, accepted,
    Checked.ok_bind]
  dsimp only
  rw [made, Checked.ok_bind, drawn, Checked.ok_bind]
  exact Table.ofMaps_eq (by omega) (by omega) fits mapped.shaped

/-- A method that keeps the contract and whose maps are drawn for different offsets is
compiled. -/
theorem finish_of_maps
    (accepted : Contract.check method.convention method.values method.safepoints = .ok ())
    {maps : List (UInt32 × ReferenceMap)}
    (drawn : method.mapsOf builder (Handle.entries method.safepoints) = .ok (.ok maps))
    (distinct : Table.firstRepeat ((Table.ordered maps).map Prod.fst) = none) :
    method.finish = .ok (.ok (method.compiledWith
      (Table.packed builder.frameLength builder.registerLength maps))) := by
  rw [finish, table_of_maps made fewSafepoints accepted drawn, distinct]
  rfl

/-- Finishing a method whose frame has a builder completes with one of the
outcomes. -/
theorem finish_outcome :
    ∃ outcome, method.finish = .ok outcome ∧ method.Outcome builder outcome := by
  cases checked : Contract.check method.convention method.values method.safepoints with
  | error found =>
    refine ⟨_, ?_, .breached checked⟩
    rw [finish, table, Contract.run_eq method.convention method.values fewSafepoints, checked]
    rfl
  | ok _ =>
    rcases mapsOf_spec method builder _ (entries_valid fewSafepoints) with
      ⟨maps, drawn, mapped⟩ | ⟨before, entry, after, rejection, order, earlier, failed, ended⟩
    · cases repeats : Table.firstRepeat ((Table.ordered maps).map Prod.fst) with
      | some pc =>
        refine ⟨_, ?_, .repeated checked mapped repeats⟩
        rw [finish, table_of_maps made fewSafepoints checked drawn, repeats]
        rfl
      | none =>
        exact ⟨_, finish_of_maps made fewSafepoints checked drawn repeats,
          .compiled checked mapped repeats⟩
    · refine ⟨_, ?_, .rejected checked order earlier failed⟩
      rw [finish, table, Contract.run_eq method.convention method.values fewSafepoints, checked,
        Checked.ok_bind]
      dsimp only
      rw [made, Checked.ok_bind, ended]
      rfl

end

/-- A method that was compiled has a builder. -/
theorem mapBuilder_of_finish (fewSafepoints : method.safepoints.length < 2 ^ 32 - 1)
    {compiled : CompiledMethod} (finished : method.finish = .ok (.ok compiled)) :
    ∃ builder, method.mapBuilder = .ok builder := by
  rw [finish, table, Contract.run_eq method.convention method.values fewSafepoints,
    Checked.ok_bind] at finished
  cases checked : Contract.check method.convention method.values method.safepoints with
  | error found =>
    rw [checked] at finished
    cases finished
  | ok _ =>
    rw [checked] at finished
    cases made : method.mapBuilder with
    | error fault =>
      rw [made] at finished
      cases finished
    | ok builder => exact ⟨builder, rfl⟩

/-- A breached contract is refused before the frame is looked at. -/
theorem finish_of_breached (fewSafepoints : method.safepoints.length < 2 ^ 32 - 1)
    {found : List Violation}
    (refused : Contract.check method.convention method.values method.safepoints = .error found) :
    method.finish = .ok (.error (method.refuse (.contract found))) := by
  rw [finish, table, Contract.run_eq method.convention method.values fewSafepoints, refused]
  rfl

/-- A frame of 2³² bytes or more has no builder. -/
theorem mapBuilder_of_large (width : 0 < method.convention.slotSize.toNat)
    (large : 2 ^ 32 ≤ method.convention.reserved.toNat + method.frameSize.toNat) :
    method.mapBuilder = .error .addOverflow := by
  rw [mapBuilder, layout, FrameLayout.ofConvention, FrameLayout.make, dif_pos width,
    Checked.ok_bind, MapBuilder.make]
  exact dif_neg (Nat.not_lt.mpr large)

/-- Finishing a method whose slots have a width faults exactly when the contract is
kept and the frame has 2³² bytes or more, and then in adding up the frame. -/
theorem finish_eq_error (width : 0 < method.convention.slotSize.toNat)
    (fewSafepoints : method.safepoints.length < 2 ^ 32 - 1) {fault : Fault} :
    method.finish = .error fault ↔
      fault = .addOverflow ∧
      Contract.check method.convention method.values method.safepoints = .ok () ∧
      2 ^ 32 ≤ method.convention.reserved.toNat + method.frameSize.toNat := by
  cases checked : Contract.check method.convention method.values method.safepoints with
  | error found => simp [finish_of_breached fewSafepoints checked]
  | ok _ =>
    by_cases fits : method.convention.reserved.toNat + method.frameSize.toNat < 2 ^ 32
    · obtain ⟨builder, made⟩ := mapBuilder_exists width fits
      obtain ⟨outcome, finished, _⟩ := finish_outcome made fewSafepoints
      simp only [finished, reduceCtorEq, false_iff]
      omega
    · have large := Nat.not_lt.mp fits
      have faults : method.finish = .error .addOverflow := by
        rw [finish, table, Contract.run_eq method.convention method.values fewSafepoints, checked,
          mapBuilder_of_large width large]
        rfl
      simp only [faults, Except.error.injEq, large, and_true]
      exact eq_comm

end Method

end StackMaps
