import StackMaps.Convention.Targets
import StackMaps.Proofs.Checking
import StackMaps.Proofs.Drawing

/-!
# The contract and the maps agree

The check and the drawing of maps classify locations separately and in different
orders of tests. They agree: a location that a map rejects for anything but its
place in the frame is one that the check reports, and a register that a map marks
at a call is one whose value survives it. The check may have reported the value at
an earlier safepoint, but a value has one location, so the report is of the same
kind.
-/

namespace StackMaps

namespace Contract

variable {convention : Convention} {values : List Record} {safepoints : List Safepoint}

/-- A reference live at a safepoint of the method is judged there. -/
theorem judged_of_live (fewSafepoints : safepoints.length < 2 ^ 32 - 1) {safepoint : SafepointId}
    {point : Safepoint} (present : safepoint.fetch safepoints = .ok point)
    {entry : ValueId × Record} (member : entry ∈ Record.liveEntries values safepoint)
    (reference : entry.2.isReference = true) :
    ⟨safepoint, point, entry.1, entry.2.location⟩ ∈ items values safepoints := by
  rw [mem_items]
  exact ⟨(Handle.mem_entries fewSafepoints).mpr present,
    Record.mem_liveReferences.mpr ⟨entry.2, member, reference, rfl⟩⟩

/-- What is due for a location is reported for it, perhaps at another safepoint,
if it is due there too. -/
theorem reported_of_due (fewValues : values.length < 2 ^ 32 - 1) {item : Item}
    (judged : item ∈ items values safepoints) {made : SafepointId → Violation}
    (dueAt : ∀ safepoint point,
      due convention ⟨safepoint, point, item.value, item.location⟩ = some (made safepoint)) :
    ∃ found, check convention values safepoints = .error found ∧
      ∃ reported, made reported ∈ found := by
  have isDue := dueAt item.safepoint item.point
  obtain ⟨kept, found, sameValue, _⟩ := mem_of_due judged isDue
  obtain ⟨other, otherJudged, otherDue⟩ := due_of_mem found
  have value : other.value = item.value := by
    rw [← due_value otherDue, sameValue, due_value isDue]
  have location : other.location = item.location := by
    have otherLive := (mem_items.mp otherJudged).2
    rw [value] at otherLive
    exact Record.location_unique fewValues otherLive (mem_items.mp judged).2
  have same : made other.safepoint = kept := by
    have dueThere := dueAt other.safepoint other.point
    rw [← value, ← location] at dueThere
    exact Option.some.inj (dueThere.symm.trans otherDue)
  refine ⟨_, check_eq_error.mpr ⟨List.ne_nil_of_mem found, rfl⟩, other.safepoint, ?_⟩
  rw [same]
  exact found

/-- The violation that answers to a rejection, wherever it is reported. A slot that
has no place in the frame is none of the contract's business. -/
def counterpart : Rejection → Option (SafepointId → Violation)
  | .unassigned value => some (.unassigned value)
  | .immediate value _ => some (.immediate value)
  | .foreignRegister value register =>
    some fun safepoint => .foreignRegister value safepoint register
  | .misaligned _ _ | .outOfFrame _ _ _ _ => none

/-- A location that a map rejects calls for the violation that answers to the
rejection, at every safepoint. -/
theorem due_of_unplaced {builder : MapBuilder} {value : ValueId} {location : Location}
    {rejection : Rejection} (unplaced : builder.Unplaced value location rejection)
    {made : SafepointId → Violation} (answers : counterpart rejection = some made)
    (safepoint : SafepointId) (point : Safepoint) :
    due builder.convention ⟨safepoint, point, value, location⟩ = some (made safepoint) := by
  cases unplaced with
  | unassigned =>
    cases answers
    rfl
  | immediate bits =>
    cases answers
    rfl
  | foreign register unowned =>
    cases answers
    simp [due, unowned]
  | misaligned => cases answers
  | outside => cases answers

/-- The violation that answers to the rejection of a map is reported. -/
theorem reported_of_rejection (fewValues : values.length < 2 ^ 32 - 1)
    (fewSafepoints : safepoints.length < 2 ^ 32 - 1) {builder : MapBuilder}
    {safepoint : SafepointId} {point : Safepoint} (present : safepoint.fetch safepoints = .ok point)
    {rejection : Rejection}
    (failed : builder.build (Record.liveEntries values safepoint) = .error rejection)
    {made : SafepointId → Violation} (answers : counterpart rejection = some made) :
    ∃ found, check builder.convention values safepoints = .error found ∧
      ∃ reported, made reported ∈ found := by
  obtain ⟨⟨entry, member, reference, unplaced⟩, _⟩ := MapBuilder.build_eq_error failed
  have judged := judged_of_live fewSafepoints present member reference
  exact reported_of_due fewValues judged (due_of_unplaced unplaced answers)

/-- Once the check accepts, a map is rejected only for a place in the frame. -/
theorem counterpart_of_accepted (fewValues : values.length < 2 ^ 32 - 1)
    (fewSafepoints : safepoints.length < 2 ^ 32 - 1) {builder : MapBuilder}
    {safepoint : SafepointId} {point : Safepoint} (present : safepoint.fetch safepoints = .ok point)
    {rejection : Rejection}
    (failed : builder.build (Record.liveEntries values safepoint) = .error rejection)
    (accepted : check builder.convention values safepoints = .ok ()) :
    counterpart rejection = none := by
  cases answers : counterpart rejection with
  | none => rfl
  | some made =>
    obtain ⟨found, refused, _⟩ :=
      reported_of_rejection fewValues fewSafepoints present failed answers
    rw [accepted] at refused
    cases refused

/-- Once the check accepts, a reference in a register at a call is in one that
survives the call. -/
theorem survives_of_accepted (accepted : check convention values safepoints = .ok ())
    {item : Item} (judged : item ∈ items values safepoints) {register : Register}
    (located : item.location = .register register)
    (owned : convention.owns .general register = true) (call : item.point.kind = .call) :
    convention.survivesCall register = .ok true := by
  have nothing := violations_eq_nil.mp (check_eq_ok.mp accepted) item judged
  rw [Convention.survivesCall_of_owns owned]
  cases survives : convention.preserved.has register with
  | true => rfl
  | false => simp [due, located, owned, call, survives] at nothing

end Contract

/-- The check completes, and agrees with every map drawn over the same
convention. If it accepts, no map is rejected for a value that is nowhere, a
constant, or in a register that cannot hold it, and at a call every register a map
marks survives the call. Conversely each such rejection is among the violations
that the check reports. -/
theorem check_agrees_with_maps (convention : Convention) (values : List Record)
    (safepoints : List Safepoint) (fewValues : values.length < 2 ^ 32 - 1)
    (fewSafepoints : safepoints.length < 2 ^ 32 - 1) :
    ∃ outcome, Contract.run convention values safepoints = .ok outcome ∧
      ∀ builder : MapBuilder, builder.convention = convention →
      ∀ (safepoint : SafepointId) (point : Safepoint), safepoint.fetch safepoints = .ok point →
      ∃ live result, Record.liveEntriesChecked values safepoint = .ok live ∧
        builder.buildChecked live = .ok result ∧
        (outcome = .ok () →
          (∀ value, result ≠ .error (.unassigned value)) ∧
          (∀ value bits, result ≠ .error (.immediate value bits)) ∧
          (∀ value register, result ≠ .error (.foreignRegister value register)) ∧
          (point.kind = .call → ∀ map, result = .ok map → ∀ bit, map.registers.get bit = true →
            ∃ register : Register, register.bank = .general ∧ register.code.toNat = bit ∧
              convention.catalog.contains register = true ∧
              convention.survivesCall register = .ok true)) ∧
        (∀ value, result = .error (.unassigned value) →
          ∃ found, outcome = .error found ∧ ∃ reported, .unassigned value reported ∈ found) ∧
        (∀ value bits, result = .error (.immediate value bits) →
          ∃ found, outcome = .error found ∧ ∃ reported, .immediate value reported ∈ found) ∧
        (∀ value register, result = .error (.foreignRegister value register) →
          ∃ found, outcome = .error found ∧
            ∃ reported, .foreignRegister value reported register ∈ found) := by
  refine ⟨Contract.check convention values safepoints,
    Contract.run_eq convention values fewSafepoints, ?_⟩
  rintro builder rfl safepoint point present
  have valid := (Handle.fetch_eq_ok.mp present).1
  refine ⟨Record.liveEntries values safepoint, builder.build (Record.liveEntries values safepoint),
    Record.liveEntriesChecked_eq valid, MapBuilder.buildChecked_eq builder _, ?_⟩
  refine ⟨?_,
    fun _ failed => Contract.reported_of_rejection fewValues fewSafepoints present failed rfl,
    fun _ _ failed => Contract.reported_of_rejection fewValues fewSafepoints present failed rfl,
    fun _ _ failed => Contract.reported_of_rejection fewValues fewSafepoints present failed rfl⟩
  intro accepted
  have framed : ∀ rejection, builder.build (Record.liveEntries values safepoint) =
      .error rejection → Contract.counterpart rejection = none := by
    intro rejection failed
    exact Contract.counterpart_of_accepted fewValues fewSafepoints present failed accepted
  refine ⟨?_, ?_, ?_, ?_⟩
  · intro value failed
    cases framed _ failed
  · intro value bits failed
    cases framed _ failed
  · intro value register failed
    cases framed _ failed
  · intro call map built bit marked
    obtain ⟨_, _, registerBits, _, _⟩ := MapBuilder.build_eq_ok built
    rw [Bitmap.get_of_within (MapBuilder.shaped_of_build built).registersWithin] at marked
    obtain ⟨entry, member, reference, placed⟩ := (registerBits bit).mp marked
    obtain ⟨register, located, code, owned, _⟩ := placed.register_inv
    have judged := Contract.judged_of_live fewSafepoints present member reference
    obtain ⟨general, inside⟩ := Convention.owns_general.mp owned
    refine ⟨register, general, code, ?_, ?_⟩
    · exact (Bool.and_eq_true_iff.mp owned).2
    · exact Contract.survives_of_accepted accepted judged located owned call

/-- A constant is live at a poll and at the call after it. The check reports it
once, at the poll, and the map of the call is rejected for it. -/
theorem check_agrees_on_constant :
    (∃ builder : MapBuilder, builder.convention = Convention.sparcv9 ∧
      builder.buildChecked (Record.liveEntries
        [⟨.reference, .immediate 7, .insertAll .empty [0, 1]⟩] (Handle.ofNat 1)) =
        .ok (.error (.immediate (Handle.ofNat 0) 7))) ∧
    ∃ found, Contract.run Convention.sparcv9
        [⟨.reference, .immediate 7, .insertAll .empty [0, 1]⟩]
        [⟨4, .poll⟩, ⟨8, .call⟩] = .ok (.error found) ∧
      ∃ reported, .immediate (Handle.ofNat 0) reported ∈ found := by
  obtain ⟨outcome, ran, agrees⟩ := check_agrees_with_maps Convention.sparcv9
    [⟨.reference, .immediate 7, .insertAll .empty [0, 1]⟩] [⟨4, .poll⟩, ⟨8, .call⟩]
    (by decide) (by decide)
  obtain ⟨live, result, asked, built, _, _, immediate, _⟩ :=
    agrees ⟨Convention.sparcv9, ⟨0, 8, by decide⟩, by decide⟩ rfl (Handle.ofNat 1) ⟨8, .call⟩ rfl
  have shown : live = Record.liveEntries
      [⟨.reference, .immediate 7, .insertAll .empty [0, 1]⟩] (Handle.ofNat 1) :=
    Except.ok.inj (asked.symm.trans rfl)
  subst shown
  have rejected : result = .error (.immediate (Handle.ofNat 0) 7) :=
    Except.ok.inj (built.symm.trans rfl)
  obtain ⟨found, refused, reported⟩ := immediate _ _ rejected
  exact ⟨⟨_, rfl, by rw [built, rejected]⟩, found, by rw [ran, refused], reported⟩

end StackMaps
