import StackMaps.Proofs.Checking
import StackMaps.Proofs.Growth

/-!
# The report of the check

The check either accepts or reports. What a report contains can be said from the values
and the safepoints alone. A reference in a register that a call destroys is reported at
every such call. A reference that is nowhere, is a constant, or is in a register that
cannot hold it is reported once, at the lowest safepoint at which it is live. Nothing
else is reported, and the report ascends by safepoint and then by value.

The references are judged in that order, so what is due ascends. The values that the
check remembers across safepoints pick, for each value, the first violation that does
not recur; where what is due ascends, that is the one at the lowest safepoint. A value
has one location at all safepoints, so a violation that does not recur is due either
wherever its value is live or nowhere.
-/

namespace StackMaps

/-- The place of a violation in a report. -/
def Violation.place (violation : Violation) : SafepointId × ValueId :=
  (violation.safepoint, violation.value)

namespace Contract

/-- Places are ordered by safepoint, and at one safepoint by value. -/
def Precedes (left right : SafepointId × ValueId) : Prop :=
  left.1.number < right.1.number ∨ left.1 = right.1 ∧ left.2.number < right.2.number

/-- No place precedes itself. -/
theorem Precedes.irrefl {place : SafepointId × ValueId} (precedes : Precedes place place) :
    False := by
  rcases precedes with below | ⟨_, below⟩
  · exact UInt32.lt_irrefl _ below
  · exact UInt32.lt_irrefl _ below

/-! ## What a report contains -/

namespace Item

/-- The place of what is judged. -/
def place (item : Item) : SafepointId × ValueId := (item.safepoint, item.value)

/-- A reference of the method is live at a safepoint of the method, and is at the
location. -/
structure Occurs (values : List Record) (safepoints : List Safepoint) (item : Item) : Prop where
  listed : item.safepoint.fetch safepoints = .ok item.point
  live : ∃ record, item.value.fetch values = .ok record ∧ record.isReference = true ∧
    record.location = item.location ∧ record.isLiveAt item.safepoint = true

/-- The value is live at no lower safepoint. -/
def IsFirst (values : List Record) (safepoints : List Safepoint) (item : Item) : Prop :=
  ∀ other : Item, other.Occurs values safepoints → other.value = item.value →
    item.safepoint.number ≤ other.safepoint.number

end Item

/-- The locations at which no reference can be, with the violation that says so. -/
inductive Unusable (convention : Convention) :
    Location → (ValueId → SafepointId → Violation) → Prop where
  | unassigned : Unusable convention .unassigned .unassigned
  | immediate (bits : Int64) : Unusable convention (.immediate bits) .immediate
  /-- The register is not one of the target's general-purpose registers. -/
  | foreign (register : Register)
      (unlisted : register ∉ convention.catalog.registers .general) :
      Unusable convention (.register register)
        fun value safepoint => .foreignRegister value safepoint register

/-- A general-purpose register of the target that a safepoint destroys, which only a
call does. -/
structure Destroyed (convention : Convention) (point : Safepoint) (register : Register) :
    Prop where
  call : point.kind = .call
  listed : register ∈ convention.catalog.registers .general
  lost : convention.survivesCall register = .ok false

/-- The violations of the contract by one reference at one safepoint. -/
inductive Violates (convention : Convention) (item : Item) : Violation → Prop where
  | destroyed {register : Register} (located : item.location = .register register)
      (destroyed : Destroyed convention item.point register) :
      Violates convention item (.clobbered item.value item.safepoint item.point.pc register)
  | unusable {made : ValueId → SafepointId → Violation}
      (unusable : Unusable convention item.location made) :
      Violates convention item (made item.value item.safepoint)

/-- The violations that a report contains: a destroyed register at every call, and an
unusable location at the lowest safepoint where its value is live. -/
inductive Reported (convention : Convention) (values : List Record)
    (safepoints : List Safepoint) : Violation → Prop where
  | destroyed {item : Item} {register : Register} (occurs : item.Occurs values safepoints)
      (located : item.location = .register register)
      (destroyed : Destroyed convention item.point register) :
      Reported convention values safepoints
        (.clobbered item.value item.safepoint item.point.pc register)
  | unusable {item : Item} {made : ValueId → SafepointId → Violation}
      (occurs : item.Occurs values safepoints)
      (unusable : Unusable convention item.location made)
      (first : item.IsFirst values safepoints) :
      Reported convention values safepoints (made item.value item.safepoint)

/-! ## What is due -/

variable {convention : Convention} {values : List Record} {safepoints : List Safepoint}

/-- What is judged is every reference at every safepoint where it is live. -/
theorem mem_items_iff_occurs (fewValues : values.length < 2 ^ 32 - 1)
    (fewSafepoints : safepoints.length < 2 ^ 32 - 1) {item : Item} :
    item ∈ items values safepoints ↔ item.Occurs values safepoints := by
  rw [mem_items, Handle.mem_entries fewSafepoints, Record.mem_liveReferences]
  simp only [Record.mem_liveEntries fewValues]
  constructor
  · rintro ⟨listed, record, ⟨fetched, live⟩, reference, located⟩
    exact ⟨listed, record, fetched, reference, located, live⟩
  · rintro ⟨listed, record, fetched, reference, located, live⟩
    exact ⟨listed, record, ⟨fetched, live⟩, reference, located⟩

/-- A value has one location wherever it occurs. -/
theorem Item.Occurs.location_eq {item other : Item} (occurs : item.Occurs values safepoints)
    (otherOccurs : other.Occurs values safepoints) (same : other.value = item.value) :
    other.location = item.location := by
  obtain ⟨record, fetched, _, located, _⟩ := occurs.live
  obtain ⟨otherRecord, otherFetched, _, otherLocated, _⟩ := otherOccurs.live
  rw [same, fetched] at otherFetched
  rw [← located, ← otherLocated, Except.ok.inj otherFetched]

namespace Unusable

variable {location : Location} {made another : ValueId → SafepointId → Violation}

/-- The violation of an unusable location names the value and the safepoint, and does
not recur. -/
theorem made_spec (unusable : Unusable convention location made) (value : ValueId)
    (safepoint : SafepointId) :
    (made value safepoint).safepoint = safepoint ∧ (made value safepoint).value = value ∧
      recurs (made value safepoint) = false := by
  cases unusable <;> exact ⟨rfl, rfl, rfl⟩

/-- A location is unusable in one way. -/
theorem unique (unusable : Unusable convention location made)
    (other : Unusable convention location another) : made = another := by
  cases unusable <;> cases other <;> rfl

/-- A register that a safepoint destroys is not unusable. -/
theorem not_destroyed {register : Register} {point : Safepoint}
    (unusable : Unusable convention (.register register) made) :
    ¬ Destroyed convention point register := by
  intro destroyed
  cases unusable with
  | foreign _ unlisted => exact unlisted destroyed.listed

end Unusable

/-- What is due for a reference is how it violates the contract. -/
theorem due_eq_some_iff {item : Item} {violation : Violation} :
    due convention item = some violation ↔ Violates convention item violation := by
  obtain ⟨safepoint, point, value, location⟩ := item
  constructor
  · intro isDue
    cases location with
    | stack slot => cases isDue
    | immediate bits =>
      cases isDue
      exact .unusable (.immediate bits)
    | unassigned =>
      cases isDue
      exact .unusable .unassigned
    | register register =>
      cases owned : convention.owns .general register with
      | false =>
        simp only [due, owned, Bool.false_eq_true, if_false] at isDue
        cases isDue
        have unlisted : register ∉ convention.catalog.registers .general := by
          rw [← Convention.owns_general_iff_mem, owned]
          exact Bool.false_ne_true
        have unusable : Unusable convention
            (Item.mk safepoint point value (.register register)).location _ :=
          .foreign register unlisted
        exact .unusable unusable
      | true =>
        simp only [due, owned, if_true] at isDue
        split at isDue
        · next clobbered =>
          cases isDue
          refine .destroyed rfl ⟨clobbered.1, Convention.owns_general_iff_mem.mp owned, ?_⟩
          rw [Convention.survivesCall_of_owns owned, clobbered.2]
        · cases isDue
  · intro violates
    cases violates with
    | @destroyed register located destroyed =>
      have owned := Convention.owns_general_iff_mem.mpr destroyed.listed
      have lost := destroyed.lost
      rw [Convention.survivesCall_of_owns owned] at lost
      have located : location = .register register := located
      have call : point.kind = .call := destroyed.call
      simp [due, located, owned, call, Except.ok.inj lost]
    | unusable unusable =>
      cases unusable with
      | unassigned => rfl
      | immediate bits => rfl
      | foreign register unlisted =>
        have unowned := mt Convention.owns_general_iff_mem.mp unlisted
        simp [due, unowned]

/-- A violation stands at the place of what violates. -/
theorem Violates.place_eq {item : Item} {violation : Violation}
    (violates : Violates convention item violation) : violation.place = item.place := by
  cases violates with
  | destroyed => rfl
  | unusable unusable =>
    obtain ⟨sameSafepoint, sameValue, _⟩ := unusable.made_spec item.value item.safepoint
    exact Prod.ext sameSafepoint sameValue

/-! ## Order -/

/-- What is judged ascends. -/
theorem items_ascending (fewValues : values.length < 2 ^ 32 - 1)
    (fewSafepoints : safepoints.length < 2 ^ 32 - 1) :
    (items values safepoints).Pairwise fun left right => Precedes left.place right.place := by
  rw [items, List.pairwise_flatMap]
  constructor
  · intro entry _
    simp only [Record.liveReferences, Record.liveEntries, List.pairwise_map]
    have ascending := ((Handle.entries_ascending fewValues).filter
      fun live => live.2.isLiveAt entry.1).filter fun live => live.2.isReference
    exact ascending.imp fun below => Or.inr ⟨rfl, UInt32.lt_iff_toNat_lt.mpr below⟩
  · refine (Handle.entries_ascending fewSafepoints).imp ?_
    intro entry later below item here other there
    obtain ⟨live, _, rfl⟩ := List.mem_map.mp here
    obtain ⟨otherLive, _, rfl⟩ := List.mem_map.mp there
    exact Or.inl (UInt32.lt_iff_toNat_lt.mpr below)

/-- What is due ascends. -/
theorem dues_ascending (convention : Convention) (fewValues : values.length < 2 ^ 32 - 1)
    (fewSafepoints : safepoints.length < 2 ^ 32 - 1) :
    ((items values safepoints).filterMap (due convention)).Pairwise
      fun left right => Precedes left.place right.place := by
  rw [List.pairwise_filterMap]
  refine (items_ascending fewValues fewSafepoints).imp ?_
  intro item other ahead violation isDue later laterDue
  rwa [(due_eq_some_iff.mp isDue).place_eq, (due_eq_some_iff.mp laterDue).place_eq]

/-- Where what is due ascends, the first violation of a value that does not recur is the
one at the lowest safepoint. -/
theorem selected_iff {dues : List Violation} {violation : Violation}
    (ascending : dues.Pairwise fun left right => Precedes left.place right.place) :
    Selected dues violation ↔ violation ∈ dues ∧ (recurs violation = true ∨
      ∀ other ∈ dues, recurs other = false → other.value = violation.value →
        violation.safepoint.number ≤ other.safepoint.number) := by
  constructor
  · rintro ⟨before, after, rfl, selected⟩
    refine ⟨by simp, selected.imp id ?_⟩
    intro fresh other member once same
    rcases List.mem_append.mp member with inBefore | inRest
    · exact absurd ⟨other, inBefore, once, same⟩ fresh
    · rcases List.mem_cons.mp inRest with rfl | inAfter
      · exact UInt32.le_refl _
      · rcases (List.pairwise_cons.mp (List.pairwise_append.mp ascending).2.1).1 other inAfter with
          below | ⟨here, _⟩
        · exact UInt32.le_of_lt below
        · exact UInt32.le_of_eq (congrArg Handle.number here)
  · rintro ⟨member, selected⟩
    obtain ⟨before, after, rfl⟩ := List.append_of_mem member
    refine ⟨before, after, rfl, selected.imp id ?_⟩
    rintro lowest ⟨earlier, inBefore, once, same⟩
    have least := lowest earlier (List.mem_append_left _ inBefore) once same
    rcases (List.pairwise_append.mp ascending).2.2 earlier inBefore violation (by simp) with
      below | ⟨_, belowValue⟩
    · exact UInt32.not_lt.mpr least below
    · have sameNumber : earlier.value.number = violation.value.number := by rw [same]
      exact UInt32.lt_irrefl _ (sameNumber ▸ belowValue)

/-- Violations that ascend and are all the same are one. -/
theorem eq_singleton_of_ascending {list : List Violation} {violation : Violation}
    (ascending : list.Pairwise fun left right => Precedes left.place right.place)
    (member : violation ∈ list) (only : ∀ other ∈ list, other = violation) :
    list = [violation] := by
  cases list with
  | nil => cases member
  | cons first rest =>
    obtain rfl := only first (by simp)
    cases rest with
    | nil => rfl
    | cons second rest =>
      obtain rfl := only second (by simp)
      have ahead := (List.pairwise_cons.mp ascending).1 second (by simp)
      exact ahead.irrefl.elim

/-! ## What is found -/

section

variable (fewValues : values.length < 2 ^ 32 - 1) (fewSafepoints : safepoints.length < 2 ^ 32 - 1)

include fewValues fewSafepoints

/-- The violations found ascend. -/
theorem violations_ascending (convention : Convention) :
    (violations convention values safepoints).Pairwise
      fun left right => Precedes left.place right.place := by
  rw [violations_eq]
  exact (dues_ascending convention fewValues fewSafepoints).sublist (tracks_reported _).order

/-- The violations due are those of the references that occur. -/
theorem mem_dues {violation : Violation} :
    violation ∈ (items values safepoints).filterMap (due convention) ↔
      ∃ item : Item, item.Occurs values safepoints ∧ Violates convention item violation := by
  simp only [List.mem_filterMap, mem_items_iff_occurs fewValues fewSafepoints, due_eq_some_iff]

/-- The violations found are those that a report contains. -/
theorem mem_violations_iff {violation : Violation} :
    violation ∈ violations convention values safepoints ↔
      Reported convention values safepoints violation := by
  rw [violations_eq, (tracks_reported _).selected,
    selected_iff (dues_ascending convention fewValues fewSafepoints)]
  simp only [mem_dues fewValues fewSafepoints]
  constructor
  · rintro ⟨⟨item, occurs, violates⟩, selected⟩
    cases violates with
    | destroyed located destroyed => exact .destroyed occurs located destroyed
    | @unusable made unusable =>
      obtain ⟨sameSafepoint, sameValue, once⟩ := unusable.made_spec item.value item.safepoint
      have lowest := selected.resolve_left (by rw [once]; exact Bool.false_ne_true)
      refine .unusable occurs unusable ?_
      intro other otherOccurs same
      -- the value is due there as well, since it is at the same location
      have otherUnusable : Unusable convention other.location made := by
        rwa [occurs.location_eq otherOccurs same]
      obtain ⟨otherSafepoint, otherValue, otherOnce⟩ :=
        otherUnusable.made_spec other.value other.safepoint
      have below := lowest _ ⟨other, otherOccurs, .unusable otherUnusable⟩ otherOnce
        (by rw [otherValue, sameValue, same])
      rwa [sameSafepoint, otherSafepoint] at below
  · intro reported
    cases reported with
    | @destroyed item register occurs located destroyed =>
      exact ⟨⟨item, occurs, .destroyed located destroyed⟩, Or.inl rfl⟩
    | @unusable item made occurs unusable first =>
      refine ⟨⟨item, occurs, .unusable unusable⟩, Or.inr ?_⟩
      obtain ⟨sameSafepoint, sameValue, _⟩ := unusable.made_spec item.value item.safepoint
      rintro other ⟨otherItem, otherOccurs, violates⟩ _ same
      obtain ⟨otherSafepoint, otherValue⟩ := Prod.mk.inj violates.place_eq
      rw [sameSafepoint, otherSafepoint]
      exact first otherItem otherOccurs (by rw [← otherValue, same, sameValue])

omit fewValues fewSafepoints in
/-- What is reported of a value at an unusable location is reported at the lowest
safepoint where the value is live. -/
theorem Reported.eq_made {item : Item} {made : ValueId → SafepointId → Violation}
    {violation : Violation} (reported : Reported convention values safepoints violation)
    (occurs : item.Occurs values safepoints) (unusable : Unusable convention item.location made)
    (same : violation.value = item.value) :
    ∃ first : Item, first.Occurs values safepoints ∧ first.value = item.value ∧
      first.IsFirst values safepoints ∧ violation = made item.value first.safepoint := by
  cases reported with
  | destroyed otherOccurs located destroyed =>
    rw [← occurs.location_eq otherOccurs same, located] at unusable
    exact absurd destroyed unusable.not_destroyed
  | @unusable first another firstOccurs firstUnusable isFirst =>
    obtain ⟨_, sameValue, _⟩ := firstUnusable.made_spec first.value first.safepoint
    have value : first.value = item.value := by rw [← sameValue, same]
    rw [← occurs.location_eq firstOccurs value] at unusable
    rw [firstUnusable.unique unusable, value]
    exact ⟨first, firstOccurs, value, isFirst, rfl⟩

/-- A value at an unusable location has one violation, at the lowest safepoint where it
is live. -/
theorem filter_violations {item : Item} {made : ValueId → SafepointId → Violation}
    (occurs : item.Occurs values safepoints) (unusable : Unusable convention item.location made) :
    ∃ first : Item, first.Occurs values safepoints ∧ first.value = item.value ∧
      first.IsFirst values safepoints ∧
      (violations convention values safepoints).filter (fun violation =>
        violation.value = item.value) = [made item.value first.safepoint] := by
  obtain ⟨_, sameValue, _⟩ := unusable.made_spec item.value item.safepoint
  obtain ⟨kept, found, keptValue, _⟩ :=
    mem_of_due ((mem_items_iff_occurs fewValues fewSafepoints).mpr occurs)
      (due_eq_some_iff.mpr (.unusable unusable))
  rw [sameValue] at keptValue
  have reported := (mem_violations_iff fewValues fewSafepoints).mp found
  obtain ⟨first, firstOccurs, firstValue, isFirst, rfl⟩ :=
    reported.eq_made occurs unusable keptValue
  refine ⟨first, firstOccurs, firstValue, isFirst, ?_⟩
  have only : ∀ violation ∈ (violations convention values safepoints).filter (fun violation =>
      violation.value = item.value), violation = made item.value first.safepoint := by
    intro violation member
    obtain ⟨present, value⟩ := List.mem_filter.mp member
    have otherReported := (mem_violations_iff fewValues fewSafepoints).mp present
    obtain ⟨other, otherOccurs, otherValue, otherFirst, rfl⟩ :=
      otherReported.eq_made occurs unusable (of_decide_eq_true value)
    have below := isFirst other otherOccurs (otherValue.trans firstValue.symm)
    have above := otherFirst first firstOccurs (firstValue.trans otherValue.symm)
    rw [Handle.eq_of_number (UInt32.le_antisymm above below)]
  exact eq_singleton_of_ascending
    ((violations_ascending fewValues fewSafepoints convention).filter _)
    (List.mem_filter.mpr ⟨found, decide_eq_true keptValue⟩) only

end

end Contract

/-- The check reports exactly. It accepts when no reference that is live at a safepoint
violates the contract there. Otherwise its report ascends by safepoint and then by
value, and contains the destroyed register of every reference at every call that
destroys it and the unusable location of every reference, once, at the lowest safepoint
where the reference is live. -/
theorem check_reports_exactly (convention : Convention) {values : List Record}
    {safepoints : List Safepoint} (fewValues : values.length < 2 ^ 32 - 1)
    (fewSafepoints : safepoints.length < 2 ^ 32 - 1) :
    ∃ outcome, Contract.run convention values safepoints = .ok outcome ∧
      (outcome = .ok () ↔ ∀ item : Contract.Item, item.Occurs values safepoints →
        ∀ violation, ¬ Contract.Violates convention item violation) ∧
      ∀ found, outcome = .error found →
        found ≠ [] ∧
        (found.Pairwise fun left right => Contract.Precedes left.place right.place) ∧
        (∀ violation, violation ∈ found ↔
          Contract.Reported convention values safepoints violation) ∧
        ∀ (item : Contract.Item) (made : ValueId → SafepointId → Violation),
          item.Occurs values safepoints → Contract.Unusable convention item.location made →
          ∃ first : Contract.Item, first.Occurs values safepoints ∧ first.value = item.value ∧
            first.IsFirst values safepoints ∧
            found.filter (fun violation => violation.value = item.value) =
              [made item.value first.safepoint] := by
  refine ⟨_, Contract.run_eq convention values fewSafepoints, ?_, ?_⟩
  · rw [Contract.check_eq_ok, Contract.violations_eq_nil]
    simp only [Contract.mem_items_iff_occurs fewValues fewSafepoints,
      Option.eq_none_iff_forall_ne_some, ne_eq, Contract.due_eq_some_iff]
  · intro found refused
    obtain ⟨some, rfl⟩ := Contract.check_eq_error.mp refused
    refine ⟨some, Contract.violations_ascending fewValues fewSafepoints convention, ?_, ?_⟩
    · intro violation
      exact Contract.mem_violations_iff fewValues fewSafepoints
    · intro item made occurs unusable
      exact Contract.filter_violations fewValues fewSafepoints occurs unusable

/-- A reference in a register that is live at two calls and between them, and one
without a location that is live from the second safepoint on. -/
def lostValues : List Record :=
  [⟨.reference, .register ⟨0, .general⟩, .insertAll .empty [0, 1, 2]⟩,
    ⟨.reference, .unassigned, .insertAll .empty [1, 2]⟩]

/-- Two calls and a poll between them. -/
def lostSafepoints : List Safepoint := [⟨4, .call⟩, ⟨8, .poll⟩, ⟨12, .call⟩]

/-- The register is reported at both calls, the missing location at the poll only. -/
theorem check_reports_exactly_between_calls :
    ∃ found, Contract.run Convention.amd64 lostValues lostSafepoints = .ok (.error found) ∧
      .clobbered (Handle.ofNat 0) (Handle.ofNat 0) 4 ⟨0, .general⟩ ∈ found ∧
      .clobbered (Handle.ofNat 0) (Handle.ofNat 2) 12 ⟨0, .general⟩ ∈ found ∧
      found.filter (fun violation => violation.value = Handle.ofNat 1) =
        [.unassigned (Handle.ofNat 1) (Handle.ofNat 1)] := by
  obtain ⟨outcome, ran, accepts, refuses⟩ :=
    check_reports_exactly Convention.amd64 (by decide : lostValues.length < 2 ^ 32 - 1)
      (by decide : lostSafepoints.length < 2 ^ 32 - 1)
  have destroyed : ∀ pc, Contract.Destroyed Convention.amd64 ⟨pc, .call⟩ ⟨0, .general⟩ :=
    fun pc => ⟨rfl, by decide, rfl⟩
  let before : Contract.Item :=
    ⟨Handle.ofNat 0, ⟨4, .call⟩, Handle.ofNat 0, .register ⟨0, .general⟩⟩
  let after : Contract.Item :=
    ⟨Handle.ofNat 2, ⟨12, .call⟩, Handle.ofNat 0, .register ⟨0, .general⟩⟩
  let between : Contract.Item := ⟨Handle.ofNat 1, ⟨8, .poll⟩, Handle.ofNat 1, .unassigned⟩
  have occursBefore : before.Occurs lostValues lostSafepoints :=
    ⟨rfl, _, rfl, rfl, rfl, by decide⟩
  have occursAfter : after.Occurs lostValues lostSafepoints :=
    ⟨rfl, _, rfl, rfl, rfl, by decide⟩
  have occursBetween : between.Occurs lostValues lostSafepoints :=
    ⟨rfl, _, rfl, rfl, rfl, by decide⟩
  cases outcome with
  | ok accepted => exact absurd (.unusable .unassigned) (accepts.mp rfl between occursBetween _)
  | error found =>
    obtain ⟨_, _, exact, once⟩ := refuses found rfl
    refine ⟨found, ran, ?_, ?_, ?_⟩
    · exact (exact _).mpr (.destroyed occursBefore rfl (destroyed 4))
    · exact (exact _).mpr (.destroyed occursAfter rfl (destroyed 12))
    · obtain ⟨first, occurs, value, isFirst, filtered⟩ :=
        once between .unassigned occursBetween .unassigned
      have below := isFirst between occursBetween value.symm
      obtain ⟨record, fetched, _, _, live⟩ := occurs.live
      rw [value] at fetched
      obtain rfl := Except.ok.inj fetched
      have safepoint : first.safepoint = Handle.ofNat 1 := by
        have numbered : first.safepoint.number.toNat ∈ [1, 2] := by
          simpa [Record.isLiveAt, BitSet.contains_insertAll, BitSet.contains_empty] using live
        rcases List.mem_cons.mp numbered with poll | call
        · exact Handle.eq_of_toNat poll
        · have last : first.safepoint = Handle.ofNat 2 :=
            Handle.eq_of_toNat (List.mem_singleton.mp call)
          rw [last] at below
          exact absurd below (by decide)
      rw [filtered, safepoint]

end StackMaps
