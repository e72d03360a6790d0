import StackMaps.Contract
import StackMaps.Proofs.Placing

/-!
# Checking the allocation contract

The check judges every reference at every safepoint where it is live, in
safepoint order and within a safepoint in value order. What is due for one of
them depends on its location and the safepoint alone. A violation that recurs is
reported wherever it is due; one that does not is reported at its first place
only. So the violations found are a selection of those due, in order: those that
recur, and the first of each value that does not. No value is left out: for every
due violation one of the same value and the same recurrence is found.

The checked steps of the check complete: handles of a table that they can number
refer to something, and survival is asked only of registers the target owns.
-/

namespace StackMaps

/-! ## Live values -/

namespace Record

variable {values : List Record} {safepoint : SafepointId}

/-- The values live at a safepoint with a handle that refers to something are
always answered. -/
theorem liveEntriesChecked_eq (valid : safepoint.number.toNat < 2 ^ 32 - 1) :
    liveEntriesChecked values safepoint = .ok (liveEntries values safepoint) := by
  have indexed := Handle.index_eq_ok.mpr ⟨valid, rfl⟩
  cases values with
  | nil => rfl
  | cons first rest => simp [liveEntriesChecked, indexed]

/-- The references live at such a safepoint are always answered. -/
theorem liveReferencesChecked_eq (valid : safepoint.number.toNat < 2 ^ 32 - 1) :
    liveReferencesChecked values safepoint = .ok (liveReferences values safepoint) := by
  have indexed := Handle.index_eq_ok.mpr ⟨valid, rfl⟩
  cases values with
  | nil => rfl
  | cons first rest => simp [liveReferencesChecked, indexed]

/-- A value is a reference by its kind. -/
theorem isReference_iff {record : Record} :
    record.isReference = true ↔ record.kind = .reference := by
  cases kind : record.kind <;> simp [isReference, Kind.isReference, kind]

/-- A live value is one that its handle fetches and that is live. -/
theorem mem_liveEntries (short : values.length < 2 ^ 32 - 1) {value : ValueId} {record : Record} :
    (value, record) ∈ liveEntries values safepoint ↔
      value.fetch values = .ok record ∧ record.isLiveAt safepoint = true := by
  rw [liveEntries, List.mem_filter, Handle.mem_entries short]

/-- A live reference is a live value that is a reference, with its location. -/
theorem mem_liveReferences {value : ValueId} {location : Location} :
    (value, location) ∈ liveReferences values safepoint ↔
      ∃ record, (value, record) ∈ liveEntries values safepoint ∧ record.isReference = true ∧
        record.location = location := by
  simp only [liveReferences, List.mem_map, List.mem_filter, Prod.mk.injEq]
  constructor
  · rintro ⟨⟨held, record⟩, ⟨member, reference⟩, rfl, located⟩
    exact ⟨record, member, reference, located⟩
  · rintro ⟨record, member, reference, located⟩
    exact ⟨(value, record), ⟨member, reference⟩, rfl, located⟩

/-- A value has one location wherever it is live. -/
theorem location_unique (short : values.length < 2 ^ 32 - 1) {value : ValueId}
    {left right : Location} {first second : SafepointId}
    (here : (value, left) ∈ liveReferences values first)
    (there : (value, right) ∈ liveReferences values second) : left = right := by
  obtain ⟨record, member, _, rfl⟩ := mem_liveReferences.mp here
  obtain ⟨other, otherMember, _, rfl⟩ := mem_liveReferences.mp there
  have fetched := ((mem_liveEntries short).mp member).1
  have otherFetched := ((mem_liveEntries short).mp otherMember).1
  rw [Except.ok.inj (fetched.symm.trans otherFetched)]

end Record

namespace Contract

/-! ## What is due -/

/-- A reference at a safepoint where it is live. -/
structure Item where
  safepoint : SafepointId
  point : Safepoint
  value : ValueId
  location : Location

/-- Everything that is judged, in order. -/
def items (values : List Record) (safepoints : List Safepoint) : List Item :=
  (Handle.entries safepoints).flatMap fun entry =>
    (Record.liveReferences values entry.1).map fun live => ⟨entry.1, entry.2, live.1, live.2⟩

/-- The violation due for a reference at a safepoint. -/
def due (convention : Convention) (item : Item) : Option Violation :=
  match item.location with
  | .stack _ => none
  | .register register =>
    if convention.owns .general register then
      if item.point.kind = .call ∧ convention.preserved.has register = false then
        some (.clobbered item.value item.safepoint item.point.pc register)
      else none
    else some (.foreignRegister item.value item.safepoint register)
  | .immediate _ => some (.immediate item.value item.safepoint)
  | .unassigned => some (.unassigned item.value item.safepoint)

/-- A due violation names the value it is due for. -/
theorem due_value {convention : Convention} {item : Item} {violation : Violation}
    (isDue : due convention item = some violation) : violation.value = item.value := by
  unfold due at isDue
  split at isDue
  · cases isDue
  · split at isDue
    · split at isDue
      · exact Option.some.inj isDue ▸ rfl
      · cases isDue
    · exact Option.some.inj isDue ▸ rfl
  · exact Option.some.inj isDue ▸ rfl
  · exact Option.some.inj isDue ▸ rfl

/-- Whether a violation is reported at every safepoint where it is due. -/
def recurs : Violation → Bool
  | .clobbered _ _ _ _ => true
  | _ => false

/-- Report a due violation. -/
def report (findings : Findings) (violation : Violation) : Findings :=
  if recurs violation then findings.add violation else findings.addOnce violation

/-- Judging a reference reports what is due for it. -/
theorem judge_eq (convention : Convention) (findings : Findings) (item : Item) :
    Findings.judge convention item.safepoint item.point findings (item.value, item.location) =
      ((due convention item).map (report findings)).getD findings := by
  obtain ⟨safepoint, point, value, location⟩ := item
  cases location with
  | stack slot => rfl
  | register register =>
    cases owned : convention.owns .general register with
    | true =>
      by_cases clobbered : point.kind = .call ∧ convention.preserved.has register = false
      · simp [Findings.judge, due, owned, clobbered, report, recurs]
      · simp [Findings.judge, due, owned, clobbered]
    | false => simp [Findings.judge, due, owned, report, recurs]
  | immediate bits => rfl
  | unassigned => rfl

/-- The violations found are those reported from all that is due. -/
theorem violations_eq (convention : Convention) (values : List Record)
    (safepoints : List Safepoint) :
    violations convention values safepoints =
      (((items values safepoints).filterMap (due convention)).foldl report .empty).violations := by
  have judged : ∀ (found : Findings) (item : Item),
      ((due convention item).map (report found)).getD found =
        Findings.judge convention item.safepoint item.point found (item.value, item.location) := by
    intro found item
    exact (judge_eq convention found item).symm
  have loop : ∀ (list : List Item) (found : Findings),
      (list.filterMap (due convention)).foldl report found =
        list.foldl (fun so item => Findings.judge convention item.safepoint item.point so
          (item.value, item.location)) found := by
    intro list
    induction list with
    | nil => simp
    | cons first rest induction =>
      intro found
      rw [List.foldl_cons, ← judged found first, List.filterMap_cons]
      cases due convention first with
      | none => exact induction found
      | some violation => exact induction (report found violation)
  rw [violations, loop, items, List.foldl_flatMap]
  simp only [List.foldl_map]
  rfl

/-! ## What is reported -/

/-- A violation that does not recur is due for a value. -/
def Remembered (dues : List Violation) (value : ValueId) : Prop :=
  ∃ violation ∈ dues, recurs violation = false ∧ violation.value = value

/-- The violations that are reported from a list of those due: one that recurs, and one
that does not if it is the first such for its value. -/
def Selected (dues : List Violation) (violation : Violation) : Prop :=
  ∃ before after, dues = before ++ violation :: after ∧
    (recurs violation = true ∨ ¬ Remembered before violation.value)

section

variable {seen : List Violation} {last violation : Violation} {value : ValueId}

/-- One more due violation is remembered if it does not recur. -/
theorem remembered_concat : Remembered (seen ++ [last]) value ↔
    Remembered seen value ∨ recurs last = false ∧ last.value = value := by
  simp [Remembered, or_and_right, exists_or]

/-- One more due violation is selected by what is remembered before it. -/
theorem selected_concat : Selected (seen ++ [last]) violation ↔
    Selected seen violation ∨
      violation = last ∧ (recurs last = true ∨ ¬ Remembered seen last.value) := by
  constructor
  · rintro ⟨before, after, split, selected⟩
    rcases List.eq_nil_or_concat after with rfl | ⟨init, final, rfl⟩
    · obtain ⟨rfl, same⟩ := List.append_inj' split rfl
      obtain rfl : last = violation := by simpa using same
      exact Or.inr ⟨rfl, selected⟩
    · rw [List.concat_eq_append, ← List.cons_append, ← List.append_assoc] at split
      obtain ⟨rfl, _⟩ := List.append_inj' split rfl
      exact Or.inl ⟨before, init, rfl, selected⟩
  · rintro (⟨before, after, rfl, selected⟩ | ⟨rfl, selected⟩)
    · exact ⟨before, after ++ [last], by simp, selected⟩
    · exact ⟨seen, [], rfl, selected⟩

end

/-- Findings after some due violations: those selected among them, in order, and the
values remembered. -/
structure Tracks (seen : List Violation) (found : Findings) : Prop where
  order : found.violations.Sublist seen
  selected : ∀ violation, violation ∈ found.violations ↔ Selected seen violation
  remembered : ∀ value, value ∈ found.reported ↔ Remembered seen value

/-- Reporting one more due violation keeps track. -/
theorem Tracks.report {seen : List Violation} {found : Findings} (tracks : Tracks seen found)
    (last : Violation) : Tracks (seen ++ [last]) (report found last) := by
  have appended : (found.violations ++ [last]).Sublist (seen ++ [last]) :=
    tracks.order.append (List.Sublist.refl _)
  unfold Contract.report Findings.add Findings.addOnce
  cases recurring : recurs last with
  | true =>
    rw [if_pos rfl]
    refine ⟨appended, ?_, ?_⟩
    · intro violation
      simp [tracks.selected, selected_concat, recurring]
    · intro value
      simp [tracks.remembered, remembered_concat, recurring]
  | false =>
    rw [if_neg Bool.false_ne_true]
    by_cases before : last.value ∈ found.reported
    · rw [if_pos (List.contains_iff_mem.mpr before)]
      have remembered := (tracks.remembered last.value).mp before
      refine ⟨tracks.order.trans (List.sublist_append_left _ _), ?_, ?_⟩
      · intro violation
        simp [tracks.selected, selected_concat, recurring, remembered]
      · intro value
        rw [tracks.remembered, remembered_concat, iff_self_or]
        rintro ⟨_, rfl⟩
        exact remembered
    · rw [if_neg (mt List.contains_iff_mem.mp before)]
      have fresh := mt (tracks.remembered last.value).mpr before
      refine ⟨appended, ?_, ?_⟩
      · intro violation
        simp [tracks.selected, selected_concat, recurring, fresh]
      · intro value
        simp [tracks.remembered, remembered_concat, recurring, @eq_comm _ value]

/-- What is found once everything due has been reported. -/
theorem tracks_reported (dues : List Violation) : Tracks dues (dues.foldl report .empty) := by
  have later : ∀ (rest seen : List Violation) (found : Findings), Tracks seen found →
      Tracks (seen ++ rest) (rest.foldl report found) := by
    intro rest
    induction rest with
    | nil =>
      intro seen found tracks
      rwa [List.append_nil]
    | cons first rest induction =>
      intro seen found tracks
      have next := induction (seen ++ [first]) (report found first) (tracks.report first)
      rwa [List.append_assoc] at next
  have initial : Tracks [] .empty := by
    refine ⟨List.Sublist.refl _, ?_, ?_⟩
    · intro violation
      simp [Findings.empty, Selected]
    · intro value
      simp [Findings.empty, Remembered]
  exact later dues [] .empty initial

/-- For every due violation, one of the same value and the same recurrence is
selected. -/
theorem exists_selected {dues : List Violation} {violation : Violation}
    (isDue : violation ∈ dues) :
    ∃ kept, Selected dues kept ∧ kept.value = violation.value ∧ recurs kept = recurs violation := by
  cases recurring : recurs violation with
  | true =>
    obtain ⟨before, after, split⟩ := List.append_of_mem isDue
    exact ⟨violation, ⟨before, after, split, Or.inl recurring⟩, rfl, recurring⟩
  | false =>
    -- the first one due for the value that does not recur
    let alike : Violation → Bool := fun other =>
      !recurs other && decide (other.value = violation.value)
    obtain ⟨kept, first⟩ := Option.isSome_iff_exists.mp
      (List.find?_isSome.mpr ⟨violation, isDue, (by simp [alike, recurring] : alike violation)⟩)
    obtain ⟨isAlike, before, after, split, unlike⟩ := List.find?_eq_some_iff_append.mp first
    obtain ⟨once, same⟩ : recurs kept = false ∧ kept.value = violation.value := by
      simpa [alike] using isAlike
    refine ⟨kept, ⟨before, after, split, Or.inr ?_⟩, same, once⟩
    rintro ⟨earlier, member, earlierOnce, sameValue⟩
    simpa [alike, earlierOnce, sameValue, same] using unlike earlier member

variable {convention : Convention} {values : List Record} {safepoints : List Safepoint}

/-- A violation that is found is due somewhere. -/
theorem due_of_mem {violation : Violation}
    (found : violation ∈ violations convention values safepoints) :
    ∃ item ∈ items values safepoints, due convention item = some violation := by
  rw [violations_eq] at found
  exact List.mem_filterMap.mp ((tracks_reported _).order.mem found)

/-- Where a violation is due, one of the same value and the same recurrence is
found. -/
theorem mem_of_due {item : Item} {violation : Violation}
    (judged : item ∈ items values safepoints) (isDue : due convention item = some violation) :
    ∃ kept ∈ violations convention values safepoints,
      kept.value = violation.value ∧ recurs kept = recurs violation := by
  obtain ⟨kept, selected, same⟩ := exists_selected (List.mem_filterMap.mpr ⟨item, judged, isDue⟩)
  rw [violations_eq]
  exact ⟨kept, ((tracks_reported _).selected kept).mpr selected, same⟩

/-- Nothing is found exactly when nothing is due. -/
theorem violations_eq_nil :
    violations convention values safepoints = [] ↔
      ∀ item ∈ items values safepoints, due convention item = none := by
  constructor
  · intro clean item judged
    cases isDue : due convention item with
    | none => rfl
    | some violation =>
      obtain ⟨kept, found, _⟩ := mem_of_due judged isDue
      rw [clean] at found
      cases found
  · intro nothing
    rw [List.eq_nil_iff_forall_not_mem]
    intro violation found
    obtain ⟨item, judged, isDue⟩ := due_of_mem found
    rw [nothing item judged] at isDue
    cases isDue

/-- What is judged: a safepoint of the method and a reference live there. -/
theorem mem_items {item : Item} : item ∈ items values safepoints ↔
    (item.safepoint, item.point) ∈ Handle.entries safepoints ∧
      (item.value, item.location) ∈ Record.liveReferences values item.safepoint := by
  simp only [items, List.mem_flatMap, List.mem_map]
  constructor
  · rintro ⟨entry, present, live, member, rfl⟩
    exact ⟨present, member⟩
  · rintro ⟨present, member⟩
    exact ⟨(item.safepoint, item.point), present, (item.value, item.location), member, rfl⟩

/-! ## Checked steps -/

/-- Judging a reference never faults. -/
theorem judgeChecked_eq (convention : Convention) (safepoint : SafepointId) (point : Safepoint)
    (findings : Findings) (live : ValueId × Location) :
    findings.judgeChecked convention safepoint point live =
      .ok (findings.judge convention safepoint point live) := by
  obtain ⟨value, location⟩ := live
  cases location with
  | stack slot => rfl
  | register register =>
    cases owned : convention.owns .general register with
    | false => simp [Findings.judgeChecked, Findings.judge, owned]
    | true =>
      by_cases call : point.kind = .call
      · cases survives : convention.preserved.has register <;>
          simp [Findings.judgeChecked, Findings.judge, owned, call,
            Convention.survivesCall_of_owns owned, survives]
      · simp [Findings.judgeChecked, Findings.judge, owned, call]
  | immediate bits => rfl
  | unassigned => rfl

/-- Judging all references of a safepoint with a handle that refers to something
never faults. -/
theorem visitChecked_eq (convention : Convention) (values : List Record) (findings : Findings)
    {entry : SafepointId × Safepoint} (valid : entry.1.number.toNat < 2 ^ 32 - 1) :
    findings.visitChecked convention values entry =
      .ok (findings.visit convention values entry) := by
  have judged := Checked.foldlM_eq_ok (Findings.judgeChecked convention entry.1 entry.2)
    (Findings.judge convention entry.1 entry.2) (Record.liveReferences values entry.1) findings
    fun so live _ => judgeChecked_eq convention entry.1 entry.2 so live
  simp only [Findings.visitChecked, Record.liveReferencesChecked_eq valid, Checked.ok_bind, judged,
    Findings.visit]

/-- The check of a method whose safepoints can be numbered never faults. -/
theorem run_eq (convention : Convention) (values : List Record) {safepoints : List Safepoint}
    (short : safepoints.length < 2 ^ 32 - 1) :
    run convention values safepoints = .ok (check convention values safepoints) := by
  have visited := Checked.foldlM_eq_ok (Findings.visitChecked convention values)
    (Findings.visit convention values) (Handle.entries safepoints) .empty
    fun so entry member => by
      have bounded := Handle.entries_bounded short member
      exact visitChecked_eq convention values so (by omega)
  simp only [run, visited, Checked.ok_bind, Checked.pure_eq_ok, check, violations]

/-- The check accepts exactly when it finds nothing. -/
theorem check_eq_ok : check convention values safepoints = .ok () ↔
    violations convention values safepoints = [] := by
  unfold check verdict
  cases violations convention values safepoints <;> simp

/-- The check refuses with everything it found. -/
theorem check_eq_error {found : List Violation} :
    check convention values safepoints = .error found ↔
      found ≠ [] ∧ violations convention values safepoints = found := by
  unfold check verdict
  cases violations convention values safepoints with
  | nil =>
    constructor
    · intro impossible
      cases impossible
    · rintro ⟨some, rfl⟩
      exact absurd rfl some
  | cons first rest =>
    simp only [Except.error.injEq]
    constructor
    · rintro rfl
      exact ⟨by simp, rfl⟩
    · exact And.right

end Contract

end StackMaps
