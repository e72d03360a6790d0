import StackMaps.Proofs.Agreement
import StackMaps.Proofs.Stored

/-!
# Compiling a stored method that may hold anything

On the convention of a target nothing that a replay computes leaves its range:
values take at most eight bytes, and an offset at or above zero has 31 bits. So
compiling is refused for the first demand that cannot be met, and otherwise ends as
finishing the described method ends.

Once the values are accepted, little is left to refuse. The check reports every
location that a map cannot describe except a slot's place in the frame, a target
has no two opinions about where thrown objects arrive, and a replayed value is
assigned once. The one step that can fault is the sum of the reserved bytes and the
spill area, and only one target reserves any.
-/

namespace StackMaps

namespace Architecture

variable (target : Architecture)

/-- The slots of a target have a width and hold no more than eight bytes. -/
theorem slotSize_convention : 0 < target.convention.slotSize.toNat ∧
    target.convention.slotSize.toNat ≤ 8 := by
  cases target <;> decide

/-- On a target, a value takes at most eight bytes, in whole slots too. -/
theorem wholeSlots_convention (kind : Kind) : target.convention.valueSize kind ≤ 8 ∧
    target.convention.wholeSlots kind ≤ 8 := by
  cases target <;> cases kind <;> decide

/-- Only one target reserves bytes of the frame. -/
theorem reserved_convention :
    target.convention.reserved.toNat = if target = .sparcv9 then 176 else 0 := by
  cases target <;> rfl

/-- The registers that a target's convention knows are the target's. -/
theorem catalog_convention : target.convention.catalog = target.catalog := by
  rw [Convention.catalog, target.target_convention]

/-- Every target has a generator for its convention. -/
theorem make_convention : ∃ generator, Generator.make target.convention = .ok generator ∧
    generator.convention = target.convention := by
  obtain ⟨generator, made⟩ : ∃ generator, Generator.make target.convention = .ok generator := by
    cases target <;> exact ⟨_, rfl⟩
  exact ⟨generator, made, Generator.convention_of_make made⟩

/-- On a target, what a stored value needs is computed without leaving the range. -/
theorem inRange_convention {count : Nat} (few : count < 2 ^ 32 - 1) (stored : StoredValue) :
    stored.InRange target.convention count where
  measured := by
    intro offset located above
    obtain ⟨width, narrow⟩ := target.slotSize_convention
    obtain ⟨size, slots⟩ := target.wholeSlots_convention stored.kind
    refine ⟨width, by omega, ?_⟩
    have signed : offset.toInt < 2 ^ 31 := offset.toInt_lt
    rw [StoredValue.stop_of_spill located above]
    omega
  numbered := by
    intro number _ inside
    omega

end Architecture

/-- The refusals that are left once the values of a stored method are accepted. -/
inductive Failure.Late : Failure → Prop where
  | contract (found : List Violation) : Late (.contract found)
  | misaligned (value : ValueId) (slot : Slot) : Late (.rejected (.misaligned value slot))
  | outOfFrame (value : ValueId) (slot : Slot) (bit : Int) (frameBits : Nat) :
      Late (.rejected (.outOfFrame value slot bit frameBits))
  | duplicateSafepoint (pc : UInt32) : Late (.duplicateSafepoint pc)

/-- Finishing refuses with late refusals only, whatever the values are. -/
theorem Method.late_of_finish {method : Method} (width : 0 < method.convention.slotSize.toNat)
    (fewValues : method.values.length < 2 ^ 32 - 1)
    (fewSafepoints : method.safepoints.length < 2 ^ 32 - 1) {failure : CompileFailure}
    (finished : method.finish = .ok (.error failure)) :
    ∃ cause : Failure, cause.Late ∧ failure = method.refuse cause := by
  cases checked : Contract.check method.convention method.values method.safepoints with
  | error found =>
    rw [finish_of_breached fewSafepoints checked] at finished
    cases finished
    exact ⟨_, .contract found, rfl⟩
  | ok _ =>
    by_cases fits : method.convention.reserved.toNat + method.frameSize.toNat < 2 ^ 32
    · obtain ⟨builder, made⟩ := mapBuilder_exists width fits
      obtain ⟨outcome, ended, kind⟩ := finish_outcome made fewSafepoints
      obtain rfl : outcome = .error failure := Except.ok.inj (ended.symm.trans finished)
      cases kind with
      | breached refused => exact ⟨_, .contract _, rfl⟩
      | @rejected before after entry rejection accepted order earlier failed =>
        have member : entry ∈ Handle.entries method.safepoints := by
          rw [order]
          exact List.mem_append_right _ List.mem_cons_self
        have present := (Handle.mem_entries fewSafepoints).mp member
        rw [← (mapBuilder_eq_ok.mp made).1] at accepted
        have framed :=
          Contract.counterpart_of_accepted fewValues fewSafepoints present failed accepted
        cases rejection with
        | misaligned value slot => exact ⟨_, .misaligned value slot, rfl⟩
        | outOfFrame value slot bit frameBits =>
          exact ⟨_, .outOfFrame value slot bit frameBits, rfl⟩
        | unassigned => cases framed
        | immediate => cases framed
        | foreignRegister => cases framed
      | repeated accepted mapped repeats => exact ⟨_, .duplicateSafepoint _, rfl⟩
    · have faults := (finish_eq_error width fewSafepoints).mpr
        ⟨rfl, checked, Nat.not_lt.mp fits⟩
      rw [faults] at finished
      cases finished

namespace Snapshot

variable {snapshot : Snapshot}

/-- The spill area of a stored method on its target is a size, and is that of the
method it describes. -/
theorem frameSize_rebuilt (snapshot : Snapshot)
    (fewSafepoints : snapshot.safepoints.length < 2 ^ 32 - 1) :
    (snapshot.rebuilt snapshot.target.convention).frameSize.toNat =
      snapshot.spillArea snapshot.target.convention := by
  apply UInt32.toNat_ofNat_of_lt'
  have below : snapshot.spillArea snapshot.target.convention ≤ 2 ^ 32 - 1 := by
    rw [spillArea_le_iff]
    refine ⟨Nat.le_sub_one_of_lt snapshot.frameSize.toNat_lt, ?_⟩
    intro stored _
    exact Nat.le_sub_one_of_lt
      (snapshot.target.inRange_convention fewSafepoints stored).stop_lt
  exact Nat.lt_of_le_of_lt below (by decide)

/-- A refusal of the described method is a refusal of the stored one. -/
theorem refuse_rebuilt (snapshot : Snapshot) (cause : Failure) :
    (snapshot.rebuilt snapshot.target.convention).refuse cause = snapshot.refuse cause := by
  rw [Method.refuse, Method.target, rebuilt, snapshot.target.target_convention, refuse]

/-- Replaying a stored method on its target ends as its demands say. -/
theorem replay_settles_target (fewValues : snapshot.values.length < 2 ^ 32 - 1)
    (fewSafepoints : snapshot.safepoints.length < 2 ^ 32 - 1) {generator : Generator}
    (bound : generator.convention = snapshot.target.convention) :
    Method.Step.Settles (snapshot.rebuilt snapshot.target.convention)
      (snapshot.refusal? snapshot.target.catalog) (snapshot.replay generator) := by
  have settled := replay_settles snapshot generator fewValues fun stored _ =>
    bound ▸ snapshot.target.inRange_convention fewSafepoints stored
  rw [bound, snapshot.target.catalog_convention] at settled
  exact settled

/-- Compiling is refused for the first demand that cannot be met. -/
theorem compile_of_refusal (fewValues : snapshot.values.length < 2 ^ 32 - 1)
    (fewSafepoints : snapshot.safepoints.length < 2 ^ 32 - 1) {failure : Failure}
    (refused : snapshot.refusal? snapshot.target.catalog = some failure) :
    snapshot.compile = .ok (.error (snapshot.refuse failure)) := by
  obtain ⟨generator, made, bound⟩ := snapshot.target.make_convention
  have settled := replay_settles_target fewValues fewSafepoints bound
  rw [refused] at settled
  obtain ⟨left, replayed⟩ := settled.eq_of_some
  rw [compile, made]
  dsimp only
  rw [replayed]
  rfl

/-- Without a refusal, compiling ends as finishing the described method ends. -/
theorem compile_of_met (fewValues : snapshot.values.length < 2 ^ 32 - 1)
    (fewSafepoints : snapshot.safepoints.length < 2 ^ 32 - 1)
    (met : snapshot.refusal? snapshot.target.catalog = none) :
    snapshot.compile = (snapshot.rebuilt snapshot.target.convention).finish := by
  obtain ⟨generator, made, bound⟩ := snapshot.target.make_convention
  have settled := replay_settles_target fewValues fewSafepoints bound
  rw [met] at settled
  rw [compile, made]
  dsimp only
  rw [settled.eq_of_none]
  rfl

/-- A stored method compiles exactly when its demands are met and the method that it
describes can be finished. -/
theorem compile_eq_ok (fewValues : snapshot.values.length < 2 ^ 32 - 1)
    (fewSafepoints : snapshot.safepoints.length < 2 ^ 32 - 1) {compiled : CompiledMethod} :
    snapshot.compile = .ok (.ok compiled) ↔
      snapshot.refusal? snapshot.target.catalog = none ∧
        (snapshot.rebuilt snapshot.target.convention).finish = .ok (.ok compiled) := by
  cases scanned : snapshot.refusal? snapshot.target.catalog with
  | some failure => simp [compile_of_refusal fewValues fewSafepoints scanned]
  | none => simp [compile_of_met fewValues fewSafepoints scanned]

/-- What compiling refuses is what the scan of the demands refuses, or late. -/
theorem refused_of_compile (fewValues : snapshot.values.length < 2 ^ 32 - 1)
    (fewSafepoints : snapshot.safepoints.length < 2 ^ 32 - 1) {failure : CompileFailure}
    (compiled : snapshot.compile = .ok (.error failure)) :
    ∃ cause, failure = snapshot.refuse cause ∧
      (snapshot.refusal? snapshot.target.catalog = some cause ∨
        snapshot.refusal? snapshot.target.catalog = none ∧ cause.Late) := by
  cases scanned : snapshot.refusal? snapshot.target.catalog with
  | some cause =>
    rw [compile_of_refusal fewValues fewSafepoints scanned] at compiled
    cases compiled
    exact ⟨cause, rfl, Or.inl rfl⟩
  | none =>
    rw [compile_of_met fewValues fewSafepoints scanned] at compiled
    obtain ⟨cause, late, rfl⟩ := Method.late_of_finish snapshot.target.slotSize_convention.1
      (by simpa [rebuilt] using fewValues) fewSafepoints compiled
    exact ⟨cause, snapshot.refuse_rebuilt cause, Or.inr ⟨rfl, late⟩⟩

/-- The scan of the demands refuses a location or a safepoint, and nothing else. -/
theorem refusal?_eq_some {catalog : Catalog} {failure : Failure}
    (refused : snapshot.refusal? catalog = some failure) :
    (∃ value kind location, failure = .invalidLocation value kind location) ∨
      ∃ value number, failure = .unknownSafepoint value number := by
  obtain ⟨demand, _, due⟩ := List.exists_of_findSome?_eq_some refused
  unfold Demand.refusal? at due
  split at due
  · split at due
    · cases due
    · exact Or.inl ⟨_, _, _, (Option.some.inj due).symm⟩
  · cases due
  · split at due
    · cases due
    · exact Or.inr ⟨_, _, (Option.some.inj due).symm⟩

/-- Compiling faults only in adding up the frame, on the one target that reserves
bytes of it, and there exactly when nothing is refused before. -/
theorem compile_eq_error (fewValues : snapshot.values.length < 2 ^ 32 - 1)
    (fewSafepoints : snapshot.safepoints.length < 2 ^ 32 - 1) {fault : Fault} :
    snapshot.compile = .error fault ↔
      fault = .addOverflow ∧ snapshot.target = .sparcv9 ∧
      snapshot.refusal? snapshot.target.catalog = none ∧
      Contract.run snapshot.target.convention (snapshot.values.map StoredValue.record)
        snapshot.safepoints = .ok (.ok ()) ∧
      2 ^ 32 ≤ 176 + snapshot.spillArea snapshot.target.convention := by
  rw [Contract.run_eq _ _ fewSafepoints, Except.ok.injEq]
  cases scanned : snapshot.refusal? snapshot.target.catalog with
  | some failure => simp [compile_of_refusal fewValues fewSafepoints scanned]
  | none =>
    have area := snapshot.frameSize_rebuilt fewSafepoints
    have small := (snapshot.rebuilt snapshot.target.convention).frameSize.toNat_lt
    have reserves : (snapshot.rebuilt snapshot.target.convention).convention.reserved.toNat =
        if snapshot.target = .sparcv9 then 176 else 0 := snapshot.target.reserved_convention
    rw [compile_of_met fewValues fewSafepoints scanned,
      Method.finish_eq_error snapshot.target.slotSize_convention.1 fewSafepoints, reserves, area]
    by_cases sparc : snapshot.target = .sparcv9
    · simp only [sparc, if_true, true_and]
      rfl
    · -- without reserved bytes the frame is the spill area, which is a size
      have never : ¬ 2 ^ 32 ≤ 0 + snapshot.spillArea snapshot.target.convention := by omega
      simp only [sparc, if_false, false_and, and_false, never]

end Snapshot

/-- Compiling a stored method, whatever it holds, goes through what its values ask
for in order, and is refused for the first location or safepoint that cannot be had.
If there is none, it compiles, is refused by the check, for a slot's place in the
frame or for a shared offset, or faults in adding up the frame. No location is ever
decided twice, and the target's convention answers every question. The fault occurs
on the one target that reserves bytes of the frame, exactly when nothing is refused
before and the reserved bytes and the spill area together have 2³² bytes or more. -/
theorem compile_outcome (snapshot : Snapshot) (fewValues : snapshot.values.length < 2 ^ 32 - 1)
    (fewSafepoints : snapshot.safepoints.length < 2 ^ 32 - 1) :
    (∀ failure, snapshot.refusal? snapshot.target.catalog = some failure →
      snapshot.compile = .ok (.error (snapshot.refuse failure))) ∧
    (snapshot.refusal? snapshot.target.catalog = none →
      (∃ compiled, snapshot.compile = .ok (.ok compiled)) ∨
      (∃ failure : Failure, failure.Late ∧
        snapshot.compile = .ok (.error (snapshot.refuse failure))) ∨
      snapshot.compile = .error .addOverflow) ∧
    (∀ failure, snapshot.compile = .ok (.error failure) →
      (∀ value held attempted, failure.cause ≠ .reassigned value held attempted) ∧
      (∀ role result, failure.cause ≠ .inconsistentCatch role result) ∧
      ∀ problem, failure.cause ≠ .convention problem) ∧
    ∀ fault, snapshot.compile = .error fault ↔
      fault = .addOverflow ∧ snapshot.target = .sparcv9 ∧
      snapshot.refusal? snapshot.target.catalog = none ∧
      Contract.run snapshot.target.convention (snapshot.values.map StoredValue.record)
        snapshot.safepoints = .ok (.ok ()) ∧
      2 ^ 32 ≤ 176 + snapshot.spillArea snapshot.target.convention := by
  refine ⟨fun _ => Snapshot.compile_of_refusal fewValues fewSafepoints, ?_, ?_,
    fun _ => Snapshot.compile_eq_error fewValues fewSafepoints⟩
  · intro met
    cases ended : snapshot.compile with
    | error fault =>
      obtain ⟨rfl, _⟩ := (Snapshot.compile_eq_error fewValues fewSafepoints).mp ended
      exact Or.inr (Or.inr rfl)
    | ok outcome =>
      cases outcome with
      | ok compiled => exact Or.inl ⟨compiled, rfl⟩
      | error failure =>
        obtain ⟨cause, rfl, early | ⟨_, late⟩⟩ :=
          Snapshot.refused_of_compile fewValues fewSafepoints ended
        · rw [met] at early
          cases early
        · exact Or.inr (Or.inl ⟨cause, late, rfl⟩)
  · intro failure refused
    obtain ⟨cause, rfl, early | ⟨_, late⟩⟩ :=
      Snapshot.refused_of_compile fewValues fewSafepoints refused
    · rcases Snapshot.refusal?_eq_some early with ⟨_, _, _, rfl⟩ | ⟨_, _, rfl⟩ <;>
        simp [Snapshot.refuse]
    · cases late <;> simp [Snapshot.refuse]

/-- A stored method whose spill area leaves no room for the reserved bytes. -/
def overfullSnapshot : Snapshot where
  name := "overfull"
  target := .sparcv9
  frameSize := 4294967120
  values := [⟨.double, .spill 16, [1, 0, 1]⟩, ⟨.reference, .register ⟨16, .general⟩, [0]⟩]
  safepoints := [⟨8, .call⟩, ⟨8, .poll⟩]

/-- A stored method with an unknown safepoint, and after it a register that no target
has. -/
def misnumberedSnapshot : Snapshot where
  name := "misnumbered"
  target := .ia32
  frameSize := 0
  values := [⟨.reference, .parameter (-8), [0, 7]⟩, ⟨.reference, .register ⟨200, .general⟩, []⟩]
  safepoints := [⟨8, .call⟩]

/-- The overfull method faults although two of its safepoints share an offset, and
the misnumbered one is refused for the safepoint, which comes before the register. -/
theorem compile_outcome_untrusted :
    overfullSnapshot.compile = .error .addOverflow ∧
    misnumberedSnapshot.compile = .ok (.error
      ⟨"misnumbered", .ia32, .unknownSafepoint (Handle.ofNat 0) 7⟩) := by
  obtain ⟨_, _, _, faults⟩ := compile_outcome overfullSnapshot (by decide) (by decide)
  obtain ⟨refused, _⟩ := compile_outcome misnumberedSnapshot (by decide) (by decide)
  exact ⟨(faults .addOverflow).mpr ⟨rfl, rfl, by decide, rfl, by decide⟩,
    refused (.unknownSafepoint (Handle.ofNat 0) 7) (by decide)⟩

end StackMaps
