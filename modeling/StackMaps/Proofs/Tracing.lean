import StackMaps.Trace
import StackMaps.Proofs.Apartness
import StackMaps.Proofs.Listings

/-!
# Tracing and outcomes

A traced operation says lines between the steps of the plain one. Saying a line
always completes, so a traced sequence ends as the sequence of its outcomes does, and
a traced loop as the plain loop, if every step does. Assigning, drawing a map,
checking the contract and replaying a stored method are then traced without a trace in
their outcome.

Two lines are computed by steps that can fault themselves. The line of a finished
method is its listing, which completes for every table that a method packs.

The line of a bound convention names the register in which thrown objects arrive. A
convention may bind any register to that role, also one that the target does not
list, and naming that one is a fault where the plain operation succeeds. A valid
convention does not get there.
-/

namespace StackMaps

/-! ## Outcomes -/

namespace Traced

section

variable {α β σ : Type}

@[simp] theorem outcome_pure (value : α) : (pure value : Traced α).outcome = .ok value := rfl

@[simp] theorem outcome_say (lines : List String) : (say lines).outcome = .ok () := rfl

@[simp] theorem outcome_lift (step : Checked α) : (liftM step : Traced α).outcome = step := rfl

/-- The outcome of a sequence is the sequence of the outcomes. -/
@[simp] theorem outcome_bind (first : Traced α) (continuation : α → Traced β) :
    (first >>= continuation).outcome =
      first.outcome >>= fun value => (continuation value).outcome := by
  change (next first continuation).outcome = _
  unfold next
  cases first.outcome <;> rfl

/-- A traced loop ends as the plain loop does, if its steps do. -/
theorem outcome_foldlM {step : σ → α → Traced σ} {plain : σ → α → Checked σ}
    (agrees : ∀ state item, (step state item).outcome = plain state item) (list : List α)
    (start : σ) : (list.foldlM step start).outcome = list.foldlM plain start := by
  induction list generalizing start with
  | nil => rfl
  | cons first rest induction =>
    simp only [List.foldlM_cons, outcome_bind, agrees, induction]

end

/-- Assigning a location. -/
theorem outcome_assign (method : Method) (value : ValueId) (location : Location) :
    (assign method value location).outcome = method.assign value location := by
  rw [assign, outcome_bind]
  apply bind_congr
  intro record
  cases method.store value record location with
  | error failure => rfl
  | ok stored => simp

/-- Going on after an operation that may refuse. -/
theorem outcome_andThen {step : Step} {continuation : Method → Step} {plain : Method.Step}
    {next : Method → Method.Step} (first : step.outcome = plain)
    (later : ∀ method, (continuation method).outcome = next method) :
    (step.andThen continuation).outcome = plain.andThen next := by
  rw [Step.andThen, outcome_bind, first]
  apply bind_congr
  rintro ⟨method, outcome⟩
  cases outcome with
  | error failure => rfl
  | ok _ => exact later method

/-- Entering one live value. -/
theorem outcome_enter (builder : MapBuilder) (draft : MapBuilder.Draft)
    (entry : ValueId × Record) :
    (enter builder draft entry).outcome = builder.enter draft entry := by
  unfold enter MapBuilder.enter
  split
  · rw [outcome_bind]
    apply bind_congr
    intro verdict
    match verdict with
    | .ok (some placement) => simp
    | .ok none => rfl
    | .error rejection => rfl
  · rfl

/-- Drawing a map. -/
theorem outcome_build (builder : MapBuilder) (live : List (ValueId × Record)) :
    (build builder live).outcome = builder.buildChecked live := by
  rw [build, outcome_bind, outcome_foldlM (outcome_enter builder)]
  apply bind_congr
  intro draft
  cases draft.rejection <;> rfl

/-- Judging the references of one safepoint. -/
theorem outcome_visit (convention : Convention) (values : List Record)
    (findings : Contract.Findings) (entry : SafepointId × Safepoint) :
    (visit convention values findings entry).outcome =
      findings.visitChecked convention values entry := by
  have judged : ∀ so live, (judge convention entry so live).outcome =
      so.judgeChecked convention entry.1 entry.2 live := by
    intro so live
    simp [judge]
  simp [visit, Contract.Findings.visitChecked, outcome_foldlM judged]

/-- Checking the contract. -/
theorem outcome_check (convention : Convention) (values : List Record)
    (safepoints : List Safepoint) :
    (check convention values safepoints).outcome = Contract.run convention values safepoints := by
  rw [check, outcome_bind, outcome_foldlM (outcome_visit convention values)]
  apply bind_congr
  intro findings
  cases Contract.verdict findings.violations <;> rfl

/-- Drawing the maps of safepoints in order. -/
theorem outcome_maps (method : Method) (builder : MapBuilder)
    (entries : List (SafepointId × Safepoint)) :
    (maps method builder entries).outcome = method.mapsOf builder entries := by
  induction entries with
  | nil => rfl
  | cons entry rest induction =>
    simp only [maps, Method.mapsOf, outcome_bind, outcome_say, outcome_lift, Checked.ok_bind,
      outcome_build]
    apply bind_congr
    intro live
    apply bind_congr
    intro drawn
    cases drawn with
    | error rejection => rfl
    | ok map =>
      rw [outcome_bind, induction]
      apply bind_congr
      intro later
      cases later <;> rfl

/-- Packing the table. -/
theorem outcome_table (method : Method) : (table method).outcome = method.table := by
  rw [table, outcome_bind, outcome_check]
  apply bind_congr
  intro verdict
  cases verdict with
  | error violations => rfl
  | ok _ =>
    simp only [outcome_bind, outcome_lift, outcome_maps]
    apply bind_congr
    intro builder
    apply bind_congr
    intro drawn
    cases drawn <;> rfl

/-- Finishing a method. Its listing is computed only for a table that was packed. -/
theorem outcome_finish (method : Method) : (finish method).outcome = method.finish := by
  rw [finish, outcome_bind, outcome_table, Method.finish]
  cases tabled : method.table with
  | error fault => rfl
  | ok result =>
    cases result with
    | error cause => rfl
    | ok packed =>
      obtain ⟨text, listed⟩ := Method.listing_of_table tabled
      simp [listed]

/-- Adding one stored value. -/
theorem outcome_replayValue (count : Nat) (method : Method) (stored : StoredValue) :
    (replayValue count method stored).outcome = Snapshot.replayValue count method stored := by
  refine outcome_andThen ?_ fun _ => rfl
  rw [replayLocation, Snapshot.replayLocation]
  split
  · exact outcome_assign _ _ _
  · rfl

/-- Adding stored values one after another. -/
theorem outcome_replayValues (count : Nat) (method : Method) (values : List StoredValue) :
    (replayValues count method values).outcome = Snapshot.replayValues count method values := by
  induction values generalizing method with
  | nil => rfl
  | cons stored rest induction =>
    exact outcome_andThen (outcome_replayValue count method stored) induction

end Traced

/-! ## Binding a convention -/

/-- A convention is bound exactly when thrown objects arrive in the register in which
references are returned. -/
theorem Generator.make_eq_ok {convention : Convention} {bound : Generator} :
    Generator.make convention = .ok bound ↔
      ∃ register, convention.roles .exceptionResult .general = some register ∧
        convention.results .reference = some (.register register) ∧
        bound = ⟨convention, .register register⟩ := by
  unfold make Convention.registerFor Convention.resultLocation
  cases convention.roles .exceptionResult .general with
  | none => simp
  | some role =>
    cases convention.results .reference with
    | none => simp
    | some result =>
      by_cases same : result = .register role
      · simp [same, eq_comm]
      · simp [same]

/-- A register in which a valid convention returns references is one of its target's. -/
theorem Convention.contains_result_of_validate {convention : Convention}
    (valid : convention.validateChecked = .ok (.ok ())) {register : Register}
    (returned : convention.results .reference = some (.register register)) :
    convention.catalog.contains register = true := by
  obtain ⟨_, _, _, _, clean⟩ := defect?_eq_none.mp (validateChecked_eq_ok.mp valid)
  have none := clean .reference
  simp only [resultDefect?, returned] at none
  split at none
  · rename_i owned
    exact (Bool.and_eq_true_iff.mp owned).2
  · cases none

namespace Traced

variable (target : Architecture) (catalog : Catalog) {convention : Convention}

/-- A convention that cannot be bound is refused without naming a register. -/
theorem outcome_generatorFor_of_error {failure : Failure}
    (refused : Generator.make convention = .error failure) :
    (generatorFor target catalog convention).outcome = .ok (.error failure) := by
  rw [generatorFor, refused]
  rfl

/-- A convention is bound if the catalog has a name for the register in which thrown
objects arrive. -/
theorem outcome_generatorFor_of_ok {register : Register}
    (made : Generator.make convention = .ok ⟨convention, .register register⟩) :
    (generatorFor target catalog convention).outcome =
      (catalog.name register).map fun _ => .ok ⟨convention, .register register⟩ := by
  simp only [generatorFor, made, outcome_bind, outcome_lift]
  cases catalog.name register <;> rfl

/-- Where the register in which thrown objects arrive is not listed, naming it is a
fault. -/
theorem outcome_generatorFor_of_foreign {register : Register}
    (made : Generator.make convention = .ok ⟨convention, .register register⟩)
    (foreign : catalog.contains register = false) :
    (generatorFor target catalog convention).outcome =
      .error (.foreignRegister register catalog.target) := by
  rw [outcome_generatorFor_of_ok target catalog made, Catalog.name_of_foreign foreign]
  rfl

/-- Binding a convention is traced without a trace in its outcome exactly when the
register in which thrown objects arrive, if it is bound, is listed. -/
theorem outcome_generatorFor_iff :
    (generatorFor target catalog convention).outcome = .ok (Generator.make convention) ↔
      ∀ register, Generator.make convention = .ok ⟨convention, .register register⟩ →
        catalog.contains register = true := by
  constructor
  · intro transparent register made
    cases listed : catalog.contains register with
    | true => rfl
    | false =>
      rw [outcome_generatorFor_of_foreign target catalog made listed] at transparent
      cases transparent
  · intro listed
    cases made : Generator.make convention with
    | error failure => exact outcome_generatorFor_of_error target catalog made
    | ok bound =>
      obtain ⟨register, _, _, rfl⟩ := Generator.make_eq_ok.mp made
      obtain ⟨name, named⟩ := Catalog.name_of_contains (listed register made)
      rw [outcome_generatorFor_of_ok target catalog made, named]
      rfl

/-- Binding a valid convention on its own target is traced without a trace in its
outcome. -/
theorem outcome_generator_of_validate (valid : convention.validateChecked = .ok (.ok ())) :
    (generator convention).outcome = .ok (Generator.make convention) := by
  rw [generator, outcome_generatorFor_iff]
  intro register made
  obtain ⟨other, _, returned, same⟩ := Generator.make_eq_ok.mp made
  obtain rfl : register = other := Location.register.inj (Generator.mk.inj same).2
  exact Convention.contains_result_of_validate valid returned

/-- Replaying a stored method. The convention of its target is valid, and so is bound
alike. -/
theorem outcome_compile (snapshot : Snapshot) :
    (compile snapshot).outcome = snapshot.compile := by
  have valid : snapshot.target.convention.validateChecked = .ok (.ok ()) := by
    cases snapshot.target <;> rfl
  rw [compile, outcome_bind, outcome_generator_of_validate valid, Checked.ok_bind,
    Snapshot.compile]
  cases Generator.make snapshot.target.convention with
  | error cause => rfl
  | ok bound =>
    simp only [outcome_bind, replay, outcome_replayValues]
    apply bind_congr
    rintro ⟨replayed, outcome⟩
    cases outcome with
    | error cause => rfl
    | ok _ => exact outcome_finish replayed

end Traced

/-- Tracing changes no outcome, save one. Assigning, drawing a map, checking the
contract, finishing and replaying a stored method end with tracing as they end without
it, in every state and with the same fault if there is one. So does binding a
convention, unless it succeeds with a register that the target cannot name: then tracing
ends in a fault instead. On its own target a valid convention is always bound alike. -/
theorem traced_alike_unless_unnamed (target : Architecture) (catalog : Catalog)
    (convention : Convention) (method : Method) (builder : MapBuilder) :
    (∀ (value : ValueId) (location : Location),
      (Traced.assign method value location).outcome = method.assign value location) ∧
    (∀ live : List (ValueId × Record),
      (Traced.build builder live).outcome = builder.buildChecked live) ∧
    (∀ (values : List Record) (safepoints : List Safepoint),
      (Traced.check convention values safepoints).outcome =
        Contract.run convention values safepoints) ∧
    (Traced.finish method).outcome = method.finish ∧
    (∀ snapshot : Snapshot, (Traced.compile snapshot).outcome = snapshot.compile) ∧
    ((Traced.generatorFor target catalog convention).outcome =
        .ok (Generator.make convention) ↔
      ∀ register, Generator.make convention = .ok ⟨convention, .register register⟩ →
        catalog.contains register = true) ∧
    (∀ register, Generator.make convention = .ok ⟨convention, .register register⟩ →
      catalog.contains register = false →
      (Traced.generatorFor target catalog convention).outcome =
        .error (.foreignRegister register catalog.target)) ∧
    (convention.validateChecked = .ok (.ok ()) →
      (Traced.generator convention).outcome = .ok (Generator.make convention)) := by
  refine ⟨Traced.outcome_assign method, Traced.outcome_build builder,
    Traced.outcome_check convention, Traced.outcome_finish method, Traced.outcome_compile,
    Traced.outcome_generatorFor_iff target catalog, ?_, Traced.outcome_generator_of_validate⟩
  intro register made foreign
  exact Traced.outcome_generatorFor_of_foreign target catalog made foreign

/-- A convention whose thrown objects arrive in a register beyond the sixteen of its
target. -/
def strayCatch : Convention :=
  ((Convention.bare .amd64 8 0).bindRole .exceptionResult ⟨16, .general⟩).bindResult .reference
    (.register ⟨16, .general⟩)

/-- A target with more registers names that register. The target's own convention is
valid. -/
theorem traced_alike_unless_unnamed_stray :
    (Traced.generatorFor .aarch64 Catalog.aarch64 strayCatch).outcome =
      .ok (.ok ⟨strayCatch, .register ⟨16, .general⟩⟩) ∧
    (Traced.generatorFor .amd64 Catalog.amd64 strayCatch).outcome =
      .error (.foreignRegister ⟨16, .general⟩ .amd64) ∧
    Convention.amd64.validateChecked = .ok (.ok ()) ∧
    (Traced.generator Convention.amd64).outcome =
      .ok (.ok ⟨Convention.amd64, .register ⟨0, .general⟩⟩) := by
  let method := Method.begin "m" strayCatch
  let builder : MapBuilder := ⟨strayCatch, ⟨0, 8, by decide⟩, by decide⟩
  have made : Generator.make strayCatch = .ok ⟨strayCatch, .register ⟨16, .general⟩⟩ := rfl
  obtain ⟨_, _, _, _, _, named, _, _⟩ :=
    traced_alike_unless_unnamed .aarch64 Catalog.aarch64 strayCatch method builder
  obtain ⟨_, _, _, _, _, _, unnamed, _⟩ :=
    traced_alike_unless_unnamed .amd64 Catalog.amd64 strayCatch method builder
  obtain ⟨_, _, _, _, _, _, _, valid⟩ :=
    traced_alike_unless_unnamed .amd64 Catalog.amd64 Convention.amd64 method builder
  refine ⟨named.mpr ?_, unnamed ⟨16, .general⟩ made rfl, rfl, valid rfl⟩
  intro register other
  obtain rfl : register = ⟨16, .general⟩ :=
    Location.register.inj (Generator.mk.inj (Except.ok.inj (other.symm.trans made))).2
  rfl

/-- Without tracing the stray register is bound, and with tracing it is a fault. -/
theorem stray_catch_bound_untraced :
    Generator.make strayCatch = .ok ⟨strayCatch, .register ⟨16, .general⟩⟩ ∧
      (Traced.generator strayCatch).outcome =
        .error (.foreignRegister ⟨16, .general⟩ .amd64) ∧
      (Traced.generator strayCatch).outcome ≠ .ok (Generator.make strayCatch) := by
  have faults : (Traced.generator strayCatch).outcome =
      .error (.foreignRegister ⟨16, .general⟩ .amd64) := rfl
  refine ⟨rfl, faults, ?_⟩
  rw [faults]
  intro same
  cases same

end StackMaps
