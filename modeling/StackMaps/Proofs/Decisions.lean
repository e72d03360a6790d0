import StackMaps.Proofs.Growth

/-!
# What a history decided

The end of a history can be read off its operations without running them. The
values are those that were created, in order, each of the kind it was created
with. A constant is where it was created; any other value is at the first
acceptable location that it was offered, and nowhere if there was none. Offers
that are not acceptable and offers that come too late count for nothing, wherever
they stand between the others, since an assignment that is refused leaves the
method as it was.

`decided` is that reading of the operations. One more offer changes it in the way
an assignment changes the record of the value, and no other operation changes it,
so the records follow it along the history.
-/

namespace StackMaps

namespace Method

/-- The value that an operation creates: its kind, and the number that it is if it is
a constant. -/
def Action.created? : Action → Option (Kind × Option Int64)
  | .newValue kind => some (kind, none)
  | .constant kind bits => some (kind, some bits)
  | _ => none

/-- The safepoint that an operation adds. -/
def Action.added? : Action → Option Safepoint
  | .addSafepoint pc kind => some ⟨pc, kind⟩
  | _ => none

/-- The location that an operation offers to a value. -/
def Action.offered? (value : ValueId) : Action → Option Location
  | .assign other location => if other = value then some location else none
  | _ => none

/-- The values that operations create, in order. -/
def created (actions : List Action) : List (Kind × Option Int64) :=
  actions.filterMap Action.created?

/-- The safepoints that operations add, in order. -/
def added (actions : List Action) : List Safepoint := actions.filterMap Action.added?

/-- The locations that operations offer to a value, in order. -/
def offered (actions : List Action) (value : ValueId) : List Location :=
  actions.filterMap (Action.offered? value)

/-- A location that a value of a kind may be offered on a target: a register that
the target lists and that is of the kind's bank, a slot of the stack or a constant. -/
def Acceptable (target : Architecture) (kind : Kind) : Location → Prop
  | .register register =>
    register.bank = kind.bank ∧ register ∈ target.catalog.registers register.bank
  | .stack _ | .immediate _ => True
  | .unassigned => False

instance (target : Architecture) (kind : Kind) : DecidablePred (Acceptable target kind)
  | .register register => inferInstanceAs (Decidable (register.bank = kind.bank ∧ _))
  | .stack _ | .immediate _ => inferInstanceAs (Decidable True)
  | .unassigned => inferInstanceAs (Decidable False)

/-- The location that operations decide for a value, given how it was created. -/
def decided (target : Architecture) (actions : List Action) (value : ValueId) :
    Kind × Option Int64 → Location
  | (_, some bits) => .immediate bits
  | (kind, none) => ((offered actions value).find? (Acceptable target kind ·)).getD .unassigned

section

variable {target : Architecture} {done : List Action} {value : ValueId}
  {creation : Kind × Option Int64}

/-- A location is decided exactly when it is not the undecided one. -/
theorem isAssigned_eq_false_iff {location : Location} :
    location.isAssigned = false ↔ location = .unassigned := by
  cases location <;> simp [Location.isAssigned]

/-- An operation that offers a value nothing decides nothing about it. -/
theorem decided_concat_other {action : Action} (silent : action.offered? value = none) :
    decided target (done ++ [action]) value creation = decided target done value creation := by
  obtain ⟨kind, constant⟩ := creation
  cases constant with
  | some bits => rfl
  | none => simp [decided, offered, silent]

/-- An offer decides the location of a value if it is acceptable and nothing was
decided before, and changes nothing otherwise. -/
theorem decided_concat_assign (location : Location) :
    decided target (done ++ [.assign value location]) value creation =
      if decided target done value creation = .unassigned ∧
          Acceptable target creation.1 location then location
      else decided target done value creation := by
  obtain ⟨kind, constant⟩ := creation
  cases constant with
  | some bits => simp [decided]
  | none =>
    have offers : offered (done ++ [.assign value location]) value =
        offered done value ++ [location] := by
      simp [offered, Action.offered?]
    simp only [decided, offers, List.find?_append]
    rcases Option.eq_none_or_eq_some ((offered done value).find? (Acceptable target kind ·)) with
      found | ⟨earlier, found⟩
    · by_cases acceptable : Acceptable target kind location
      · simp [found, acceptable]
      · simp [found, acceptable]
    · have acceptable : Acceptable target kind earlier := by
        simpa using List.find?_some found
      have stands : earlier ≠ .unassigned := by
        rintro rfl
        exact acceptable
      simp [found, stands]

/-- A value that was never offered anything is where it was created. -/
theorem decided_of_silence (silent : ∀ location, .assign value location ∉ done) (kind : Kind) :
    decided target done value (kind, none) = .unassigned := by
  have nothing : offered done value = [] := by
    rw [offered, List.filterMap_eq_nil_iff]
    intro action member
    cases action with
    | assign other location =>
      have apart : other ≠ value := by
        rintro rfl
        exact silent location member
      exact if_neg apart
    | _ => rfl
  simp [decided, nothing]

/-- An operation that offers nothing adds no offer. -/
theorem mem_of_silent {action : Action} (silent : ∀ value, action.offered? value = none)
    {location : Location} (member : .assign value location ∈ done ++ [action]) :
    .assign value location ∈ done := by
  rcases List.mem_append.mp member with old | new
  · exact old
  · have offer := silent value
    rw [← List.mem_singleton.mp new] at offer
    simp [Action.offered?] at offer

end

variable {method next : Method}

/-- A method admits the locations that are acceptable on its target. -/
theorem admits_iff {kind : Kind} {location : Location} :
    method.admits kind location = true ↔ Acceptable method.target kind location := by
  cases location with
  | register register =>
    simp only [admits, Acceptable, Convention.owns, Bool.and_eq_true, decide_eq_true_eq,
      Catalog.contains_iff_mem]
    rfl
  | stack slot => simp [admits, Acceptable]
  | immediate bits => simp [admits, Acceptable]
  | unassigned => simp [admits, Acceptable]

/-- The answer to an offer: a location that is not acceptable is invalid, and one that
comes after the location was decided would move the value. -/
def answer (target : Architecture) (value : ValueId) (record : Record) (location : Location) :
    Except Failure Unit :=
  if Acceptable target record.kind location then
    if record.location = .unassigned then .ok ()
    else .error (.reassigned value record.location location)
  else .error (.invalidLocation value record.kind location)

/-- A location is stored if the answer is not against it. -/
theorem store_eq_answer (value : ValueId) (record : Record) (location : Location) :
    method.store value record location =
      (answer method.target value record location).map fun _ =>
        method.setRecord value { record with location } := by
  unfold store answer Record.settle
  by_cases acceptable : Acceptable method.target record.kind location
  · rw [if_pos (admits_iff.mpr acceptable), if_pos acceptable]
    by_cases undecided : record.location = .unassigned
    · rw [if_pos undecided, isAssigned_eq_false_iff.mpr undecided]
      rfl
    · have isDecided : record.location.isAssigned = true := by
        rw [← Bool.not_eq_false, isAssigned_eq_false_iff]
        exact undecided
      rw [if_neg undecided, isDecided]
      rfl
  · rw [if_neg acceptable, if_neg fun admitted => acceptable (admits_iff.mp admitted)]
    rfl

/-- An assignment that completes gives the answer to the offer, and one that is refused
leaves the method as it was. -/
theorem assign_answers {value : ValueId} {location : Location} {outcome : Except Failure Unit}
    (assigned : method.assign value location = .ok (next, outcome)) :
    ∃ record, method.value value = .ok record ∧
      outcome = answer method.target value record location ∧
      ∀ failure, outcome = .error failure → next = method := by
  obtain ⟨record, held, assigned⟩ := Checked.bind_eq_ok.mp assigned
  refine ⟨record, held, ?_⟩
  rw [store_eq_answer] at assigned
  cases answered : answer method.target value record location with
  | error failure =>
    rw [answered] at assigned
    cases assigned
    exact ⟨rfl, fun _ _ => rfl⟩
  | ok accepted =>
    rw [answered] at assigned
    obtain ⟨covered, _, assigned⟩ := Checked.bind_eq_ok.mp assigned
    cases assigned
    exact ⟨rfl, fun _ impossible => nomatch impossible⟩

/-- A refused location is not acceptable, or comes after another was decided. -/
theorem not_open_of_store_error {value : ValueId} {record : Record} {location : Location}
    {failure : Failure} (refusal : method.store value record location = .error failure) :
    ¬ (record.location = .unassigned ∧ Acceptable method.target record.kind location) := by
  rintro ⟨undecided, acceptable⟩
  rw [store_eq_answer, answer, if_pos acceptable, if_pos undecided] at refusal
  cases refusal

/-- The operations done so far account for the values and the safepoints of a method. -/
structure Decided (convention : Convention) (done : List Action) (method : Method) : Prop where
  bound : method.convention = convention
  safepoints : method.safepoints = added done
  length : method.values.length = (created done).length
  /-- A value is of the kind it was created with, at the location decided for it. -/
  records : ∀ (value : ValueId) record, method.value value = .ok record →
    ∃ creation, (created done)[value.number.toNat]? = some creation ∧
      record.kind = creation.1 ∧ record.location = decided convention.target done value creation
  /-- Only values that the method had were offered anything. -/
  known : ∀ value location, .assign value location ∈ done →
    value.number.toNat < method.values.length

variable {convention : Convention} {done : List Action}

/-- A value that is added is the last one created, and was offered nothing before. -/
theorem Decided.addRecord (before : Decided convention done method) {action : Action}
    {kind : Kind} {constant : Option Int64} {record : Record}
    (creates : action.created? = some (kind, constant)) (silent : action.added? = none)
    (offers : ∀ value, action.offered? value = none) (sameKind : record.kind = kind)
    (located : ∀ actions value, (∀ location, .assign value location ∉ actions) →
      record.location = decided convention.target actions value (kind, constant)) :
    Decided convention (done ++ [action]) (method.addRecord record).1 := by
  have list : created (done ++ [action]) = created done ++ [(kind, constant)] := by
    simp [created, creates]
  constructor
  · exact before.bound
  · simp [Method.addRecord, before.safepoints, added, silent]
  · simp [Method.addRecord, before.length, list]
  · intro value other held
    rcases Handle.fetch_append held with old | ⟨atEnd, rfl⟩
    · obtain ⟨creation, present, same, stands⟩ := before.records value other old
      refine ⟨creation, ?_, same, ?_⟩
      · rw [list]
        exact List.getElem?_append_left (List.getElem?_eq_some_iff.mp present).1 ▸ present
      · rw [decided_concat_other (offers value)]
        exact stands
    · refine ⟨(kind, constant), ?_, sameKind, ?_⟩
      · rw [list, atEnd, before.length]
        simp
      · apply located
        intro location member
        have inside := before.known value location (mem_of_silent offers member)
        omega
  · intro value location member
    have inside := before.known value location (mem_of_silent offers member)
    simp only [Method.addRecord, List.length_append]
    omega

/-- An operation that creates and offers nothing is accounted for by the safepoint that
it adds, if it adds one. -/
theorem Decided.other (before : Decided convention done method) {action : Action}
    (creates : action.created? = none) (offers : ∀ value, action.offered? value = none)
    (keeps : next.convention = convention)
    (adds : next.safepoints = method.safepoints ++ action.added?.toList)
    (sameLength : next.values.length = method.values.length)
    (sameRecords : ∀ value record, next.value value = .ok record →
      ∃ old, method.value value = .ok old ∧ record.kind = old.kind ∧
        record.location = old.location) :
    Decided convention (done ++ [action]) next := by
  have sameCreated : created (done ++ [action]) = created done := by
    simp [created, creates]
  constructor
  · exact keeps
  · rw [adds, before.safepoints, added, added, List.filterMap_append]
    cases adding : action.added? <;> simp [adding]
  · rw [sameLength, sameCreated, before.length]
  · intro value record held
    obtain ⟨old, oldHeld, sameKind, sameLocation⟩ := sameRecords value record held
    obtain ⟨creation, present, kind, stands⟩ := before.records value old oldHeld
    refine ⟨creation, sameCreated ▸ present, sameKind.trans kind, ?_⟩
    rw [decided_concat_other (offers value), sameLocation]
    exact stands
  · intro value location member
    rw [sameLength]
    exact before.known value location (mem_of_silent offers member)

/-- An offer to a value that the method has is accounted for if its record changes as
the decision does, and the other records do not change. -/
theorem Decided.assign (before : Decided convention done method) {value : ValueId}
    {location : Location} {record : Record} (held : method.value value = .ok record)
    (sameConvention : next.convention = convention)
    (sameSafepoints : next.safepoints = method.safepoints)
    (sameLength : next.values.length = method.values.length)
    (others : ∀ other found, other ≠ value → next.value other = .ok found →
      method.value other = .ok found)
    (changed : ∀ found, next.value value = .ok found → found.kind = record.kind ∧
      found.location =
        if record.location = .unassigned ∧ Acceptable convention.target record.kind location
        then location else record.location) :
    Decided convention (done ++ [.assign value location]) next := by
  have sameCreated : created (done ++ [.assign value location]) = created done := by
    simp [created, Action.created?]
  have within : value.number.toNat < method.values.length :=
    (List.getElem?_eq_some_iff.mp (Handle.fetch_eq_ok.mp held).2).1
  constructor
  · exact sameConvention
  · simp [sameSafepoints, before.safepoints, added, Action.added?]
  · rw [sameLength, sameCreated, before.length]
  · intro other found fetched
    by_cases same : other = value
    · subst same
      obtain ⟨creation, present, kind, stands⟩ := before.records other record held
      obtain ⟨sameKind, moved⟩ := changed found fetched
      refine ⟨creation, sameCreated ▸ present, sameKind.trans kind, ?_⟩
      rw [decided_concat_assign, ← stands, ← kind]
      exact moved
    · obtain ⟨creation, present, kind, stands⟩ :=
        before.records other found (others other found same fetched)
      have silent : Action.offered? other (.assign value location) = none :=
        if_neg fun equal => same equal.symm
      refine ⟨creation, sameCreated ▸ present, kind, ?_⟩
      rw [decided_concat_other silent]
      exact stands
  · intro other offeredLocation member
    rw [sameLength]
    rcases List.mem_append.mp member with old | new
    · exact before.known other offeredLocation old
    · obtain ⟨rfl, rfl⟩ := Action.assign.inj (List.mem_singleton.mp new)
      exact within

/-- An effect is accounted for by its operation. -/
theorem Effect.decided {action : Action} (effect : Effect method action next)
    (before : Decided convention done method) : Decided convention (done ++ [action]) next := by
  have keeps := effect.grows.1.trans before.bound
  cases effect with
  | newValue kind =>
    refine before.addRecord rfl rfl (fun _ => rfl) rfl ?_
    intro actions value silent
    exact (decided_of_silence silent kind).symm
  | constant kind bits =>
    exact before.addRecord rfl rfl (fun _ => rfl) rfl fun _ _ _ => rfl
  | refused held refusal =>
    have closed := not_open_of_store_error refusal
    rw [Method.target, before.bound] at closed
    refine before.assign held keeps rfl rfl (fun _ _ _ fetched => fetched) ?_
    intro found fetched
    obtain rfl := Except.ok.inj (fetched.symm.trans held)
    exact ⟨rfl, (if_neg closed).symm⟩
  | assigned held admitted undecided covered =>
    have acceptable := admits_iff.mp admitted
    rw [Method.target, before.bound] at acceptable
    refine before.assign held keeps rfl (by simp [setRecord]) ?_ ?_
    · intro other found apart fetched
      rcases Handle.fetch_set fetched with ⟨same, _⟩ | ⟨_, old⟩
      · exact absurd same apart
      · exact old
    · intro found fetched
      rcases Handle.fetch_set fetched with ⟨_, rfl⟩ | ⟨apart, _⟩
      · exact ⟨rfl, (if_pos ⟨isAssigned_eq_false_iff.mp undecided, acceptable⟩).symm⟩
      · exact absurd rfl apart
  | markLive valid inside held =>
    refine before.other rfl (fun _ => rfl) keeps (by simp [setRecord, Action.added?])
      (by simp [setRecord]) ?_
    intro other found fetched
    rcases Handle.fetch_set fetched with ⟨rfl, rfl⟩ | ⟨_, old⟩
    · exact ⟨_, held, rfl, rfl⟩
    · exact ⟨found, old, rfl, rfl⟩
  | newSpillSlot sized grown =>
    exact before.other rfl (fun _ => rfl) keeps (by simp [Action.added?]) rfl
      fun _ record held => ⟨record, held, rfl, rfl⟩
  | reserveFrame bytes =>
    exact before.other rfl (fun _ => rfl) keeps (by simp [Method.reserveFrame, Action.added?]) rfl
      fun _ record held => ⟨record, held, rfl, rfl⟩
  | addSafepoint pc kind =>
    exact before.other rfl (fun _ => rfl) keeps rfl rfl
      fun _ record held => ⟨record, held, rfl, rfl⟩

section

variable {name : String} {actions : List Action}

/-- The operations of a history account for the method it reaches. -/
theorem decided_run (reached : (begin name convention).run actions = .ok method) :
    Decided convention actions method := by
  have atStart : Decided convention [] (begin name convention) := by
    refine ⟨rfl, rfl, rfl, ?_, ?_⟩
    · intro value record held
      obtain ⟨_, stored⟩ := Handle.fetch_eq_ok.mp held
      cases stored
    · intro value location member
      cases member
  exact run_induction (Decided convention)
    (fun _ _ _ _ before effect => effect.decided before) reached [] atStart

/-- A value that a history creates ends with the kind it was created with, at the
location decided for it, and live where the history made it live. -/
theorem value_of_creation {before after : List Action} {action : Action} {kind : Kind}
    {constant : Option Int64} (creates : action.created? = some (kind, constant))
    (reached : (begin name convention).run (before ++ action :: after) = .ok method)
    (few : (created (before ++ action :: after)).length < 2 ^ 32 - 1) :
    ∃ earlier record, (begin name convention).run before = .ok earlier ∧
      method.value (Handle.ofNat earlier.values.length) = .ok record ∧ record.kind = kind ∧
      record.location = decided convention.target (before ++ action :: after)
        (Handle.ofNat earlier.values.length) (kind, constant) ∧
      record.LiveExactly
        (.markLive (Handle.ofNat earlier.values.length) · ∈ before ++ action :: after) := by
  obtain ⟨earlier, ran, _⟩ := run_append_eq_ok.mp reached
  have account := decided_run reached
  have list : created (before ++ action :: after) =
      created before ++ (kind, constant) :: created after := by
    simp [created, creates]
  have position := (decided_run ran).length
  have inside : earlier.values.length < method.values.length := by
    rw [account.length, list, position]
    simp
  have numbered : (Handle.ofNat earlier.values.length : ValueId).number.toNat =
      earlier.values.length := by
    rw [← account.length] at few
    exact Handle.toNat_ofNat (by omega)
  have held : method.value (Handle.ofNat earlier.values.length) =
      .ok (method.values.get ⟨earlier.values.length, inside⟩) := by
    rw [← account.length] at few
    refine (Handle.fetch_of_short few).mpr ?_
    rw [numbered]
    exact List.getElem?_eq_getElem inside
  obtain ⟨creation, present, sameKind, stands⟩ := account.records _ _ held
  obtain rfl : creation = (kind, constant) := by
    rw [numbered, list, position] at present
    simpa using present.symm
  exact ⟨earlier, _, ran, held, sameKind, stands, liveExactly_run reached held⟩

end

end Method

/-- A history decides what it leaves. Its safepoints are those that were added, in
order. A value is of the kind it was created with; it is at the first acceptable
location that it was offered, and nowhere if there was none, or it is a constant from
the start; and it is live exactly where it was made live. An assignment is refused
when the location is not acceptable or another was decided before, and then leaves
the whole method as it was. -/
theorem history_decides_method {name : String} {convention : Convention}
    {actions : List Method.Action} {method : Method}
    (reached : (Method.begin name convention).run actions = .ok method)
    (fewValues : (Method.created actions).length < 2 ^ 32 - 1) :
    method.safepoints = Method.added actions ∧
    method.values.length = (Method.created actions).length ∧
    (∀ before kind after, actions = before ++ .newValue kind :: after →
      ∃ earlier value record, (Method.begin name convention).run before = .ok earlier ∧
        value = (earlier.newValue kind).2 ∧ method.value value = .ok record ∧
        record.kind = kind ∧
        record.location = ((Method.offered actions value).find?
          (Method.Acceptable convention.target kind ·)).getD .unassigned ∧
        record.LiveExactly (.markLive value · ∈ actions)) ∧
    (∀ before kind bits after, actions = before ++ .constant kind bits :: after →
      ∃ earlier value record, (Method.begin name convention).run before = .ok earlier ∧
        value = (earlier.constant kind bits).2 ∧ method.value value = .ok record ∧
        record.kind = kind ∧ record.location = .immediate bits ∧
        record.LiveExactly (.markLive value · ∈ actions)) ∧
    ∀ before value location after, actions = before ++ .assign value location :: after →
      ∃ earlier record later outcome, (Method.begin name convention).run before = .ok earlier ∧
        earlier.value value = .ok record ∧
        earlier.assign value location = .ok (later, outcome) ∧
        later.run after = .ok method ∧
        outcome = Method.answer convention.target value record location ∧
        ∀ failure, outcome = .error failure → later = earlier := by
  have account := Method.decided_run reached
  refine ⟨account.safepoints, account.length, ?_, ?_, ?_⟩
  · rintro before kind after rfl
    obtain ⟨earlier, record, ran, held, facts⟩ :=
      Method.value_of_creation rfl reached fewValues
    exact ⟨earlier, _, record, ran, rfl, held, facts⟩
  · rintro before kind bits after rfl
    obtain ⟨earlier, record, ran, held, facts⟩ :=
      Method.value_of_creation rfl reached fewValues
    exact ⟨earlier, _, record, ran, rfl, held, facts⟩
  · rintro before value location after rfl
    obtain ⟨earlier, ran, rest⟩ := Method.run_append_eq_ok.mp reached
    obtain ⟨later, performed, rest⟩ := Checked.bind_eq_ok.mp rest
    obtain ⟨⟨left, outcome⟩, assigned, rfl⟩ := Checked.map_eq_ok.mp performed
    obtain ⟨record, held, answered, refused⟩ := Method.assign_answers assigned
    rw [Method.target, (Method.identity_run ran).1] at answered
    exact ⟨earlier, record, left, outcome, ran, held, assigned, rest, answered, refused⟩

/-- A history of offers that are refused in between: a register of the wrong bank, one
that the target does not have, a slot that is taken, another that comes too late and
would have grown the spill area, and one for a constant. -/
def offersHistory : List Method.Action :=
  [.newValue .reference, .constant .long 7, .addSafepoint 16 .poll,
    .assign (Handle.ofNat 0) (.register ⟨0, .floating⟩),
    .assign (Handle.ofNat 0) (.register ⟨20, .general⟩), .assign (Handle.ofNat 0) (.spill 8),
    .markLive (Handle.ofNat 0) (Handle.ofNat 0), .assign (Handle.ofNat 0) (.spill 4096),
    .assign (Handle.ofNat 1) (.spill 64), .addSafepoint 4 .call]

/-- The reference is in the slot, the constant stays one, and the late offer of a slot
far up leaves the spill area at sixteen bytes. -/
theorem history_decides_method_offers :
    ∃ method, (Method.begin "offers" Convention.amd64).run offersHistory = .ok method ∧
      method.safepoints = [⟨16, .poll⟩, ⟨4, .call⟩] ∧
      (∃ record, method.value (Handle.ofNat 0) = .ok record ∧ record.location = .spill 8 ∧
        record.live.contains 0 = true) ∧
      (∃ record, method.value (Handle.ofNat 1) = .ok record ∧ record.location = .immediate 7) ∧
      ∃ earlier, (Method.begin "offers" Convention.amd64).run (offersHistory.take 7) =
          .ok earlier ∧ earlier.frameSize = 16 ∧
        earlier.assign (Handle.ofNat 0) (.spill 4096) =
          .ok (earlier, .error (.reassigned (Handle.ofNat 0) (.spill 8) (.spill 4096))) := by
  obtain ⟨safepoints, _, values, constants, offers⟩ := history_decides_method
    (rfl : (Method.begin "offers" Convention.amd64).run offersHistory = .ok _) (by decide)
  refine ⟨_, rfl, safepoints.trans (by decide), ?_, ?_, ?_⟩
  · obtain ⟨earlier, value, record, ran, handle, held, _, located, live⟩ :=
      values [] .reference (offersHistory.drop 1) rfl
    obtain rfl := Except.ok.inj (ran.symm.trans rfl)
    subst handle
    have marked := (live.contains 0).mpr ⟨Handle.ofNat 0, rfl, by decide⟩
    exact ⟨record, held, located.trans (by decide), marked⟩
  · obtain ⟨earlier, value, record, ran, handle, held, _, located, _⟩ :=
      constants (offersHistory.take 1) .long 7 (offersHistory.drop 2) rfl
    obtain rfl := Except.ok.inj (ran.symm.trans rfl)
    subst handle
    exact ⟨record, held, located⟩
  · obtain ⟨earlier, record, later, outcome, ran, held, assigned, _, answered, refused⟩ :=
      offers (offersHistory.take 7) (Handle.ofNat 0) (.spill 4096) (offersHistory.drop 8) rfl
    obtain rfl := Except.ok.inj (ran.symm.trans rfl)
    obtain rfl := Except.ok.inj (held.symm.trans rfl)
    have late : outcome = .error (.reassigned (Handle.ofNat 0) (.spill 8) (.spill 4096)) := by
      exact answered
    obtain rfl := refused _ late
    exact ⟨_, rfl, rfl, late ▸ assigned⟩

end StackMaps
