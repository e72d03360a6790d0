import StackMaps.Method.History
import StackMaps.Proofs.FiniteSets

/-!
# What a history leaves behind

`Effect` says once what an operation that completes does to a method, one case
for each behaviour, and `perform_effect` reads it off the operation. What holds at
the start of a history and is kept by every effect holds at its end.

Two such facts are stated here. The records of a method fit it: a register can
hold the value that is in it, the spill area covers every slot in it, and liveness
is a set of safepoints that the method has, kept without zero words at its end. And
a value is live exactly where an operation of the history made it live.
-/

namespace StackMaps

namespace Record

/-- The safepoints of a value are exactly those with a property: their numbers are the set
that the record keeps, and they are listed in ascending order. -/
structure LiveExactly (record : Record) (marked : SafepointId → Prop) : Prop where
  contains : ∀ number, record.live.contains number = true ↔
    ∃ safepoint : SafepointId, safepoint.number.toNat = number ∧ marked safepoint
  listed : ∃ safepoints, record.safepoints = .ok safepoints ∧
    safepoints.Pairwise (fun left right => left.number < right.number) ∧
    ∀ safepoint, safepoint ∈ safepoints ↔ marked safepoint

/-- One more safepoint makes a value live there, and changes nothing elsewhere. -/
theorem isLiveAt_addLive {record : Record} {safepoint other : SafepointId} :
    (record.addLive safepoint).isLiveAt other = true ↔
      other = safepoint ∨ record.isLiveAt other = true := by
  have same : other.number.toNat = safepoint.number.toNat ↔ other = safepoint :=
    ⟨Handle.eq_of_toNat, fun equal => equal ▸ rfl⟩
  simp [isLiveAt, addLive, BitSet.contains_insert, same]

end Record

namespace Method

/-- The spill area that covers a value of a kind at a location: what it was, grown
to the end of a spill slot at or above its start. -/
inductive Covers (method : Method) (kind : Kind) : Location → UInt32 → Prop where
  | spill {offset : Int32} {bytes stop : UInt32} (above : 0 ≤ offset)
      (sized : method.slotBytes kind = .ok bytes)
      (ends : Checked.add offset.toUInt32 bytes = .ok stop) :
      Covers method kind (.stack ⟨offset, .spill⟩) (max method.frameSize stop)
  | elsewhere {location : Location}
      (away : ∀ offset : Int32, location = .stack ⟨offset, .spill⟩ → ¬ 0 ≤ offset) :
      Covers method kind location method.frameSize

/-- What an operation that completes does to a method. -/
inductive Effect (method : Method) : Action → Method → Prop where
  | newValue (kind : Kind) : Effect method (.newValue kind) (method.addRecord (.fresh kind)).1
  | constant (kind : Kind) (bits : Int64) :
      Effect method (.constant kind bits)
        (method.addRecord (.located kind (.immediate bits))).1
  | refused {value : ValueId} {location : Location} {record : Record} {failure : Failure}
      (held : value.fetch method.values = .ok record)
      (refusal : method.store value record location = .error failure) :
      Effect method (.assign value location) method
  | assigned {value : ValueId} {location : Location} {record : Record} {size : UInt32}
      (held : value.fetch method.values = .ok record)
      (admitted : method.admits record.kind location = true)
      (undecided : record.location.isAssigned = false)
      (covered : Covers method record.kind location size) :
      Effect method (.assign value location)
        { method.setRecord value { record with location } with frameSize := size }
  | newSpillSlot {kind : Kind} {bytes size : UInt32}
      (sized : method.slotBytes kind = .ok bytes)
      (grown : Checked.add method.frameSize bytes = .ok size) :
      Effect method (.newSpillSlot kind) { method with frameSize := size }
  | reserveFrame (bytes : UInt32) :
      Effect method (.reserveFrame bytes) (method.reserveFrame bytes)
  | addSafepoint (pc : UInt32) (kind : SafepointKind) :
      Effect method (.addSafepoint pc kind) (method.addSafepoint pc kind).1
  | markLive {value : ValueId} {safepoint : SafepointId} {record : Record}
      (valid : safepoint.number.toNat < 2 ^ 32 - 1)
      (inside : safepoint.number.toNat < method.safepoints.length)
      (held : value.fetch method.values = .ok record) :
      Effect method (.markLive value safepoint)
        (method.setRecord value (record.addLive safepoint))

variable {method next : Method}

/-- Covering a location changes the spill area only. -/
theorem cover_eq_ok {kind : Kind} {location : Location}
    (covered : method.cover kind location = .ok next) :
    ∃ size, Covers method kind location size ∧ next = { method with frameSize := size } := by
  unfold cover at covered
  split at covered
  · rename_i offset
    by_cases above : 0 ≤ offset
    · rw [if_pos above] at covered
      obtain ⟨bytes, sized, covered⟩ := Checked.bind_eq_ok.mp covered
      obtain ⟨stop, ends, covered⟩ := Checked.bind_eq_ok.mp covered
      exact ⟨_, .spill above sized ends, (Except.ok.inj covered).symm⟩
    · rw [if_neg above] at covered
      refine ⟨_, .elsewhere ?_, (Except.ok.inj covered).symm⟩
      rintro other same
      cases same
      exact above
  · rename_i notSpill
    exact ⟨_, .elsewhere fun offset same => absurd same (notSpill offset),
      (Except.ok.inj covered).symm⟩

/-- An accepted location was admissible, and no other had been decided. -/
theorem store_eq_ok {value : ValueId} {record : Record} {location : Location}
    (stored : method.store value record location = .ok next) :
    method.admits record.kind location = true ∧ record.location.isAssigned = false ∧
      next = method.setRecord value { record with location } := by
  unfold store Record.settle at stored
  by_cases admitted : method.admits record.kind location = true
  · by_cases decided : record.location.isAssigned = true
    · simp [admitted, decided] at stored
    · simp only [admitted, decided, if_true, Bool.false_eq_true, if_false,
        Except.ok.injEq] at stored
      exact ⟨admitted, by simpa using decided, stored.symm⟩
  · simp [admitted] at stored

/-- An assignment is refused and changes nothing, or stores the location and
covers it. -/
theorem assign_effect {value : ValueId} {location : Location} {outcome : Except Failure Unit}
    (assigned : method.assign value location = .ok (next, outcome)) :
    Effect method (.assign value location) next := by
  obtain ⟨record, held, assigned⟩ := Checked.bind_eq_ok.mp assigned
  cases stored : method.store value record location with
  | error failure =>
    rw [stored] at assigned
    cases assigned
    exact .refused held stored
  | ok changed =>
    rw [stored] at assigned
    obtain ⟨covered, covers, assigned⟩ := Checked.bind_eq_ok.mp assigned
    cases assigned
    obtain ⟨admitted, undecided, rfl⟩ := store_eq_ok stored
    obtain ⟨size, grown, rfl⟩ := cover_eq_ok covers
    refine .assigned held admitted undecided ?_
    -- the spill area does not depend on the record that was replaced
    cases grown with
    | spill above sized ends => exact .spill above sized ends
    | elsewhere away => exact .elsewhere away

/-- An operation that completes has its effect. -/
theorem perform_effect {action : Action} (performed : method.perform action = .ok next) :
    Effect method action next := by
  cases action with
  | newValue kind =>
    cases performed
    exact .newValue kind
  | constant kind bits =>
    cases performed
    exact .constant kind bits
  | assign value location =>
    obtain ⟨⟨left, outcome⟩, assigned, rfl⟩ := Checked.map_eq_ok.mp performed
    exact assign_effect assigned
  | newSpillSlot kind =>
    obtain ⟨⟨left, slot⟩, reserved, rfl⟩ := Checked.map_eq_ok.mp performed
    obtain ⟨bytes, sized, reserved⟩ := Checked.bind_eq_ok.mp reserved
    obtain ⟨size, grown, reserved⟩ := Checked.bind_eq_ok.mp reserved
    cases reserved
    exact .newSpillSlot sized grown
  | reserveFrame bytes =>
    cases performed
    exact .reserveFrame bytes
  | addSafepoint pc kind =>
    cases performed
    exact .addSafepoint pc kind
  | markLive value safepoint =>
    obtain ⟨position, indexed, marked⟩ := Checked.bind_eq_ok.mp performed
    obtain ⟨valid, rfl⟩ := Handle.index_eq_ok.mp indexed
    by_cases inside : safepoint.number.toNat < method.safepoints.length
    · rw [if_pos inside] at marked
      obtain ⟨record, held, marked⟩ := Checked.bind_eq_ok.mp marked
      cases marked
      exact .markLive valid inside held
    · rw [if_neg inside] at marked
      cases marked

/-- What every effect carries on from the operations done so far holds at the end
of a history, if it holds at its start. -/
theorem run_induction (property : List Action → Method → Prop)
    (step : ∀ done method action next, property done method → Effect method action next →
      property (done ++ [action]) next)
    {start last : Method} {actions : List Action} (ran : start.run actions = .ok last)
    (done : List Action) (holds : property done start) : property (done ++ actions) last := by
  induction actions generalizing start done with
  | nil =>
    cases ran
    simpa using holds
  | cons action rest induction =>
    obtain ⟨after, performed, ran⟩ := Checked.bind_eq_ok.mp ran
    have kept := step done start action after holds (perform_effect performed)
    have atEnd := induction ran (done ++ [action]) kept
    rwa [List.append_assoc, List.singleton_append] at atEnd

/-- How a record agrees with the method it is in. -/
structure Fits (method : Method) (record : Record) : Prop where
  /-- A register is one that can hold a value of the kind. -/
  owned : ∀ register, record.location = .register register →
    method.convention.owns record.kind.bank register = true
  /-- The spill area covers a slot at or above its start. -/
  covered : ∀ offset : Int32, record.location = .stack ⟨offset, .spill⟩ → 0 ≤ offset →
    ∃ bytes, method.slotBytes record.kind = .ok bytes ∧
      offset.toUInt32.toNat + bytes.toNat ≤ method.frameSize.toNat
  /-- The value is live at safepoints of the method only. -/
  present : ∀ number, record.live.contains number = true →
    number < 2 ^ 32 - 1 ∧ number < method.safepoints.length
  tight : record.live.Tight

/-- A record goes on fitting a method that grows. -/
theorem Fits.mono {record : Record} (fits : method.Fits record)
    (convention : next.convention = method.convention)
    (frame : method.frameSize.toNat ≤ next.frameSize.toNat)
    (safepoints : method.safepoints.length ≤ next.safepoints.length) : next.Fits record where
  owned := by
    rw [convention]
    exact fits.owned
  covered := by
    intro offset located above
    obtain ⟨bytes, sized, inside⟩ := fits.covered offset located above
    refine ⟨bytes, ?_, by omega⟩
    simpa only [slotBytes, target, convention] using sized
  present := by
    intro number member
    obtain ⟨valid, inside⟩ := fits.present number member
    exact ⟨valid, by omega⟩
  tight := fits.tight

section

variable {record : Record} (fits : method.Fits record)

include fits

/-- The number of a safepoint of the record is the number of its handle. -/
theorem Fits.toNat_ofNat {number : Nat} (member : record.live.contains number = true) :
    (Handle.ofNat number : SafepointId).number.toNat = number := by
  have bounds := fits.present number member
  exact Handle.toNat_ofNat (by omega)

/-- The safepoints of the record are listed. -/
theorem Fits.safepoints_eq :
    record.safepoints = .ok (record.live.toList.map Handle.ofNat) := by
  have enumerated : record.live.enumerate = .ok record.live.toList := by
    apply BitSet.enumerate_eq
    intro number member
    have bounds := fits.present number member
    omega
  rw [Record.safepoints, enumerated]
  rfl

/-- The listed safepoints ascend. -/
theorem Fits.safepoints_ascending :
    (record.live.toList.map (Handle.ofNat : Nat → SafepointId)).Pairwise
      fun left right => left.number < right.number := by
  rw [List.pairwise_map]
  refine record.live.toList_ascending.imp_of_mem ?_
  intro left right leftListed rightListed below
  rwa [UInt32.lt_iff_toNat_lt, fits.toNat_ofNat ((record.live.mem_toList left).mp leftListed),
    fits.toNat_ofNat ((record.live.mem_toList right).mp rightListed)]

/-- A safepoint is listed exactly if the value is live there. -/
theorem Fits.mem_safepoints {safepoint : SafepointId} :
    safepoint ∈ record.live.toList.map Handle.ofNat ↔ record.isLiveAt safepoint = true := by
  rw [Record.isLiveAt, ← BitSet.mem_toList, List.mem_map]
  constructor
  · rintro ⟨number, listed, rfl⟩
    rwa [fits.toNat_ofNat ((record.live.mem_toList number).mp listed)]
  · intro listed
    exact ⟨_, listed, safepoint.ofNat_toNat⟩

end

/-- The larger of two sizes is the larger of the numbers. -/
theorem toNat_max (left right : UInt32) :
    (max left right).toNat = max left.toNat right.toNat := by
  have unfolded : max left right = if left ≤ right then right else left := rfl
  simp only [unfolded, Nat.max_def, UInt32.le_iff_toNat_le]
  split <;> rfl

/-- Covering a location never shrinks the spill area. -/
theorem Covers.le {kind : Kind} {location : Location} {size : UInt32}
    (covers : method.Covers kind location size) : method.frameSize.toNat ≤ size.toNat := by
  cases covers with
  | spill above sized ends =>
    rw [toNat_max]
    exact Nat.le_max_left _ _
  | elsewhere away => exact Nat.le_refl _

/-- A covered spill slot ends inside the spill area. -/
theorem Covers.inside {kind : Kind} {offset : Int32} {size : UInt32}
    (covers : method.Covers kind (.stack ⟨offset, .spill⟩) size) (above : 0 ≤ offset) :
    ∃ bytes, method.slotBytes kind = .ok bytes ∧
      offset.toUInt32.toNat + bytes.toNat ≤ size.toNat := by
  cases covers with
  | spill _ sized ends =>
    refine ⟨_, sized, ?_⟩
    rw [← (Checked.add_eq_ok.mp ends).2, toNat_max]
    exact Nat.le_max_right _ _
  | elsewhere away => exact absurd above (away offset rfl)

/-- Every record fits the method. -/
def Coherent (method : Method) : Prop := ∀ record ∈ method.values, method.Fits record

/-- A record that a handle fetches from a coherent method fits it. -/
theorem Coherent.fits (coherent : method.Coherent) {value : ValueId} {record : Record}
    (held : value.fetch method.values = .ok record) : method.Fits record :=
  coherent record (List.mem_of_getElem? (Handle.fetch_eq_ok.mp held).2)

/-- Adding a record that is live nowhere and takes neither a register nor a slot
keeps the method coherent. -/
theorem coherent_addRecord (coherent : method.Coherent) {record : Record}
    (nowhere : record.live = .empty) (unplaced : ∀ register, record.location ≠ .register register)
    (outside : ∀ slot, record.location ≠ .stack slot) :
    (method.addRecord record).1.Coherent := by
  intro other member
  rcases List.mem_append.mp member with old | new
  · exact (coherent other old).mono rfl (Nat.le_refl _) (Nat.le_refl _)
  · obtain rfl := List.mem_singleton.mp new
    constructor
    · intro register located
      exact absurd located (unplaced register)
    · intro offset located
      exact absurd located (outside _)
    · intro number member
      rw [nowhere, BitSet.contains_empty] at member
      cases member
    · rw [nowhere]
      exact BitSet.tight_empty

/-- Replacing a record by one that fits keeps the method coherent. -/
theorem coherent_setRecord (coherent : method.Coherent) {value : ValueId} {record : Record}
    {size : UInt32} (grows : method.frameSize.toNat ≤ size.toNat)
    (fits : { method with frameSize := size }.Fits record) :
    { method.setRecord value record with frameSize := size }.Coherent := by
  intro other member
  rcases List.mem_or_eq_of_mem_set member with old | rfl
  · exact (coherent other old).mono rfl grows (Nat.le_refl _)
  · exact fits.mono rfl (Nat.le_refl _) (Nat.le_refl _)

/-- An effect keeps the convention and the name, and never shrinks the spill area
or drops a safepoint. -/
theorem Effect.grows {action : Action} (effect : Effect method action next) :
    next.convention = method.convention ∧ next.name = method.name ∧
      method.frameSize.toNat ≤ next.frameSize.toNat ∧
      method.safepoints.length ≤ next.safepoints.length := by
  cases effect with
  | assigned held admitted undecided covered =>
    exact ⟨rfl, rfl, covered.le, Nat.le_refl _⟩
  | newSpillSlot sized grown =>
    refine ⟨rfl, rfl, ?_, Nat.le_refl _⟩
    rw [(Checked.add_eq_ok.mp grown).2]
    exact Nat.le_add_right _ _
  | reserveFrame bytes =>
    refine ⟨rfl, rfl, ?_, Nat.le_refl _⟩
    rw [Method.reserveFrame, toNat_max]
    exact Nat.le_max_left _ _
  | addSafepoint pc kind => exact ⟨rfl, rfl, Nat.le_refl _, by simp [Method.addSafepoint]⟩
  | _ => exact ⟨rfl, rfl, Nat.le_refl _, Nat.le_refl _⟩

/-- An effect keeps every record fitting. -/
theorem Effect.coherent {action : Action} (effect : Effect method action next)
    (coherent : method.Coherent) : next.Coherent := by
  have grows := effect.grows
  cases effect with
  | newValue kind =>
    exact coherent_addRecord coherent rfl (by simp [Record.fresh]) (by simp [Record.fresh])
  | constant kind bits =>
    exact coherent_addRecord coherent rfl (by simp [Record.located]) (by simp [Record.located])
  | refused held refusal => exact coherent
  | assigned held admitted undecided covered =>
    rename_i value location record size
    have fits := coherent.fits held
    refine coherent_setRecord coherent covered.le ⟨?_, ?_, fits.present, fits.tight⟩
    · intro register located
      obtain rfl : location = .register register := located
      exact admitted
    · intro offset located above
      obtain rfl : location = .stack ⟨offset, .spill⟩ := located
      exact covered.inside above
  | markLive valid inside held =>
    rename_i value safepoint record
    have fits := coherent.fits held
    refine coherent_setRecord coherent (Nat.le_refl _)
      ⟨fits.owned, fits.covered, ?_, fits.tight.insert _⟩
    intro other member
    rw [Record.addLive, BitSet.contains_insert, Bool.or_eq_true, decide_eq_true_eq] at member
    rcases member with rfl | old
    · exact ⟨valid, inside⟩
    · exact fits.present other old
  | newSpillSlot | reserveFrame | addSafepoint =>
    intro record member
    exact (coherent record member).mono grows.1 grows.2.2.1 grows.2.2.2

/-- Every method that a history reaches is coherent. -/
theorem coherent_run {name : String} {convention : Convention} {actions : List Action}
    (reached : (begin name convention).run actions = .ok method) : method.Coherent := by
  have atStart : (begin name convention).Coherent := by
    intro record member
    cases member
  refine run_induction (fun _ method => method.Coherent) ?_ reached [] atStart
  intro done method action next coherent effect
  exact effect.coherent coherent

/-- The operations done so far account for the liveness of a method's values. -/
structure Accounted (done : List Action) (method : Method) : Prop where
  live : ∀ value record, value.fetch method.values = .ok record →
    ∀ safepoint, record.isLiveAt safepoint = true ↔ .markLive value safepoint ∈ done
  /-- Only values that the method had could be made live. -/
  known : ∀ value safepoint, .markLive value safepoint ∈ done →
    value.number.toNat < method.values.length

/-- A value that is added is live nowhere, and was not made live before. -/
theorem accounted_addRecord {done : List Action} (accounted : Accounted done method)
    {record : Record} (nowhere : record.live = .empty) :
    Accounted done (method.addRecord record).1 := by
  constructor
  · intro value other fetched safepoint
    rcases Handle.fetch_append fetched with old | ⟨atEnd, rfl⟩
    · exact accounted.live value other old safepoint
    · have unmarked : .markLive value safepoint ∉ done := by
        intro marked
        have inside := accounted.known value safepoint marked
        omega
      simp [Record.isLiveAt, nowhere, BitSet.contains_empty, unmarked]
  · intro value safepoint marked
    have inside := accounted.known value safepoint marked
    simp only [addRecord, List.length_append]
    omega

/-- An operation other than making a value live is of no account. -/
theorem accounted_other {done : List Action} {action : Action}
    (other : ∀ value safepoint, action ≠ .markLive value safepoint)
    (kept : Accounted done method) : Accounted (done ++ [action]) method := by
  have unchanged : ∀ value safepoint,
      .markLive value safepoint ∈ done ++ [action] ↔ .markLive value safepoint ∈ done := by
    intro value safepoint
    simp [(other value safepoint).symm]
  constructor
  · intro value record fetched safepoint
    rw [unchanged]
    exact kept.live value record fetched safepoint
  · intro value safepoint marked
    exact kept.known value safepoint ((unchanged value safepoint).mp marked)

/-- An effect accounts for the liveness it changes. -/
theorem Effect.accounted {done : List Action} {action : Action}
    (effect : Effect method action next) (accounted : Accounted done method) :
    Accounted (done ++ [action]) next := by
  cases effect with
  | markLive valid inside held =>
    rename_i value safepoint record
    have within := (List.getElem?_eq_some_iff.mp (Handle.fetch_eq_ok.mp held).2).1
    constructor
    · intro other found fetched point
      rcases Handle.fetch_set fetched with ⟨rfl, rfl⟩ | ⟨apart, old⟩
      · rw [Record.isLiveAt_addLive, accounted.live other record held point]
        simp [or_comm]
      · rw [accounted.live other found old point]
        simp [apart]
    · intro other point marked
      simp only [setRecord, List.length_set]
      rcases List.mem_append.mp marked with old | new
      · exact accounted.known other point old
      · obtain ⟨rfl, rfl⟩ := Action.markLive.inj (List.mem_singleton.mp new)
        exact within
  | newValue kind =>
    exact accounted_other (by simp) (accounted_addRecord accounted rfl)
  | constant kind bits =>
    exact accounted_other (by simp) (accounted_addRecord accounted rfl)
  | refused held refusal => exact accounted_other (by simp) accounted
  | assigned held admitted undecided covered =>
    refine accounted_other (by simp) ⟨?_, ?_⟩
    · intro other found fetched point
      rcases Handle.fetch_set fetched with ⟨rfl, rfl⟩ | ⟨apart, old⟩
      · exact accounted.live other _ held point
      · exact accounted.live other found old point
    · intro other point marked
      simp only [setRecord, List.length_set]
      exact accounted.known other point marked
  | newSpillSlot | reserveFrame | addSafepoint =>
    exact accounted_other (by simp) ⟨accounted.live, accounted.known⟩

/-- At the end of a history a value is live exactly where one of its operations
made it live. -/
theorem live_run {name : String} {convention : Convention} {actions : List Action}
    (reached : (begin name convention).run actions = .ok method) {value : ValueId}
    {record : Record} (held : value.fetch method.values = .ok record) (safepoint : SafepointId) :
    record.isLiveAt safepoint = true ↔ .markLive value safepoint ∈ actions := by
  have atStart : Accounted [] (begin name convention) := by
    constructor
    · intro value record fetched
      obtain ⟨_, stored⟩ := Handle.fetch_eq_ok.mp fetched
      cases stored
    · intro value safepoint marked
      cases marked
  have atEnd := run_induction Accounted
    (fun _ _ _ _ accounted effect => effect.accounted accounted) reached [] atStart
  exact atEnd.live value record held safepoint

/-- At the end of a history the safepoints of a value are exactly those at which one of
its operations made it live. -/
theorem liveExactly_run {name : String} {convention : Convention} {actions : List Action}
    (reached : (begin name convention).run actions = .ok method) {value : ValueId}
    {record : Record} (held : value.fetch method.values = .ok record) :
    record.LiveExactly (.markLive value · ∈ actions) := by
  have fits := (coherent_run reached).fits held
  constructor
  · intro number
    constructor
    · intro member
      have same := fits.toNat_ofNat member
      refine ⟨Handle.ofNat number, same, (live_run reached held _).mp ?_⟩
      rwa [Record.isLiveAt, same]
    · rintro ⟨safepoint, rfl, marked⟩
      exact (live_run reached held safepoint).mpr marked
  · refine ⟨_, fits.safepoints_eq, fits.safepoints_ascending, ?_⟩
    intro safepoint
    rw [← live_run reached held safepoint, fits.mem_safepoints]

/-- A history keeps the convention and the name it started with. -/
theorem identity_run {name : String} {convention : Convention} {actions : List Action}
    (reached : (begin name convention).run actions = .ok method) :
    method.convention = convention ∧ method.name = name := by
  refine run_induction (fun _ method => method.convention = convention ∧ method.name = name)
    ?_ reached [] ⟨rfl, rfl⟩
  rintro done method action next ⟨sameConvention, sameName⟩ effect
  exact ⟨effect.grows.1.trans sameConvention, effect.grows.2.1.trans sameName⟩

end Method

end StackMaps
