import StackMaps.Snapshot
import StackMaps.Proofs.Finishing
import StackMaps.Proofs.Growth

/-!
# What replaying a stored method does

A stored method may hold anything: registers that no target has, numbers of
safepoints that are not there, offsets on either side of the frame. What it asks
for is read off in order, value by value, and within a value its location before
its safepoints. The first demand that cannot be met is the refusal of the replay.
If all can be met, the replay ends with the method that the snapshot describes:
one record for each stored value, and a spill area that covers what was stored and
the end of every spill slot.

Replaying is a sequence of steps that are each refused or accepted. `Settles` says
which, and what an accepted step reaches, so a replay is described by putting the
descriptions of its steps together.
-/

namespace StackMaps

/-- The handle of the end of a table fetches an entry that is added there. -/
theorem Handle.fetch_last {α : Type} {table : List α} (short : table.length < 2 ^ 32 - 1)
    (added : α) : (Handle.ofNat table.length : Handle α).fetch (table ++ [added]) = .ok added := by
  have position : (Handle.ofNat table.length : Handle α).number.toNat = table.length :=
    Handle.toNat_ofNat (by omega)
  rw [Handle.fetch_eq_ok, position]
  exact ⟨short, by simp⟩

/-! ## What is stored -/

/-- Something that a stored value asks for: to be at a location, or to be live at a
numbered safepoint. -/
inductive Demand where
  | location (value : ValueId) (kind : Kind) (location : Location)
  | live (value : ValueId) (number : UInt32)
  deriving DecidableEq

/-- Why a demand cannot be met by a target with the given registers and a method
with so many safepoints. A register must be listed and of the bank of the value's
kind. -/
def Demand.refusal? (catalog : Catalog) (count : Nat) : Demand → Option Failure
  | .location value kind (.register register) =>
    if register.bank = kind.bank ∧ register ∈ catalog.registers register.bank then none
    else some (.invalidLocation value kind (.register register))
  | .location _ _ _ => none
  | .live value number =>
    if number.toNat < count then none else some (.unknownSafepoint value number)

namespace StoredValue

/-- What a stored value asks for, its location first. -/
def demands (stored : StoredValue) (value : ValueId) : List Demand :=
  .location value stored.kind stored.location :: stored.live.map (Demand.live value)

/-- The record that a stored value stands for. -/
def record (stored : StoredValue) : Record :=
  stored.live.foldl (fun so number => so.addLive ⟨number⟩) (.located stored.kind stored.location)

/-- Where the slots of a stored value end, if they are in the spill area. -/
def stop (convention : Convention) (stored : StoredValue) : Nat :=
  match stored.location with
  | .stack ⟨offset, .spill⟩ =>
    if 0 ≤ offset then offset.toInt.toNat + convention.wholeSlots stored.kind else 0
  | _ => 0

/-- What replaying a stored value computes stays in range, in a method with so many
safepoints. -/
structure InRange (convention : Convention) (count : Nat) (stored : StoredValue) : Prop where
  /-- Slots in the spill area have some width, and neither the padded size of the
  value nor their end leaves the range of sizes. -/
  measured : ∀ offset, stored.location = .spill offset → 0 ≤ offset →
    0 < convention.slotSize.toNat ∧
    convention.valueSize stored.kind + convention.slotSize.toNat < 2 ^ 32 ∧
    stored.stop convention < 2 ^ 32
  /-- The handle of a safepoint of the method refers to something. -/
  numbered : ∀ number ∈ stored.live, number.toNat < count → number.toNat < 2 ^ 32 - 1

/-- In the spill area, the slots of a stored value end after its whole slots. -/
theorem stop_of_spill {convention : Convention} {stored : StoredValue} {offset : Int32}
    (located : stored.location = .spill offset) (above : 0 ≤ offset) :
    stored.stop convention = offset.toInt.toNat + convention.wholeSlots stored.kind := by
  rw [stop, located]
  exact if_pos above

/-- Elsewhere they take nothing of it. -/
theorem stop_of_elsewhere {convention : Convention} {stored : StoredValue}
    (away : ∀ offset, stored.location = .spill offset → ¬ 0 ≤ offset) :
    stored.stop convention = 0 := by
  unfold stop
  split
  · rename_i offset located
    exact if_neg (away offset located)
  · rfl

/-- The slots of a stored value end somewhere only in the spill area. -/
theorem stop_eq {convention : Convention} {stored : StoredValue} :
    stored.stop convention = 0 ∨ ∃ offset, stored.location = .spill offset ∧ 0 ≤ offset ∧
      stored.stop convention = offset.toInt.toNat + convention.wholeSlots stored.kind := by
  by_cases inside : ∃ offset, stored.location = .spill offset ∧ 0 ≤ offset
  · obtain ⟨offset, located, above⟩ := inside
    exact Or.inr ⟨offset, located, above, stop_of_spill located above⟩
  · exact Or.inl (stop_of_elsewhere fun offset located above => inside ⟨offset, located, above⟩)

/-- An end that can be computed is a size. -/
theorem InRange.stop_lt {convention : Convention} {count : Nat} {stored : StoredValue}
    (inRange : stored.InRange convention count) : stored.stop convention < 2 ^ 32 := by
  rcases stop_eq with none | ⟨offset, located, above, _⟩
  · rw [none]
    decide
  · exact (inRange.measured offset located above).2.2

/-- Making a value live at numbered safepoints inserts their numbers. -/
theorem foldl_addLive (numbers : List UInt32) (record : Record) :
    numbers.foldl (fun so number => so.addLive ⟨number⟩) record =
      { record with live := record.live.insertAll (numbers.map UInt32.toNat) } := by
  induction numbers generalizing record with
  | nil => rfl
  | cons number rest induction =>
    rw [List.foldl_cons, induction]
    rfl

/-- The record of a stored value has its kind and its location, and is live at the
numbered safepoints. -/
theorem record_eq (stored : StoredValue) : stored.record =
    ⟨stored.kind, stored.location, .insertAll .empty (stored.live.map UInt32.toNat)⟩ :=
  foldl_addLive stored.live _

/-- The record of a stored value is of its kind. -/
theorem record_kind (stored : StoredValue) : stored.record.kind = stored.kind := by
  rw [record_eq]

/-- The record of a stored value is at its location. -/
theorem record_location (stored : StoredValue) : stored.record.location = stored.location := by
  rw [record_eq]

/-- The record of a stored value is live at the numbered safepoints, whatever their
order and however often they are listed. -/
theorem isLiveAt_record {stored : StoredValue} {safepoint : SafepointId} :
    stored.record.isLiveAt safepoint = true ↔ safepoint.number ∈ stored.live := by
  simp [record_eq, Record.isLiveAt, BitSet.contains_insertAll, BitSet.contains_empty,
    UInt32.toNat_inj]

/-- Everything that a stored value asks for can be had. -/
structure Admissible (catalog : Catalog) (count : Nat) (stored : StoredValue) : Prop where
  listed : ∀ register, stored.location = .register register →
    register.bank = stored.kind.bank ∧ register ∈ catalog.registers register.bank
  known : ∀ number ∈ stored.live, number.toNat < count

/-- A stored value is refused nothing exactly when it is admissible. -/
theorem demands_met_iff {catalog : Catalog} {count : Nat} {stored : StoredValue}
    {value : ValueId} :
    (∀ demand ∈ stored.demands value, demand.refusal? catalog count = none) ↔
      stored.Admissible catalog count := by
  simp only [demands, List.forall_mem_cons, List.forall_mem_map]
  constructor
  · rintro ⟨location, live⟩
    constructor
    · intro register located
      rw [located] at location
      simpa [Demand.refusal?] using location
    · intro number member
      simpa [Demand.refusal?] using live number member
  · intro admissible
    refine ⟨?_, fun number member => if_pos (admissible.known number member)⟩
    cases located : stored.location with
    | register register => exact if_pos (admissible.listed register located)
    | stack slot => rfl
    | immediate bits => rfl
    | unassigned => rfl

end StoredValue

namespace Snapshot

/-- What stored values ask for, from the given position on. -/
def demandsFrom (position : Nat) (values : List StoredValue) : List Demand :=
  (values.zipIdx position).flatMap fun entry => entry.1.demands (Handle.ofNat entry.2)

/-- The refusal of the first demand that cannot be met. -/
def refusal? (snapshot : Snapshot) (catalog : Catalog) : Option Failure :=
  (demandsFrom 0 snapshot.values).findSome? (Demand.refusal? catalog snapshot.safepoints.length)

/-- The bytes of spill area that a stored method needs. -/
def spillArea (snapshot : Snapshot) (convention : Convention) : Nat :=
  (snapshot.values.map (StoredValue.stop convention)).foldl max snapshot.frameSize.toNat

/-- The method that a snapshot describes. -/
def rebuilt (snapshot : Snapshot) (convention : Convention) : Method where
  name := snapshot.name
  convention := convention
  values := snapshot.values.map StoredValue.record
  safepoints := snapshot.safepoints
  frameSize := UInt32.ofNat (snapshot.spillArea convention)

/-- A stored method is refused nothing exactly when all of its values are
admissible. -/
theorem refusal?_eq_none {snapshot : Snapshot} {catalog : Catalog} :
    snapshot.refusal? catalog = none ↔
      ∀ stored ∈ snapshot.values, stored.Admissible catalog snapshot.safepoints.length := by
  rw [refusal?, List.findSome?_eq_none_iff, demandsFrom]
  constructor
  · intro met stored member
    obtain ⟨position, present⟩ := List.getElem?_of_mem member
    have entry : (stored, position) ∈ snapshot.values.zipIdx 0 :=
      List.mk_mem_zipIdx_iff_getElem?.mpr present
    rw [← StoredValue.demands_met_iff]
    intro demand asked
    exact met demand (List.mem_flatMap.mpr ⟨_, entry, asked⟩)
  · intro admissible demand asked
    obtain ⟨entry, member, asked⟩ := List.mem_flatMap.mp asked
    have stored : entry.1 ∈ snapshot.values := List.fst_mem_of_mem_zipIdx member
    exact StoredValue.demands_met_iff.mpr (admissible entry.1 stored) demand asked

/-- The spill area is the least that covers what was stored and the slots of every
value. -/
theorem spillArea_le_iff {snapshot : Snapshot} {convention : Convention} {bound : Nat} :
    snapshot.spillArea convention ≤ bound ↔
      snapshot.frameSize.toNat ≤ bound ∧
        ∀ stored ∈ snapshot.values, stored.stop convention ≤ bound := by
  obtain ⟨fromStored, fromStops⟩ := Convention.le_foldl_max
    (snapshot.values.map (StoredValue.stop convention)) snapshot.frameSize.toNat
  constructor
  · intro below
    refine ⟨Nat.le_trans fromStored below, ?_⟩
    intro stored member
    exact Nat.le_trans (fromStops _ (List.mem_map_of_mem member)) below
  · rintro ⟨reserved, covered⟩
    refine Convention.foldl_max_le reserved ?_
    intro stop member
    obtain ⟨stored, present, rfl⟩ := List.mem_map.mp member
    exact covered stored present

end Snapshot

/-! ## Steps -/

namespace Method

/-- How a step that does not fault ends: refused if a refusal is due, and otherwise
with the method it reaches. -/
inductive Step.Settles (reached : Method) : Option Failure → Step → Prop where
  | accepted : Settles reached none (.ok (reached, .ok ()))
  | refused (left : Method) (failure : Failure) :
      Settles reached (some failure) (.ok (left, .error failure))

/-- A step without a refusal reaches its method. -/
theorem Step.Settles.eq_of_none {reached : Method} {step : Step}
    (settles : Settles reached none step) : step = .ok (reached, .ok ()) := by
  cases settles
  rfl

/-- A step with a refusal is refused. -/
theorem Step.Settles.eq_of_some {reached : Method} {failure : Failure} {step : Step}
    (settles : Settles reached (some failure) step) :
    ∃ left, step = .ok (left, .error failure) := by
  cases settles with
  | refused left failure => exact ⟨left, rfl⟩

/-- A step and what follows it are refused by the first of their refusals. -/
theorem Step.Settles.andThen {middle reached : Method} {first second : Option Failure}
    {step : Step} {next : Method → Step} (now : Settles middle first step)
    (later : Settles reached second (next middle)) :
    Settles reached (first.or second) (step.andThen next) := by
  cases now with
  | accepted => exact later
  | refused left failure => exact .refused left failure

variable {method : Method} {count : Nat}

/-- Growing to bytes that the spill area has already changes nothing. -/
theorem reserveFrame_of_le {bytes : UInt32} (inside : bytes.toNat ≤ method.frameSize.toNat) :
    method.reserveFrame bytes = method := by
  have larger : max method.frameSize bytes = method.frameSize := by
    apply UInt32.toNat_inj.mp
    rw [toNat_max]
    exact Nat.max_eq_left inside
  rw [reserveFrame, larger]

/-- A spill area always has at least no bytes. -/
theorem reserveFrame_zero (method : Method) : method.reserveFrame 0 = method :=
  reserveFrame_of_le (Nat.zero_le _)

/-- Replacing the record that was added last. -/
theorem setRecord_last (short : method.values.length < 2 ^ 32 - 1) (old new : Record) :
    (method.addRecord old).1.setRecord (Handle.ofNat method.values.length) new =
      (method.addRecord new).1 := by
  have position : (Handle.ofNat method.values.length : ValueId).number.toNat =
      method.values.length := Handle.toNat_ofNat (by omega)
  simp [setRecord, addRecord, position]

/-- Making the last value live at a safepoint of the method inserts it. -/
theorem markLive_last (short : method.values.length < 2 ^ 32 - 1) {safepoint : SafepointId}
    (valid : safepoint.number.toNat < 2 ^ 32 - 1)
    (inside : safepoint.number.toNat < method.safepoints.length) (last : Record) :
    (method.addRecord last).1.markLive (Handle.ofNat method.values.length) safepoint =
      .ok (method.addRecord (last.addLive safepoint)).1 := by
  have indexed : safepoint.index = .ok safepoint.number.toNat :=
    Handle.index_eq_ok.mpr ⟨valid, rfl⟩
  have fetched := Handle.fetch_last short last
  rw [markLive, indexed, Checked.ok_bind]
  simp only [addRecord, inside, if_true, fetched, Checked.ok_bind, Checked.pure_eq_ok]
  exact congrArg Except.ok (setRecord_last short _ _)

/-- Covering the location of a stored value extends the spill area to the end of
its slots. -/
theorem cover_stored {stored : StoredValue}
    (inRange : stored.InRange method.convention count) :
    method.cover stored.kind stored.location =
      .ok (method.reserveFrame (UInt32.ofNat (stored.stop method.convention))) := by
  have elsewhere : (∀ offset, stored.location = .spill offset → ¬ 0 ≤ offset) →
      method.reserveFrame (UInt32.ofNat (stored.stop method.convention)) = method := by
    intro away
    rw [StoredValue.stop_of_elsewhere away]
    exact method.reserveFrame_zero
  unfold cover
  split
  · rename_i offset located
    by_cases above : 0 ≤ offset
    · obtain ⟨width, padded, ends⟩ := inRange.measured offset located above
      have stop : stored.stop method.convention = _ := StoredValue.stop_of_spill located above
      have spelled := toNat_toUInt32_of_nonneg above
      have small : method.convention.wholeSlots stored.kind < 2 ^ 32 := by omega
      have sized : method.slotBytes stored.kind =
          .ok (UInt32.ofNat (method.convention.wholeSlots stored.kind)) :=
        slotBytes_eq_ok.mpr ⟨width, padded, UInt32.toNat_ofNat_of_lt' small⟩
      have added : Checked.add offset.toUInt32
          (UInt32.ofNat (method.convention.wholeSlots stored.kind)) =
          .ok (UInt32.ofNat (stored.stop method.convention)) := by
        rw [Checked.add_eq_ok, UInt32.toNat_ofNat_of_lt' small, UInt32.toNat_ofNat_of_lt' ends]
        omega
      simp only [above, if_true, sized, added, Checked.ok_bind, Checked.pure_eq_ok]
    · rw [if_neg above, elsewhere]
      intro other same
      obtain rfl : other = offset := by
        have slots := same.symm.trans located
        simpa [Location.spill] using slots
      exact above
  · rename_i notSpill
    rw [elsewhere]
    intro offset located
    exact absurd located (notSpill offset)

/-- An assignment to the value that was added last, which has no location yet, is
refused if the location is not admissible, and otherwise stores and covers it. -/
theorem assign_last (short : method.values.length < 2 ^ 32 - 1) {stored : StoredValue}
    (inRange : stored.InRange method.convention count) :
    (method.addRecord (.fresh stored.kind)).1.assign (Handle.ofNat method.values.length)
        stored.location =
      if method.admits stored.kind stored.location then
        .ok (((method.reserveFrame (UInt32.ofNat (stored.stop method.convention))).addRecord
          (.located stored.kind stored.location)).1, .ok ())
      else
        .ok ((method.addRecord (.fresh stored.kind)).1,
          .error (.invalidLocation (Handle.ofNat method.values.length) stored.kind
            stored.location)) := by
  have fetched : (Handle.ofNat method.values.length : ValueId).fetch
      (method.addRecord (.fresh stored.kind)).1.values = .ok (.fresh stored.kind) :=
    Handle.fetch_last short _
  rw [assign, fetched, Checked.ok_bind]
  by_cases admitted : method.admits stored.kind stored.location = true
  · have kept : (method.addRecord (.fresh stored.kind)).1.store (Handle.ofNat method.values.length)
        (.fresh stored.kind) stored.location =
        .ok (method.addRecord (.located stored.kind stored.location)).1 :=
      (if_pos admitted).trans (congrArg Except.ok (setRecord_last short _ _))
    have covered : (method.addRecord (.located stored.kind stored.location)).1.cover stored.kind
        stored.location =
        .ok ((method.addRecord (.located stored.kind stored.location)).1.reserveFrame
          (UInt32.ofNat (stored.stop method.convention))) := cover_stored inRange
    rw [if_pos admitted, kept]
    exact Checked.bind_eq_ok.mpr ⟨_, covered, rfl⟩
  · have refused : (method.addRecord (.fresh stored.kind)).1.store
        (Handle.ofNat method.values.length) (.fresh stored.kind) stored.location =
        .error (.invalidLocation (Handle.ofNat method.values.length) stored.kind
          stored.location) := if_neg admitted
    rw [if_neg admitted, refused]
    rfl

/-- The method with one more value, as it was stored. -/
def withStored (method : Method) (stored : StoredValue) : Method :=
  ((method.reserveFrame (UInt32.ofNat (stored.stop method.convention))).addRecord
    stored.record).1

end Method

namespace Snapshot

variable {method : Method}

/-- Whether the demand for a decided location is met is what an assignment tests. -/
theorem refusal?_location {value : ValueId} {kind : Kind} {location : Location} {count : Nat}
    (decided : location.isAssigned = true) :
    (Demand.location value kind location).refusal? method.convention.catalog count =
      if method.admits kind location then none
      else some (.invalidLocation value kind location) := by
  cases location with
  | register register =>
    simp only [Demand.refusal?, Method.admits, Convention.owns, Bool.and_eq_true,
      decide_eq_true_eq, Catalog.contains_iff_mem]
  | stack slot => rfl
  | immediate bits => rfl
  | unassigned => cases decided

/-- Replaying a location meets the demand for it, or is refused. -/
theorem replayLocation_settles (short : method.values.length < 2 ^ 32 - 1) {stored : StoredValue}
    {count : Nat} (inRange : stored.InRange method.convention count) :
    Method.Step.Settles
      ((method.reserveFrame (UInt32.ofNat (stored.stop method.convention))).addRecord
        (.located stored.kind stored.location)).1
      ((Demand.location (Handle.ofNat method.values.length) stored.kind stored.location).refusal?
        method.convention.catalog count)
      (replayLocation (method.addRecord (.fresh stored.kind)).1
        (Handle.ofNat method.values.length) stored.location) := by
  by_cases decided : stored.location.isAssigned = true
  · rw [replayLocation, if_pos decided, Method.assign_last short inRange,
      refusal?_location decided]
    by_cases admitted : method.admits stored.kind stored.location = true
    · rw [if_pos admitted, if_pos admitted]
      exact .accepted
    · rw [if_neg admitted, if_neg admitted]
      exact .refused _ _
  · have undecided : stored.location = .unassigned := by
      cases location : stored.location <;> simp [location, Location.isAssigned] at decided ⊢
    have stop : stored.stop method.convention = 0 := by
      rw [StoredValue.stop, undecided]
    have unchanged : method.reserveFrame (UInt32.ofNat 0) = method := method.reserveFrame_zero
    rw [replayLocation, if_neg decided, undecided, stop, unchanged]
    exact .accepted

/-- Replaying liveness meets the demands for it up to the first that is refused. -/
theorem replayLive_settles (method : Method) (short : method.values.length < 2 ^ 32 - 1)
    (catalog : Catalog) (record : Record) {numbers : List UInt32}
    (numbered : ∀ number ∈ numbers, number.toNat < method.safepoints.length →
      number.toNat < 2 ^ 32 - 1) :
    Method.Step.Settles
      (method.addRecord (numbers.foldl (fun so number => so.addLive ⟨number⟩) record)).1
      ((numbers.map (Demand.live (Handle.ofNat method.values.length))).findSome?
        (Demand.refusal? catalog method.safepoints.length))
      (replayLive method.safepoints.length (Handle.ofNat method.values.length)
        (method.addRecord record).1 numbers) := by
  induction numbers generalizing record with
  | nil => exact .accepted
  | cons number rest induction =>
    by_cases inside : number.toNat < method.safepoints.length
    · have valid := numbered number (by simp) inside
      have handle : (Handle.ofNat number.toNat : SafepointId) = ⟨number⟩ :=
        Handle.ofNat_toNat ⟨number⟩
      have marked : (method.addRecord record).1.markLive (Handle.ofNat method.values.length)
          ⟨number⟩ = .ok (method.addRecord (record.addLive ⟨number⟩)).1 :=
        Method.markLive_last short valid inside record
      have met : (Demand.live (Handle.ofNat method.values.length) number).refusal? catalog
          method.safepoints.length = none := if_pos inside
      rw [replayLive, if_pos inside, handle, marked, Checked.ok_bind, List.map_cons,
        List.findSome?_cons, met, List.foldl_cons]
      refine induction (record.addLive ⟨number⟩) ?_
      intro other member
      exact numbered other (by simp [member])
    · have unmet : (Demand.live (Handle.ofNat method.values.length) number).refusal? catalog
          method.safepoints.length =
          some (.unknownSafepoint (Handle.ofNat method.values.length) number) := if_neg inside
      rw [replayLive, if_neg inside, List.map_cons, List.findSome?_cons, unmet]
      exact .refused _ _

/-- Replaying a stored value adds its record, or is refused for the first of its
demands that cannot be met. -/
theorem replayValue_settles (short : method.values.length < 2 ^ 32 - 1) {stored : StoredValue}
    (inRange : stored.InRange method.convention method.safepoints.length) :
    Method.Step.Settles (method.withStored stored)
      ((stored.demands (Handle.ofNat method.values.length)).findSome?
        (Demand.refusal? method.convention.catalog method.safepoints.length))
      (replayValue method.safepoints.length method stored) := by
  have located := replayLocation_settles short inRange
  have marked := replayLive_settles
    (method.reserveFrame (UInt32.ofNat (stored.stop method.convention))) short
    method.convention.catalog (.located stored.kind stored.location) inRange.numbered
  have steps : replayValue method.safepoints.length method stored =
      (replayLocation (method.addRecord (.fresh stored.kind)).1 (Handle.ofNat method.values.length)
        stored.location).andThen fun located =>
        replayLive method.safepoints.length (Handle.ofNat method.values.length) located
          stored.live := rfl
  rw [StoredValue.demands, ← List.singleton_append, List.findSome?_append,
    List.findSome?_singleton, steps]
  exact located.andThen marked

/-- Replaying stored values adds them one after another, or is refused for the first
demand that cannot be met. -/
theorem replayValues_settles (method : Method) {values : List StoredValue}
    (short : method.values.length + values.length < 2 ^ 32 - 1)
    (inRange : ∀ stored ∈ values,
      stored.InRange method.convention method.safepoints.length) :
    Method.Step.Settles (values.foldl Method.withStored method)
      ((demandsFrom method.values.length values).findSome?
        (Demand.refusal? method.convention.catalog method.safepoints.length))
      (replayValues method.safepoints.length method values) := by
  induction values generalizing method with
  | nil => exact .accepted
  | cons first rest induction =>
    rw [List.length_cons] at short
    have now := replayValue_settles (by omega) (inRange first (by simp))
    have room : (method.withStored first).values.length + rest.length < 2 ^ 32 - 1 := by
      simp only [Method.withStored, Method.addRecord, Method.reserveFrame, List.length_append,
        List.length_singleton]
      omega
    have later := induction (method.withStored first) room fun stored member =>
      inRange stored (by simp [member])
    have position : (method.withStored first).values.length = method.values.length + 1 := by
      simp [Method.withStored, Method.addRecord, Method.reserveFrame]
    rw [position] at later
    -- the demands of the first value come first, and the others start one position on
    rw [demandsFrom, List.zipIdx_cons, List.flatMap_cons, List.findSome?_append]
    exact now.andThen later

/-- Adding values one after another adds their records, and covers them all. -/
theorem foldl_withStored (method : Method) {values : List StoredValue} {count : Nat}
    (inRange : ∀ stored ∈ values, stored.InRange method.convention count) :
    values.foldl Method.withStored method =
      { method with
        values := method.values ++ values.map StoredValue.record
        frameSize := UInt32.ofNat ((values.map (StoredValue.stop method.convention)).foldl max
          method.frameSize.toNat) } := by
  induction values generalizing method with
  | nil => simp
  | cons first rest induction =>
    have covered : (method.withStored first).frameSize.toNat =
        max method.frameSize.toNat (first.stop method.convention) := by
      have stops := (inRange first (by simp)).stop_lt
      rw [Method.withStored, Method.addRecord, Method.reserveFrame, Method.toNat_max,
        UInt32.toNat_ofNat_of_lt' stops]
    have later := induction (method.withStored first) fun stored member =>
      inRange stored (by simp [member])
    rw [List.foldl_cons, later, covered]
    simp [Method.withStored, Method.addRecord, Method.reserveFrame]

/-- Adding stored safepoints appends them. -/
theorem addSafepoints_eq (method : Method) (safepoints : List Safepoint) :
    addSafepoints method safepoints =
      { method with safepoints := method.safepoints ++ safepoints } := by
  induction safepoints generalizing method with
  | nil => simp [addSafepoints]
  | cons first rest induction =>
    have step : addSafepoints method (first :: rest) =
        addSafepoints (method.addSafepoint first.pc first.kind).1 rest := rfl
    rw [step, induction]
    simp [Method.addSafepoint]

/-- The outline of a stored method has everything but its values. -/
theorem outline_eq (snapshot : Snapshot) (generator : Generator) :
    snapshot.outline generator =
      ⟨snapshot.name, generator.convention, [], snapshot.safepoints, snapshot.frameSize⟩ := by
  have reserved : max 0 snapshot.frameSize = snapshot.frameSize := by
    apply UInt32.toNat_inj.mp
    rw [Method.toNat_max]
    exact Nat.max_eq_right (Nat.zero_le _)
  simp [outline, addSafepoints_eq, Generator.beginMethod, Method.begin, Method.reserveFrame,
    reserved]

/-- Replaying a stored method is refused for its first demand that cannot be met,
and otherwise rebuilds the method that it describes. -/
theorem replay_settles (snapshot : Snapshot) (generator : Generator)
    (fewValues : snapshot.values.length < 2 ^ 32 - 1)
    (inRange : ∀ stored ∈ snapshot.values,
      stored.InRange generator.convention snapshot.safepoints.length) :
    Method.Step.Settles (snapshot.rebuilt generator.convention)
      (snapshot.refusal? generator.convention.catalog) (snapshot.replay generator) := by
  have settled := replayValues_settles
    ⟨snapshot.name, generator.convention, [], snapshot.safepoints, snapshot.frameSize⟩
    (by simpa using fewValues) inRange
  rw [foldl_withStored _ inRange, List.nil_append] at settled
  rw [replay, outline_eq]
  exact settled

end Snapshot

/-- A generator keeps the convention it is made for. -/
theorem Generator.convention_of_make {convention : Convention} {generator : Generator}
    (made : Generator.make convention = .ok generator) : generator.convention = convention := by
  unfold Generator.make at made
  split at made
  · cases made
  · split at made
    · cases made
    · split at made
      · cases made
        rfl
      · cases made

end StackMaps
