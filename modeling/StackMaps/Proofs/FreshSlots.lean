import StackMaps.Proofs.Compiling
import StackMaps.Proofs.Refusals

/-!
# Slots that are handed out

A fresh spill slot starts where the spill area ends at that moment. The area may end
anywhere: explicit offsets and reserved sizes are taken as they come, and its size
has 32 bits without a sign. So whether the slot can be described by a map is settled
when it is handed out. It can if the area ended at a multiple of the slot width and
below 2³¹ bytes, whatever happens afterwards. Otherwise the slot lies between two
slots of the frame, or its offset wraps to one below the frame, and a reference that
is live there is rejected as soon as nothing else is wrong.

The area ends at a multiple of the slot width as long as every reserved size and
every explicit offset is one.
-/

namespace StackMaps

/-- On a target, whole slots fill the range of sizes and the reserved bytes. -/
theorem Architecture.slotSize_dvd (target : Architecture) :
    target.convention.slotSize.toNat ∣ 2 ^ 32 ∧
      target.convention.slotSize.toNat ∣ target.convention.reserved.toNat := by
  cases target <;> decide

namespace Method

variable {method next : Method}

/-- A value is of the kind and at the location of a record. -/
def Stands (method : Method) (value : ValueId) (record : Record) : Prop :=
  ∃ found, method.value value = .ok found ∧ found.kind = record.kind ∧
    found.location = record.location

/-- Replacing the record of a value, if it is this one by one that agrees with it, leaves
the value where it stands. -/
theorem stands_of_set {value other : ValueId} {record changed : Record}
    (held : method.value value = .ok record)
    (same : next.values = method.values.set other.number.toNat changed)
    (agrees : other = value → changed.kind = record.kind ∧ changed.location = record.location) :
    next.Stands value record := by
  by_cases own : other = value
  · subst own
    refine ⟨changed, ?_, agrees rfl⟩
    rw [Method.value, same]
    exact Handle.fetch_set_self held changed
  · refine ⟨record, ?_, rfl, rfl⟩
    rw [Method.value, same]
    exact Handle.fetch_set_of_ne held own changed

/-- A value that has a location keeps its kind and its location. -/
theorem Effect.stands {action : Action} (effect : Effect method action next) {value : ValueId}
    {record : Record} (held : method.value value = .ok record)
    (decided : record.location.isAssigned = true) : next.Stands value record := by
  cases effect with
  | newValue kind => exact ⟨record, Handle.fetch_append_left held _, rfl, rfl⟩
  | constant kind bits => exact ⟨record, Handle.fetch_append_left held _, rfl, rfl⟩
  | @assigned other location found size otherHeld admitted undecided covered =>
    apply stands_of_set held rfl
    rintro rfl
    obtain rfl := Except.ok.inj (otherHeld.symm.trans held)
    rw [decided] at undecided
    cases undecided
  | @markLive other safepoint found valid present otherHeld =>
    apply stands_of_set held rfl
    rintro rfl
    obtain rfl := Except.ok.inj (otherHeld.symm.trans held)
    exact ⟨rfl, rfl⟩
  | _ => exact ⟨record, held, rfl, rfl⟩

/-- A value that has a location has it to the end of a history. -/
theorem stands_run {start : Method} {actions : List Action} (ran : start.run actions = .ok method)
    {value : ValueId} {record : Record} (held : start.value value = .ok record)
    (decided : record.location.isAssigned = true) : method.Stands value record := by
  refine run_induction (fun _ reached => reached.Stands value record) ?_ ran []
    ⟨record, held, rfl, rfl⟩
  rintro done reached action next ⟨found, foundHeld, sameKind, sameLocation⟩ effect
  obtain ⟨later, laterHeld, kind, location⟩ := effect.stands foundHeld (sameLocation ▸ decided)
  exact ⟨later, laterHeld, kind.trans sameKind, location.trans sameLocation⟩

/-- An assignment that is accepted puts the value where it was asked to be. -/
theorem located_of_assign {value : ValueId} {location : Location}
    (assigned : method.assign value location = .ok (next, .ok ())) :
    ∃ record, next.value value = .ok record ∧ record.location = location ∧
      location.isAssigned = true := by
  obtain ⟨record, held, assigned⟩ := Checked.bind_eq_ok.mp assigned
  cases stored : method.store value record location with
  | error failure =>
    rw [stored] at assigned
    cases assigned
  | ok changed =>
    rw [stored] at assigned
    obtain ⟨covered, covers, assigned⟩ := Checked.bind_eq_ok.mp assigned
    cases assigned
    obtain ⟨admitted, _, rfl⟩ := store_eq_ok stored
    obtain ⟨size, _, rfl⟩ := cover_eq_ok covers
    refine ⟨_, Handle.fetch_set_self held _, rfl, ?_⟩
    cases location with
    | unassigned => cases admitted
    | _ => rfl

/-- The sizes that operations reserve and the offsets that they name at or above the
start of the spill area are multiples of a width. -/
structure InSlots (width : Nat) (actions : List Action) : Prop where
  reserved : ∀ bytes, .reserveFrame bytes ∈ actions → width ∣ bytes.toNat
  offsets : ∀ value offset, .assign value (.spill offset) ∈ actions → 0 ≤ offset →
    (width : Int) ∣ offset.toInt

/-- The larger of two multiples is a multiple. -/
theorem dvd_max {width : Nat} {left right : UInt32} (first : width ∣ left.toNat)
    (second : width ∣ right.toNat) : width ∣ (max left right).toNat := by
  rw [toNat_max, Nat.max_def]
  split
  · exact second
  · exact first

/-- A spill area that ends with a slot goes on doing so under operations in whole
slots. -/
theorem Effect.aligned {action : Action} (effect : Effect method action next)
    (inSlots : InSlots method.convention.slotSize.toNat [action])
    (whole : method.convention.slotSize.toNat ∣ method.frameSize.toNat) :
    method.convention.slotSize.toNat ∣ next.frameSize.toNat := by
  have rounded : ∀ {kind : Kind} {bytes : UInt32}, method.slotBytes kind = .ok bytes →
      method.convention.slotSize.toNat ∣ bytes.toNat := by
    intro kind bytes sized
    obtain ⟨width, _, same⟩ := slotBytes_eq_ok.mp sized
    rw [same]
    exact (Convention.wholeSlots_least width).1
  cases effect with
  | @assigned value location record size held admitted undecided covered =>
    cases covered with
    | @spill offset bytes stop above sized ends =>
      have start := inSlots.offsets value offset (List.mem_singleton.mpr rfl) above
      rw [← toNat_toUInt32_of_nonneg above, Int.natCast_dvd_natCast] at start
      apply dvd_max whole
      rw [(Checked.add_eq_ok.mp ends).2]
      exact Nat.dvd_add start (rounded sized)
    | elsewhere away => exact whole
  | newSpillSlot sized grown =>
    rw [(Checked.add_eq_ok.mp grown).2]
    exact Nat.dvd_add whole (rounded sized)
  | reserveFrame bytes => exact dvd_max whole (inSlots.reserved bytes (List.mem_singleton.mpr rfl))
  | _ => exact whole

/-- Along a history in whole slots the spill area ends with a slot. -/
theorem aligned_run {name : String} {convention : Convention} {actions : List Action}
    (reached : (begin name convention).run actions = .ok method)
    (inSlots : InSlots convention.slotSize.toNat actions) :
    convention.slotSize.toNat ∣ method.frameSize.toNat := by
  have carried := run_induction (fun done reached => reached.convention = convention ∧
    (InSlots convention.slotSize.toNat done →
      convention.slotSize.toNat ∣ reached.frameSize.toNat)) ?_ reached []
    ⟨rfl, fun _ => Nat.dvd_zero _⟩
  · exact carried.2 inSlots
  · rintro done reached action next ⟨rfl, whole⟩ effect
    refine ⟨effect.grows.1, ?_⟩
    intro inSlots
    apply effect.aligned
    · exact ⟨fun bytes member => inSlots.reserved bytes (List.mem_append_right _ member),
        fun value offset member => inSlots.offsets value offset (List.mem_append_right _ member)⟩
    · exact whole ⟨fun bytes member => inSlots.reserved bytes (List.mem_append_left _ member),
        fun value offset member => inSlots.offsets value offset (List.mem_append_left _ member)⟩

/-- A slot that starts where the spill area once ended is misplaced exactly when the
area ended between two slots or past half of the range of sizes. -/
theorem misplaced_iff_of_handed {target : Architecture} (coherent : method.Coherent)
    (bound : method.convention = target.convention)
    (fits : target.convention.reserved.toNat + method.frameSize.toNat < 2 ^ 32)
    {size : UInt32} (within : size.toNat ≤ method.frameSize.toNat) {safepoint : SafepointId}
    {value : ValueId} (live : method.LiveAt safepoint value (.spill size.toInt32)) :
    (∃ rejection, method.Misplaced value size.toInt32 rejection) ↔
      ¬ (target.convention.slotSize.toNat ∣ size.toNat ∧ size.toNat < 2 ^ 31) := by
  obtain ⟨wraps, reserved⟩ := target.slotSize_dvd
  have start := toInt_toInt32 size
  have even : (method.convention.slotSize.toNat : Int) ∣
      size.toInt32.toInt + method.convention.reserved.toNat ↔
        target.convention.slotSize.toNat ∣ size.toNat := by
    rw [bound, Int.dvd_add_left (Int.natCast_dvd_natCast.mpr reserved), start]
    split
    · exact Int.natCast_dvd_natCast
    · have range := Int.dvd_neg.mpr (Int.natCast_dvd_natCast.mpr wraps)
      rw [Int.sub_eq_add_neg, Int.dvd_add_left range]
      exact Int.natCast_dvd_natCast
  constructor
  · rintro ⟨rejection, misplaced⟩ ⟨whole, small⟩
    refine not_misplaced_of_aligned coherent live ?_ (even.mpr whole) rejection misplaced
    rw [Int32.le_iff_toInt_le, start, if_pos small]
    exact Int.natCast_nonneg _
  · intro unfit
    by_cases whole : target.convention.slotSize.toNat ∣ size.toNat
    · have large : ¬ size.toNat < 2 ^ 31 := fun small => unfit ⟨whole, small⟩
      rw [if_neg large] at start
      refine ⟨_, .outOfFrame (even.mpr whole) (Or.inl ?_)⟩
      rw [start, bound]
      omega
    · exact ⟨_, .misaligned fun divides => whole (even.mp divides)⟩

/-- A rejection comes from a frame that fits, and names a live reference that is
misplaced there. -/
theorem misplaces_of_rejected (width : 0 < method.convention.slotSize.toNat)
    (coherent : method.Coherent) (fewValues : method.values.length < 2 ^ 32 - 1)
    (fewSafepoints : method.safepoints.length < 2 ^ 32 - 1) {rejection : Rejection}
    (finished : method.finish = .ok (.error (method.refuse (.rejected rejection)))) :
    method.convention.reserved.toNat + method.frameSize.toNat < 2 ^ 32 ∧
      ∃ safepoint, method.Misplaces safepoint rejection.value rejection := by
  by_cases fits : method.convention.reserved.toNat + method.frameSize.toNat < 2 ^ 32
  · refine ⟨fits, ?_⟩
    obtain ⟨builder, made⟩ := mapBuilder_exists width fits
    obtain ⟨outcome, ended, kind⟩ := finish_outcome made fewSafepoints
    have reason := Except.ok.inj (ended.symm.trans finished)
    have verdict := kind.verdict made coherent fewValues fewSafepoints
    obtain ⟨safepoint, value, first⟩ := verdict.rejected_first reason
    obtain ⟨offset, live, misplaced⟩ := first.misplaces
    rw [misplaced.value_eq]
    exact ⟨safepoint, offset, live, misplaced⟩
  · cases checked : Contract.check method.convention method.values method.safepoints with
    | error found =>
      rw [finish_of_breached fewSafepoints checked] at finished
      simp [refuse] at finished
    | ok _ =>
      have faults := (finish_eq_error width fewSafepoints).mpr
        ⟨rfl, checked, Nat.not_lt.mp fits⟩
      rw [faults] at finished
      cases finished

end Method

/-- Whether a fresh slot is of use to a reference is settled when the slot is handed
out, at the end of the spill area as it is then. If the area ends at a multiple of the
slot width and below 2³¹ bytes, the reference that takes the slot is never rejected,
whatever the other operations are. Otherwise the reference is rejected where it is live,
unless something else is wrong before that. The area ends at a multiple of the slot
width if the operations so far reserve and name whole slots. -/
theorem fresh_slot_settled_when_handed {target : Architecture} {name : String}
    {before between after : List Method.Action} {earlier grown middle assigned method : Method}
    {slot : Location} {value : ValueId} {record : Record}
    (started : (Method.begin name target.convention).run before = .ok earlier)
    (handed : earlier.newSpillSlot .reference = .ok (grown, slot))
    (onward : grown.run between = .ok middle)
    (given : middle.assign value slot = .ok (assigned, .ok ()))
    (rest : assigned.run after = .ok method)
    (held : method.value value = .ok record) (reference : record.kind = .reference)
    (fewValues : method.values.length < 2 ^ 32 - 1)
    (fewSafepoints : method.safepoints.length < 2 ^ 32 - 1) :
    record.location = slot ∧
    (target.convention.slotSize.toNat ∣ earlier.frameSize.toNat →
      earlier.frameSize.toNat < 2 ^ 31 →
      ∀ rejection, method.finish = .ok (.error (method.refuse (.rejected rejection))) →
        rejection.value ≠ value) ∧
    (¬ (target.convention.slotSize.toNat ∣ earlier.frameSize.toNat ∧
        earlier.frameSize.toNat < 2 ^ 31) →
      ∀ safepoint, record.isLiveAt safepoint = true → ¬ method.Breached →
        (∀ other otherValue rejection, method.Misplaces other otherValue rejection →
          otherValue = value) →
        target.convention.reserved.toNat + method.frameSize.toNat < 2 ^ 32 →
        ∃ rejection, method.finish = .ok (.error (method.refuse (.rejected rejection))) ∧
          rejection.value = value) ∧
    (Method.InSlots target.convention.slotSize.toNat before →
      target.convention.slotSize.toNat ∣ earlier.frameSize.toNat) := by
  have performed : earlier.perform (.newSpillSlot .reference) = .ok grown :=
    Checked.map_eq_ok.mpr ⟨_, handed, rfl⟩
  have offered : middle.perform (.assign value slot) = .ok assigned :=
    Checked.map_eq_ok.mpr ⟨_, given, rfl⟩
  have reached : (Method.begin name target.convention).run
      (before ++ .newSpillSlot .reference :: (between ++ .assign value slot :: after)) =
        .ok method := by
    refine Method.run_append_eq_ok.mpr ⟨earlier, started, ?_⟩
    refine Checked.bind_eq_ok.mpr ⟨grown, performed, ?_⟩
    refine Method.run_append_eq_ok.mpr ⟨middle, onward, ?_⟩
    exact Checked.bind_eq_ok.mpr ⟨assigned, offered, rest⟩
  have bound := (Method.identity_run reached).1
  have coherent := Method.coherent_run reached
  have width : 0 < method.convention.slotSize.toNat := bound ▸ target.slotSize_convention.1
  obtain ⟨bytes, _, handed⟩ := Checked.bind_eq_ok.mp handed
  obtain ⟨size, _, handed⟩ := Checked.bind_eq_ok.mp handed
  obtain ⟨rfl, rfl⟩ := Prod.mk.inj (Except.ok.inj handed)
  have within : earlier.frameSize.toNat ≤ method.frameSize.toNat := by
    have atHanding := (Method.perform_effect performed).grows.2.2.1
    have atAssigning := (Method.perform_effect offered).grows.2.2.1
    have meanwhile := Method.frameSize_le_run onward
    have afterwards := Method.frameSize_le_run rest
    omega
  have located : record.location = .spill earlier.frameSize.toInt32 := by
    obtain ⟨found, foundHeld, foundLocated, decided⟩ := Method.located_of_assign given
    obtain ⟨later, laterHeld, _, stands⟩ :=
      Method.stands_run rest foundHeld (foundLocated ▸ decided)
    rw [Except.ok.inj (held.symm.trans laterHeld), stands, foundLocated]
  refine ⟨located, ?_, ?_, Method.aligned_run started⟩
  · intro whole small rejection finished same
    obtain ⟨fits, safepoint, offset, live, misplaced⟩ :=
      Method.misplaces_of_rejected width coherent fewValues fewSafepoints finished
    rw [same] at live misplaced
    obtain rfl : offset = earlier.frameSize.toInt32 := by
      obtain ⟨other, otherHeld, _, _, otherLocated⟩ := live
      rw [← Except.ok.inj (held.symm.trans otherHeld), located] at otherLocated
      simpa [Location.spill, eq_comm] using otherLocated
    exact (Method.misplaced_iff_of_handed coherent bound (bound ▸ fits) within live).mp
      ⟨rejection, misplaced⟩ ⟨whole, small⟩
  · intro unfit safepoint isLive kept alone fits
    have live : method.LiveAt safepoint value (.spill earlier.frameSize.toInt32) :=
      ⟨record, held, reference, isLive, located⟩
    obtain ⟨rejection, misplaced⟩ :=
      (Method.misplaced_iff_of_handed coherent bound fits within live).mpr unfit
    obtain ⟨builder, made⟩ := Method.mapBuilder_exists width (bound.symm ▸ fits)
    obtain ⟨outcome, finished, kind⟩ := Method.finish_outcome made fewSafepoints
    have verdict := kind.verdict made coherent fewValues fewSafepoints
    obtain ⟨reported, rfl⟩ :=
      verdict.rejected_iff.mpr ⟨kept, safepoint, value, rejection, _, live, misplaced⟩
    refine ⟨reported, finished, ?_⟩
    obtain ⟨_, other, misplaces⟩ :=
      Method.misplaces_of_rejected width coherent fewValues fewSafepoints finished
    exact alone other _ reported misplaces

/-- A slot that is handed out after four bytes were reserved lies between two slots of
eight bytes, and the reference that takes it is rejected. -/
theorem fresh_slot_between_slots :
    ∃ earlier grown assigned method,
      (Method.begin "m" Convention.amd64).run [.newValue .reference, .reserveFrame 4] =
        .ok earlier ∧
      earlier.newSpillSlot .reference = .ok (grown, .spill 4) ∧
      grown.assign (Handle.ofNat 0) (.spill 4) = .ok (assigned, .ok ()) ∧
      assigned.run [.addSafepoint 8 .call, .markLive (Handle.ofNat 0) (Handle.ofNat 0)] =
        .ok method ∧
      method.finish = .ok (.error (method.refuse
        (.rejected (.misaligned (Handle.ofNat 0) ⟨4, .spill⟩)))) :=
  ⟨_, _, _, _, rfl, rfl, rfl, rfl, rfl⟩

/-- A history that hands out a slot after some bytes were reserved, reserves more, and
gives the slot to a reference that is live at a call. -/
def handedHistory (reserved later : UInt32) (offset : Int32) : List Method.Action :=
  [.newValue .reference, .reserveFrame reserved, .newSpillSlot .reference, .reserveFrame later,
    .assign (Handle.ofNat 0) (.spill offset), .addSafepoint 8 .call,
    .markLive (Handle.ofNat 0) (Handle.ofNat 0)]

/-- A slot that is handed out above sixteen bytes is of use, although the spill area is
then extended by half a slot. A slot at half of the range of sizes is not: its offset
wraps, and the reference is rejected. -/
theorem fresh_slot_settled_when_handed_at_bounds :
    (∃ method, (Method.begin "m" Convention.sparcv9).run (handedHistory 16 28 16) = .ok method ∧
      ∀ rejection, method.finish = .ok (.error (method.refuse (.rejected rejection))) →
        rejection.value ≠ Handle.ofNat 0) ∧
    ∃ method, (Method.begin "m" Convention.sparcv9).run
        (handedHistory 0x80000000 0 (-0x80000000)) = .ok method ∧
      ∃ rejection, method.finish = .ok (.error (method.refuse (.rejected rejection))) ∧
        rejection.value = Handle.ofNat 0 := by
  constructor
  · obtain ⟨_, usable, _⟩ := fresh_slot_settled_when_handed
      (rfl : (Method.begin "m" (Architecture.convention .sparcv9)).run
        [.newValue .reference, .reserveFrame 16] = .ok _) rfl
      (rfl : Method.run _ [.reserveFrame 28] = .ok _)
      (rfl : Method.assign _ (Handle.ofNat 0) _ = .ok _)
      (rfl : Method.run _ [.addSafepoint 8 .call, .markLive (Handle.ofNat 0) (Handle.ofNat 0)] =
        .ok _) rfl rfl (by decide) (by decide)
    exact ⟨_, rfl, usable (by decide) (by decide)⟩
  · obtain ⟨_, _, useless, _⟩ := fresh_slot_settled_when_handed
      (rfl : (Method.begin "m" (Architecture.convention .sparcv9)).run
        [.newValue .reference, .reserveFrame 0x80000000] = .ok _) rfl
      (rfl : Method.run _ [.reserveFrame 0] = .ok _)
      (rfl : Method.assign _ (Handle.ofNat 0) _ = .ok _)
      (rfl : Method.run _ [.addSafepoint 8 .call, .markLive (Handle.ofNat 0) (Handle.ofNat 0)] =
        .ok _) rfl rfl (by decide) (by decide)
    refine ⟨_, rfl, useless (by decide) (Handle.ofNat 0) rfl ?_ ?_ (by decide)⟩
    · have coherent := Method.coherent_run
        (rfl : (Method.begin "m" (Architecture.convention .sparcv9)).run
          (handedHistory 0x80000000 0 (-0x80000000)) = .ok _)
      exact (Method.check_accepts_iff coherent (by decide) (by decide)).mp rfl
    · -- the method has one value only
      rintro other otherValue rejection ⟨offset, ⟨record, held, _⟩, _⟩
      obtain ⟨inside, _⟩ := List.getElem?_eq_some_iff.mp (Handle.fetch_eq_ok.mp held).2
      exact Handle.eq_of_toNat (Nat.lt_one_iff.mp inside)

end StackMaps
