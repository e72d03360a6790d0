import StackMaps.Sample
import StackMaps.Proofs.Draws
import StackMaps.Proofs.FreshSlots
import StackMaps.Proofs.Precision
import StackMaps.Proofs.RoundTrip

/-!
# Samples compile

A method that is drawn from a source can be finished, whatever the source answers.
While safepoints are drawn their offsets ascend by at most 64 bytes at a time, and
while values are drawn the spill area grows by at most eight bytes at a time, so
within the bounds nothing leaves its range. Every value is at a location that its kind
admits; a reference is never a constant, starts a slot if it is in the spill area, and
is live at calls only in a register that survives them.
-/

namespace StackMaps

namespace Architecture

variable (target : Architecture)

/-- A target's allocator has registers in each bank, all of which the target owns. -/
theorem allocatable_convention (bank : Bank) :
    target.convention.allocatable bank ≠ [] ∧
      ∀ register ∈ target.convention.allocatable bank,
        target.convention.owns bank register = true := by
  cases target <;> cases bank <;> decide

/-- The registers of a target that survive calls are found, and the target owns them. -/
theorem surviving_convention :
    ∃ registers, Sample.surviving target.convention = .ok registers ∧
      ∀ register ∈ registers, target.convention.owns .general register = true := by
  cases target <;> exact ⟨_, rfl, by decide⟩

/-- A parameter slot that is a few slots away has an offset. -/
theorem parameter_convention {slots : Int} (low : -4 ≤ slots) (high : slots ≤ 16) :
    ∃ offset, Checked.multiplySigned target.convention.slotSize.toInt32 (Int32.ofInt slots) =
      .ok offset := by
  have few : (Int32.ofInt slots).toInt = slots := Int32.toInt_ofInt_of_le (by omega) (by omega)
  have width : target.convention.slotSize.toInt32.toInt = 4 ∨
      target.convention.slotSize.toInt32.toInt = 8 := by
    cases target <;> decide
  refine ⟨_, if_pos ?_⟩
  have least : Int32.minValue.toInt = -2147483648 := by decide
  have largest : Int32.maxValue.toInt = 2147483647 := by decide
  rw [few, least, largest]
  rcases width with four | eight
  · rw [four]
    omega
  · rw [eight]
    omega

end Architecture

/-- A method with a spill area of another size. -/
def Method.withFrame (method : Method) (size : UInt32) : Method := { method with frameSize := size }

/-- The table of a method whose safepoints ascend has an entry for each of them, in
their order. -/
theorem Method.entries_of_finish {method : Method} {compiled : CompiledMethod}
    (fewSafepoints : method.safepoints.length < 2 ^ 32 - 1)
    (ascending : (method.safepoints.map Safepoint.pc).Pairwise (· < ·))
    (finished : method.finish = .ok (.ok compiled)) :
    ∃ entries, compiled.maps.entries = .ok entries ∧
      entries.map Entry.pc = method.safepoints.map Safepoint.pc := by
  obtain ⟨builder, maps, _, mapped, ordered, rfl⟩ := finished_inv fewSafepoints finished
  have frameSmall := builder.frameLength_lt
  have registersSmall := builder.registerLength_le
  have storable : Table.Storable builder.frameLength builder.registerLength maps.length :=
    ⟨by omega, by omega, builder.capacity maps.length (by rw [mapped.length]; omega)⟩
  refine ⟨_, Table.entries_packed storable, ?_⟩
  rw [List.map_map, ← mapped.offsets]
  rw [← mapped.offsets] at ascending
  -- both lists ascend and have the same offsets
  refine List.Perm.eq_of_pairwise ?_ ordered ascending ((Table.ordered_perm maps).map Prod.fst)
  intro left right _ _ below above
  exact absurd above (UInt32.lt_asymm below)

namespace Sample

/-- A location that suits a value of a kind: a register that can hold it, or for
anything but a reference a constant; in the spill area, the start of a slot. -/
structure Apt (convention : Convention) (kind : Kind) (location : Location) : Prop where
  owned : ∀ register, location = .register register →
    convention.owns kind.bank register = true
  decided : location ≠ .unassigned
  traced : kind = .reference → ∀ bits, location ≠ .immediate bits
  slots : ∀ offset, location = .spill offset →
    0 ≤ offset ∧ (convention.slotSize.toNat : Int) ∣ offset.toInt

/-- A method whose values have been drawn so far, over safepoints that stay as they
are. -/
structure Healthy (target : Architecture) (safepoints : List Safepoint) (done : Nat)
    (method : Method) : Prop where
  bound : method.convention = target.convention
  same : method.safepoints = safepoints
  count : method.values.length = done
  whole : target.convention.slotSize.toNat ∣ method.frameSize.toNat
  small : method.frameSize.toNat ≤ 8 * done
  coherent : method.Coherent
  apt : ∀ record ∈ method.values, Apt target.convention record.kind record.location
  /-- A reference is live at calls only in a register that survives them. -/
  kept : ∀ record ∈ method.values, record.kind = .reference →
    ∀ register, record.location = .register register →
    ∀ safepoint point, record.isLiveAt safepoint = true →
      safepoint.fetch safepoints = .ok point → point.kind = .call →
      target.convention.preserved.has register = true

section

variable {target : Architecture} {safepoints : List Safepoint} {done : Nat} {method : Method}

/-- A healthy method keeps the contract. -/
theorem Healthy.not_breached (healthy : Healthy target safepoints done method) :
    ¬ method.Breached := by
  rintro ⟨safepoint, point, value, location, present, ⟨record, held, kind, isLive, rfl⟩, breach⟩
  have member : record ∈ method.values := List.mem_of_getElem? (Handle.fetch_eq_ok.mp held).2
  have apt := healthy.apt record member
  rcases breach with nowhere | ⟨bits, constant⟩ | ⟨call, register, located, lost⟩
  · exact apt.decided nowhere
  · exact apt.traced kind bits constant
  · have owned := apt.owned register located
    rw [kind] at owned
    have survives := healthy.kept record member kind register located safepoint point
      (by simpa [Record.isLiveAt] using isLive) (healthy.same ▸ present) call
    rw [healthy.bound, Convention.survivesCall_of_owns owned, survives] at lost
    cases lost

/-- In a healthy method no reference is misplaced. -/
theorem Healthy.not_misplaces (healthy : Healthy target safepoints done method)
    (safepoint : SafepointId) (value : ValueId) (rejection : Rejection) :
    ¬ method.Misplaces safepoint value rejection := by
  rintro ⟨offset, live, misplaced⟩
  obtain ⟨record, held, _, _, located⟩ := id live
  have member : record ∈ method.values := List.mem_of_getElem? (Handle.fetch_eq_ok.mp held).2
  obtain ⟨above, divides⟩ := (healthy.apt record member).slots offset located
  refine Method.not_misplaced_of_aligned healthy.coherent live above ?_ rejection misplaced
  rw [healthy.bound]
  exact Int.dvd_add divides (Int.natCast_dvd_natCast.mpr target.slotSize_dvd.2)

/-- A healthy method over safepoints at ascending offsets compiles, with an entry for
each of them. -/
theorem Healthy.compiles (healthy : Healthy target safepoints done method)
    (fewValues : done ≤ 2 ^ 28) (fewSafepoints : safepoints.length < 2 ^ 26)
    (ascending : (safepoints.map Safepoint.pc).Pairwise (· < ·)) :
    ∃ compiled entries, method.finish = .ok (.ok compiled) ∧
      compiled.maps.entries = .ok entries ∧
      entries.map Entry.pc = safepoints.map Safepoint.pc := by
  obtain ⟨rfl, rfl⟩ : method.safepoints = safepoints ∧ method.values.length = done :=
    ⟨healthy.same, healthy.count⟩
  have width : 0 < method.convention.slotSize.toNat := healthy.bound ▸ target.slotSize_convention.1
  have fits : method.convention.reserved.toNat + method.frameSize.toNat < 2 ^ 32 := by
    have reserved := target.reserved_convention
    have small := healthy.small
    rw [healthy.bound, reserved]
    split <;> omega
  obtain ⟨builder, made⟩ := Method.mapBuilder_exists width fits
  obtain ⟨outcome, finished, kind⟩ := Method.finish_outcome made (by omega)
  have verdict := kind.verdict made healthy.coherent (by omega) (by omega)
  obtain ⟨compiled, rfl⟩ := verdict.compiled_iff.mpr
    ⟨healthy.not_breached, healthy.not_misplaces, ascending.imp UInt32.ne_of_lt⟩
  obtain ⟨entries, read, offsets⟩ := Method.entries_of_finish (by omega) ascending finished
  exact ⟨compiled, entries, finished, read, offsets⟩

end

/-! ## Drawing a location -/

/-- A fresh slot within the range of sizes is handed out, at the end of the spill
area. -/
theorem newSpillSlot_completes {target : Architecture} {method : Method}
    (bound : method.convention = target.convention) (room : method.frameSize.toNat + 8 < 2 ^ 32)
    (kind : Kind) :
    ∃ size, method.newSpillSlot kind =
        .ok (method.withFrame size, .spill method.frameSize.toInt32) ∧
      size.toNat = method.frameSize.toNat + target.convention.wholeSlots kind := by
  obtain ⟨width, narrow⟩ := target.slotSize_convention
  obtain ⟨bytes, slots⟩ := target.wholeSlots_convention kind
  have small : target.convention.wholeSlots kind < 2 ^ 32 := by omega
  have spelled : (UInt32.ofNat (target.convention.wholeSlots kind)).toNat =
      target.convention.wholeSlots kind := UInt32.toNat_ofNat_of_lt small
  have sized : method.slotBytes kind = .ok (UInt32.ofNat (target.convention.wholeSlots kind)) := by
    rw [Method.slotBytes_eq_ok, bound]
    exact ⟨width, by omega, spelled⟩
  have inside : method.frameSize.toNat +
      (UInt32.ofNat (target.convention.wholeSlots kind)).toNat < 2 ^ 32 := by
    rw [spelled]
    omega
  have grown : Checked.add method.frameSize (UInt32.ofNat (target.convention.wholeSlots kind)) =
      .ok (method.frameSize + UInt32.ofNat (target.convention.wholeSlots kind)) := if_pos inside
  refine ⟨_, ?_, (Checked.add_eq_ok.mp grown).2.trans (by rw [spelled])⟩
  rw [Method.newSpillSlot, sized, Checked.ok_bind, grown]
  rfl

/-- A location has been drawn for a value of a kind that was just added, and at most one
slot has been taken for it. -/
structure Located (target : Architecture) (base : Method) (kind : Kind)
    (result : Method × Location) (size : UInt32) : Prop where
  extended : result.1 = ((base.withFrame size).newValue kind).1
  grows : base.frameSize.toNat ≤ size.toNat
  atMost : size.toNat ≤ base.frameSize.toNat + 8
  whole : target.convention.slotSize.toNat ∣ size.toNat
  apt : Apt target.convention kind result.2
  covered : StoredValue.stop target.convention ⟨kind, result.2, []⟩ ≤ size.toNat

section

variable {source : Source}

/-- A parameter slot is drawn. -/
theorem drawParameter_yields (sound : source.Sound) (target : Architecture) :
    Draw.Yields (drawParameter target.convention : Draw source Location)
      fun location => ∃ offset, location = .parameter offset := by
  apply (Draw.yields_between sound (by decide)).bind
  rintro slots ⟨low, high⟩
  obtain ⟨offset, scaled⟩ := target.parameter_convention low high
  apply (Draw.yields_perform scaled).bind
  intro offset _
  exact Draw.yields_pure ⟨offset, rfl⟩

/-- A register of the candidates is drawn. -/
theorem drawRegister_yields (sound : source.Sound) {candidates : List Register}
    (nonempty : candidates ≠ []) :
    Draw.Yields (drawRegister candidates : Draw source Location)
      fun location => ∃ register ∈ candidates, location = .register register := by
  apply (Draw.yields_choose sound nonempty).bind
  intro register member
  exact Draw.yields_pure ⟨register, member, rfl⟩

/-- A constant is drawn. -/
theorem drawImmediate_yields :
    Draw.Yields (drawImmediate : Draw source Location)
      fun location => ∃ bits, location = .immediate bits := by
  apply Draw.yields_word.bind
  intro bits _
  exact Draw.yields_pure ⟨bits, rfl⟩

end

section

variable {target : Architecture} {base : Method} {kind : Kind}
  (bound : base.convention = target.convention)
  (whole : target.convention.slotSize.toNat ∣ base.frameSize.toNat)

include whole

/-- A location outside the spill area takes nothing of it. -/
theorem located_elsewhere {location : Location} (apt : Apt target.convention kind location)
    (away : ∀ offset, location ≠ .spill offset) :
    ∃ size, Located target base kind ((base.newValue kind).1, location) size := by
  refine ⟨base.frameSize, rfl, Nat.le_refl _, Nat.le_add_right _ _, whole, apt, ?_⟩
  rw [StoredValue.stop_of_elsewhere fun offset located => absurd located (away offset)]
  exact Nat.zero_le _

/-- A register that can hold a value suits it. -/
theorem located_register {register : Register}
    (owned : target.convention.owns kind.bank register = true) :
    ∃ size, Located target base kind ((base.newValue kind).1, .register register) size := by
  apply located_elsewhere whole
  · refine ⟨?_, nofun, nofun, nofun⟩
    rintro other same
    cases same
    exact owned
  · nofun

include bound

/-- A fresh slot at the end of a spill area of whole slots suits any value. -/
theorem located_freshSlot (room : base.frameSize.toNat + 8 ≤ 2 ^ 31) :
    ∃ result, (base.newValue kind).1.newSpillSlot kind = .ok result ∧
      ∃ size, Located target base kind result size := by
  obtain ⟨width, _⟩ := target.slotSize_convention
  obtain ⟨_, slots⟩ := target.wholeSlots_convention kind
  have same : (base.newValue kind).1.convention = target.convention := bound
  have inRange : (base.newValue kind).1.frameSize.toNat + 8 < 2 ^ 32 :=
    Nat.lt_of_le_of_lt room (by decide)
  obtain ⟨size, handed, sum⟩ := newSpillSlot_completes same inRange kind
  change size.toNat = base.frameSize.toNat + _ at sum
  change _ = Except.ok (_, Location.spill base.frameSize.toInt32) at handed
  have start : base.frameSize.toInt32.toInt = base.frameSize.toNat := by
    rw [toInt_toInt32, if_pos (by omega)]
  have above : 0 ≤ base.frameSize.toInt32 := by
    rw [Int32.le_iff_toInt_le, start]
    exact Int.natCast_nonneg _
  refine ⟨_, handed, size, rfl, ?_, ?_, ?_, ⟨nofun, nofun, nofun, ?_⟩, ?_⟩
  · rw [sum]
    exact Nat.le_add_right _ _
  · rw [sum]
    exact Nat.add_le_add_left slots _
  · rw [sum]
    exact Nat.dvd_add whole (Convention.wholeSlots_least width).1
  · rintro offset same
    cases same
    refine ⟨above, ?_⟩
    rw [start]
    exact Int.natCast_dvd_natCast.mpr whole
  · rw [StoredValue.stop_of_spill rfl above, start, sum]
    exact Nat.le_refl _

/-- A location that suits the value is drawn. -/
theorem drawLocation_yields {source : Source} (sound : source.Sound) (options : Options)
    {preserved : List Register}
    (survives : ∀ register ∈ preserved, target.convention.owns .general register = true)
    (room : base.frameSize.toNat + 8 ≤ 2 ^ 31) :
    Draw.Yields (drawLocation options preserved (base.newValue kind).1 kind : Draw source _)
      fun result => ∃ size, Located target base kind result size := by
  have same : (base.newValue kind).1.convention = target.convention := bound
  apply (Draw.yields_between sound (by decide)).bind
  rintro choice _
  by_cases parameter : choice = 0 ∧ options.parameters = true
  · rw [if_pos parameter, same]
    apply (drawParameter_yields sound target).bind
    rintro location ⟨offset, rfl⟩
    exact Draw.yields_pure (located_elsewhere whole ⟨nofun, nofun, nofun, nofun⟩ nofun)
  rw [if_neg parameter]
  by_cases fresh : choice = 0 ∨ choice = 1
  · rw [if_pos fresh]
    obtain ⟨result, handed, located⟩ := located_freshSlot bound whole room
    apply (Draw.yields_perform handed).mono
    rintro _ rfl
    exact located
  rw [if_neg fresh]
  by_cases calls : choice = 2 ∧ preserved ≠ [] ∧ kind.bank = .general
  · obtain ⟨_, nonempty, general⟩ := id calls
    rw [if_pos calls]
    apply (drawRegister_yields sound nonempty).bind
    rintro location ⟨register, member, rfl⟩
    exact Draw.yields_pure (located_register whole (general ▸ survives register member))
  rw [if_neg calls]
  by_cases constant : choice = 4 ∧ kind.isReference = false
  · rw [if_pos constant]
    apply drawImmediate_yields.bind
    rintro location ⟨bits, rfl⟩
    refine Draw.yields_pure (located_elsewhere whole ⟨nofun, nofun, ?_, nofun⟩ nofun)
    rintro rfl
    exact absurd constant.2 (by decide)
  rw [if_neg constant, same]
  obtain ⟨nonempty, owned⟩ := target.allocatable_convention kind.bank
  apply (drawRegister_yields sound nonempty).bind
  rintro location ⟨register, member, rfl⟩
  exact Draw.yields_pure (located_register whole (owned register member))

end

/-! ## Drawing a value -/

/-- The value that was added last has its location, and so far is live at safepoints that
it survives. -/
structure Marked (base : Method) (kind : Kind) (location : Location) (clobbered : Bool)
    (record : Record) (method : Method) : Prop where
  added : method = (base.addRecord record).1
  sameKind : record.kind = kind
  sameLocation : record.location = location
  coherent : method.Coherent
  survives : ∀ safepoint, record.isLiveAt safepoint = true →
    ∃ point, safepoint.fetch base.safepoints = .ok point ∧ (clobbered = true → point.kind ≠ .call)

section

variable {source : Source} {base : Method} {kind : Kind} {location : Location} {clobbered : Bool}

/-- The value is made live at a safepoint of the method, or not. -/
theorem drawLive_yields (short : base.values.length < 2 ^ 32 - 1) {method : Method}
    (marked : ∃ record, Marked base kind location clobbered record method)
    {entry : SafepointId × SafepointKind} {point : Safepoint}
    (known : entry.1.fetch base.safepoints = .ok point) (same : point.kind = entry.2) :
    Draw.Yields
      (drawLive (Handle.ofNat base.values.length) clobbered method entry : Draw source Method)
      fun next => ∃ record, Marked base kind location clobbered record next := by
  obtain ⟨record, added, sameKind, sameLocation, coherent, survives⟩ := id marked
  unfold drawLive
  by_cases lost : clobbered = true ∧ entry.2 = .call
  · rw [if_pos lost]
    exact Draw.yields_pure marked
  rw [if_neg lost]
  apply Draw.yields_flag.bind
  rintro isLive _
  cases isLive with
  | false => exact Draw.yields_pure marked
  | true =>
    obtain ⟨valid, stored⟩ := Handle.fetch_eq_ok.mp known
    have inside := (List.getElem?_eq_some_iff.mp stored).1
    have performed := Method.markLive_last short valid inside record
    rw [← added] at performed
    apply (Draw.yields_perform performed).mono
    rintro _ rfl
    have effect : Method.Effect method (.markLive _ entry.1) _ := Method.perform_effect performed
    refine ⟨_, rfl, sameKind, sameLocation, effect.coherent coherent, ?_⟩
    intro safepoint member
    rcases Record.isLiveAt_addLive.mp member with rfl | before
    · refine ⟨point, known, ?_⟩
      intro isClobbered call
      exact lost ⟨isClobbered, same ▸ call⟩
    · exact survives safepoint before

/-- The liveness of the value is drawn, safepoint by safepoint. -/
theorem foldlM_drawLive_yields {record : Record} {method : Method}
    (marked : Marked base kind location clobbered record method)
    (short : base.values.length < 2 ^ 32 - 1) {points : List (SafepointId × SafepointKind)}
    (known : ∀ entry ∈ points, ∃ point, entry.1.fetch base.safepoints = .ok point ∧
      point.kind = entry.2) :
    Draw.Yields
      (points.foldlM (drawLive (Handle.ofNat base.values.length) clobbered) method :
        Draw source Method)
      fun next => ∃ record, Marked base kind location clobbered record next := by
  refine Draw.yields_foldlM ?_ ⟨record, marked⟩
  intro next entry member marked
  obtain ⟨point, fetched, same⟩ := known entry member
  exact drawLive_yields short marked fetched same

end

section

variable {target : Architecture} {kind : Kind} {location : Location}

/-- Whether a call would destroy a value at a location that suits it is answered. -/
theorem isClobbered_completes (apt : Apt target.convention kind location) :
    ∃ clobbered, isClobbered target.convention kind location = .ok clobbered ∧
      (kind = .reference → ∀ register, location = .register register → clobbered = false →
        target.convention.preserved.has register = true) := by
  cases location with
  | register register =>
    by_cases reference : kind = .reference
    · subst reference
      have answered := Convention.survivesCall_of_owns (apt.owned register rfl)
      have asked : Kind.reference.isReference = true := rfl
      refine ⟨!target.convention.preserved.has register, ?_, ?_⟩
      · rw [isClobbered, if_pos asked, answered]
        rfl
      · intro _ other same survives
        obtain rfl := Location.register.inj same
        simpa using survives
    · refine ⟨false, ?_, fun same => absurd same reference⟩
      rw [isClobbered, if_neg]
      cases kind <;> simp_all [Kind.isReference]
  | _ =>
    refine ⟨false, rfl, ?_⟩
    intro _ register same
    cases same

variable {safepoints : List Safepoint} {done : Nat} {base : Method} {size : UInt32}
  {result : Method × Location}

/-- A location that was drawn for a value is accepted. -/
theorem Located.assigned (located : Located target base kind result size)
    (healthy : Healthy target safepoints done base) (few : done < 2 ^ 32 - 1)
    (clobbered : Bool) :
    ∃ next, result.1.assign (Handle.ofNat base.values.length) result.2 = .ok (next, .ok ()) ∧
      Marked (base.withFrame size) kind result.2 clobbered
        (.located kind result.2) next := by
  obtain ⟨assignee, location⟩ := result
  obtain rfl := located.extended
  have short : base.values.length < 2 ^ 32 - 1 := healthy.count ▸ few
  have admitted : (base.withFrame size).admits kind location = true := by
    cases location with
    | register register =>
      have owned := located.apt.owned register rfl
      rwa [← healthy.bound] at owned
    | unassigned => exact absurd rfl located.apt.decided
    | _ => rfl
  have bound : (base.withFrame size).convention = target.convention := healthy.bound
  have inRange : StoredValue.InRange (base.withFrame size).convention 0 ⟨kind, location, []⟩ :=
    bound ▸ target.inRange_convention (by decide) _
  have covers : (base.withFrame size).reserveFrame (UInt32.ofNat
      (StoredValue.stop (base.withFrame size).convention ⟨kind, location, []⟩)) =
        base.withFrame size := by
    apply Method.reserveFrame_of_le
    rw [UInt32.toNat_ofNat_of_lt' inRange.stop_lt, bound]
    exact located.covered
  have settled : ((base.withFrame size).newValue kind).1.assign
      (Handle.ofNat base.values.length) location =
      .ok (((base.withFrame size).addRecord (.located kind location)).1, .ok ()) := by
    have values : (base.withFrame size).values.length < 2 ^ 32 - 1 := short
    have assigned := Method.assign_last values inRange
    rw [if_pos admitted, covers] at assigned
    exact assigned
  refine ⟨_, settled, rfl, rfl, rfl, ?_, ?_⟩
  · apply (Method.assign_effect settled).coherent
    apply (Method.Effect.newValue kind).coherent
    intro record member
    exact (healthy.coherent record member).mono rfl located.grows (Nat.le_refl _)
  · intro safepoint isLive
    cases (BitSet.contains_empty _).symm.trans isLive

/-- A value whose liveness was drawn leaves a healthy method. -/
theorem Healthy.extended (healthy : Healthy target safepoints done base)
    (located : Located target base kind result size) {clobbered : Bool}
    (survives : kind = .reference → ∀ register, result.2 = .register register →
      clobbered = false → target.convention.preserved.has register = true)
    {record : Record} {method : Method}
    (marked : Marked (base.withFrame size) kind result.2 clobbered record method) :
    Healthy target safepoints (done + 1) method := by
  obtain ⟨rfl, sameKind, sameLocation, coherent, live⟩ := marked
  have mem_values : ∀ other ∈ base.values ++ [record], other ∈ base.values ∨ other = record := by
    simp
  constructor
  · exact healthy.bound
  · exact healthy.same
  · simp [Method.addRecord, Method.withFrame, healthy.count]
  · exact located.whole
  · have before := healthy.small
    have atMost := located.atMost
    change size.toNat ≤ _
    omega
  · exact coherent
  · intro other member
    rcases mem_values other member with old | rfl
    · exact healthy.apt other old
    · rw [sameKind, sameLocation]
      exact located.apt
  · intro other member reference register inRegister safepoint point isLive present call
    rcases mem_values other member with old | rfl
    · exact healthy.kept other old reference register inRegister safepoint point isLive present call
    · rw [sameKind] at reference
      rw [sameLocation] at inRegister
      obtain ⟨found, fetched, apart⟩ := live safepoint isLive
      rw [healthy.same.symm] at present
      obtain rfl := Except.ok.inj (fetched.symm.trans present)
      apply survives reference register inRegister
      rw [← Bool.not_eq_true]
      intro clobbers
      exact apart clobbers call

/-- A value is drawn, and the method stays healthy. -/
theorem drawValue_yields {source : Source} (sound : source.Sound) (options : Options)
    {preserved : List Register}
    (owned : ∀ register ∈ preserved, target.convention.owns .general register = true)
    {points : List (SafepointId × SafepointKind)}
    (known : ∀ entry ∈ points, ∃ point, entry.1.fetch safepoints = .ok point ∧
      point.kind = entry.2)
    (healthy : Healthy target safepoints done base) (few : done < 2 ^ 28) :
    Draw.Yields (drawValue options preserved points base : Draw source Method)
      (Healthy target safepoints (done + 1)) := by
  have room : base.frameSize.toNat + 8 ≤ 2 ^ 31 := by
    have small := healthy.small
    omega
  apply (Draw.yields_choose sound (by decide)).bind
  intro kind _
  apply (drawLocation_yields healthy.bound healthy.whole sound options owned room).bind
  rintro result ⟨size, located⟩
  obtain ⟨clobbered, answered, survives⟩ := isClobbered_completes located.apt
  obtain ⟨assigned, settled, marked⟩ := located.assigned healthy (by omega) clobbered
  apply (Draw.yields_perform settled).bind
  rintro _ rfl
  apply Draw.yields_accepted.bind
  rintro _ _
  rw [← healthy.bound] at answered
  apply (Draw.yields_perform answered).bind
  rintro _ rfl
  have short : base.values.length < 2 ^ 32 - 1 := by
    rw [healthy.count]
    omega
  rw [← healthy.same] at known
  apply (foldlM_drawLive_yields marked short known).mono
  rintro method ⟨record, marked⟩
  exact healthy.extended located survives marked

end

/-! ## Drawing safepoints -/

/-- A method whose safepoints have been drawn so far, without values. -/
structure Outlined (target : Architecture) (done : Nat) (outline : Outline) : Prop where
  bound : outline.method.convention = target.convention
  noValues : outline.method.values = []
  noFrame : outline.method.frameSize = 0
  count : outline.method.safepoints.length = done
  low : outline.pc.toNat ≤ 64 * done
  below : ∀ point ∈ outline.method.safepoints, point.pc ≤ outline.pc
  ascending : (outline.method.safepoints.map Safepoint.pc).Pairwise (· < ·)
  /-- The handles that are kept are of safepoints of the kind that is kept with them. -/
  known : ∀ entry ∈ outline.points, ∃ point,
    entry.1.fetch outline.method.safepoints = .ok point ∧ point.kind = entry.2

section

variable {source : Source} {target : Architecture} {done : Nat} {outline : Outline}

/-- A safepoint above the last one keeps the offsets ascending. -/
theorem Outlined.addSafepoint (outlined : Outlined target done outline) (few : done + 1 < 2 ^ 26)
    {pc : UInt32} (above : outline.pc < pc) (near : pc.toNat ≤ outline.pc.toNat + 64)
    (kind : SafepointKind) :
    Outlined target (done + 1) ⟨(outline.method.addSafepoint pc kind).1, pc,
      outline.points ++ [((outline.method.addSafepoint pc kind).2, kind)]⟩ where
  bound := outlined.bound
  noValues := outlined.noValues
  noFrame := outlined.noFrame
  count := by simp [Method.addSafepoint, outlined.count]
  low := by
    have before := outlined.low
    change pc.toNat ≤ _
    omega
  below := by
    intro point member
    rcases List.mem_append.mp member with old | new
    · exact UInt32.le_of_lt (UInt32.lt_of_le_of_lt (outlined.below point old) above)
    · rw [List.mem_singleton.mp new]
      exact UInt32.le_refl _
  ascending := by
    have list : (outline.method.addSafepoint pc kind).1.safepoints.map Safepoint.pc =
        outline.method.safepoints.map Safepoint.pc ++ [pc] := by
      simp [Method.addSafepoint]
    rw [list, List.pairwise_append]
    refine ⟨outlined.ascending, List.pairwise_singleton _ _, ?_⟩
    intro earlier member later last
    obtain ⟨point, present, rfl⟩ := List.mem_map.mp member
    rw [List.mem_singleton.mp last]
    exact UInt32.lt_of_le_of_lt (outlined.below point present) above
  known := by
    intro entry member
    rcases List.mem_append.mp member with old | new
    · obtain ⟨point, fetched, same⟩ := outlined.known entry old
      exact ⟨point, Handle.fetch_append_left fetched _, same⟩
    · rw [List.mem_singleton.mp new]
      have short : outline.method.safepoints.length < 2 ^ 32 - 1 := by
        rw [outlined.count]
        omega
      exact ⟨⟨pc, kind⟩, Handle.fetch_last short _, rfl⟩

/-- A safepoint is drawn above the last one. -/
theorem drawSafepoint_yields (sound : source.Sound) (outlined : Outlined target done outline)
    (few : done + 1 < 2 ^ 26) :
    Draw.Yields (drawSafepoint outline : Draw source Outline) (Outlined target (done + 1)) := by
  apply (Draw.yields_between sound (by decide)).bind
  rintro gap ⟨low, high⟩
  have small : gap.toNat < 2 ^ 32 := by omega
  have spelled : (UInt32.ofNat gap.toNat).toNat = gap.toNat := UInt32.toNat_ofNat_of_lt small
  have inside : outline.pc.toNat + (UInt32.ofNat gap.toNat).toNat < 2 ^ 32 := by
    have before := outlined.low
    omega
  have added : Checked.add outline.pc (UInt32.ofNat gap.toNat) =
      .ok (outline.pc + UInt32.ofNat gap.toNat) := if_pos inside
  have sum := (Checked.add_eq_ok.mp added).2
  apply (Draw.yields_perform added).bind
  rintro _ rfl
  apply Draw.yields_flag.bind
  intro isCall _
  apply Draw.yields_pure
  apply outlined.addSafepoint few
  · rw [UInt32.lt_iff_toNat_lt, sum]
    omega
  · omega

/-- Without values a method with its safepoints is healthy. -/
theorem Outlined.healthy (outlined : Outlined target done outline) :
    Healthy target outline.method.safepoints 0 outline.method where
  bound := outlined.bound
  same := rfl
  count := by rw [outlined.noValues, List.length_nil]
  whole := by
    rw [outlined.noFrame]
    exact Nat.dvd_zero _
  small := by
    rw [outlined.noFrame]
    exact Nat.zero_le _
  coherent := by
    intro record member
    rw [outlined.noValues] at member
    cases member
  apt := by
    intro record member
    rw [outlined.noValues] at member
    cases member
  kept := by
    intro record member
    rw [outlined.noValues] at member
    cases member

end

/-- A sample is a healthy method within the bounds, over safepoints that ascend. -/
structure Drawn (options : Options) (method : Method) : Prop where
  fewSafepoints : method.safepoints.length ≤ options.maxSafepoints
  fewValues : method.values.length ≤ options.maxValues
  ascending : (method.safepoints.map Safepoint.pc).Pairwise (· < ·)
  healthy : ∃ target, Healthy target method.safepoints method.values.length method

/-- A sample is drawn. -/
theorem draw_yields {source : Source} (sound : source.Sound) {options : Options}
    (fewSafepoints : options.maxSafepoints < 2 ^ 26) (fewValues : options.maxValues ≤ 2 ^ 28) :
    Draw.Yields (draw options : Draw source Method) (Drawn options) := by
  apply (Draw.yields_choose sound (by decide)).bind
  intro target _
  apply (Draw.yields_between sound (Int.natCast_nonneg _)).bind
  rintro safepointCount ⟨_, safepointsWithin⟩
  have start : Outlined target 0
      ⟨Method.begin ("fuzz_" ++ target.name) target.convention, 0, []⟩ :=
    ⟨rfl, rfl, rfl, rfl, Nat.le_refl _, nofun, .nil, nofun⟩
  have safepointLoop : ∀ done outline, done < safepointCount.toNat →
      Outlined target done outline →
      Draw.Yields (drawSafepoint outline : Draw source Outline) (Outlined target (done + 1)) := by
    intro done outline before outlined
    exact drawSafepoint_yields sound outlined (by omega)
  apply (Draw.yields_times safepointLoop (Nat.zero_add _) start).bind
  intro outline outlined
  obtain ⟨preserved, found, owned⟩ := target.surviving_convention
  apply (Draw.yields_perform found).bind
  rintro preserved rfl
  apply (Draw.yields_between sound (Int.natCast_nonneg _)).bind
  rintro valueCount ⟨_, valuesWithin⟩
  have valueLoop : ∀ done method, done < valueCount.toNat →
      Healthy target outline.method.safepoints done method →
      Draw.Yields (drawValue options preserved outline.points method : Draw source Method)
        (Healthy target outline.method.safepoints (done + 1)) := by
    intro done method before healthy
    exact drawValue_yields sound options owned outlined.known healthy (by omega)
  apply (Draw.yields_times valueLoop (Nat.zero_add _) outlined.healthy).mono
  intro method healthy
  have count := outlined.count
  refine ⟨?_, ?_, ?_, target, ?_⟩
  · rw [healthy.same]
    omega
  · rw [healthy.count]
    omega
  · rw [healthy.same]
    exact outlined.ascending
  · rw [healthy.same, healthy.count]
    exact healthy

end Sample

/-- Samples compile. Of the source only this is assumed: that a number it answers is in
the range asked for, and an element is one of the list. Within the bounds, drawing a
method from any state ends with a method, unless the source runs out of answers; it
never faults, and no location that was drawn is refused. The method compiles, and its
table has exactly one entry for each safepoint that was drawn. -/
theorem sample_compiles {source : Source} (sound : source.Sound) (options : Sample.Options)
    (fewSafepoints : options.maxSafepoints < 2 ^ 26) (fewValues : options.maxValues ≤ 2 ^ 28)
    (state : source.State) :
    (source.RunsOut ∧ Sample.draw options state = .error .exhausted) ∨
    ∃ method rest compiled entries, Sample.draw options state = .ok (method, rest) ∧
      method.safepoints.length ≤ options.maxSafepoints ∧
      method.values.length ≤ options.maxValues ∧
      method.finish = .ok (.ok compiled) ∧ compiled.maps.entries = .ok entries ∧
      entries.map Entry.pc = method.safepoints.map Safepoint.pc ∧
      (method.safepoints.map Safepoint.pc).Pairwise (· < ·) := by
  rcases Sample.draw_yields sound fewSafepoints fewValues state with
    ended | ⟨method, rest, ended, drawn⟩
  · exact Or.inl ended
  · obtain ⟨target, healthy⟩ := drawn.healthy
    have countBelow := drawn.fewSafepoints
    have valuesBelow := drawn.fewValues
    obtain ⟨compiled, entries, finished, read, offsets⟩ :=
      healthy.compiles (by omega) (by omega) drawn.ascending
    exact Or.inr ⟨method, rest, compiled, entries, ended, countBelow, valuesBelow, finished, read,
      offsets, drawn.ascending⟩

/-- Bytes that draw a call and a poll, and three references: one in a register that calls
destroy, one in a fresh slot, and one in a register that survives calls. -/
def sampleBytes : List Byte :=
  [3, 2, 7, 1, 15, 0, 3, 0, 3, 0, 1, 0, 1, 1, 1, 0, 2, 0, 1, 0]

/-- The bytes draw a method for the target with reserved bytes. The first reference is not
live at the call, and the method compiles, with entries for both safepoints. -/
theorem sample_compiles_from_bytes :
    ∃ method rest compiled entries,
      Sample.draw ⟨2, 3, true⟩ (show Source.bytes.State from sampleBytes) = .ok (method, rest) ∧
      method.values.map (fun record => record.live.toList) = [[1], [0, 1], [0]] ∧
      method.finish = .ok (.ok compiled) ∧ compiled.maps.entries = .ok entries ∧
      entries.map Entry.pc = [8, 24] := by
  rcases sample_compiles Source.bytes_sound ⟨2, 3, true⟩ (by decide) (by decide) sampleBytes with
    ⟨runsOut, _⟩ | ⟨method, rest, compiled, entries, drawn, _, _, finished, read, offsets, _⟩
  · exact absurd runsOut Source.bytes_never_runs_out
  · refine ⟨method, rest, compiled, entries, drawn, ?_, finished, read, offsets.trans ?_⟩
    · obtain ⟨rfl, _⟩ := Prod.mk.inj (Except.ok.inj (drawn.symm.trans rfl))
      rfl
    · obtain ⟨rfl, _⟩ := Prod.mk.inj (Except.ok.inj (drawn.symm.trans rfl))
      rfl

end StackMaps
