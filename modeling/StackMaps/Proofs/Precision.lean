import StackMaps.Convention.Targets
import StackMaps.Proofs.Finishing
import StackMaps.Proofs.Histories

/-!
# Compiled maps are precise

The table of a compiled method tells the collector exactly where the live
references are. Looking up the offset of a safepoint gives an entry whose bits are
those of the locations of the references that the history made live there: no
reference is missed, and nothing else is reported. Other offsets have no entry.

The argument goes through every layer once. A history decides what is live, a
placement decides the bit, a map holds the bits of its placements, and packing and
looking up read the map back.
-/

namespace StackMaps

namespace MapBuilder

variable {builder : MapBuilder}

/-- A location that has its place in the map is reported through a frame bit
exactly when it is the slot that starts there or a register saved there. -/
theorem Placed.frame_iff {location : Location} {placement : Option Placement}
    (placed : builder.Placed location placement) (bit : Nat) :
    builder.Placed location (some (.frame bit)) ↔
      (∃ offset, location = .spill offset ∧
        builder.startOf offset = bit * builder.layout.width.toNat) ∨
      ∃ register, location = .register register ∧
        builder.convention.saveWord register = .ok (some bit) := by
  constructor
  · intro reported
    cases reported with
    | slot offset _ starts _ => exact Or.inl ⟨offset, rfl, starts⟩
    | saved register _ owned found =>
      exact Or.inr ⟨register, rfl, by rw [Convention.saveWord_of_owns owned, found]⟩
  · rintro (⟨offset, rfl, starts⟩ | ⟨register, rfl, found⟩)
    · cases placed with
      | slot _ other otherStarts inside =>
        have width : (builder.layout.width.toNat : Int) ≠ 0 := by
          have positive := builder.layout.width_pos
          omega
        have same : (bit : Int) = other :=
          Int.eq_of_mul_eq_mul_right width (starts.symm.trans otherStarts)
        obtain rfl : bit = other := Int.ofNat_inj.mp same
        exact .slot offset bit starts inside
    · have owned : builder.convention.owns .general register = true := by
        cases placed <;> assumption
      rw [Convention.saveWord_of_owns owned] at found
      exact .saved register bit owned (Except.ok.inj found)

/-- It is reported through a register bit exactly when it is the general-purpose
register with that encoding and is saved nowhere. -/
theorem Placed.register_iff {location : Location} {placement : Option Placement}
    (placed : builder.Placed location placement) (bit : Nat) :
    builder.Placed location (some (.register bit)) ↔
      ∃ register, location = .register register ∧ register.bank = .general ∧
        register.code.toNat = bit ∧ builder.convention.saveWord register = .ok none := by
  constructor
  · intro reported
    obtain ⟨register, located, code, owned, unsaved⟩ := reported.register_inv
    refine ⟨register, located, (Convention.owns_general.mp owned).1, code, ?_⟩
    rw [Convention.saveWord_of_owns owned, unsaved]
  · rintro ⟨register, rfl, _, rfl, unsaved⟩
    have owned : builder.convention.owns .general register = true := by
      cases placed <;> assumption
    rw [Convention.saveWord_of_owns owned] at unsaved
    exact .held register owned (Except.ok.inj unsaved)

/-- One of the listed values is a reference at a location. -/
def Lists (live : List (ValueId × Record)) (location : Location) : Prop :=
  ∃ entry ∈ live, entry.2.isReference = true ∧ entry.2.location = location

instance (live : List (ValueId × Record)) (location : Location) : Decidable (Lists live location) :=
  inferInstanceAs (Decidable (∃ entry ∈ live, _))

variable {live : List (ValueId × Record)} {map : ReferenceMap}

/-- A frame bit of a map is set exactly for a listed reference in the slot that starts
there or in a register saved there. -/
theorem frame_get_iff (built : builder.build live = .ok map) (bit : Nat) :
    map.frame.get bit = true ↔
      (∃ offset, Lists live (.spill offset) ∧
        builder.startOf offset = bit * builder.layout.width.toNat) ∨
      ∃ register, Lists live (.register register) ∧
        builder.convention.saveWord register = .ok (some bit) := by
  obtain ⟨allPlaced, frameBits, _, _, _⟩ := build_eq_ok built
  rw [Bitmap.get_of_within (shaped_of_build built).frameWithin, frameBits]
  constructor
  · rintro ⟨entry, member, reference, placed⟩
    rcases (placed.frame_iff bit).mp placed with
      ⟨offset, located, starts⟩ | ⟨register, located, saved⟩
    · exact Or.inl ⟨offset, ⟨entry, member, reference, located⟩, starts⟩
    · exact Or.inr ⟨register, ⟨entry, member, reference, located⟩, saved⟩
  · rintro (⟨offset, ⟨entry, member, reference, located⟩, starts⟩ |
      ⟨register, ⟨entry, member, reference, located⟩, saved⟩)
    · obtain ⟨placement, placed⟩ := allPlaced entry member reference
      exact ⟨entry, member, reference,
        (placed.frame_iff bit).mpr (Or.inl ⟨offset, located, starts⟩)⟩
    · obtain ⟨placement, placed⟩ := allPlaced entry member reference
      exact ⟨entry, member, reference,
        (placed.frame_iff bit).mpr (Or.inr ⟨register, located, saved⟩)⟩

/-- A register bit of a map is set exactly for a listed reference in the
general-purpose register with that encoding, if the register is saved nowhere. -/
theorem register_get_iff (built : builder.build live = .ok map) (bit : Nat) :
    map.registers.get bit = true ↔
      ∃ register, Lists live (.register register) ∧ register.bank = .general ∧
        register.code.toNat = bit ∧ builder.convention.saveWord register = .ok none := by
  obtain ⟨allPlaced, _, registerBits, _, _⟩ := build_eq_ok built
  rw [Bitmap.get_of_within (shaped_of_build built).registersWithin, registerBits]
  constructor
  · rintro ⟨entry, member, reference, placed⟩
    obtain ⟨register, located, found⟩ := (placed.register_iff bit).mp placed
    exact ⟨register, ⟨entry, member, reference, located⟩, found⟩
  · rintro ⟨register, ⟨entry, member, reference, located⟩, found⟩
    obtain ⟨placement, placed⟩ := allPlaced entry member reference
    exact ⟨entry, member, reference, (placed.register_iff bit).mpr ⟨register, located, found⟩⟩

end MapBuilder

namespace Method

variable {method : Method} {builder : MapBuilder}

/-- A reference of the method that the operations made live at a safepoint is at a
location. -/
def LiveReference (method : Method) (actions : List Action) (safepoint : SafepointId)
    (location : Location) : Prop :=
  ∃ value record, method.value value = .ok record ∧ record.kind = .reference ∧
    .markLive value safepoint ∈ actions ∧ record.location = location

section

variable {name : String} {convention : Convention} {actions : List Action}
  (reached : (begin name convention).run actions = .ok method)
  (fewValues : method.values.length < 2 ^ 32 - 1)

include reached fewValues

/-- The references that a history made live at a safepoint are the ones that are
presented for its map. -/
theorem liveReference_iff {safepoint : SafepointId} {location : Location} :
    method.LiveReference actions safepoint location ↔
      MapBuilder.Lists (Record.liveEntries method.values safepoint) location := by
  constructor
  · rintro ⟨value, record, held, kind, marked, located⟩
    have live := (live_run reached held safepoint).mpr marked
    exact ⟨(value, record), (Record.mem_liveEntries fewValues).mpr ⟨held, live⟩,
      Record.isReference_iff.mpr kind, located⟩
  · rintro ⟨⟨value, record⟩, member, reference, located⟩
    obtain ⟨held, live⟩ := (Record.mem_liveEntries fewValues).mp member
    exact ⟨value, record, held, Record.isReference_iff.mp reference,
      (live_run reached held safepoint).mp live, located⟩

/-- A frame bit of the map of a safepoint is set exactly for a live reference in the
slot that starts there or in a register saved there. -/
theorem frame_bit_iff {safepoint : SafepointId} {map : ReferenceMap}
    (drawn : method.mapAt builder safepoint = .ok map) (bit : Nat) :
    map.frame.get bit = true ↔
      (∃ offset, method.LiveReference actions safepoint (.spill offset) ∧
        builder.startOf offset = bit * builder.layout.width.toNat) ∨
      ∃ register, method.LiveReference actions safepoint (.register register) ∧
        builder.convention.saveWord register = .ok (some bit) := by
  simp only [liveReference_iff reached fewValues]
  exact MapBuilder.frame_get_iff drawn bit

/-- A register bit is set exactly for a live reference in the general-purpose register
with that encoding, if the register is saved nowhere. -/
theorem register_bit_iff {safepoint : SafepointId} {map : ReferenceMap}
    (drawn : method.mapAt builder safepoint = .ok map) (bit : Nat) :
    map.registers.get bit = true ↔
      ∃ register, method.LiveReference actions safepoint (.register register) ∧
        register.bank = .general ∧ register.code.toNat = bit ∧
        builder.convention.saveWord register = .ok none := by
  simp only [liveReference_iff reached fewValues]
  exact MapBuilder.register_get_iff drawn bit

end

/-- A compiled method is the packed maps of its safepoints, which have different
offsets. -/
theorem finished_inv (fewSafepoints : method.safepoints.length < 2 ^ 32 - 1)
    {compiled : CompiledMethod} (finished : method.finish = .ok (.ok compiled)) :
    ∃ builder maps, method.mapBuilder = .ok builder ∧
      method.Mapped builder (Handle.entries method.safepoints) maps ∧
      ((Table.ordered maps).map Prod.fst).Pairwise (· < ·) ∧
      compiled =
        method.compiledWith (Table.packed builder.frameLength builder.registerLength maps) := by
  obtain ⟨builder, made⟩ := mapBuilder_of_finish fewSafepoints finished
  obtain ⟨outcome, ended, reason⟩ := finish_outcome made fewSafepoints
  obtain rfl := Except.ok.inj (finished.symm.trans ended)
  cases reason with
  | compiled accepted mapped distinct =>
    rename_i maps
    exact ⟨builder, maps, made, mapped,
      Table.firstRepeat_eq_none (Table.ordered_pcs_ascending maps) distinct, rfl⟩

end Method

/-- The table of a compiled method is precise. At the offset of a safepoint it has
an entry with all its bytes, which answers for every slot and every register. The
answer for a slot is yes exactly when a reference that was made live there is in the
spill slot at that place of the frame or in a register saved there; for a register,
exactly when one is in the general-purpose register with that encoding and the
register is not saved. At any other offset the table has no entry. -/
theorem compiled_maps_precise {name : String} {convention : Convention}
    {actions : List Method.Action} {method : Method} {compiled : CompiledMethod}
    (reached : (Method.begin name convention).run actions = .ok method)
    (fewValues : method.values.length < 2 ^ 32 - 1)
    (fewSafepoints : method.safepoints.length < 2 ^ 32 - 1)
    (finished : method.finish = .ok (.ok compiled)) :
    (∀ safepoint point, method.safepoint safepoint = .ok point →
      ∃ entry, compiled.maps.lookup point.pc = .ok (some entry) ∧ entry.pc = point.pc ∧
        entry.frame.length = Byte.countFor entry.frameBits ∧
        entry.registers.length = Byte.countFor entry.registerBits ∧
        (∀ slot, ∃ answer, entry.isFrameReferenceChecked slot = .ok answer ∧
          (answer = true ↔
            (∃ offset, method.LiveReference actions safepoint (.spill offset) ∧
              offset.toInt + convention.reserved.toNat = slot * convention.slotSize.toNat) ∨
            ∃ register, method.LiveReference actions safepoint (.register register) ∧
              convention.saveWord register = .ok (some slot))) ∧
        ∀ code, ∃ answer, entry.isRegisterReferenceChecked code = .ok answer ∧
          (answer = true ↔
            ∃ register, method.LiveReference actions safepoint (.register register) ∧
              register.bank = .general ∧ register.code.toNat = code ∧
              convention.saveWord register = .ok none)) ∧
    ∀ pc, (∀ point ∈ method.safepoints, point.pc ≠ pc) → compiled.maps.lookup pc = .ok none := by
  obtain ⟨builder, maps, made, mapped, ascending, rfl⟩ :=
    Method.finished_inv fewSafepoints finished
  obtain ⟨sameConvention, _, sameWidth⟩ := Method.mapBuilder_eq_ok.mp made
  rw [(Method.identity_run reached).1] at sameConvention sameWidth
  constructor
  · intro safepoint point present
    obtain ⟨map, given, drawn⟩ :=
      mapped.drawn (safepoint, point) ((Handle.mem_entries fewSafepoints).mpr present)
    have shaped := MapBuilder.shaped_of_build drawn
    have frameSmall := builder.frameLength_lt
    have registersSmall := builder.registerLength_le
    have fits := builder.capacity maps.length (by rw [mapped.length]; omega)
    refine ⟨_, Table.lookup_packed (by omega) (by omega) fits ascending given, rfl,
      Bitmap.length_firstBytes _ _, Bitmap.length_firstBytes _ _, ?_, ?_⟩
    · intro slot
      refine ⟨_, Table.isFrameReferenceChecked_entryOf shaped point.pc slot, ?_⟩
      rw [Method.frame_bit_iff reached fewValues drawn slot]
      simp only [MapBuilder.startOf, sameConvention, sameWidth]
    · intro code
      refine ⟨_, Table.isRegisterReferenceChecked_entryOf shaped point.pc code, ?_⟩
      rw [Method.register_bit_iff reached fewValues drawn code, sameConvention]
  · intro pc absent
    apply Table.lookup_absent
    rw [mapped.offsets]
    intro member
    obtain ⟨point, present, same⟩ := List.mem_map.mp member
    exact absent point present same

/-- A history with a spilled reference, one in a register that is saved, and one in
a register that is not. The third assignment is refused. -/
def pollHistory : List Method.Action :=
  [.newValue .reference, .newValue .reference, .newValue .reference,
    .newSpillSlot .reference, .assign (Handle.ofNat 0) (.spill 0),
    .assign (Handle.ofNat 1) (.register ⟨16, .general⟩),
    .assign (Handle.ofNat 0) (.register ⟨17, .general⟩),
    .assign (Handle.ofNat 2) (.register ⟨3, .general⟩),
    .addSafepoint 8 .poll, .markLive (Handle.ofNat 2) (Handle.ofNat 0),
    .markLive (Handle.ofNat 0) (Handle.ofNat 0), .markLive (Handle.ofNat 1) (Handle.ofNat 0)]

/-- The method that the history leaves. -/
def pollMethod : Method where
  name := "poll"
  convention := Convention.sparcv9
  values := [⟨.reference, .spill 0, .insert .empty 0⟩,
    ⟨.reference, .register ⟨16, .general⟩, .insert .empty 0⟩,
    ⟨.reference, .register ⟨3, .general⟩, .insert .empty 0⟩]
  safepoints := [⟨8, .poll⟩]
  frameSize := 8

/-- The spill slot is above the 22 reserved words, and the saved register is at
word 0. -/
theorem compiled_maps_precise_at_poll :
    (Method.begin "poll" Convention.sparcv9).run pollHistory = .ok pollMethod ∧
    ∃ compiled, pollMethod.finish = .ok (.ok compiled) ∧
      (∃ entry, compiled.maps.lookup 8 = .ok (some entry) ∧
        entry.isFrameReferenceChecked 22 = .ok true ∧ entry.isFrameReferenceChecked 0 = .ok true ∧
        entry.isRegisterReferenceChecked 3 = .ok true) ∧
      compiled.maps.lookup 12 = .ok none := by
  have reached : (Method.begin "poll" Convention.sparcv9).run pollHistory = .ok pollMethod := rfl
  obtain ⟨compiled, finished⟩ : ∃ compiled, pollMethod.finish = .ok (.ok compiled) :=
    ⟨_, Method.finish_of_maps rfl (by decide) rfl rfl rfl⟩
  obtain ⟨present, absent⟩ := compiled_maps_precise reached (by decide) (by decide) finished
  obtain ⟨entry, found, _, _, _, frame, registers⟩ := present (Handle.ofNat 0) ⟨8, .poll⟩ rfl
  have spilled : pollMethod.LiveReference pollHistory (Handle.ofNat 0) (.spill 0) :=
    ⟨Handle.ofNat 0, _, rfl, rfl, by decide, rfl⟩
  have saved : pollMethod.LiveReference pollHistory (Handle.ofNat 0)
      (.register ⟨16, .general⟩) := ⟨Handle.ofNat 1, _, rfl, rfl, by decide, rfl⟩
  have held : pollMethod.LiveReference pollHistory (Handle.ofNat 0)
      (.register ⟨3, .general⟩) := ⟨Handle.ofNat 2, _, rfl, rfl, by decide, rfl⟩
  refine ⟨reached, compiled, finished, ⟨entry, found, ?_, ?_, ?_⟩, absent 12 (by decide)⟩
  · obtain ⟨answer, read, exact⟩ := frame 22
    rw [read, exact.mpr (Or.inl ⟨0, spilled, by decide⟩)]
  · obtain ⟨answer, read, exact⟩ := frame 0
    rw [read, exact.mpr (Or.inr ⟨_, saved, rfl⟩)]
  · obtain ⟨answer, read, exact⟩ := registers 3
    rw [read, exact.mpr ⟨_, held, rfl, rfl, rfl⟩]

end StackMaps
