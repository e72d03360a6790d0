import StackMaps.Proofs.Growth

/-!
# Slots that do not overlap

A history occupies bytes of the spill area in three ways: a slot is handed out, a value is
assigned a slot at an offset of the caller's choice, or some first bytes are reserved.
They end inside the spill area as it is then, and the area only grows. A fresh slot starts
where the area ends, so it meets none of the bytes occupied before.

The end of the area is read as a signed offset. Below 2³¹ bytes that changes nothing, and
the slot is where its offset says.
-/

namespace StackMaps

/-- A run of bytes of the spill area, up to but without the byte where it stops. -/
structure Extent where
  start : Int
  stop : Int

namespace Extent

instance : Membership Int Extent :=
  ⟨fun extent byte => extent.start ≤ byte ∧ byte < extent.stop⟩

/-- Two extents have no byte in common. -/
def Apart (left right : Extent) : Prop := ∀ byte ∈ left, byte ∉ right

/-- An extent that starts where another one has stopped is apart from it. -/
theorem apart_of_stop_le {left right : Extent} (stopped : right.stop ≤ left.start) :
    left.Apart right := by
  rintro byte ⟨above, _⟩ ⟨_, below⟩
  omega

end Extent

/-- The bytes of a value of a kind at an offset of the spill area, in whole slots. -/
def Convention.slotExtent (convention : Convention) (kind : Kind) (offset : Int32) : Extent :=
  ⟨offset.toInt, offset.toInt + convention.wholeSlots kind⟩

namespace Method

/-- The bytes of the spill area that a history occupies. -/
inductive Occupied (start : Method) (actions : List Action) : Extent → Prop where
  /-- A slot is handed out. -/
  | handed {before after : List Action} {kind : Kind} {earlier next : Method} {offset : Int32}
      (split : actions = before ++ .newSpillSlot kind :: after)
      (ran : start.run before = .ok earlier)
      (slot : earlier.newSpillSlot kind = .ok (next, .spill offset)) :
      Occupied start actions (start.convention.slotExtent kind offset)
  /-- A value is assigned a spill slot at or above the start of the area. -/
  | assigned {method : Method} {record : Record} {offset : Int32}
      (ran : start.run actions = .ok method) (member : record ∈ method.values)
      (located : record.location = .spill offset) (above : 0 ≤ offset) :
      Occupied start actions (start.convention.slotExtent record.kind offset)
  /-- The first bytes are reserved. -/
  | reserved {bytes : UInt32} (asked : .reserveFrame bytes ∈ actions) :
      Occupied start actions ⟨0, bytes.toNat⟩

variable {method next : Method} {kind : Kind}

/-- A slot is handed out at the end of the spill area, and takes some bytes there. -/
theorem newSpillSlot_inv {location : Location}
    (slot : method.newSpillSlot kind = .ok (next, location)) :
    location = .spill method.frameSize.toInt32 ∧
      next.frameSize.toNat = method.frameSize.toNat + method.convention.wholeSlots kind ∧
      0 < method.convention.wholeSlots kind := by
  have performed : method.perform (.newSpillSlot kind) = .ok next :=
    Checked.map_eq_ok.mpr ⟨_, slot, rfl⟩
  have grown := frameSize_newSpillSlot performed
  obtain ⟨bytes, sized, slot⟩ := Checked.bind_eq_ok.mp slot
  obtain ⟨size, _, slot⟩ := Checked.bind_eq_ok.mp slot
  obtain ⟨width, _, whole⟩ := slotBytes_eq_ok.mp sized
  have atLeast := slotSize_le_slotBytes sized
  exact ⟨(congrArg Prod.snd (Except.ok.inj slot)).symm, grown, by omega⟩

/-- The bytes of a slot that is handed out below 2³¹ bytes are those that the spill area
grows by. -/
theorem slotExtent_handed {offset : Int32} (small : method.frameSize.toNat < 2 ^ 31)
    (slot : method.newSpillSlot kind = .ok (next, .spill offset)) :
    method.convention.slotExtent kind offset =
      ⟨method.frameSize.toNat, next.frameSize.toNat⟩ := by
  obtain ⟨location, grown, _⟩ := newSpillSlot_inv slot
  obtain rfl : offset = method.frameSize.toInt32 :=
    congrArg Slot.offset (Location.stack.inj location)
  rw [Convention.slotExtent, toInt_toInt32, if_pos small, grown, Int.natCast_add]

/-- A reserved size is covered from then on: reserving covers it, and every other
operation keeps what is covered. -/
theorem reserved_le_run {start last : Method} {actions : List Action}
    (ran : start.run actions = .ok last) :
    ∀ bytes, Action.reserveFrame bytes ∈ actions → bytes.toNat ≤ last.frameSize.toNat := by
  refine run_induction (fun done method => ∀ bytes, Action.reserveFrame bytes ∈ done →
    bytes.toNat ≤ method.frameSize.toNat) ?_ ran [] (by simp)
  intro done method action next covered effect bytes asked
  rcases List.mem_append.mp asked with earlier | now
  · exact Nat.le_trans (covered bytes earlier) effect.grows.2.2.1
  · obtain rfl := List.mem_singleton.mp now
    cases effect with
    | reserveFrame =>
      rw [reserveFrame, toNat_max]
      exact Nat.le_max_right _ _

/-- A value in a slot at or above the start of the spill area ends inside the area. -/
theorem stop_slotExtent_assigned {name : String} {convention : Convention} {actions : List Action}
    (reached : (begin name convention).run actions = .ok method) {record : Record}
    (member : record ∈ method.values) {offset : Int32} (located : record.location = .spill offset)
    (above : 0 ≤ offset) :
    (convention.slotExtent record.kind offset).stop ≤ method.frameSize.toNat := by
  obtain ⟨bytes, sized, inside⟩ := (coherent_run reached record member).covered offset located above
  have whole := (slotBytes_eq_ok.mp sized).2.2
  have spelled := toNat_toUInt32_of_nonneg above
  rw [(identity_run reached).1] at whole
  change offset.toInt + (convention.wholeSlots record.kind : Int) ≤ method.frameSize.toNat
  omega

/-- What a history occupies stops inside the spill area that it leaves. -/
theorem Occupied.stop_le {name : String} {convention : Convention} {actions : List Action}
    (reached : (begin name convention).run actions = .ok method)
    (small : method.frameSize.toNat < 2 ^ 31) {extent : Extent}
    (occupied : Occupied (begin name convention) actions extent) :
    extent.stop ≤ method.frameSize.toNat := by
  cases occupied with
  | @handed before after kind earlier next offset split ran slot =>
    subst split
    obtain ⟨other, otherRan, rest⟩ := run_append_eq_ok.mp reached
    obtain rfl := Except.ok.inj (ran.symm.trans otherRan)
    obtain ⟨grown, performed, rest⟩ := Checked.bind_eq_ok.mp rest
    have sameNext : next = grown :=
      Except.ok.inj ((Checked.map_eq_ok.mpr ⟨_, slot, rfl⟩).symm.trans performed)
    have later := frameSize_le_run rest
    obtain ⟨_, larger, _⟩ := newSpillSlot_inv slot
    rw [← sameNext] at later
    have bounds := slotExtent_handed (by omega) slot
    rw [(identity_run ran).1] at bounds
    change (convention.slotExtent kind offset).stop ≤ _
    rw [bounds]
    exact Int.ofNat_le.mpr later
  | assigned ran member located above =>
    obtain rfl := Except.ok.inj (ran.symm.trans reached)
    exact stop_slotExtent_assigned reached member located above
  | reserved asked =>
    exact Int.ofNat_le.mpr (reserved_le_run reached _ asked)

end Method

/-- Slots that are handed out do not overlap. As long as the spill area stays below 2³¹
bytes, a fresh slot takes some bytes of the area as it is afterwards, and none that the
history before it occupies: not those of a slot handed out earlier, of a value that was
assigned a spill slot, or of a reservation. -/
theorem fresh_slots_apart {name : String} {convention : Convention}
    {before after : List Method.Action} {kind : Kind} {last : Method}
    (reached : (Method.begin name convention).run (before ++ .newSpillSlot kind :: after) =
      .ok last)
    (small : last.frameSize.toNat < 2 ^ 31) :
    ∃ earlier next offset, (Method.begin name convention).run before = .ok earlier ∧
      earlier.newSpillSlot kind = .ok (next, .spill offset) ∧ next.run after = .ok last ∧
      (∃ byte, byte ∈ convention.slotExtent kind offset) ∧
      (∀ byte ∈ convention.slotExtent kind offset, 0 ≤ byte ∧ byte < next.frameSize.toNat) ∧
      ∀ extent, Method.Occupied (Method.begin name convention) before extent →
        (convention.slotExtent kind offset).Apart extent := by
  obtain ⟨earlier, ran, rest⟩ := Method.run_append_eq_ok.mp reached
  obtain ⟨next, performed, rest⟩ := Checked.bind_eq_ok.mp rest
  obtain ⟨⟨grown, location⟩, slot, same⟩ := Checked.map_eq_ok.mp performed
  obtain rfl : grown = next := same
  obtain ⟨rfl, larger, taken⟩ := Method.newSpillSlot_inv slot
  have later := Method.frameSize_le_run rest
  have bounds := Method.slotExtent_handed (by omega) slot
  rw [(Method.identity_run ran).1] at bounds
  refine ⟨earlier, _, _, ran, slot, rest, ?_, ?_, ?_⟩
  · rw [bounds]
    exact ⟨earlier.frameSize.toNat, Int.le_refl _, Int.ofNat_lt.mpr (by omega)⟩
  · rw [bounds]
    rintro byte ⟨above, below⟩
    exact ⟨Int.le_trans (Int.natCast_nonneg _) above, below⟩
  · intro extent occupied
    rw [bounds]
    exact Extent.apart_of_stop_le (occupied.stop_le ran (by omega))

/-- A history on four-byte slots that occupies bytes in each of the three ways. -/
def crowdedHistory : List Method.Action :=
  [.newValue .double, .reserveFrame 6, .assign (Handle.ofNat 0) (.spill 12), .newSpillSlot .long]

/-- The method that the history leaves. -/
def crowdedMethod : Method where
  name := "crowded"
  convention := Convention.ia32
  values := [⟨.double, .spill 12, .empty⟩]
  safepoints := []
  frameSize := 28

/-- The next slot starts at byte 28, after a reservation of six bytes, a value in the bytes
12 to 20 and a slot in the bytes 20 to 28. -/
theorem fresh_slots_apart_crowded :
    (Method.begin "crowded" Convention.ia32).run crowdedHistory = .ok crowdedMethod ∧
    ∃ next, crowdedMethod.newSpillSlot .reference = .ok (next, .spill 28) ∧
      next.frameSize.toNat < 2 ^ 31 ∧
      (Convention.ia32.slotExtent .reference 28).Apart ⟨0, 6⟩ ∧
      (Convention.ia32.slotExtent .reference 28).Apart (Convention.ia32.slotExtent .double 12) ∧
      (Convention.ia32.slotExtent .reference 28).Apart (Convention.ia32.slotExtent .long 20) := by
  have reached : (Method.begin "crowded" Convention.ia32).run crowdedHistory =
      .ok crowdedMethod := rfl
  have onward : (Method.begin "crowded" Convention.ia32).run
      (crowdedHistory ++ .newSpillSlot .reference :: []) =
        .ok { crowdedMethod with frameSize := 32 } := rfl
  obtain ⟨earlier, next, offset, ran, slot, rest, _, _, apart⟩ :=
    fresh_slots_apart onward (by decide)
  obtain rfl := Except.ok.inj (reached.symm.trans ran)
  obtain rfl := Except.ok.inj rest
  obtain rfl : offset = 28 :=
    congrArg Slot.offset (Location.stack.inj (Method.newSpillSlot_inv slot).1)
  have reserves : Method.Action.reserveFrame 6 ∈ crowdedHistory := by decide
  have holds : (⟨.double, .spill 12, .empty⟩ : Record) ∈ crowdedMethod.values :=
    List.mem_singleton.mpr rfl
  have located : (⟨.double, .spill 12, .empty⟩ : Record).location = .spill 12 := rfl
  have above : (0 : Int32) ≤ 12 := by decide
  have hands : crowdedHistory = crowdedHistory.take 3 ++ .newSpillSlot .long :: [] := rfl
  have handing : (Method.begin "crowded" Convention.ia32).run (crowdedHistory.take 3) =
      .ok { crowdedMethod with frameSize := 20 } := rfl
  have first : Method.newSpillSlot { crowdedMethod with frameSize := 20 } .long =
      .ok (crowdedMethod, .spill 20) := rfl
  have pastReservation := apart _ (.reserved reserves)
  have pastValue := apart _ (.assigned reached holds located above)
  have pastSlot := apart _ (.handed hands handing first)
  exact ⟨reached, _, slot, by decide, pastReservation, pastValue, pastSlot⟩

end StackMaps
