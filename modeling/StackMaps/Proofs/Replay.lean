import StackMaps.Proofs.Stored

/-!
# Replay rebuilds the method

A snapshot keeps the values, safepoints and spill area of a method, and replaying
it goes through the operations again in another order: the spill area first, then
the safepoints, then each value with its location and its liveness. For a coherent
method every one of these operations is accepted and adds exactly what was stored,
so the replay ends with the method itself. The spill area already covers every
slot, so no assignment grows it; a stored location passes the test of an
assignment; and a set of safepoints without zero words at its end is rebuilt by
inserting the numbers that are listed for it.

Every method that a history reaches is coherent, so compiling its snapshot has the
outcome of finishing it.
-/

namespace StackMaps

/-- What a record is stored as. -/
def Record.stored (record : Record) : StoredValue :=
  ⟨record.kind, record.location, record.live.toList.map UInt32.ofNat⟩

/-- What a method is stored as. -/
def Method.stored (method : Method) : Snapshot :=
  ⟨method.name, method.target, method.frameSize, method.values.map Record.stored,
    method.safepoints⟩

namespace Snapshot

variable {method : Method} {record : Record}

/-- The safepoints of a record that fits have numbers of 32 bits. -/
theorem map_toNat_live (fits : method.Fits record) :
    record.stored.live.map UInt32.toNat = record.live.toList := by
  rw [Record.stored, List.map_map]
  refine (List.map_congr_left ?_).trans (List.map_id _)
  intro number member
  exact fits.toNat_ofNat ((record.live.mem_toList number).mp member)

/-- They are the safepoints of the method. -/
theorem present_stored (fits : method.Fits record) {number : UInt32}
    (member : number ∈ record.stored.live) :
    number.toNat < 2 ^ 32 - 1 ∧ number.toNat < method.safepoints.length := by
  have listed : number.toNat ∈ record.live.toList := by
    rw [← map_toNat_live fits]
    exact List.mem_map_of_mem member
  exact fits.present _ ((record.live.mem_toList _).mp listed)

/-- A record that fits is stored, with every safepoint that it lists. -/
theorem ofRecord_eq (fits : method.Fits record) : ofRecord record = .ok record.stored := by
  have indexed : (record.live.toList.map Handle.ofNat : List SafepointId).mapM Handle.index =
      .ok (record.stored.live.map UInt32.toNat) := by
    rw [Checked.mapM_eq_ok _ fun safepoint => safepoint.number.toNat, List.map_map,
      Record.stored, List.map_map]
    · rfl
    · intro safepoint member
      have live := fits.mem_safepoints.mp member
      exact Handle.index_eq_ok.mpr ⟨(fits.present _ live).1, rfl⟩
  rw [ofRecord, fits.safepoints_eq, Checked.ok_bind, indexed, map_toNat_live fits]
  rfl

/-- A coherent method is stored. -/
theorem ofMethod_eq (coherent : method.Coherent) : ofMethod method = .ok method.stored := by
  have values : method.values.mapM ofRecord = .ok (method.values.map Record.stored) :=
    Checked.mapM_eq_ok _ _ _ fun record member => ofRecord_eq (coherent record member)
  rw [ofMethod, values]
  rfl

/-- What a record that fits is stored as stands for the record. -/
theorem record_stored (fits : method.Fits record) : record.stored.record = record := by
  rw [StoredValue.record_eq, map_toNat_live fits, fits.tight.insertAll_toList]
  rfl

/-- The spill area covers the slots of a record that fits. -/
theorem stop_stored_le (fits : method.Fits record) :
    record.stored.stop method.convention ≤ method.frameSize.toNat := by
  rcases StoredValue.stop_eq with none | ⟨offset, located, above, ends⟩
  · rw [none]
    exact Nat.zero_le _
  · obtain ⟨bytes, sized, inside⟩ := fits.covered offset located above
    have whole := (Method.slotBytes_eq_ok.mp sized).2.2
    have spelled := toNat_toUInt32_of_nonneg above
    have kind : record.stored.kind = record.kind := rfl
    rw [kind] at ends
    omega

/-- What a record that fits is stored as is computed without leaving the range. -/
theorem inRange_stored (fits : method.Fits record) :
    record.stored.InRange method.convention method.safepoints.length where
  measured := by
    intro offset located above
    obtain ⟨bytes, sized, _⟩ := fits.covered offset located above
    obtain ⟨width, padded, _⟩ := Method.slotBytes_eq_ok.mp sized
    exact ⟨width, padded,
      Nat.lt_of_le_of_lt (stop_stored_le fits) method.frameSize.toNat_lt⟩
  numbered := by
    intro number member _
    exact (present_stored fits member).1

/-- What a record that fits is stored as is admissible. -/
theorem admissible_stored (fits : method.Fits record) :
    record.stored.Admissible method.convention.catalog method.safepoints.length where
  listed := by
    intro register located
    obtain ⟨bank, inside⟩ := Bool.and_eq_true_iff.mp (fits.owned register located)
    exact ⟨of_decide_eq_true bank, Catalog.contains_iff_mem.mp inside⟩
  known := by
    intro number member
    exact (present_stored fits member).2

/-- A coherent method is the one that its snapshot describes. -/
theorem rebuilt_stored (coherent : method.Coherent) :
    method.stored.rebuilt method.convention = method := by
  have values : (method.values.map Record.stored).map StoredValue.record = method.values := by
    rw [List.map_map]
    refine (List.map_congr_left ?_).trans (List.map_id _)
    intro record member
    exact record_stored (coherent record member)
  have covered : method.stored.spillArea method.convention ≤ method.frameSize.toNat := by
    rw [spillArea_le_iff]
    refine ⟨Nat.le_refl _, ?_⟩
    intro stored member
    obtain ⟨record, present, rfl⟩ := List.mem_map.mp member
    exact stop_stored_le (coherent record present)
  have reserved := (spillArea_le_iff.mp (Nat.le_refl
    (method.stored.spillArea method.convention))).1
  have area : method.stored.spillArea method.convention = method.frameSize.toNat :=
    Nat.le_antisymm covered reserved
  rw [rebuilt, area, UInt32.ofNat_toNat]
  exact congrArg (fun values => { method with values }) values

/-- Replaying the snapshot of a coherent method, on its own convention, rebuilds
the method. -/
theorem replay_stored {generator : Generator} (bound : generator.convention = method.convention)
    (coherent : method.Coherent) (fewValues : method.values.length < 2 ^ 32 - 1) :
    method.stored.replay generator = .ok (method, .ok ()) := by
  have inRange : ∀ stored ∈ method.stored.values,
      stored.InRange generator.convention method.stored.safepoints.length := by
    intro stored member
    obtain ⟨record, present, rfl⟩ := List.mem_map.mp member
    rw [bound]
    exact inRange_stored (coherent record present)
  have met : method.stored.refusal? generator.convention.catalog = none := by
    rw [refusal?_eq_none, bound]
    intro stored member
    obtain ⟨record, present, rfl⟩ := List.mem_map.mp member
    exact admissible_stored (coherent record present)
  have settled := replay_settles method.stored generator
    (by simpa [Method.stored] using fewValues) inRange
  rw [met, bound, rebuilt_stored coherent] at settled
  exact settled.eq_of_none

end Snapshot

/-- Every target has a generator. A method that any history of its operations
reaches is compiled from its snapshot with the outcome of finishing it: the same
compiled method, the same refusal, or the same fault. -/
theorem compile_snapshot_eq_finish (target : Architecture) :
    ∃ generator, Generator.make target.convention = .ok generator ∧
      ∀ (name : String) (actions : List Method.Action) (method : Method),
        (generator.beginMethod name).run actions = .ok method →
        method.values.length < 2 ^ 32 - 1 → method.safepoints.length < 2 ^ 32 - 1 →
        ∃ snapshot, Snapshot.ofMethod method = .ok snapshot ∧
          snapshot.compile = method.finish := by
  obtain ⟨generator, made⟩ : ∃ generator, Generator.make target.convention = .ok generator := by
    cases target <;> exact ⟨_, rfl⟩
  refine ⟨generator, made, ?_⟩
  intro name actions method reached fewValues _
  have convention : method.convention = target.convention :=
    (Method.identity_run reached).1.trans (Generator.convention_of_make made)
  have coherent := Method.coherent_run reached
  have sameTarget : method.stored.target = target := by
    rw [Method.stored, Method.target, convention, target.target_convention]
  have replayed := Snapshot.replay_stored
    ((Generator.convention_of_make made).trans convention.symm) coherent fewValues
  refine ⟨method.stored, Snapshot.ofMethod_eq coherent, ?_⟩
  simp only [Snapshot.compile, sameTarget, made, replayed, Checked.ok_bind]

/-- A history with a refused assignment, a constant, a value without a location, a
spill slot that no value takes, and safepoints that do not ascend. -/
def unorderedHistory : List Method.Action :=
  [.newValue .reference, .constant .int 7, .newValue .reference, .newSpillSlot .double,
    .reserveFrame 24, .addSafepoint 16 .call, .assign (Handle.ofNat 0) (.spill 8),
    .assign (Handle.ofNat 0) (.register ⟨3, .general⟩), .addSafepoint 4 .poll,
    .markLive (Handle.ofNat 0) (Handle.ofNat 1), .markLive (Handle.ofNat 0) (Handle.ofNat 0)]

/-- The snapshot of the method that the history leaves compiles to the same
table. -/
theorem compile_snapshot_eq_finish_unordered :
    ∃ generator method snapshot compiled,
      Generator.make Architecture.amd64.convention = .ok generator ∧
      (generator.beginMethod "unordered").run unorderedHistory = .ok method ∧
      method.finish = .ok (.ok compiled) ∧ Snapshot.ofMethod method = .ok snapshot ∧
      snapshot.compile = .ok (.ok compiled) := by
  obtain ⟨generator, made, alike⟩ := compile_snapshot_eq_finish .amd64
  have bound : generator = ⟨Convention.amd64, .register ⟨0, .general⟩⟩ :=
    Except.ok.inj (made.symm.trans rfl)
  subst bound
  obtain ⟨snapshot, taken, same⟩ := alike "unordered" unorderedHistory _ rfl (by decide) (by decide)
  have compiled := same
  rw [Method.finish_of_maps rfl (by decide) rfl rfl rfl] at compiled
  exact ⟨_, _, snapshot, _, made, rfl, same.symm.trans compiled, taken, compiled⟩

end StackMaps
