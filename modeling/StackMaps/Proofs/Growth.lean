import StackMaps.Convention.Targets
import StackMaps.Proofs.Histories

/-!
# The spill area along a history

A value takes its size rounded up to whole slots. The checked steps that round it
compute the least multiple of the slot width that holds the value, and they
complete whenever the slots have some width and the padded size is below 2³² bytes.

The spill area only grows, whatever the operations are. So what it covered once it
covers to the end: every slot that a value was assigned, and every slot that was
handed out, also one that no value ever took.
-/

namespace StackMaps

/-- A signed offset at or above zero is the number that its bits spell. -/
theorem toNat_toUInt32_of_nonneg {offset : Int32} (above : 0 ≤ offset) :
    (offset.toUInt32.toNat : Int) = offset.toInt := by
  have nonnegative : 0 ≤ offset.toBitVec.toInt := Int32.le_iff_toInt_le.mp above
  have small : offset.toBitVec.toNat < 2 ^ 32 := offset.toBitVec.isLt
  have spelled : (offset.toBitVec.toNat : Int) = offset.toBitVec.toInt := by
    rw [BitVec.toInt_eq_toNat_cond] at nonnegative ⊢
    split at nonnegative
    · rw [if_pos (by assumption)]
    · omega
  exact spelled

/-- A size read as an offset wraps from half of the range on. -/
theorem toInt_toInt32 (size : UInt32) :
    size.toInt32.toInt =
      if size.toNat < 2 ^ 31 then (size.toNat : Int)
      else (size.toNat : Int) - (2 ^ 32 : Nat) := by
  have spelled : size.toInt32.toInt = size.toBitVec.toInt := rfl
  rw [spelled, BitVec.toInt_eq_toNat_cond]
  have same : size.toBitVec.toNat = size.toNat := rfl
  rw [same]
  split <;> split <;> omega

namespace Convention

variable {convention : Convention} {kind : Kind}

/-- The bytes of a value of a kind on the convention's target. -/
def valueSize (convention : Convention) (kind : Kind) : Nat :=
  (kind.size convention.target.wordSize).toNat

/-- The bytes of a value of a kind in whole slots: its size rounded up. -/
def wholeSlots (convention : Convention) (kind : Kind) : Nat :=
  (convention.valueSize kind + (convention.slotSize.toNat - 1)) / convention.slotSize.toNat *
    convention.slotSize.toNat

/-- Every value has some bytes. -/
theorem valueSize_pos (convention : Convention) (kind : Kind) : 0 < convention.valueSize kind := by
  unfold valueSize
  cases convention.target <;> cases kind <;> decide

/-- Whole slots are the least multiple of the slot width that holds the value. -/
theorem wholeSlots_least (width : 0 < convention.slotSize.toNat) :
    convention.slotSize.toNat ∣ convention.wholeSlots kind ∧
    convention.valueSize kind ≤ convention.wholeSlots kind ∧
    ∀ bytes, convention.slotSize.toNat ∣ bytes → convention.valueSize kind ≤ bytes →
      convention.wholeSlots kind ≤ bytes := by
  refine ⟨Nat.dvd_mul_left _ _, ?_, ?_⟩
  · have split := Nat.div_add_mod (convention.valueSize kind + (convention.slotSize.toNat - 1))
      convention.slotSize.toNat
    have rest := Nat.mod_lt (convention.valueSize kind + (convention.slotSize.toNat - 1)) width
    rw [Nat.mul_comm] at split
    unfold wholeSlots
    omega
  · rintro bytes ⟨slots, rfl⟩ holds
    rw [wholeSlots, Nat.mul_comm _ slots]
    apply Nat.mul_le_mul_right
    rw [← Nat.lt_succ_iff, Nat.div_lt_iff_lt_mul width, Nat.succ_mul, Nat.mul_comm slots]
    omega

/-- Dividing the padded size by the slot width and multiplying back rounds the
size up. The product is at most the padded size, so it does not wrap. -/
theorem toNat_rounded {padded : UInt32} (width : 0 < convention.slotSize.toNat)
    (sum : padded.toNat = convention.valueSize kind + convention.slotSize.toNat) :
    ((padded - 1) / convention.slotSize * convention.slotSize).toNat =
      convention.wholeSlots kind := by
  have below : (padded - 1).toNat =
      convention.valueSize kind + (convention.slotSize.toNat - 1) := by
    have atLeast : (1 : UInt32) ≤ padded := by
      rw [UInt32.le_iff_toNat_le, sum]
      exact Nat.le_add_left_of_le width
    rw [UInt32.toNat_sub_of_le padded 1 atLeast, sum]
    exact Nat.add_sub_assoc width _
  have whole := Nat.div_mul_le_self (padded - 1).toNat convention.slotSize.toNat
  have small : (padded - 1).toNat < 2 ^ 32 := (padded - 1).toNat_lt
  rw [UInt32.toNat_mul, UInt32.toNat_div, Nat.mod_eq_of_lt (by omega), below, wholeSlots]

end Convention

namespace Catalog

variable {catalog : Catalog}

/-- In a dense bank, the register at a position has that position as its encoding. -/
theorem Dense.code_eq {bank : Bank} {registers : List Register} {names : List String}
    (dense : Dense bank registers names) {position : Nat} {register : Register}
    (stored : registers[position]? = some register) :
    register.code.toNat = position ∧ register.bank = bank :=
  dense.2 (register, position) (List.mk_mem_zipIdx_iff_getElem?.mpr stored)

/-- Both banks of a catalog are dense. -/
theorem dense (catalog : Catalog) (bank : Bank) :
    Dense bank (catalog.registers bank) (catalog.names bank) := by
  cases bank with
  | general => exact catalog.wellFormed.1
  | floating => exact catalog.wellFormed.2

/-- The bound on the encoding is enough: a register that passes it is listed. -/
theorem contains_iff_mem {register : Register} :
    catalog.contains register = true ↔ register ∈ catalog.registers register.bank := by
  have listed := catalog.dense register.bank
  rw [contains, decide_eq_true_eq]
  constructor
  · intro inside
    have stored := List.getElem?_eq_getElem inside
    obtain ⟨code, bank⟩ := listed.code_eq stored
    have same : (catalog.registers register.bank)[register.code.toNat] = register := by
      cases found : (catalog.registers register.bank)[register.code.toNat] with
      | mk otherCode otherBank =>
        rw [found] at code bank
        obtain rfl : otherCode = register.code := UInt8.toNat_inj.mp code
        obtain rfl : otherBank = register.bank := bank
        rfl
    rw [same] at stored
    exact List.mem_of_getElem? stored
  · intro member
    obtain ⟨position, stored⟩ := List.getElem?_of_mem member
    rw [(listed.code_eq stored).1]
    exact (List.getElem?_eq_some_iff.mp stored).1

end Catalog

/-- A register is owned in a bank exactly when it is of that bank and the target lists it
there. -/
theorem Convention.owns_iff {convention : Convention} {bank : Bank} {register : Register} :
    convention.owns bank register = true ↔
      register.bank = bank ∧ register ∈ convention.catalog.registers bank := by
  rw [owns, Bool.and_eq_true, decide_eq_true_eq, Catalog.contains_iff_mem]
  exact and_congr_right fun home => by rw [home]

/-- A register can hold a reference exactly when the target lists it among its
general-purpose registers. -/
theorem Convention.owns_general_iff_mem {convention : Convention} {register : Register} :
    convention.owns .general register = true ↔
      register ∈ convention.catalog.registers .general := by
  rw [owns_iff]
  refine and_iff_right_of_imp fun listed => ?_
  obtain ⟨position, stored⟩ := List.getElem?_of_mem listed
  exact ((convention.catalog.dense .general).code_eq stored).2

namespace Method

variable {method next : Method}

/-- The checked bytes of a value are its whole slots. They come out exactly when
slots have some width and the padded size is in range. -/
theorem slotBytes_eq_ok {kind : Kind} {bytes : UInt32} :
    method.slotBytes kind = .ok bytes ↔
      0 < method.convention.slotSize.toNat ∧
      method.convention.valueSize kind + method.convention.slotSize.toNat < 2 ^ 32 ∧
      bytes.toNat = method.convention.wholeSlots kind := by
  have nonzero : method.convention.slotSize ≠ 0 ↔ 0 < method.convention.slotSize.toNat := by
    rw [Nat.pos_iff_ne_zero, ne_eq, ne_eq, ← UInt32.toNat_inj]
    rfl
  constructor
  · intro sized
    obtain ⟨padded, added, sized⟩ := Checked.bind_eq_ok.mp sized
    obtain ⟨slots, divided, sized⟩ := Checked.bind_eq_ok.mp sized
    obtain ⟨divisor, rfl⟩ := Checked.divide_eq_ok.mp divided
    obtain ⟨inside, sum⟩ := Checked.add_eq_ok.mp added
    cases sized
    exact ⟨nonzero.mp divisor, inside, Convention.toNat_rounded (nonzero.mp divisor) sum⟩
  · rintro ⟨width, inside, same⟩
    have added : Checked.add (kind.size method.target.wordSize) method.convention.slotSize =
        .ok (kind.size method.target.wordSize + method.convention.slotSize) := by
      exact if_pos inside
    have divided : ∀ left, Checked.divide left method.convention.slotSize =
        .ok (left / method.convention.slotSize) := by
      intro left
      exact Checked.divide_eq_ok.mpr ⟨nonzero.mpr width, rfl⟩
    have value := Convention.toNat_rounded width (Checked.add_eq_ok.mp added).2
    simp only [slotBytes, added, Checked.ok_bind, divided, Checked.pure_eq_ok, Except.ok.injEq]
    exact UInt32.toNat_inj.mp (value.trans same.symm)

/-- A value takes at least one slot. -/
theorem slotSize_le_slotBytes {kind : Kind} {bytes : UInt32}
    (sized : method.slotBytes kind = .ok bytes) :
    method.convention.slotSize.toNat ≤ bytes.toNat := by
  obtain ⟨width, _, same⟩ := slotBytes_eq_ok.mp sized
  obtain ⟨whole, holds, _⟩ := Convention.wholeSlots_least width
  have someBytes := method.convention.valueSize_pos kind
  rw [same]
  exact Nat.le_of_dvd (Nat.lt_of_lt_of_le someBytes holds) whole

/-- A history falls into parts: the method that the first part leaves is where the
second begins. -/
theorem run_append (start : Method) (before after : List Action) :
    start.run (before ++ after) = start.run before >>= fun method => method.run after := by
  induction before generalizing start with
  | nil => rfl
  | cons action rest induction =>
    simp only [List.cons_append, run, induction]
    cases start.perform action <;> rfl

/-- The parts of a history that completes complete. -/
theorem run_append_eq_ok {start last : Method} {before after : List Action} :
    start.run (before ++ after) = .ok last ↔
      ∃ method, start.run before = .ok method ∧ method.run after = .ok last := by
  rw [run_append, Checked.bind_eq_ok]

/-- The spill area at the end of a history is no smaller than at its start. -/
theorem frameSize_le_run {start last : Method} {actions : List Action}
    (ran : start.run actions = .ok last) : start.frameSize.toNat ≤ last.frameSize.toNat := by
  refine run_induction (fun _ method => start.frameSize.toNat ≤ method.frameSize.toNat) ?_ ran []
    (Nat.le_refl _)
  intro done method action next larger effect
  exact Nat.le_trans larger effect.grows.2.2.1

/-- A slot that is handed out takes its bytes from the end of the spill area. -/
theorem frameSize_newSpillSlot {kind : Kind}
    (performed : method.perform (.newSpillSlot kind) = .ok next) :
    next.frameSize.toNat = method.frameSize.toNat + method.convention.wholeSlots kind := by
  cases perform_effect performed with
  | newSpillSlot sized grown =>
    rw [← (slotBytes_eq_ok.mp sized).2.2]
    exact (Checked.add_eq_ok.mp grown).2

end Method

/-- Whatever operations a history consists of, the method it reaches is in order.
A register that holds a value is listed in the target's catalog and is of the bank
of the value's kind. A value in a spill slot at or above the start of the spill
area lies inside it with all its slots. A value is live at safepoints of the method
only. The spill area still covers every slot that was handed out, from where it
ended then, and was never larger than it was later. -/
theorem reached_method_in_order {name : String} {convention : Convention}
    {actions : List Method.Action} {method : Method}
    (reached : (Method.begin name convention).run actions = .ok method) :
    (∀ record ∈ method.values,
      (∀ register, record.location = .register register →
        register.bank = record.kind.bank ∧
          register ∈ convention.target.catalog.registers record.kind.bank) ∧
      (∀ offset, record.location = .spill offset → 0 ≤ offset →
        offset.toInt + convention.wholeSlots record.kind ≤ method.frameSize.toNat) ∧
      ∀ number, record.live.contains number = true → number < method.safepoints.length) ∧
    (∀ before kind after, actions = before ++ .newSpillSlot kind :: after →
      ∃ earlier, (Method.begin name convention).run before = .ok earlier ∧
        earlier.frameSize.toNat + convention.wholeSlots kind ≤ method.frameSize.toNat) ∧
    ∀ before between after, actions = before ++ (between ++ after) →
      ∃ earlier later, (Method.begin name convention).run before = .ok earlier ∧
        (Method.begin name convention).run (before ++ between) = .ok later ∧
        earlier.frameSize.toNat ≤ later.frameSize.toNat ∧
        later.frameSize.toNat ≤ method.frameSize.toNat := by
  obtain ⟨rfl, _⟩ := Method.identity_run reached
  refine ⟨?_, ?_, ?_⟩
  · intro record member
    have fits := Method.coherent_run reached record member
    refine ⟨?_, ?_, fun number live => (fits.present number live).2⟩
    · intro register located
      obtain ⟨bank, inside⟩ := Bool.and_eq_true_iff.mp (fits.owned register located)
      have same : register.bank = record.kind.bank := of_decide_eq_true bank
      exact ⟨same, same ▸ Catalog.contains_iff_mem.mp inside⟩
    · intro offset located above
      obtain ⟨bytes, sized, inside⟩ := fits.covered offset located above
      have spelled := toNat_toUInt32_of_nonneg above
      have whole := (Method.slotBytes_eq_ok.mp sized).2.2
      omega
  · rintro before kind after rfl
    obtain ⟨earlier, ran, rest⟩ := Method.run_append_eq_ok.mp reached
    obtain ⟨next, performed, rest⟩ := Checked.bind_eq_ok.mp rest
    refine ⟨earlier, ran, ?_⟩
    have same := (Method.identity_run ran).1
    have grown := Method.frameSize_newSpillSlot performed
    have kept := Method.frameSize_le_run rest
    rw [same] at grown
    omega
  · rintro before between after rfl
    obtain ⟨earlier, ran, rest⟩ := Method.run_append_eq_ok.mp reached
    obtain ⟨later, onward, rest⟩ := Method.run_append_eq_ok.mp rest
    exact ⟨earlier, later, ran, Method.run_append_eq_ok.mpr ⟨earlier, ran, onward⟩,
      Method.frameSize_le_run onward, Method.frameSize_le_run rest⟩

/-- A history on four-byte slots: an eight-byte slot that no value takes, a value
spilled past it, a register, a refused assignment, and room asked for in vain. -/
def mixedHistory : List Method.Action :=
  [.newValue .double, .newValue .reference, .addSafepoint 8 .call, .newSpillSlot .long,
    .assign (Handle.ofNat 0) (.spill 12), .assign (Handle.ofNat 1) (.register ⟨3, .general⟩),
    .assign (Handle.ofNat 1) (.spill 64), .reserveFrame 4,
    .markLive (Handle.ofNat 1) (Handle.ofNat 0)]

/-- The spilled value ends with the spill area, the slot that was handed out is
inside it, and the register is listed. -/
theorem reached_method_in_order_mixed :
    ∃ method, (Method.begin "mixed" Convention.ia32).run mixedHistory = .ok method ∧
      (∃ record ∈ method.values, record.location = .spill 12 ∧
        (12 : Int32).toInt + Convention.ia32.wholeSlots record.kind ≤ method.frameSize.toNat) ∧
      (∃ record ∈ method.values, record.location = .register ⟨3, .general⟩ ∧
        ⟨3, .general⟩ ∈ Catalog.ia32.registers record.kind.bank) ∧
      ∃ earlier, (Method.begin "mixed" Convention.ia32).run (mixedHistory.take 3) = .ok earlier ∧
        earlier.frameSize.toNat + Convention.ia32.wholeSlots .long ≤ method.frameSize.toNat := by
  obtain ⟨inOrder, handedOut, _⟩ := reached_method_in_order
    (rfl : (Method.begin "mixed" Convention.ia32).run mixedHistory = .ok _)
  refine ⟨_, rfl, ?_, ?_, handedOut (mixedHistory.take 3) .long (mixedHistory.drop 4) rfl⟩
  · exact ⟨_, .head _, rfl, (inOrder _ (.head _)).2.1 12 rfl (by decide)⟩
  · exact ⟨_, .tail _ (.head _), rfl, ((inOrder _ (.tail _ (.head _))).1 ⟨3, .general⟩ rfl).2⟩

end StackMaps
