import StackMaps.ReferenceMap
import StackMaps.Proofs.Steps

/-!
# The bit of a location

A map reports a reference through one bit, which depends on the location alone:
the slot of a spill, the save word of a register, or the register's encoding. Two
relations describe this without the order of tests in which it is found out,
`Placed` for the locations a map can describe and `Unplaced` for the others with
their rejection. Every location is in exactly one of them, and the bit that is
looked for is the one they give.

Looking for it completes. A register that a target owns has a place among the 64,
so its save word and its survival can be asked for, and a 32-bit offset above a
32-bit reserved area stays far inside 64 bits.
-/

namespace StackMaps

/-! ## Registers of a target -/

/-- No target has more than 32 registers in a bank. -/
theorem Architecture.length_registers_le (target : Architecture) (bank : Bank) :
    (target.catalog.registers bank).length ≤ 32 := by
  cases target <;>
    simp [Architecture.catalog, Catalog.amd64, Catalog.aarch64, Catalog.ia32, Catalog.sparcv9,
      Catalog.firstRegisters]

/-- The index of a general-purpose register is its encoding. -/
theorem Register.index_of_general {register : Register} (general : register.bank = .general) :
    register.index = register.code.toNat := by
  simp [Register.index, general, Bank.rank]

namespace Convention

variable {convention : Convention} {register : Register}

/-- A register is owned for references exactly when it is a general-purpose
register of the target. -/
theorem owns_general : convention.owns .general register = true ↔
    register.bank = .general ∧ register.code.toNat < convention.catalog.referenceCount := by
  simp only [owns, Catalog.contains, Catalog.referenceCount, Bool.and_eq_true, decide_eq_true_eq]
  constructor
  · rintro ⟨general, inside⟩
    exact ⟨general, general ▸ inside⟩
  · rintro ⟨general, inside⟩
    exact ⟨general, general.symm ▸ inside⟩

/-- A register that the target owns has a place. -/
theorem index_of_owns (owned : convention.owns .general register = true) :
    register.index < Register.places := by
  obtain ⟨general, inside⟩ := owns_general.mp owned
  have few : convention.catalog.referenceCount ≤ 32 :=
    convention.target.length_registers_le .general
  rw [Register.index_of_general general, Register.places]
  omega

/-- Whether an owned register survives a call is always answered. -/
theorem survivesCall_of_owns (owned : convention.owns .general register = true) :
    convention.survivesCall register = .ok (convention.preserved.has register) := by
  rw [survivesCall, RegisterSet.contains, RegisterSet.requireBit, if_pos (index_of_owns owned)]

/-- The save word of an owned register is always answered. -/
theorem saveWord_of_owns (owned : convention.owns .general register = true) :
    convention.saveWord register = .ok (convention.saveWord? register) := by
  have placed : register.place? = some ⟨register.index, index_of_owns owned⟩ := by
    rw [Register.place?, dif_pos (index_of_owns owned)]
  simp only [saveWord, saveWord?, placed, Option.bind_some]

/-- The catalog index of an owned register is its encoding. -/
theorem indexOf_of_owns (owned : convention.owns .general register = true) :
    convention.catalog.indexOf register = .ok register.code.toNat := by
  have member : convention.catalog.contains register = true := by
    simp only [owns, Bool.and_eq_true] at owned
    exact owned.2
  rw [Catalog.indexOf, if_pos member]

/-- A running maximum is at least its start and everything it met. -/
theorem le_foldl_max (numbers : List Nat) (start : Nat) :
    start ≤ numbers.foldl max start ∧ ∀ number ∈ numbers, number ≤ numbers.foldl max start := by
  induction numbers generalizing start with
  | nil => simp
  | cons first rest induction =>
    obtain ⟨startBelow, restBelow⟩ := induction (max start first)
    simp only [List.foldl_cons]
    refine ⟨by omega, ?_⟩
    intro number member
    rcases List.mem_cons.mp member with rfl | later
    · omega
    · exact restBelow number later

/-- Every save word lies inside the space of save words. -/
theorem saveWord?_lt {word : Nat} (saved : convention.saveWord? register = some word) :
    word < convention.saveSpace := by
  obtain ⟨place, _, bound⟩ := Option.bind_eq_some_iff.mp saved
  obtain ⟨stored, held, rfl⟩ := Option.map_eq_some_iff.mp bound
  have counted : stored.toNat + 1 ∈ (List.finRange Register.places).filterMap fun place =>
      (convention.saveWords place).map fun word => word.toNat + 1 := by
    rw [List.mem_filterMap]
    exact ⟨place, List.mem_finRange place, by rw [held, Option.map_some]⟩
  exact (le_foldl_max _ 0).2 _ counted

end Convention

/-! ## Placements -/

namespace MapBuilder

variable {builder : MapBuilder}

/-- Bytes of a frame between its bottom and the start of a spill slot. -/
def startOf (builder : MapBuilder) (offset : Int32) : Int :=
  offset.toInt + builder.convention.reserved.toNat

/-- The locations that have a bit, or need none, and the bit. -/
inductive Placed (builder : MapBuilder) : Location → Option Placement → Prop where
  /-- A parameter is the caller's to report. -/
  | parameter (offset : Int32) : Placed builder (.stack ⟨offset, .parameter⟩) none
  /-- A spill slot that is a slot of the frame is reported there. -/
  | slot (offset : Int32) (bit : Nat)
      (starts : builder.startOf offset = bit * builder.layout.width.toNat)
      (inside : bit < builder.frameBits) :
      Placed builder (.stack ⟨offset, .spill⟩) (some (.frame bit))
  /-- A register with a save word is reported there. -/
  | saved (register : Register) (word : Nat)
      (owned : builder.convention.owns .general register = true)
      (found : builder.convention.saveWord? register = some word) :
      Placed builder (.register register) (some (.frame word))
  /-- A register without one is reported under its encoding. -/
  | held (register : Register)
      (owned : builder.convention.owns .general register = true)
      (unsaved : builder.convention.saveWord? register = none) :
      Placed builder (.register register) (some (.register register.code.toNat))

/-- The locations that no map can describe, and how they are rejected. -/
inductive Unplaced (builder : MapBuilder) (value : ValueId) : Location → Rejection → Prop where
  | unassigned : Unplaced builder value .unassigned (.unassigned value)
  | immediate (bits : Int64) : Unplaced builder value (.immediate bits) (.immediate value bits)
  | foreign (register : Register)
      (unowned : builder.convention.owns .general register = false) :
      Unplaced builder value (.register register) (.foreignRegister value register)
  /-- The slot starts between two slots of the frame. -/
  | misaligned (offset : Int32)
      (uneven : ¬ (builder.layout.width.toNat : Int) ∣ builder.startOf offset) :
      Unplaced builder value (.stack ⟨offset, .spill⟩) (.misaligned value ⟨offset, .spill⟩)
  /-- The slot starts below the frame or ends above it. -/
  | outside (offset : Int32)
      (even : (builder.layout.width.toNat : Int) ∣ builder.startOf offset)
      (beyond : builder.startOf offset < 0 ∨
        (builder.layout.size.toNat : Int) < offset.toInt + builder.layout.width.toNat) :
      Unplaced builder value (.stack ⟨offset, .spill⟩)
        (.outOfFrame value ⟨offset, .spill⟩
          (builder.startOf offset / builder.layout.width.toNat) builder.frameBits)

/-- An aligned slot is a slot of the frame exactly when it starts at or above the
bottom and ends at or below the top. The last slot of the frame may be cut off by
the frame's end, and then is none. -/
theorem inside_iff (builder : MapBuilder) (offset : Int32)
    (even : (builder.layout.width.toNat : Int) ∣ builder.startOf offset) :
    (builder.startOf offset / builder.layout.width.toNat < 0 ∨
      (builder.frameBits : Int) ≤ builder.startOf offset / builder.layout.width.toNat) ↔
    (builder.startOf offset < 0 ∨
      (builder.layout.size.toNat : Int) < offset.toInt + builder.layout.width.toNat) := by
  have positive : (0 : Int) < builder.layout.width.toNat := by
    exact_mod_cast builder.layout.width_pos
  obtain ⟨quotient, whole⟩ := even
  have exact : builder.startOf offset / builder.layout.width.toNat = quotient := by
    rw [whole, Int.mul_ediv_cancel_left _ (by omega)]
  have negative : quotient < 0 ↔ builder.startOf offset < 0 := by
    rw [whole]
    constructor
    · intro low
      exact Int.mul_neg_of_pos_of_neg positive low
    · intro low
      exact Int.neg_of_mul_neg_right low (by omega)
  have top : (builder.frameBits : Int) ≤ quotient ↔
      (builder.layout.size.toNat : Int) < offset.toInt + builder.layout.width.toNat := by
    have bits : (builder.frameBits : Int) =
        (builder.convention.reserved.toNat + builder.layout.size.toNat : Int) /
          builder.layout.width.toNat := by
      simp [frameBits]
    have ends : offset.toInt + builder.layout.width.toNat =
        (quotient + 1) * builder.layout.width.toNat - builder.convention.reserved.toNat := by
      have start : offset.toInt = builder.startOf offset - builder.convention.reserved.toNat := by
        simp [startOf]
      rw [start, whole, Int.add_mul, Int.one_mul, Int.mul_comm quotient]
      omega
    rw [bits, ends, ← Int.lt_add_one_iff, Int.ediv_lt_iff_lt_mul positive]
    omega
  rw [exact, negative, top]

/-- A sum of a 32-bit offset and the reserved bytes stays inside 64 bits. -/
theorem addSigned_eq (builder : MapBuilder) (offset : Int32) :
    Checked.addSigned offset.toInt builder.convention.reserved.toNat =
      .ok (builder.startOf offset) := by
  have above : -2 ^ 31 ≤ offset.toInt := Int32.le_toInt offset
  have below : offset.toInt < 2 ^ 31 := Int32.toInt_lt offset
  have small : builder.convention.reserved.toNat < 2 ^ 32 := UInt32.toNat_lt _
  have lowest : Int64.minValue.toInt = -2 ^ 63 := rfl
  have highest : Int64.maxValue.toInt = 2 ^ 63 - 1 := rfl
  rw [Checked.addSigned, lowest, highest, if_pos ⟨by omega, by omega⟩, startOf]

/-- Finding the bit of a location never faults. -/
theorem placeChecked_eq (builder : MapBuilder) (value : ValueId) (location : Location) :
    builder.placeChecked value location = .ok (builder.place value location) := by
  cases location with
  | stack slot =>
    obtain ⟨offset, purpose⟩ := slot
    cases purpose with
    | parameter => rfl
    | spill =>
      simp only [placeChecked, addSigned_eq, Checked.ok_bind, Checked.pure_eq_ok]
      rfl
  | register register =>
    by_cases owned : builder.convention.owns .general register = true
    · simp only [placeChecked, place, owned, if_true, Convention.saveWord_of_owns owned,
        Checked.ok_bind, Convention.indexOf_of_owns owned]
      cases builder.convention.saveWord? register <;> rfl
    · simp only [placeChecked, place, owned]
      rfl
  | immediate bits => rfl
  | unassigned => rfl

/-- Every location is either placed or rejected, as the two descriptions say. -/
theorem place_spec (builder : MapBuilder) (value : ValueId) (location : Location) :
    (∃ placement, builder.place value location = .ok placement ∧
      builder.Placed location placement) ∨
    ∃ rejection, builder.place value location = .error rejection ∧
      builder.Unplaced value location rejection := by
  cases location with
  | stack slot =>
    obtain ⟨offset, purpose⟩ := slot
    cases purpose with
    | parameter => exact .inl ⟨none, rfl, .parameter offset⟩
    | spill =>
      have positive : (0 : Int) < builder.layout.width.toNat := by
        exact_mod_cast builder.layout.width_pos
      have unfolded : builder.place value (.stack ⟨offset, .spill⟩) =
          (builder.bitFrom value ⟨offset, .spill⟩ (builder.startOf offset)).map
            fun bit => some (.frame bit) := rfl
      rw [unfolded, bitFrom]
      by_cases even : (builder.layout.width.toNat : Int) ∣ builder.startOf offset
      · have aligned := Int.emod_eq_zero_of_dvd even
        by_cases beyond : builder.startOf offset / builder.layout.width.toNat < 0 ∨
            (builder.frameBits : Int) ≤ builder.startOf offset / builder.layout.width.toNat
        · refine .inr ⟨_, ?_, .outside offset even ((inside_iff builder offset even).mp beyond)⟩
          simp only [aligned, ne_eq, not_true_eq_false, if_false, if_pos beyond]
          rfl
        · refine .inl ⟨_, ?_, .slot offset
            (builder.startOf offset / builder.layout.width.toNat).toNat ?_ (by omega)⟩
          · simp only [aligned, ne_eq, not_true_eq_false, if_false, if_neg beyond]
            rfl
          · rw [Int.toNat_of_nonneg (by omega), Int.ediv_mul_cancel even]
      · have unaligned : builder.startOf offset % builder.layout.width.toNat ≠ 0 := by
          intro zero
          exact even (Int.dvd_of_emod_eq_zero zero)
        refine .inr ⟨_, ?_, .misaligned offset even⟩
        simp only [unaligned, ne_eq, not_false_eq_true, if_true]
        rfl
  | register register =>
    cases owned : builder.convention.owns .general register with
    | true =>
      cases found : builder.convention.saveWord? register with
      | some word =>
        exact .inl ⟨_, by simp [place, owned, found], .saved register word owned found⟩
      | none => exact .inl ⟨_, by simp [place, owned, found], .held register owned found⟩
    | false => exact .inr ⟨_, by simp [place, owned], .foreign register owned⟩
  | immediate bits => exact .inr ⟨_, rfl, .immediate bits⟩
  | unassigned => exact .inr ⟨_, rfl, .unassigned⟩

/-- A location is placed in one way. -/
theorem Placed.unique {location : Location} {left right : Option Placement}
    (first : builder.Placed location left) (second : builder.Placed location right) :
    left = right := by
  have positive : (builder.layout.width.toNat : Int) ≠ 0 := by
    have width := builder.layout.width_pos
    omega
  cases first with
  | parameter offset => cases second; rfl
  | slot offset bit starts inside =>
    cases second with
    | slot _ other otherStarts _ =>
      have same : (bit : Int) = other :=
        Int.eq_of_mul_eq_mul_right positive (starts.symm.trans otherStarts)
      rw [Int.ofNat_inj.mp same]
  | saved register word owned found =>
    cases second with
    | saved _ other _ otherFound => rw [Option.some.inj (found.symm.trans otherFound)]
    | held _ _ unsaved => simp [found] at unsaved
  | held register owned unsaved =>
    cases second with
    | saved _ other _ otherFound => simp [unsaved] at otherFound
    | held _ _ _ => rfl

/-- No location is both placed and rejected. -/
theorem Placed.not_unplaced {location : Location} {placement : Option Placement}
    {value : ValueId} {rejection : Rejection} (placed : builder.Placed location placement)
    (unplaced : builder.Unplaced value location rejection) : False := by
  cases placed with
  | parameter offset => cases unplaced
  | slot offset bit starts inside =>
    cases unplaced with
    | misaligned _ uneven => exact uneven ⟨bit, by rw [starts, Int.mul_comm]⟩
    | outside _ even beyond =>
      have quotient : builder.startOf offset / builder.layout.width.toNat = bit := by
        have width := builder.layout.width_pos
        rw [starts, Int.mul_ediv_cancel _ (by omega)]
      have out := (inside_iff builder offset even).mpr beyond
      omega
  | saved register word owned found =>
    cases unplaced with
    | foreign _ unowned => simp [owned] at unowned
  | held register owned unsaved =>
    cases unplaced with
    | foreign _ unowned => simp [owned] at unowned

/-- A location is rejected in one way. -/
theorem Unplaced.unique {location : Location} {value : ValueId} {left right : Rejection}
    (first : builder.Unplaced value location left)
    (second : builder.Unplaced value location right) : left = right := by
  cases first with
  | unassigned => cases second; rfl
  | immediate bits => cases second; rfl
  | foreign register unowned => cases second; rfl
  | misaligned offset uneven =>
    cases second with
    | misaligned _ _ => rfl
    | outside _ even _ => exact absurd even uneven
  | outside offset even beyond =>
    cases second with
    | misaligned _ uneven => exact absurd even uneven
    | outside _ _ _ => rfl

/-- The bit that is found is the one the location has. -/
theorem place_eq_ok {value : ValueId} {location : Location} {placement : Option Placement} :
    builder.place value location = .ok placement ↔ builder.Placed location placement := by
  rcases place_spec builder value location with ⟨found, same, placed⟩ | ⟨_, same, unplaced⟩
  · rw [same, Except.ok.injEq]
    constructor
    · rintro rfl
      exact placed
    · exact placed.unique
  · rw [same]
    constructor
    · intro impossible
      cases impossible
    · intro placed
      exact (placed.not_unplaced unplaced).elim

/-- The rejection that is made is the one the location calls for. -/
theorem place_eq_error {value : ValueId} {location : Location} {rejection : Rejection} :
    builder.place value location = .error rejection ↔
      builder.Unplaced value location rejection := by
  rcases place_spec builder value location with ⟨_, same, placed⟩ | ⟨found, same, unplaced⟩
  · rw [same]
    constructor
    · intro impossible
      cases impossible
    · intro unplaced
      exact (placed.not_unplaced unplaced).elim
  · rw [same, Except.error.injEq]
    constructor
    · rintro rfl
      exact unplaced
    · exact unplaced.unique

/-- A rejection names the value whose location it rejects. -/
theorem Unplaced.value_eq {location : Location} {value : ValueId} {rejection : Rejection}
    (unplaced : builder.Unplaced value location rejection) : rejection.value = value := by
  cases unplaced <;> rfl

/-- A register bit is that of an owned register without a save word. -/
theorem Placed.register_inv {location : Location} {bit : Nat}
    (placed : builder.Placed location (some (.register bit))) :
    ∃ register, location = .register register ∧ register.code.toNat = bit ∧
      builder.convention.owns .general register = true ∧
      builder.convention.saveWord? register = none := by
  cases placed with
  | held register owned unsaved => exact ⟨register, rfl, rfl, owned, unsaved⟩

/-- A frame bit lies inside the frame bitmap. -/
theorem Placed.frame_lt {location : Location} {bit : Nat}
    (placed : builder.Placed location (some (.frame bit))) : bit < builder.frameLength := by
  cases placed with
  | slot _ _ _ inside => exact Nat.lt_of_lt_of_le inside (Nat.le_max_left _ _)
  | saved _ _ _ found =>
    exact Nat.lt_of_lt_of_le (Convention.saveWord?_lt found) (Nat.le_max_right _ _)

/-- A register bit lies inside the register bitmap. -/
theorem Placed.register_lt {location : Location} {bit : Nat}
    (placed : builder.Placed location (some (.register bit))) : bit < builder.registerLength := by
  cases placed with
  | held register owned _ => exact (Convention.owns_general.mp owned).2

end MapBuilder

end StackMaps
