import StackMaps.Convention.Targets
import StackMaps.Proofs.Finishing
import StackMaps.Proofs.Validation

/-!
# Storage places of a valid convention are kept apart

A valid convention has slots as wide as a word, reserves whole slots, and keeps
every save word inside the reserved area. So the save words need no bits beyond the
slots of the frame, and the slots of the spill area begin above all of them. A map
then tells different places apart: two spill slots share a bit only if they are one
slot, a spill slot shares the bit of a save word only if it lies in the reserved
area on that very word, and registers that are not saved have bits of their own.

What a valid convention does not promise is that no two registers are saved in one
word. If they are not, the bit of a register or of a slot of the spill area says
which it is.
-/

namespace StackMaps

namespace Register

/-- A floating-point register has its index in the upper half of the places. -/
theorem bank_ofIndex_of_floating {register : Register} (floating : register.bank = .floating) :
    (ofIndex register.index).bank = .floating := by
  have bit : register.index.testBit 5 = true := by
    rw [index, floating, Nat.testBit_or]
    exact Bool.or_eq_true_iff.mpr (Or.inl (by decide))
  rw [Nat.testBit_eq_decide_div_mod_eq, decide_eq_true_eq] at bit
  have upper : register.index / 32 % 2 ≠ 0 := by omega
  exact if_neg upper

/-- A place of the lower half is that of the general-purpose register with the place
as its encoding, and of no other. -/
theorem ofIndex_index {register : Register} (inside : register.index < places)
    (general : (ofIndex register.index).bank = .general) : ofIndex register.index = register := by
  obtain ⟨code, bank⟩ := register
  cases bank with
  | floating =>
    rw [bank_ofIndex_of_floating rfl] at general
    cases general
  | general =>
    have position : (⟨code, .general⟩ : Register).index = code.toNat := index_of_general rfl
    rw [position] at inside general ⊢
    have lower : code.toNat / 32 % 2 = 0 := by
      rcases Nat.mod_two_eq_zero_or_one (code.toNat / 32) with lower | upper
      · exact lower
      · rw [ofIndex, if_neg (by omega)] at general
        cases general
    have small : code.toNat % 32 = code.toNat := by
      rw [places] at inside
      omega
    rw [ofIndex, if_pos lower, small, UInt8.ofNat_toNat]

/-- Registers of one bank with one encoding are one register. -/
theorem eq_of_code {left right : Register} (bank : left.bank = right.bank)
    (code : left.code.toNat = right.code.toNat) : left = right := by
  obtain ⟨leftCode, leftBank⟩ := left
  obtain ⟨rightCode, rightBank⟩ := right
  obtain rfl : leftBank = rightBank := bank
  obtain rfl : leftCode = rightCode := UInt8.toNat_inj.mp code
  rfl

end Register

namespace Convention

variable {convention : Convention}

/-- No two registers are saved in one word. -/
def DistinctWords (convention : Convention) : Prop :=
  ∀ first second word, convention.saveWords first = some word →
    convention.saveWords second = some word → first = second

/-- Save words keep to the reserved area, which consists of whole slots. -/
structure Sheltered (convention : Convention) : Prop where
  width : 0 < convention.slotSize.toNat
  whole : convention.slotSize.toNat ∣ convention.reserved.toNat
  /-- A place with a save word is that of a register that can hold a reference. -/
  saved : ∀ place word, convention.saveWords place = some word →
    convention.owns .general (Register.ofIndex place) = true ∧
      word.toNat < convention.reserved.toNat / convention.slotSize.toNat

/-- A valid convention keeps its save words to the reserved area. -/
theorem sheltered_of_validate (valid : convention.validateChecked = .ok (.ok ())) :
    convention.Sheltered := by
  obtain ⟨sized, whole, _, clean, _⟩ := defect?_eq_none.mp (validateChecked_eq_ok.mp valid)
  constructor
  · rw [sized]
    cases convention.target <;> decide
  · have rest := congrArg UInt32.toNat whole
    rw [UInt32.toNat_mod] at rest
    exact Nat.dvd_of_mod_eq_zero rest
  · exact fun place => saveDefect?_eq_none.mp (clean place)

/-- The save words of a sheltered convention take no more than the reserved area. -/
theorem Sheltered.saveSpace_le (sheltered : convention.Sheltered) :
    convention.saveSpace ≤ convention.reserved.toNat / convention.slotSize.toNat := by
  refine foldl_max_le (Nat.zero_le _) ?_
  intro number member
  obtain ⟨place, _, found⟩ := List.mem_filterMap.mp member
  obtain ⟨word, stored, rfl⟩ := Option.map_eq_some_iff.mp found
  exact (sheltered.saved place word stored).2

/-- A word of the reserved area starts below the spill area. -/
theorem Sheltered.word_lt (sheltered : convention.Sheltered) {word : Nat}
    (below : word < convention.reserved.toNat / convention.slotSize.toNat) :
    word * convention.slotSize.toNat < convention.reserved.toNat := by
  calc word * convention.slotSize.toNat
      < convention.reserved.toNat / convention.slotSize.toNat * convention.slotSize.toNat :=
        Nat.mul_lt_mul_of_pos_right below sheltered.width
    _ = convention.reserved.toNat := Nat.div_mul_cancel sheltered.whole

/-- A saved register of a sheltered convention can hold a reference, and stands at the
place that its word is bound to. -/
theorem Sheltered.of_saveWord (sheltered : convention.Sheltered) {register : Register} {word : Nat}
    (found : convention.saveWord register = .ok (some word)) :
    convention.owns .general register = true ∧
      word < convention.reserved.toNat / convention.slotSize.toNat ∧
      ∃ place stored, convention.saveWords place = some stored ∧ stored.toNat = word ∧
        register = Register.ofIndex place := by
  unfold saveWord at found
  split at found
  · rename_i place placed
    obtain ⟨stored, held, rfl⟩ := Option.map_eq_some_iff.mp (Except.ok.inj found)
    obtain ⟨owned, below⟩ := sheltered.saved place stored held
    have inside : register.index < Register.places := by
      unfold Register.place? at placed
      split at placed
      · assumption
      · cases placed
    have position : place.val = register.index := by
      rw [Register.place?, dif_pos inside] at placed
      rw [← Option.some.inj placed]
    rw [position] at owned
    have same := Register.ofIndex_index inside (owns_general.mp owned).1
    rw [same] at owned
    exact ⟨owned, below, place, stored, held, rfl, by rw [position, same]⟩
  · cases found

end Convention

namespace MapBuilder

variable {builder : MapBuilder}

/-- A map reports a reference at a location through a bit, whichever value it is. -/
def Reports (builder : MapBuilder) (location : Location) (placement : Placement) : Prop :=
  ∀ value, builder.placeChecked value location = .ok (.ok (some placement))

/-- The bit through which a location is reported is the one it has. -/
theorem reports_iff {location : Location} {placement : Placement} :
    builder.Reports location placement ↔ builder.Placed location (some placement) := by
  simp only [Reports, placeChecked_eq, Except.ok.injEq]
  constructor
  · intro reports
    exact place_eq_ok.mp (reports Handle.nowhere)
  · intro placed value
    exact place_eq_ok.mpr placed

/-- A spill slot is reported where it starts. -/
theorem Reports.starts {offset : Int32} {bit : Nat}
    (reports : builder.Reports (.spill offset) (.frame bit)) :
    offset.toInt + builder.convention.reserved.toNat = bit * builder.layout.width.toNat := by
  cases reports_iff.mp reports with
  | slot _ _ starts _ => exact starts

/-- Two spill slots are reported through one bit exactly when they are one slot. -/
theorem Reports.slot_inj {left right : Int32} {bit other : Nat}
    (first : builder.Reports (.spill left) (.frame bit))
    (second : builder.Reports (.spill right) (.frame other)) : bit = other ↔ left = right := by
  have width := builder.layout.width_pos
  have leftStarts := first.starts
  have rightStarts := second.starts
  constructor
  · rintro rfl
    exact Int32.toInt_inj.mp (by omega)
  · rintro rfl
    have same : (bit : Int) = other :=
      Int.eq_of_mul_eq_mul_right (by omega) (leftStarts.symm.trans rightStarts)
    exact Int.ofNat_inj.mp same

section

variable (sheltered : builder.convention.Sheltered)
  (natural : builder.layout.width = builder.convention.slotSize)

include sheltered natural

/-- The slots of the frame cover the save words, so maps have a bit for each slot and
no others. -/
theorem frameLength_of_sheltered : builder.frameLength = builder.frameBits := by
  rw [frameLength, Nat.max_eq_left]
  calc builder.convention.saveSpace
      ≤ builder.convention.reserved.toNat / builder.convention.slotSize.toNat :=
        sheltered.saveSpace_le
    _ ≤ builder.frameBits := by
        rw [frameBits, natural]
        exact Nat.div_le_div_right (Nat.le_add_right _ _)

/-- A saved register is reported at its word, which starts below the spill area, and a
spill slot is reported there exactly when it starts on that word. -/
theorem reports_saved {register : Register} {word : Nat}
    (found : builder.convention.saveWord register = .ok (some word)) :
    builder.Reports (.register register) (.frame word) ∧
      (word : Int) * builder.convention.slotSize.toNat - builder.convention.reserved.toNat < 0 ∧
      ∀ offset bit, builder.Reports (.spill offset) (.frame bit) →
        (bit = word ↔ offset.toInt =
          word * builder.convention.slotSize.toNat - builder.convention.reserved.toNat) := by
  obtain ⟨owned, below, _⟩ := sheltered.of_saveWord found
  rw [Convention.saveWord_of_owns owned] at found
  refine ⟨reports_iff.mpr (.saved register word owned (Except.ok.inj found)), ?_, ?_⟩
  · have starts := sheltered.word_lt below
    have cast : ((word * builder.convention.slotSize.toNat : Nat) : Int) =
        word * builder.convention.slotSize.toNat := by simp
    omega
  · intro offset bit reports
    have starts := reports.starts
    rw [natural] at starts
    constructor
    · rintro rfl
      omega
    · intro onWord
      have width := sheltered.width
      have same : (bit : Int) = word := by
        refine Int.eq_of_mul_eq_mul_right (a := (builder.convention.slotSize.toNat : Int))
          (by omega) ?_
        omega
      exact Int.ofNat_inj.mp same

end

/-- A register that is not saved is reported under its encoding. -/
theorem reports_held {register : Register}
    (listed : register ∈ builder.convention.catalog.registers .general)
    (unsaved : builder.convention.saveWord register = .ok none) :
    builder.Reports (.register register) (.register register.code.toNat) := by
  have owned := Convention.owns_general_iff_mem.mpr listed
  rw [Convention.saveWord_of_owns owned] at unsaved
  exact reports_iff.mpr (.held register owned (Except.ok.inj unsaved))

/-- Registers that are reported through one register bit are one register. -/
theorem Reports.held_inj {left right : Register} {bit : Nat}
    (first : builder.Reports (.register left) (.register bit))
    (second : builder.Reports (.register right) (.register bit)) : left = right := by
  obtain ⟨leftRegister, leftSame, leftCode, leftOwned, _⟩ := (reports_iff.mp first).register_inv
  obtain ⟨rightRegister, rightSame, rightCode, rightOwned, _⟩ :=
    (reports_iff.mp second).register_inv
  obtain rfl := Location.register.inj leftSame
  obtain rfl := Location.register.inj rightSame
  have leftBank := (Convention.owns_general.mp leftOwned).1
  have rightBank := (Convention.owns_general.mp rightOwned).1
  exact Register.eq_of_code (leftBank.trans rightBank.symm) (leftCode.trans rightCode.symm)

/-- A register that is reported in the frame is saved there. -/
theorem Reports.saveWord {register : Register} {bit : Nat}
    (reports : builder.Reports (.register register) (.frame bit)) :
    builder.convention.saveWord register = .ok (some bit) := by
  cases reports_iff.mp reports with
  | saved _ _ owned found => rw [Convention.saveWord_of_owns owned, found]

/-- If no two registers are saved in one word, registers that are reported through one
frame bit are one register. -/
theorem Reports.saved_inj (sheltered : builder.convention.Sheltered)
    (distinct : builder.convention.DistinctWords) {left right : Register} {bit : Nat}
    (first : builder.Reports (.register left) (.frame bit))
    (second : builder.Reports (.register right) (.frame bit)) : left = right := by
  obtain ⟨_, _, leftPlace, leftWord, leftStored, leftSpelled, rfl⟩ :=
    sheltered.of_saveWord first.saveWord
  obtain ⟨_, _, rightPlace, rightWord, rightStored, rightSpelled, rfl⟩ :=
    sheltered.of_saveWord second.saveWord
  obtain rfl : leftWord = rightWord :=
    UInt16.toNat_inj.mp (leftSpelled.trans rightSpelled.symm)
  rw [distinct leftPlace rightPlace leftWord leftStored rightStored]

/-- The places of a method's own that a map can tell: the registers of the target that
can hold a reference, and the slots of the spill area. -/
inductive Own (convention : Convention) : Location → Prop where
  | register {register : Register} (listed : register ∈ convention.catalog.registers .general) :
      Own convention (.register register)
  | slot {offset : Int32} (above : 0 ≤ offset) : Own convention (.spill offset)

/-- A slot of the spill area is never reported through the bit of a register. -/
theorem Reports.slot_ne_register (sheltered : builder.convention.Sheltered)
    (natural : builder.layout.width = builder.convention.slotSize) {offset : Int32}
    (above : 0 ≤ offset) {register : Register} {placement : Placement}
    (first : builder.Reports (.spill offset) placement)
    (second : builder.Reports (.register register) placement) : False := by
  cases placement with
  | register bit => cases reports_iff.mp first
  | frame bit =>
    obtain ⟨_, below, onWord⟩ := reports_saved sheltered natural second.saveWord
    have start := (onWord offset bit first).mp rfl
    have nonnegative : 0 ≤ offset.toInt := Int32.le_iff_toInt_le.mp above
    omega

/-- If no two registers are saved in one word, the bit of a place tells the place. -/
theorem Reports.injective (sheltered : builder.convention.Sheltered)
    (natural : builder.layout.width = builder.convention.slotSize)
    (distinct : builder.convention.DistinctWords) {left right : Location} {placement : Placement}
    (leftOwn : Own builder.convention left) (rightOwn : Own builder.convention right)
    (first : builder.Reports left placement) (second : builder.Reports right placement) :
    left = right := by
  cases leftOwn with
  | register _ =>
    cases rightOwn with
    | register _ =>
      cases placement with
      | frame bit => rw [first.saved_inj sheltered distinct second]
      | register bit => rw [first.held_inj second]
    | slot above => exact (second.slot_ne_register sheltered natural above first).elim
  | slot above =>
    cases rightOwn with
    | register _ => exact (first.slot_ne_register sheltered natural above second).elim
    | slot _ =>
      cases placement with
      | frame bit => rw [(first.slot_inj second).mp rfl]
      | register bit => cases reports_iff.mp first

end MapBuilder

/-- A valid convention keeps storage places apart. In a frame below 2³² bytes the map
has one bit for each slot. Two spill slots have one bit exactly when they are one slot.
A saved register has the bit of its word, which lies below the spill area, and a spill
slot has that bit exactly when it starts on the word. Registers that are not saved have
a bit each. So if no two registers are saved in one word, no two places of a method's
own have one bit. -/
theorem valid_places_apart {convention : Convention}
    (valid : convention.validateChecked = .ok (.ok ()))
    {size : UInt32} (fits : convention.reserved.toNat + size.toNat < 2 ^ 32) :
    ∃ layout builder, FrameLayout.ofConvention convention size = .ok layout ∧
      MapBuilder.make convention layout = .ok builder ∧
      builder.frameLength =
        (convention.reserved.toNat + size.toNat) / convention.slotSize.toNat ∧
      (∀ left right bit other, builder.Reports (.spill left) (.frame bit) →
        builder.Reports (.spill right) (.frame other) → (bit = other ↔ left = right)) ∧
      (∀ register word, convention.saveWord register = .ok (some word) →
        builder.Reports (.register register) (.frame word) ∧
        (word : Int) * convention.slotSize.toNat - convention.reserved.toNat < 0 ∧
        ∀ offset bit, builder.Reports (.spill offset) (.frame bit) →
          (bit = word ↔
            offset.toInt = word * convention.slotSize.toNat - convention.reserved.toNat)) ∧
      (∀ register ∈ convention.catalog.registers .general,
        convention.saveWord register = .ok none →
          builder.Reports (.register register) (.register register.code.toNat)) ∧
      (∀ left right bit, builder.Reports (.register left) (.register bit) →
        builder.Reports (.register right) (.register bit) → left = right) ∧
      (convention.DistinctWords → ∀ left right placement, MapBuilder.Own convention left →
        MapBuilder.Own convention right → builder.Reports left placement →
        builder.Reports right placement → left = right) := by
  have sheltered := Convention.sheltered_of_validate valid
  have laid : FrameLayout.ofConvention convention size =
      .ok ⟨size, convention.slotSize, sheltered.width⟩ := dif_pos sheltered.width
  refine ⟨_, ⟨convention, ⟨size, convention.slotSize, sheltered.width⟩, fits⟩, laid,
    dif_pos fits, ?_, ?_, ?_, ?_, ?_, ?_⟩
  · exact MapBuilder.frameLength_of_sheltered sheltered rfl
  · intro left right bit other first second
    exact first.slot_inj second
  · intro register word found
    exact MapBuilder.reports_saved sheltered rfl found
  · intro register listed unsaved
    exact MapBuilder.reports_held listed unsaved
  · intro left right bit first second
    exact first.held_inj second
  · intro distinct left right placement leftOwn rightOwn first second
    exact first.injective sheltered rfl distinct leftOwn rightOwn second

/-- The windowed registers are saved in a word each. -/
theorem Convention.distinctWords_sparcv9 : Convention.sparcv9.DistinctWords := by
  intro first second word firstSaved secondSaved
  simp only [Convention.sparcv9] at firstSaved secondSaved
  split at firstSaved
  · split at secondSaved
    · have same := congrArg UInt16.toNat
        (Option.some.inj (firstSaved.trans secondSaved.symm))
      rw [UInt16.toNat_ofNat', UInt16.toNat_ofNat'] at same
      exact Fin.ext (by omega)
    · cases secondSaved
  · cases firstSaved

/-- In a frame with two spill slots above 22 reserved words, no other place has the bit of
the first slot. The slot 112 bytes below the spill area is word 8, and has the bit of the
register that is saved there. -/
theorem valid_places_apart_windowed :
    ∃ layout builder, FrameLayout.ofConvention Convention.sparcv9 16 = .ok layout ∧
      MapBuilder.make Convention.sparcv9 layout = .ok builder ∧ builder.frameLength = 24 ∧
      builder.Reports (.register ⟨24, .general⟩) (.frame 8) ∧
      builder.Reports (.spill 0) (.frame 22) ∧ builder.Reports (.spill (-112)) (.frame 8) ∧
      (∀ location, MapBuilder.Own Convention.sparcv9 location →
        builder.Reports location (.frame 22) → location = .spill 0) := by
  obtain ⟨layout, builder, laid, made, length, _, saved, _, _, injective⟩ :=
    valid_places_apart (rfl : Convention.sparcv9.validateChecked = .ok (.ok ()))
      (by decide : Convention.sparcv9.reserved.toNat + (16 : UInt32).toNat < 2 ^ 32)
  cases laid
  cases made
  refine ⟨_, _, rfl, rfl, length, (saved ⟨24, .general⟩ 8 rfl).1, fun value => rfl,
    fun value => rfl, ?_⟩
  intro location own reports
  exact injective Convention.distinctWords_sparcv9 location (.spill 0) _ own (.slot (by decide))
    reports fun value => rfl

end StackMaps
