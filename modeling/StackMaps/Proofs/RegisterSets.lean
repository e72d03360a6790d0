import Mathlib.Data.Set.Insert
import StackMaps.Proofs.FiniteSets
import StackMaps.Register.Set

/-!
# Words as sets of registers

A register whose encoding fits in five bits has a bit of its own in a register set, and
each of the 64 bits is the bit of such a register. Seen through these registers a word is
a set, and putting in, taking out and uniting are what they are on sets, from whatever
word they start.

The walk through a set takes the register of the lowest set bit out until no bit is set.
It hands out the registers in ascending order of index, and putting them into an empty set
again gives the word from which the walk started.

Registers with larger encodings have no bit, or share one. A list with one that has no bit
is no set, whichever way it is read; any other list makes a set by its members alone.
-/

namespace StackMaps

namespace Register

variable {register other : Register} {place : Nat}

/-- The encoding fits in the five bits that a place keeps of it. -/
def Encoded (register : Register) : Prop := register.code.toNat ≤ 31

instance (register : Register) : Decidable register.Encoded :=
  inferInstanceAs (Decidable (_ ≤ _))

/-- A register is made from a place without a fault. -/
theorem atPlace_eq (place : Nat) : atPlace place = .ok (ofIndex place) := by
  have small : place % 32 < 32 := Nat.mod_lt _ (by decide)
  simp only [atPlace, make, small, if_true]
  rfl

/-- The index of an encoded register counts the encodings of a bank after those of the
bank before. -/
theorem index_of_encoded (encoded : register.Encoded) :
    register.index = 32 * register.bank.rank + register.code.toNat := by
  have small : register.code.toNat < 2 ^ codeBits := Nat.lt_succ_of_le encoded
  rw [index, ← Nat.shiftLeft_add_eq_or_of_lt small, Nat.shiftLeft_eq, codeBits, Nat.mul_comm]

/-- An encoded register has a place. -/
theorem index_lt_of_encoded (encoded : register.Encoded) : register.index < places := by
  have rank : register.bank.rank ≤ 1 := by cases register.bank <;> decide
  rw [index_of_encoded encoded, places]
  rw [Encoded] at encoded
  omega

/-- An encoded register is the register at its index. -/
theorem ofIndex_of_encoded (encoded : register.Encoded) : ofIndex register.index = register := by
  rw [index_of_encoded encoded]
  obtain ⟨code, bank⟩ := register
  have small : code.toNat ≤ 31 := encoded
  cases bank with
  | general =>
    have low : code.toNat % 32 = code.toNat := by omega
    have half : code.toNat / 32 % 2 = 0 := by omega
    simp [ofIndex, Bank.rank, low, half]
  | floating =>
    have low : code.toNat % 32 = code.toNat := by omega
    have half : (code.toNat / 32 + 1) % 2 = 1 := by omega
    simp [ofIndex, Bank.rank, low, half]

/-- Encoded registers with one index are one register. -/
theorem eq_of_index (encoded : register.Encoded) (otherEncoded : other.Encoded)
    (same : register.index = other.index) : register = other := by
  rw [← ofIndex_of_encoded encoded, same, ofIndex_of_encoded otherEncoded]

/-- The register at a place is encoded. -/
theorem encoded_ofIndex (place : Nat) : (ofIndex place).Encoded := by
  have kept : (ofIndex place).code.toNat = place % 32 :=
    UInt8.toNat_ofNat_of_lt (by rw [UInt8.size]; omega)
  rw [Encoded, kept]
  omega

/-- The index of the register at a place is the place. -/
theorem index_ofIndex (inside : place < places) : (ofIndex place).index = place := by
  have kept : (ofIndex place).code.toNat = place % 32 :=
    UInt8.toNat_ofNat_of_lt (by rw [UInt8.size]; omega)
  have rank : (ofIndex place).bank.rank = place / 32 := by
    rw [places] at inside
    simp only [ofIndex]
    split
    · simp only [Bank.rank]
      omega
    · simp only [Bank.rank]
      omega
  rw [index_of_encoded (encoded_ofIndex place), kept, rank]
  exact Nat.div_add_mod place 32

end Register

namespace RegisterSet

variable {registers other : RegisterSet} {register : Register}

/-! ## Operations on sets -/

/-- The encoded registers whose bit is set. -/
def members (registers : RegisterSet) : Set Register :=
  {register | register.Encoded ∧ registers.has register = true}

/-- An encoded register is asked for without a fault. -/
theorem contains_of_encoded (encoded : register.Encoded) :
    registers.contains register = .ok (registers.has register) :=
  if_pos (Register.index_lt_of_encoded encoded)

/-- Putting a register in sets its bit and no other. -/
theorem getLsbD_put (registers : RegisterSet) (register : Register) (place : Nat) :
    (registers.put register).word.getLsbD place =
      (registers.word.getLsbD place || decide (register.index < 64 ∧ register.index = place)) := by
  rw [put, BitVec.getLsbD_or, BitVec.getLsbD_twoPow, Bool.decide_and]

/-- The empty word has no registers. -/
theorem members_empty : empty.members = ∅ := by
  ext tested
  simp [members, has, empty]

/-- Putting an encoded register in adds it. -/
theorem members_put (encoded : register.Encoded) :
    (registers.put register).members = Insert.insert register registers.members := by
  have placed := Register.index_lt_of_encoded encoded
  ext tested
  simp only [members, has, getLsbD_put, Bool.or_eq_true, decide_eq_true_eq, Set.mem_ofPred_eq,
    Set.mem_insert_iff]
  constructor
  · rintro ⟨small, held | ⟨_, same⟩⟩
    · exact Or.inr ⟨small, held⟩
    · exact Or.inl (Register.eq_of_index small encoded same.symm)
  · rintro (rfl | ⟨small, held⟩)
    · exact ⟨encoded, Or.inr ⟨placed, rfl⟩⟩
    · exact ⟨small, Or.inl held⟩

/-- Taking an encoded register out removes it. -/
theorem members_drop (encoded : register.Encoded) :
    (registers.drop register).members = registers.members \ {register} := by
  ext tested
  simp only [members, has, drop, BitSet.getLsbD_cleared, Bool.and_eq_true, decide_eq_true_eq,
    Set.mem_ofPred_eq, Set.mem_sdiff, Set.mem_singleton_iff]
  constructor
  · rintro ⟨small, held, apart⟩
    exact ⟨⟨small, held⟩, fun same => apart (congrArg Register.index same)⟩
  · rintro ⟨⟨small, held⟩, different⟩
    exact ⟨small, held, fun same => different (Register.eq_of_index small encoded same)⟩

/-- Uniting sets unites their registers. -/
theorem members_union : (registers.union other).members = registers.members ∪ other.members := by
  ext tested
  simp only [members, has, union, BitVec.getLsbD_or, Bool.or_eq_true, Set.mem_ofPred_eq,
    Set.mem_union, and_or_left]

namespace Change

/-- The change is about an encoded register, or about whole sets. -/
def Encoded : Change → Prop
  | .insert register | .erase register => register.Encoded
  | .union _ => True

/-- What the change does to a set of registers. -/
def onSet : Change → Set Register → Set Register
  | .insert register, held => Insert.insert register held
  | .erase register, held => held \ {register}
  | .union other, held => held ∪ other.members

end Change

/-- A change completes and does to the registers of a word what it does to a set. -/
theorem change_exact (registers : RegisterSet) {step : Change} (encoded : step.Encoded) :
    ∃ next, registers.change step = .ok next ∧ next.members = step.onSet registers.members := by
  cases step with
  | insert register =>
    exact ⟨_, if_pos (Register.index_lt_of_encoded encoded), members_put encoded⟩
  | erase register =>
    exact ⟨_, if_pos (Register.index_lt_of_encoded encoded), members_drop encoded⟩
  | union other => exact ⟨_, rfl, members_union⟩

/-- So does a sequence of changes. -/
theorem changeAll_exact (registers : RegisterSet) {changes : List Change}
    (encoded : ∀ step ∈ changes, step.Encoded) :
    ∃ final, registers.changeAll changes = .ok final ∧
      final.members = changes.foldl (fun held step => step.onSet held) registers.members := by
  induction changes generalizing registers with
  | nil => exact ⟨registers, rfl, rfl⟩
  | cons first rest induction =>
    obtain ⟨firstEncoded, restEncoded⟩ := List.forall_mem_cons.mp encoded
    obtain ⟨next, changed, image⟩ := change_exact registers firstEncoded
    obtain ⟨final, finished, reached⟩ := induction next restEncoded
    refine ⟨final, ?_, ?_⟩
    · rw [changeAll, changed]
      exact finished
    · rw [reached, image, List.foldl_cons]

/-! ## The walk through a set -/

/-- The indices of the listed registers are the positions of the set bits. -/
theorem map_index_toList (registers : RegisterSet) :
    registers.toList.map Register.index = (List.range 64).filter registers.word.getLsbD := by
  rw [toList, List.map_map, List.map_congr_left, List.map_id]
  · rfl
  · intro place member
    exact Register.index_ofIndex (List.mem_range.mp (List.mem_filter.mp member).1)

/-- The listed registers ascend by index. -/
theorem toList_ascending (registers : RegisterSet) :
    (registers.toList.map Register.index).Pairwise (· < ·) := by
  rw [map_index_toList]
  exact List.pairwise_lt_range.filter _

/-- There are as many listed registers as set bits. -/
theorem size_eq_length (registers : RegisterSet) : registers.size = registers.toList.length := by
  rw [← List.length_map Register.index, map_index_toList, size, BitVec.toNat_cpop,
    BitSet.cpopNatRec_eq, Nat.zero_add]

/-- The listed registers are the members. -/
theorem mem_toList : register ∈ registers.toList ↔ register ∈ registers.members := by
  simp only [toList, List.mem_map, List.mem_filter, List.mem_range]
  constructor
  · rintro ⟨place, ⟨inside, set⟩, rfl⟩
    refine ⟨Register.encoded_ofIndex place, ?_⟩
    rwa [has, Register.index_ofIndex inside]
  · rintro ⟨encoded, held⟩
    exact ⟨register.index, ⟨Register.index_lt_of_encoded encoded, held⟩,
      Register.ofIndex_of_encoded encoded⟩

/-- A step takes the register of the lowest set bit out and leaves the others. -/
theorem next_of_ne_zero (nonzero : registers.word ≠ 0) :
    ∃ register rest, registers.next = .ok (some (register, rest)) ∧
      registers.toList = register :: rest.toList := by
  refine ⟨Register.ofIndex registers.word.ctz.toNat, ⟨BitSet.withoutLowest registers.word⟩, ?_, ?_⟩
  · rw [next, if_neg nonzero, Register.atPlace_eq, BitSet.and_sub_one nonzero]
    rfl
  · rw [toList, Register.places, BitSet.setPositions_eq_cons nonzero]
    rfl

/-- Without set bits nothing is listed. -/
theorem toList_of_zero (zero : registers.word = 0) : registers.toList = [] := by
  have clear : (List.range Register.places).filter registers.word.getLsbD = [] := by
    rw [List.filter_eq_nil_iff, zero]
    simp
  rw [toList, clear, List.map_nil]

/-- The walk through a set hands out the listed registers and ends. -/
theorem yields_toList (registers : RegisterSet) : walk.Yields registers registers.toList := by
  generalize listed : registers.toList = items
  induction items generalizing registers with
  | nil =>
    by_cases zero : registers.word = 0
    · exact .ended (if_pos zero)
    · obtain ⟨register, rest, _, split⟩ := next_of_ne_zero zero
      cases split.symm.trans listed
  | cons first others induction =>
    by_cases zero : registers.word = 0
    · cases (toList_of_zero zero).symm.trans listed
    · obtain ⟨register, rest, step, split⟩ := next_of_ne_zero zero
      cases split.symm.trans listed
      exact .handed step (induction rest rfl)

/-! ## Sets from lists -/

/-- Reading a list from a position on inserts what it has from there. -/
theorem insertFrom_eq (registers : RegisterSet) (more : List Register) (position : Nat) :
    registers.insertFrom more position = registers.insertAll (more.drop position) := by
  fun_induction insertFrom registers more position with
  | case1 registers position inside induction =>
    have stored : Checked.element more position = .ok more[position] :=
      Checked.element_eq_ok.mpr (List.getElem?_eq_getElem inside)
    rw [stored, Checked.ok_bind, List.drop_eq_getElem_cons inside, insertAll, List.foldlM_cons]
    exact congrArg _ (funext induction)
  | case2 registers position outside =>
    rw [List.drop_of_length_le (Nat.le_of_not_lt outside)]
    rfl

/-- A list that is read position by position makes the set of its registers. -/
theorem ofSlice_eq (list : List Register) : ofSlice list = ofList list :=
  empty.insertFrom_eq list 0

/-- So does the walk through the list. -/
theorem ofWalk_list (list : List Register) : ofWalk Walk.list list = ofList list :=
  Walk.fold_of_yields (Walk.yields_list list) insert empty

/-- Registers that all have places are inserted without a fault. -/
theorem insertAll_of_placed {more : List Register}
    (placed : ∀ register ∈ more, register.index < Register.places) :
    registers.insertAll more = .ok (more.foldl put registers) :=
  Checked.foldlM_eq_ok insert put more registers fun _ register member =>
    if_pos (placed register member)

/-- A register without a place is a fault, after whatever others. -/
theorem insertAll_of_unplaced {more : List Register}
    (unplaced : ∃ register ∈ more, ¬ register.index < Register.places) :
    registers.insertAll more = .error .shiftTooFar := by
  induction more generalizing registers with
  | nil =>
    obtain ⟨_, member, _⟩ := unplaced
    cases member
  | cons first rest induction =>
    rw [insertAll, List.foldlM_cons, insert, requireBit]
    by_cases placed : first.index < Register.places
    · rw [if_pos placed]
      obtain ⟨register, member, without⟩ := unplaced
      have later : register ∈ rest := by
        rcases List.mem_cons.mp member with rfl | later
        · exact absurd placed without
        · exact later
      exact induction ⟨register, later, without⟩
    · rw [if_neg placed]
      rfl

/-- After inserting registers, the bits that are set are those that were and those of the
registers. -/
theorem getLsbD_foldl_put (registers : RegisterSet) (more : List Register) (place : Nat) :
    (more.foldl put registers).word.getLsbD place = true ↔
      registers.word.getLsbD place = true ∨
        place < 64 ∧ ∃ register ∈ more, register.index = place := by
  induction more generalizing registers with
  | nil => simp
  | cons first rest induction =>
    rw [List.foldl_cons, induction, getLsbD_put, Bool.or_eq_true, decide_eq_true_eq]
    simp only [List.mem_cons, exists_eq_or_imp]
    constructor
    · rintro ((held | ⟨inside, same⟩) | ⟨inside, later⟩)
      · exact Or.inl held
      · exact Or.inr ⟨same ▸ inside, Or.inl same⟩
      · exact Or.inr ⟨inside, Or.inr later⟩
    · rintro (held | ⟨inside, same | later⟩)
      · exact Or.inl (Or.inl held)
      · exact Or.inl (Or.inr ⟨same ▸ inside, same⟩)
      · exact Or.inr ⟨inside, later⟩

/-- Sets with the same bits are one set. -/
theorem eq_of_getLsbD (same : ∀ place < 64,
    (registers.word.getLsbD place = true ↔ other.word.getLsbD place = true)) :
    registers = other := by
  obtain ⟨word⟩ := registers
  obtain ⟨otherWord⟩ := other
  congr
  exact BitVec.eq_of_getLsbD_eq fun place inside => Bool.eq_iff_iff.mpr (same place inside)

/-- The set made from a list, or the fault, depends on which registers are in the list. -/
theorem ofList_congr {left right : List Register}
    (same : ∀ register, register ∈ left ↔ register ∈ right) : ofList left = ofList right := by
  by_cases placed : ∀ register ∈ left, register.index < Register.places
  · have alsoPlaced : ∀ register ∈ right, register.index < Register.places := fun register member =>
      placed register ((same register).mpr member)
    rw [ofList, ofList, insertAll_of_placed placed, insertAll_of_placed alsoPlaced]
    refine congrArg Except.ok (eq_of_getLsbD fun place _ => ?_)
    rw [getLsbD_foldl_put, getLsbD_foldl_put]
    simp only [same]
  · have unplaced : ∃ register ∈ left, ¬ register.index < Register.places := by
      simpa using placed
    obtain ⟨register, member, without⟩ := unplaced
    rw [ofList, ofList, insertAll_of_unplaced ⟨register, member, without⟩,
      insertAll_of_unplaced ⟨register, (same register).mp member, without⟩]

/-- Putting together what the walk through a set hands out gives the set. -/
theorem ofWalk_walk (registers : RegisterSet) : ofWalk walk registers = .ok registers := by
  have placed : ∀ register ∈ registers.toList, register.index < Register.places :=
    fun register member => Register.index_lt_of_encoded (mem_toList.mp member).1
  have again : registers.toList.foldl put empty = registers := by
    refine eq_of_getLsbD fun place inside => ?_
    have listed : (∃ register ∈ registers.toList, register.index = place) ↔
        registers.word.getLsbD place = true := by
      rw [← List.mem_map, map_index_toList, List.mem_filter, List.mem_range]
      exact and_iff_right inside
    rw [getLsbD_foldl_put, listed]
    simp [empty, inside]
  calc ofWalk walk registers
      = empty.insertAll registers.toList := Walk.fold_of_yields registers.yields_toList insert empty
    _ = .ok (registers.toList.foldl put empty) := insertAll_of_placed placed
    _ = .ok registers := congrArg Except.ok again

end RegisterSet

/-- A word is a finite set of registers. Whatever word a sequence of changes starts from, it
completes, and a register is then contained exactly if it is in the set that the same
sequence makes. The walk through a set ends after handing out the contained registers in
ascending order of index, as many as the size says, and putting them together gives the set.
A list makes the same set, or the same fault, read by position or walked through, and so
does every list of the same registers. -/
theorem word_forms_register_set (start : RegisterSet) (changes : List RegisterSet.Change)
    (encoded : ∀ step ∈ changes, step.Encoded) :
    (∃ final, start.changeAll changes = .ok final ∧
      ∀ register : Register, register.Encoded → ∃ answer, final.contains register = .ok answer ∧
        (answer = true ↔
          register ∈ changes.foldl (fun held step => step.onSet held) start.members)) ∧
    RegisterSet.empty.members = ∅ ∧
    (∀ registers : RegisterSet, ∃ items, RegisterSet.walk.Yields registers items ∧
      registers.enumerate = .ok items ∧
      (items.map Register.index).Pairwise (· < ·) ∧
      (∀ register, register ∈ items ↔
        register.Encoded ∧ registers.contains register = .ok true) ∧
      registers.size = items.length ∧
      RegisterSet.ofWalk RegisterSet.walk registers = .ok registers) ∧
    (∀ list, RegisterSet.ofSlice list = RegisterSet.ofWalk Walk.list list) ∧
    ∀ left right : List Register, (∀ register, register ∈ left ↔ register ∈ right) →
      RegisterSet.ofSlice left = RegisterSet.ofSlice right := by
  refine ⟨?_, RegisterSet.members_empty, ?_, ?_, ?_⟩
  · obtain ⟨final, finished, reached⟩ := start.changeAll_exact encoded
    refine ⟨final, finished, fun register small => ?_⟩
    refine ⟨_, RegisterSet.contains_of_encoded small, ?_⟩
    rw [← reached]
    exact (and_iff_right small).symm
  · intro registers
    refine ⟨registers.toList, registers.yields_toList,
      Walk.collect_of_yields registers.yields_toList, registers.toList_ascending, ?_,
      registers.size_eq_length, registers.ofWalk_walk⟩
    intro register
    rw [RegisterSet.mem_toList]
    refine and_congr_right fun small => ?_
    rw [RegisterSet.contains_of_encoded small, Except.ok.injEq]
  · intro list
    rw [RegisterSet.ofSlice_eq, RegisterSet.ofWalk_list]
  · intro left right same
    rw [RegisterSet.ofSlice_eq, RegisterSet.ofSlice_eq, RegisterSet.ofList_congr same]

/-- From the word whose only bit is the last, the register of that bit is taken out, and the
first register of its bank is put in, which is then the only one. -/
theorem word_forms_register_set_swapped :
    ∃ final : RegisterSet,
      (⟨0x8000000000000000⟩ : RegisterSet).changeAll
        [.erase ⟨31, .floating⟩, .insert ⟨0, .floating⟩] = .ok final ∧
      ∀ register : Register, register.Encoded →
        ∃ answer, final.contains register = .ok answer ∧
          (answer = true ↔ register = ⟨0, .floating⟩) := by
  have listed : (⟨0x8000000000000000⟩ : RegisterSet).toList = [⟨31, .floating⟩] := by
    decide +kernel
  have only : (⟨0x8000000000000000⟩ : RegisterSet).members = {⟨31, .floating⟩} := by
    ext register
    rw [← RegisterSet.mem_toList, listed, List.mem_singleton, Set.mem_singleton_iff]
  obtain ⟨⟨final, finished, answers⟩, _⟩ := word_forms_register_set ⟨0x8000000000000000⟩
    [.erase ⟨31, .floating⟩, .insert ⟨0, .floating⟩]
    (by simp [RegisterSet.Change.Encoded, Register.Encoded])
  simp only [List.foldl_cons, List.foldl_nil, RegisterSet.Change.onSet, only] at answers
  refine ⟨final, finished, fun register small => ?_⟩
  simpa using answers register small

end StackMaps
