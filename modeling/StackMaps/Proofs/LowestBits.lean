import Mathlib.Algebra.Group.Nat.Defs
import StackMaps.BitSet

/-!
# The lowest set bit of a word

Both kinds of sets hand out the positions of a word's set bits by taking the lowest one
and clearing it. Sets of numbers clear it with a mask, sets of registers by subtracting
one from the word; the two leave the same word. The positions of the set bits are then
the lowest one followed by those of what is left.
-/

namespace StackMaps.BitSet

variable {word : BitVec 64}

/-- Clearing a bit of a word clears no other. -/
theorem getLsbD_cleared (word : BitVec 64) (bit position : Nat) :
    (word &&& ~~~BitVec.twoPow 64 bit).getLsbD position =
      (word.getLsbD position && decide (position ≠ bit)) := by
  rw [BitVec.getLsbD_and, BitVec.getLsbD_not, BitVec.getLsbD_twoPow]
  by_cases inside : position < 64
  · by_cases same : position = bit
    · simp [← same, inside]
    · simp [inside, same, Ne.symm same]
  · simp [BitVec.getLsbD_of_ge word position (by omega)]

/-- Without its lowest set bit a word has the other ones. -/
theorem getLsbD_withoutLowest (word : BitVec 64) (position : Nat) :
    (withoutLowest word).getLsbD position =
      (word.getLsbD position && decide (position ≠ word.ctz.toNat)) :=
  getLsbD_cleared word word.ctz.toNat position

/-- Up to and with its lowest set bit, a word is the power of two of that bit. -/
theorem toNat_eq_lowest (nonzero : word ≠ 0) :
    ∃ higher, word.toNat = 2 ^ (word.ctz.toNat + 1) * higher + 2 ^ word.ctz.toNat := by
  suffices low : word.toNat % 2 ^ (word.ctz.toNat + 1) = 2 ^ word.ctz.toNat from
    ⟨_, (low ▸ Nat.div_add_mod word.toNat _).symm⟩
  apply Nat.eq_of_testBit_eq
  intro position
  rw [Nat.testBit_mod_two_pow, Nat.testBit_two_pow]
  rcases Nat.lt_trichotomy position word.ctz.toNat with below | rfl | above
  · have clear : word.toNat.testBit position = false := BitVec.getLsbD_false_of_lt_ctz below
    simp [clear, show word.ctz.toNat ≠ position by omega]
  · have set : word.toNat.testBit word.ctz.toNat = true :=
      BitVec.getLsbD_true_ctz_of_ne_zero nonzero
    simp [set]
  · simp [show ¬ position < word.ctz.toNat + 1 by omega, show word.ctz.toNat ≠ position by omega]

/-- Subtracting one clears the lowest set bit and keeps the bits above it. -/
theorem getLsbD_sub_one (nonzero : word ≠ 0) {position : Nat}
    (reached : word.ctz.toNat ≤ position) :
    (word - 1).getLsbD position =
      (word.getLsbD position && decide (position ≠ word.ctz.toNat)) := by
  have power : 0 < 2 ^ word.ctz.toNat := Nat.two_pow_pos _
  have room : 2 ^ word.ctz.toNat < 2 ^ (word.ctz.toNat + 1) := Nat.pow_lt_pow_succ (by decide)
  obtain ⟨higher, whole⟩ := toNat_eq_lowest nonzero
  have less : (word - 1).toNat = 2 ^ (word.ctz.toNat + 1) * higher + (2 ^ word.ctz.toNat - 1) := by
    have positive : (1 : BitVec 64).toNat ≤ word.toNat := by
      rw [whole]
      exact Nat.le_trans power (Nat.le_add_left _ _)
    rw [BitVec.toNat_sub_of_le (BitVec.le_def.mpr positive), whole]
    exact Nat.add_sub_assoc power _
  rw [← BitVec.testBit_toNat, ← BitVec.testBit_toNat, less, whole,
    Nat.testBit_two_pow_mul_add _ (by omega), Nat.testBit_two_pow_mul_add _ room]
  by_cases lowest : position = word.ctz.toNat
  · simp [lowest]
  · simp [lowest, show ¬ position < word.ctz.toNat + 1 by omega]

/-- Below its lowest set bit a word is clear, so what subtracting one sets there is masked
out again. -/
theorem and_sub_one (nonzero : word ≠ 0) : word &&& (word - 1) = withoutLowest word := by
  apply BitVec.eq_of_getLsbD_eq
  intro position _
  rw [BitVec.getLsbD_and, getLsbD_withoutLowest]
  by_cases reached : word.ctz.toNat ≤ position
  · rw [getLsbD_sub_one nonzero reached, ← Bool.and_assoc, Bool.and_self]
  · rw [BitVec.getLsbD_false_of_lt_ctz (Nat.not_le.mp reached), Bool.false_and, Bool.false_and]

/-- The positions below a bound at which a predicate holds start with the lowest one. -/
theorem filter_range_eq_cons {holds : Nat → Bool} {lowest bound : Nat} (inside : lowest < bound)
    (first : holds lowest = true) (below : ∀ position < lowest, holds position = false) :
    (List.range bound).filter holds =
      lowest :: (List.range bound).filter fun position =>
        holds position && decide (position ≠ lowest) := by
  induction bound with
  | zero => omega
  | succ bound induction =>
    rw [List.range_succ, List.filter_append, List.filter_append]
    by_cases last : lowest = bound
    · -- Nothing is below the lowest position, so it comes alone.
      subst last
      have none : (List.range lowest).filter holds = [] := by
        simpa using below
      have noneLeft : ((List.range lowest).filter fun position =>
          holds position && decide (position ≠ lowest)) = [] := by
        simp only [List.filter_eq_nil_iff, List.mem_range]
        intro position early
        simp [below position early]
      rw [none, noneLeft]
      simp [first]
    · have other : bound ≠ lowest := Ne.symm last
      rw [induction (by omega), List.cons_append]
      simp [List.filter_cons, other]

/-- The positions of the set bits are the lowest one and those of what is left. -/
theorem setPositions_eq_cons (nonzero : word ≠ 0) :
    (List.range 64).filter word.getLsbD =
      word.ctz.toNat :: (List.range 64).filter (withoutLowest word).getLsbD := by
  have set : word.getLsbD word.ctz.toNat = true := BitVec.getLsbD_true_ctz_of_ne_zero nonzero
  have others : (withoutLowest word).getLsbD = fun position =>
      word.getLsbD position && decide (position ≠ word.ctz.toNat) :=
    funext (getLsbD_withoutLowest word)
  rw [others]
  exact filter_range_eq_cons (BitVec.lt_of_getLsbD set) set fun _ =>
    BitVec.getLsbD_false_of_lt_ctz

end StackMaps.BitSet
