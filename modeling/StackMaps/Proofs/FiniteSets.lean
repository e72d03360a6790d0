import StackMaps.Proofs.LowestBits
import StackMaps.Proofs.Steps

/-!
# Words as finite sets

A list of words is a finite set of numbers, read bit by bit through `contains`. Inserting,
asking, listing, counting and comparing all mean this set, whatever zero words stand at the
end of the list. Where no zero word stands there the set determines the words.

The walk through a set carries the bits of one word and the words ahead. What it has yet
to hand out is a list, and each step takes the first number off that list: it skips words
without bits, and clears the lowest bit of the first other one. So the walk hands out the
members in ascending order and ends. Its numbers and the count are computed in the
machine's range, which has room for the numbers of almost 2⁵⁸ words.
-/

namespace StackMaps

namespace BitSet

/-! ## Members -/

/-- Extending the words with zeros changes no word that is read. -/
theorem word_extended (bits : BitSet) (count position : Nat) :
    (bits.extended count)[position]?.getD 0 = bits.word position := by
  unfold extended word
  by_cases inside : position < bits.words.length
  · rw [List.getElem?_append_left inside]
  · have absent : bits.words[position]? = none := List.getElem?_eq_none (by omega)
    rw [List.getElem?_append_right (by omega), absent, List.getElem?_replicate]
    split <;> rfl

/-- Inserting a number sets one bit of one word. -/
theorem word_insert (bits : BitSet) (number position : Nat) :
    (bits.insert number).word position =
      if number / 64 = position then bits.word position ||| BitVec.twoPow 64 (number % 64)
      else bits.word position := by
  have stored : number / 64 < (bits.extended (number / 64 + 1)).length := by
    simp only [extended, List.length_append, List.length_replicate]
    omega
  rw [← word_extended bits (number / 64 + 1) position]
  by_cases same : number / 64 = position
  · subst same
    simp only [insert, word, List.getElem?_modify_eq, if_true]
    rw [List.getElem?_eq_getElem stored]
    rfl
  · simp only [insert, word, List.getElem?_modify_ne _ _ same, same, if_false]

/-- After an insertion the set has the inserted number and what it had before.
Another number is in another word, or at another bit of the same word. -/
theorem contains_insert (bits : BitSet) (number tested : Nat) :
    (bits.insert number).contains tested = (decide (tested = number) || bits.contains tested) := by
  unfold contains
  rw [word_insert]
  by_cases sameWord : number / 64 = tested / 64
  · have sameNumber : number % 64 = tested % 64 ↔ tested = number := by omega
    have inside : number % 64 < 64 := Nat.mod_lt _ (by decide)
    simp only [sameWord, if_true, BitVec.getLsbD_or, BitVec.getLsbD_twoPow, inside, decide_true,
      Bool.true_and, sameNumber, Bool.or_comm]
  · have distinct : tested ≠ number := by
      intro same
      exact sameWord (same ▸ rfl)
    simp only [sameWord, if_false, distinct, decide_false, Bool.false_or]

/-- Inserting numbers one after another adds exactly those numbers. -/
theorem contains_insertAll (bits : BitSet) (numbers : List Nat) (tested : Nat) :
    (bits.insertAll numbers).contains tested =
      (decide (tested ∈ numbers) || bits.contains tested) := by
  induction numbers generalizing bits with
  | nil => simp [insertAll]
  | cons first rest induction =>
    change ((bits.insert first).insertAll rest).contains tested = _
    rw [induction, contains_insert]
    by_cases isFirst : tested = first
    · simp [isFirst]
    · simp [isFirst]

/-- No words hold no number. -/
theorem contains_empty (tested : Nat) : empty.contains tested = false := BitVec.getLsbD_zero

/-- Words set aside in advance hold no number. -/
theorem contains_withCapacity (bound tested : Nat) :
    (withCapacity bound).contains tested = false := by
  have zero : (withCapacity bound).word (tested / 64) = 0 := by
    simp only [word, withCapacity, List.getElem?_replicate]
    split <;> rfl
  rw [contains, zero]
  exact BitVec.getLsbD_zero

/-- The members of one word are the numbers above its base whose bit is set. -/
theorem mem_wordMembers (base : Nat) (word : BitVec 64) (number : Nat) :
    number ∈ wordMembers base word ↔
      base ≤ number ∧ word.getLsbD (number - base) = true := by
  unfold wordMembers
  by_cases zero : word = 0
  · simp [zero]
  · simp only [zero, if_false, List.mem_map, List.mem_filter, List.mem_range]
    constructor
    · rintro ⟨bit, ⟨_, set⟩, rfl⟩
      exact ⟨Nat.le_add_right base bit, by rwa [Nat.add_sub_cancel_left]⟩
    · rintro ⟨above, set⟩
      exact ⟨number - base, ⟨BitVec.lt_of_getLsbD set, set⟩, by omega⟩

/-- The members of a list of words are the numbers above its base whose bit is
set. A number is in the first word or, 64 further on, in the rest. -/
theorem mem_membersFrom (base : Nat) (words : List (BitVec 64)) (number : Nat) :
    number ∈ membersFrom base words ↔
      base ≤ number ∧ (BitSet.mk words).contains (number - base) = true := by
  induction words generalizing base with
  | nil => simp [membersFrom, contains, word]
  | cons first rest induction =>
    rw [membersFrom, List.mem_append, mem_wordMembers, induction]
    by_cases inFirst : number - base < 64
    · have position : (number - base) / 64 = 0 := by omega
      have bit : (number - base) % 64 = number - base := by omega
      have notLater : ¬ (base + 64 ≤ number) := by omega
      simp [contains, word, position, bit, notLater]
    · have outside : first.getLsbD (number - base) = false :=
        BitVec.getLsbD_of_ge first (number - base) (by omega)
      have position : (number - base) / 64 = (number - (base + 64)) / 64 + 1 := by omega
      have bit : (number - base) % 64 = (number - (base + 64)) % 64 := by omega
      have later : base + 64 ≤ number ↔ base ≤ number := by omega
      simp [contains, word, outside, position, bit, later]

/-- The listed members are the numbers that the set contains. -/
theorem mem_toList (bits : BitSet) (number : Nat) :
    number ∈ bits.toList ↔ bits.contains number = true := by
  simp [toList, mem_membersFrom]

/-- The members of one word ascend. -/
theorem wordMembers_ascending (base : Nat) (word : BitVec 64) :
    (wordMembers base word).Pairwise (· < ·) := by
  unfold wordMembers
  split
  · exact List.Pairwise.nil
  · rw [List.pairwise_map]
    refine (List.pairwise_lt_range.filter _).imp ?_
    intro left right below
    omega

/-- The members of a list of words ascend: those of the first word are less than 64
above its base, and the others are not. -/
theorem membersFrom_ascending (base : Nat) (words : List (BitVec 64)) :
    (membersFrom base words).Pairwise (· < ·) := by
  induction words generalizing base with
  | nil => exact List.Pairwise.nil
  | cons first rest induction =>
    rw [membersFrom, List.pairwise_append]
    refine ⟨wordMembers_ascending base first, induction (base + 64), ?_⟩
    intro left inFirst right inRest
    obtain ⟨above, set⟩ := (mem_wordMembers base first left).mp inFirst
    have inside : left - base < 64 := BitVec.lt_of_getLsbD set
    have later := ((mem_membersFrom (base + 64) rest right).mp inRest).1
    omega

/-- The members of a set are listed in ascending order. -/
theorem toList_ascending (bits : BitSet) : bits.toList.Pairwise (· < ·) :=
  membersFrom_ascending 0 bits.words

/-- A member has a word. -/
theorem lt_of_contains {bits : BitSet} {number : Nat} (member : bits.contains number = true) :
    number / 64 < bits.words.length := by
  refine Nat.lt_of_not_le fun beyond => ?_
  have absent : bits.contains number = false := by
    rw [contains, word, List.getElem?_eq_none beyond]
    exact BitVec.getLsbD_zero
  rw [absent] at member
  cases member

/-! ## Counting -/

/-- Counting the low bits of a word one after another counts the positions that read
as set. -/
theorem cpopNatRec_eq (word : BitVec 64) (bound start : Nat) :
    word.cpopNatRec bound start = start + ((List.range bound).filter word.getLsbD).length := by
  induction bound generalizing start with
  | zero => rw [BitVec.cpopNatRec_zero_self]; rfl
  | succ bound induction =>
    rw [BitVec.cpopNatRec_succ, induction, List.range_succ, List.filter_append, List.length_append]
    cases set : word.getLsbD bound with
    | false => simp [set]
    | true =>
      simp [set]
      omega

/-- A word has as many members as set bits. -/
theorem length_wordMembers (base : Nat) (word : BitVec 64) :
    (wordMembers base word).length = word.cpop.toNat := by
  unfold wordMembers
  by_cases zero : word = 0
  · rw [if_pos zero, zero, show (0 : BitVec 64) = 0#64 from rfl, BitVec.cpop_zero]
    rfl
  · rw [if_neg zero, List.length_map, BitVec.toNat_cpop, cpopNatRec_eq, Nat.zero_add]

/-- Words have no more members than bits. -/
theorem length_membersFrom_le (base : Nat) (words : List (BitVec 64)) :
    (membersFrom base words).length ≤ 64 * words.length := by
  induction words generalizing base with
  | nil => exact Nat.le_refl 0
  | cons first rest induction =>
    have few : (wordMembers base first).length ≤ 64 := by
      rw [length_wordMembers]
      exact BitVec.toNat_cpop_le first
    have later := induction (base + 64)
    rw [membersFrom, List.length_append, List.length_cons]
    omega

/-- The members are counted exactly if the machine has their number. -/
theorem count_eq_ok {bits : BitSet} {total : Nat} :
    bits.count = .ok total ↔ total = bits.toList.length ∧ total < 2 ^ 64 := by
  have summed : ∀ (words : List (BitVec 64)) (base start : Nat), start < 2 ^ 64 →
      (words.foldlM (fun sum word => Checked.addSize sum word.cpop.toNat) start = .ok total ↔
        total = start + (membersFrom base words).length ∧ total < 2 ^ 64) := by
    intro words
    induction words with
    | nil =>
      intro base start small
      simp only [List.foldlM_nil, Checked.pure_eq_ok, Except.ok.injEq, membersFrom, List.length_nil]
      omega
    | cons first rest induction =>
      intro base start small
      rw [List.foldlM_cons, Checked.bind_eq_ok, membersFrom, List.length_append, length_wordMembers]
      constructor
      · rintro ⟨sum, added, later⟩
        obtain ⟨room, rfl⟩ := Checked.addSize_eq_ok.mp added
        obtain ⟨same, fits⟩ := (induction (base + 64) _ room).mp later
        exact ⟨by omega, fits⟩
      · rintro ⟨same, fits⟩
        have room : start + first.cpop.toNat < 2 ^ 64 := by omega
        exact ⟨_, Checked.addSize_eq_ok.mpr ⟨room, rfl⟩,
          (induction (base + 64) _ room).mpr ⟨by omega, fits⟩⟩
  have counted := summed bits.words 0 0 (by decide)
  rwa [Nat.zero_add] at counted

/-! ## Equal sets -/

/-- Words that all read as zero are trimmed away. -/
theorem trimmed_eq_nil {words : List (BitVec 64)}
    (zero : ∀ position : Nat, words[position]?.getD 0 = 0) : trimmed words = [] := by
  induction words with
  | nil => rfl
  | cons first rest induction =>
    have firstZero : first = 0 := by simpa using zero 0
    have restZero : ∀ position : Nat, rest[position]?.getD 0 = 0 := by
      intro position
      simpa using zero (position + 1)
    rw [trimmed, induction restZero, firstZero]
    rfl

/-- Words that read alike at every position are trimmed alike. -/
theorem trimmed_congr {left right : List (BitVec 64)}
    (same : ∀ position : Nat, left[position]?.getD 0 = right[position]?.getD 0) :
    trimmed left = trimmed right := by
  induction left generalizing right with
  | nil =>
    apply Eq.symm
    apply trimmed_eq_nil
    intro position
    simpa using (same position).symm
  | cons first rest induction =>
    cases right with
    | nil =>
      apply trimmed_eq_nil
      intro position
      simpa using same position
    | cons other others =>
      have firstSame : first = other := by simpa using same 0
      have restSame : ∀ position : Nat, rest[position]?.getD 0 = others[position]?.getD 0 := by
        intro position
        simpa using same (position + 1)
      rw [trimmed, trimmed, induction restSame, firstSame]

/-- Sets that contain the same numbers read alike word by word. -/
theorem word_congr {left right : BitSet}
    (same : ∀ number, left.contains number = right.contains number) (position : Nat) :
    left.word position = right.word position := by
  apply BitVec.eq_of_getLsbD_eq
  intro bit inside
  have quotient : (64 * position + bit) / 64 = position := by omega
  have remainder : (64 * position + bit) % 64 = bit := by omega
  have read := same (64 * position + bit)
  rwa [contains, contains, quotient, remainder] at read

/-- Sets that contain the same numbers are equal. -/
theorem beq_of_contains {left right : BitSet}
    (same : ∀ number, left.contains number = right.contains number) : (left == right) = true := by
  have significantSame : left.significant = right.significant := trimmed_congr (word_congr same)
  change (left.significant == right.significant) = true
  rw [significantSame, beq_self_eq_true]

/-- Trimming drops only words that read as zero. -/
theorem getElem?_trimmed (words : List (BitVec 64)) (position : Nat) :
    (trimmed words)[position]?.getD 0 = words[position]?.getD 0 := by
  induction words generalizing position with
  | nil => rfl
  | cons first rest induction =>
    rw [trimmed]
    cases kept : trimmed rest with
    | nil =>
      -- The rest was dropped because it reads as zero, so the first word decides alone.
      have restZero : ∀ later : Nat, rest[later]?.getD 0 = 0 := by
        intro later
        rw [← induction later, kept, List.getElem?_nil, Option.getD_none]
      by_cases zero : first = 0
      · rw [if_pos zero, zero]
        cases position with
        | zero => rfl
        | succ position => exact (restZero position).symm
      · rw [if_neg zero]
        cases position with
        | zero => rfl
        | succ position => exact (restZero position).symm
    | cons word words =>
      rw [kept] at induction
      cases position with
      | zero => rfl
      | succ position => simpa using induction position

/-- Sets are equal exactly when they contain the same numbers. -/
theorem beq_iff {left right : BitSet} :
    (left == right) = true ↔ ∀ number, left.contains number = right.contains number := by
  refine ⟨?_, beq_of_contains⟩
  intro equal number
  have same : trimmed left.words = trimmed right.words := beq_iff_eq.mp equal
  have word : left.word (number / 64) = right.word (number / 64) := by
    rw [BitSet.word, BitSet.word, ← getElem?_trimmed left.words, same, getElem?_trimmed]
  rw [contains, contains, word]

/-- Sets of as many words that contain the same numbers are the same words. -/
theorem eq_of_contains {left right : BitSet} (length : left.words.length = right.words.length)
    (same : ∀ number, left.contains number = right.contains number) : left = right := by
  have words : left.words = right.words := by
    apply List.ext_getElem length
    intro position inLeft inRight
    have read := word_congr same position
    rwa [word, word, List.getElem?_eq_getElem inLeft, List.getElem?_eq_getElem inRight] at read
  cases left
  cases right
  exact congrArg BitSet.mk words

/-- Inserting a number adds the words up to its own. -/
theorem length_insert (bits : BitSet) (number : Nat) :
    (bits.insert number).words.length = max bits.words.length (number / 64 + 1) := by
  simp only [insert, extended, List.length_modify, List.length_append, List.length_replicate]
  omega

/-- Inserting numbers that have a word adds none. -/
theorem length_insertAll {bits : BitSet} {numbers : List Nat}
    (stored : ∀ number ∈ numbers, number / 64 < bits.words.length) :
    (bits.insertAll numbers).words.length = bits.words.length := by
  induction numbers generalizing bits with
  | nil => rfl
  | cons first rest induction =>
    have kept : (bits.insert first).words.length = bits.words.length := by
      rw [length_insert]
      exact Nat.max_eq_left (stored first (by simp))
    have later : ∀ number ∈ rest, number / 64 < (bits.insert first).words.length := by
      intro number member
      rw [kept]
      exact stored number (by simp [member])
    exact (induction later).trans kept

/-- The last word has a member, so that no zero word stands at the end. -/
def Tight (bits : BitSet) : Prop :=
  ∀ last, bits.words.length = last + 1 → ∃ number, bits.contains number = true ∧ number / 64 = last

/-- Nothing stands at the end of no words. -/
theorem tight_empty : empty.Tight := by
  intro last some
  cases some

/-- Inserting adds no word after that of the number. -/
theorem Tight.insert {bits : BitSet} (tight : bits.Tight) (number : Nat) :
    (bits.insert number).Tight := by
  intro last some
  rw [length_insert] at some
  by_cases own : number / 64 = last
  · exact ⟨number, by simp [contains_insert], own⟩
  · obtain ⟨other, member, home⟩ := tight last (by omega)
    exact ⟨other, by simp [contains_insert, member], home⟩

/-- Sets without zero words at the end that contain the same numbers are the same words. -/
theorem Tight.eq_of_contains {left right : BitSet} (leftTight : left.Tight)
    (rightTight : right.Tight) (same : ∀ number, left.contains number = right.contains number) :
    left = right := by
  have bound : ∀ {first second : BitSet}, first.Tight →
      (∀ number, first.contains number = second.contains number) →
      first.words.length ≤ second.words.length := by
    intro first second tight same
    cases size : first.words.length with
    | zero => exact Nat.zero_le _
    | succ last =>
      obtain ⟨number, member, rfl⟩ := tight last size
      exact lt_of_contains (same number ▸ member)
  refine BitSet.eq_of_contains (Nat.le_antisymm (bound leftTight same) ?_) same
  exact bound rightTight fun number => (same number).symm

/-- Such a set is made by inserting its members, in whatever order. -/
theorem Tight.insertAll_toList {bits : BitSet} (tight : bits.Tight) :
    empty.insertAll bits.toList = bits := by
  have inserted : ∀ (numbers : List Nat) {start : BitSet}, start.Tight →
      (start.insertAll numbers).Tight := by
    intro numbers
    induction numbers with
    | nil => exact id
    | cons first rest induction => exact fun tight => induction (tight.insert first)
  refine (inserted _ tight_empty).eq_of_contains tight fun number => ?_
  rw [contains_insertAll, contains_empty, Bool.or_false, Bool.eq_iff_iff, decide_eq_true_eq,
    mem_toList]

/-! ## The walk through the members -/

/-- The members of a word start with its lowest set bit. -/
theorem wordMembers_eq_cons (base : Nat) {word : BitVec 64} (nonzero : word ≠ 0) :
    wordMembers base word =
      (base + word.ctz.toNat) :: wordMembers base (withoutLowest word) := by
  have all : ∀ word : BitVec 64,
      wordMembers base word = ((List.range 64).filter word.getLsbD).map (base + ·) := by
    intro word
    rw [wordMembers]
    split
    · simp_all
    · rfl
  rw [all, all, setPositions_eq_cons nonzero, List.map_cons]

/-- A set without set bits has no members, and no other set is without members. -/
theorem isEmpty_iff (bits : BitSet) : bits.isEmpty = true ↔ bits.toList = [] := by
  have listed : ∀ (words : List (BitVec 64)) (base : Nat),
      words.all (· == 0) = true ↔ membersFrom base words = [] := by
    intro words
    induction words with
    | nil => simp [membersFrom]
    | cons first others induction =>
      intro base
      rw [List.all_cons, Bool.and_eq_true, induction (base + 64), membersFrom,
        List.append_eq_nil_iff, beq_iff_eq]
      by_cases zero : first = 0
      · simp [zero, wordMembers]
      · have member : wordMembers base first ≠ [] := by
          simp [wordMembers_eq_cons base zero]
        exact ⟨fun empty => absurd empty.1 zero, fun empty => absurd empty.1 member⟩
  exact listed bits.words 0

namespace Cursor

/-- The numbers that are still to be handed out: those of the current word, which is the
last one taken, and those of the words ahead. -/
def pending (cursor : Cursor) : List Nat :=
  wordMembers ((cursor.taken - 1) * 64) cursor.current ++
    membersFrom (cursor.taken * 64) cursor.ahead

/-- The current word was taken, unless it has no bits. -/
def Begun (cursor : Cursor) : Prop := cursor.current = 0 ∨ 0 < cursor.taken

/-- Taking words ends at one that has bits, with the same numbers to come, or at the end
of the words, with none to come. -/
theorem seek_exact {ahead : List (BitVec 64)} {current : BitVec 64} {taken : Nat}
    (begun : Begun ⟨current, taken, ahead⟩) :
    (seek ahead current taken = none ∧ pending ⟨current, taken, ahead⟩ = []) ∨
      ∃ found, seek ahead current taken = some found ∧ found.current ≠ 0 ∧ 0 < found.taken ∧
        found.pending = pending ⟨current, taken, ahead⟩ := by
  induction ahead generalizing current taken with
  | nil =>
    by_cases zero : current = 0
    · left
      simp [seek, zero, pending, wordMembers, membersFrom]
    · right
      exact ⟨⟨current, taken, []⟩, if_neg zero, zero, begun.resolve_left zero, rfl⟩
  | cons word rest induction =>
    by_cases zero : current = 0
    · -- A word without bits is left for the next one, which is then the last one taken.
      have moved : pending ⟨current, taken, word :: rest⟩ = pending ⟨word, taken + 1, rest⟩ := by
        simp [pending, zero, wordMembers, membersFrom, Nat.add_mul]
      have sought : seek (word :: rest) current taken = seek rest word (taken + 1) := by
        simp [seek, zero]
      rw [moved, sought]
      exact induction (Or.inr (Nat.succ_pos taken))
    · right
      exact ⟨⟨current, taken, word :: rest⟩, if_neg zero, zero, begun.resolve_left zero, rfl⟩

variable {cursor : Cursor} {number : Nat} {numbers : List Nat}

/-- With nothing to come the walk ends. -/
theorem next_of_pending_nil (begun : cursor.Begun) (none : cursor.pending = []) :
    cursor.next = .ok .none := by
  rcases seek_exact begun with ⟨sought, _⟩ | ⟨found, _, nonzero, _, same⟩
  · rw [next, sought]
  · rw [pending, wordMembers_eq_cons _ nonzero] at same
    cases same.trans none

/-- A step comes to the first number ahead, and completes exactly if the machine has it. It
hands the number out and leaves the others. -/
theorem next_of_pending_cons (begun : cursor.Begun) (first : cursor.pending = number :: numbers) :
    ∃ rest, rest.Begun ∧ rest.pending = numbers ∧
      ∀ outcome, cursor.next = .ok outcome ↔ number < 2 ^ 64 ∧ outcome = some (number, rest) := by
  rcases seek_exact begun with ⟨_, none⟩ | ⟨found, sought, nonzero, taken, same⟩
  · cases none.symm.trans first
  · have split := same.trans first
    rw [pending, wordMembers_eq_cons _ nonzero, List.cons_append, List.cons.injEq] at split
    obtain ⟨rfl, left⟩ := split
    refine ⟨{ found with current := withoutLowest found.current }, Or.inr taken, left, ?_⟩
    intro outcome
    have position : Checked.subtractSize found.taken 1 = .ok (found.taken - 1) := if_pos taken
    simp only [next, sought, position, Checked.ok_bind, Checked.bind_eq_ok,
      Checked.multiplySize_eq_ok, Checked.addSize_eq_ok, Except.ok.injEq]
    constructor
    · rintro ⟨_, ⟨_, rfl⟩, _, ⟨small, rfl⟩, rfl⟩
      exact ⟨small, rfl⟩
    · rintro ⟨small, rfl⟩
      exact ⟨_, ⟨by omega, rfl⟩, _, ⟨small, rfl⟩, rfl⟩

/-- The walk hands out what is ahead and ends, exactly if the machine has all of it. -/
theorem yields_iff (begun : cursor.Begun) : walk.Yields cursor numbers ↔
    numbers = cursor.pending ∧ ∀ number ∈ numbers, number < 2 ^ 64 := by
  constructor
  · intro yields
    induction yields with
    | @ended cursor last =>
      cases ahead : cursor.pending with
      | nil => exact ⟨rfl, by simp⟩
      | cons first others =>
        obtain ⟨rest, _, _, completes⟩ := next_of_pending_cons begun ahead
        cases ((completes _).mp last).2
    | @handed cursor rest item items step _ induction =>
      cases ahead : cursor.pending with
      | nil => cases step.symm.trans (next_of_pending_nil begun ahead)
      | cons first others =>
        obtain ⟨after, later, left, completes⟩ := next_of_pending_cons begun ahead
        obtain ⟨small, same⟩ := (completes _).mp step
        cases same
        obtain ⟨rfl, fits⟩ := induction later
        exact ⟨by rw [left], List.forall_mem_cons.mpr ⟨small, fits⟩⟩
  · rintro ⟨ahead, small⟩
    induction numbers generalizing cursor with
    | nil => exact .ended (next_of_pending_nil begun ahead.symm)
    | cons first others induction =>
      obtain ⟨rest, later, left, completes⟩ := next_of_pending_cons begun ahead.symm
      obtain ⟨fits, othersFit⟩ := List.forall_mem_cons.mp small
      exact .handed ((completes _).mpr ⟨fits, rfl⟩) (induction later left.symm othersFit)

end Cursor

variable {bits : BitSet}

/-- Before the first step all members are ahead. -/
theorem pending_cursor (bits : BitSet) : bits.cursor.pending = bits.toList := by
  simp [Cursor.pending, cursor, wordMembers, toList]

/-- The walk through a set hands out its members in ascending order and ends, exactly if
they are all in the machine's range. -/
theorem yields_toList_iff (bits : BitSet) : walk.Yields bits.cursor bits.toList ↔
    ∀ number, bits.contains number = true → number < 2 ^ 64 := by
  rw [Cursor.yields_iff (Or.inl rfl), pending_cursor, and_iff_right rfl]
  simp only [mem_toList]

/-- Members in the machine's range are enumerated. -/
theorem enumerate_eq (small : ∀ number, bits.contains number = true → number < 2 ^ 64) :
    bits.enumerate = .ok bits.toList :=
  Walk.collect_of_yields (bits.yields_toList_iff.mpr small)

/-- Visiting the members completes exactly if they are all in the machine's range and
visiting their list completes. -/
theorem fold_walk_eq_ok {α : Type} {visit : α → Nat → Checked α} {start final : α} :
    walk.fold visit start bits.cursor = .ok final ↔
      (∀ number, bits.contains number = true → number < 2 ^ 64) ∧
        bits.toList.foldlM visit start = .ok final := by
  constructor
  · intro completed
    obtain ⟨items, yields, visited⟩ := Walk.yields_of_fold completed
    obtain rfl : items = bits.toList := by
      rw [← pending_cursor]
      exact ((Cursor.yields_iff (Or.inl rfl)).mp yields).1
    exact ⟨bits.yields_toList_iff.mp yields, visited⟩
  · rintro ⟨small, visited⟩
    rwa [Walk.fold_of_yields (bits.yields_toList_iff.mpr small)]

/-- In fewer than 2⁵⁸ words all members are in the machine's range, and so is their
number. -/
theorem small_of_few (few : bits.words.length < 2 ^ 58) :
    (∀ number, bits.contains number = true → number < 2 ^ 64) ∧ bits.toList.length < 2 ^ 64 := by
  constructor
  · intro number member
    have home := lt_of_contains member
    omega
  · have bound : bits.toList.length ≤ 64 * bits.words.length := length_membersFrom_le 0 bits.words
    omega

end BitSet

/-- A list of words is a finite set of numbers. Inserting adds one member, so inserting
numbers into an empty set, of whatever capacity, makes the set of these numbers. The walk
through a set ends after handing out the members in ascending order, exactly if the machine
has all these numbers, which are then enumerated. They are counted exactly if the machine
has their number. Fewer than 2⁵⁸ words are always walked through and counted. Sets are equal
exactly if they have the same members, whatever words they store, and are then digested from
the same words. -/
theorem words_form_finite_set (bits : BitSet) :
    (∀ number tested, (bits.insert number).contains tested = true ↔
      tested = number ∨ bits.contains tested = true) ∧
    (∀ bound numbers tested,
      ((BitSet.empty.insertAll numbers).contains tested = true ↔ tested ∈ numbers) ∧
      (((BitSet.withCapacity bound).insertAll numbers).contains tested = true ↔
        tested ∈ numbers)) ∧
    (BitSet.walk.Yields bits.cursor bits.toList ↔
      ∀ number, bits.contains number = true → number < 2 ^ 64) ∧
    (BitSet.walk.Yields bits.cursor bits.toList → bits.enumerate = .ok bits.toList) ∧
    bits.toList.Pairwise (· < ·) ∧
    (∀ number, number ∈ bits.toList ↔ bits.contains number = true) ∧
    (∀ total, bits.count = .ok total ↔ total = bits.toList.length ∧ total < 2 ^ 64) ∧
    (bits.words.length < 2 ^ 58 →
      BitSet.walk.Yields bits.cursor bits.toList ∧ bits.count = .ok bits.toList.length) ∧
    (bits.isEmpty = true ↔ bits.toList = []) ∧
    ∀ other : BitSet,
      ((bits == other) = true ↔ ∀ number, bits.contains number = other.contains number) ∧
      ((∀ number, bits.contains number = other.contains number) →
        bits.significant = other.significant) := by
  refine ⟨?_, ?_, bits.yields_toList_iff, Walk.collect_of_yields, bits.toList_ascending,
    bits.mem_toList, fun _ => BitSet.count_eq_ok, ?_, bits.isEmpty_iff,
    fun other => ⟨BitSet.beq_iff, ?_⟩⟩
  · intro number tested
    simp [BitSet.contains_insert]
  · intro bound numbers tested
    simp [BitSet.contains_insertAll, BitSet.contains_withCapacity, BitSet.contains_empty]
  · intro few
    obtain ⟨numbers, total⟩ := BitSet.small_of_few few
    exact ⟨bits.yields_toList_iff.mpr numbers, BitSet.count_eq_ok.mpr ⟨rfl, total⟩⟩
  · intro same
    have equal : (bits == other) = true := BitSet.beq_iff.mpr same
    exact beq_iff_eq.mp equal

/-- A set whose members are in the second and third of four words, with the highest bit of
a word among them. It equals the set into which its members were inserted the other way
round. -/
theorem words_form_finite_set_gapped :
    (⟨[0, 0x8000000000000001, 2, 0]⟩ : BitSet).enumerate = .ok [64, 127, 129] ∧
    (⟨[0, 0x8000000000000001, 2, 0]⟩ : BitSet).count = .ok 3 ∧
    ((⟨[0, 0x8000000000000001, 2, 0]⟩ : BitSet) ==
      BitSet.empty.insertAll [129, 127, 64]) = true := by
  obtain ⟨_, inserted, _, enumerated, _, members, _, few, _, equal⟩ :=
    words_form_finite_set ⟨[0, 0x8000000000000001, 2, 0]⟩
  have listed : (⟨[0, 0x8000000000000001, 2, 0]⟩ : BitSet).toList = [64, 127, 129] := by
    decide +kernel
  obtain ⟨walked, counted⟩ := few (by decide)
  rw [listed] at walked enumerated members counted
  refine ⟨enumerated walked, counted, (equal _).1.mpr fun number => Bool.eq_iff_iff.mpr ?_⟩
  rw [← members, (inserted 0 _ number).1]
  simp only [List.mem_cons, List.not_mem_nil, or_false]
  omega

end StackMaps
