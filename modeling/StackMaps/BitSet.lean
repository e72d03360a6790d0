import StackMaps.Walk

/-!
# Sets of small numbers

A set of natural numbers kept as 64-bit words, least significant bit first.
Words past the end of the list are zero. Inserting extends the list as far as
the new member needs. Trailing zero words carry no meaning: they are left out
when sets are compared and digested.

The members are handed out one by one by `walk`, which carries the bits of one word
and the words ahead. `toList` says what they are.
-/

namespace StackMaps

/-- A set of natural numbers as a list of 64-bit words. The words decide `=`, and the
members decide `==`. -/
structure BitSet where
  words : List (BitVec 64)
  deriving DecidableEq

namespace BitSet

/-- The set without members and without words. -/
def empty : BitSet := ⟨[]⟩

/-- The set without members, with words for the numbers below a bound. -/
def withCapacity (bound : Nat) : BitSet := ⟨List.replicate ((bound + 63) / 64) 0⟩

/-- A stored word; a missing one is zero. -/
def word (bits : BitSet) (position : Nat) : BitVec 64 := bits.words[position]?.getD 0

/-- Read the bit of a number. -/
def contains (bits : BitSet) (number : Nat) : Bool :=
  (bits.word (number / 64)).getLsbD (number % 64)

/-- The words, extended with zeros to at least the given count. -/
def extended (bits : BitSet) (count : Nat) : List (BitVec 64) :=
  bits.words ++ List.replicate (count - bits.words.length) 0

/-- Set the bit of a number, adding the words it needs. -/
def insert (bits : BitSet) (number : Nat) : BitSet :=
  ⟨(bits.extended (number / 64 + 1)).modify (number / 64) (· ||| BitVec.twoPow 64 (number % 64))⟩

/-- Insert numbers one after another. -/
def insertAll (bits : BitSet) (numbers : List Nat) : BitSet := numbers.foldl insert bits

/-- Whether every word is zero. -/
def isEmpty (bits : BitSet) : Bool := bits.words.all (· == 0)

/-- The number of set bits, summed word by word in machine arithmetic. -/
def count (bits : BitSet) : Checked Nat :=
  bits.words.foldlM (fun sum word => Checked.addSize sum word.cpop.toNat) 0

/-- The numbers of the set bits of one word, ascending, above a base. -/
def wordMembers (base : Nat) (word : BitVec 64) : List Nat :=
  if word = 0 then []
  else ((List.range 64).filter word.getLsbD).map (base + ·)

/-- The members of a list of words whose first word starts at a base. -/
def membersFrom : Nat → List (BitVec 64) → List Nat
  | _, [] => []
  | base, word :: rest => wordMembers base word ++ membersFrom (base + 64) rest

/-- The members in ascending order. -/
def toList (bits : BitSet) : List Nat := membersFrom 0 bits.words

/-- A word without its lowest set bit. -/
def withoutLowest (word : BitVec 64) : BitVec 64 := word &&& ~~~BitVec.twoPow 64 word.ctz.toNat

/-- A word is less without its lowest set bit. -/
theorem toNat_withoutLowest {word : BitVec 64} (nonzero : word ≠ 0) :
    (withoutLowest word).toNat < word.toNat := by
  have set : word.getLsbD word.ctz.toNat = true := BitVec.getLsbD_true_ctz_of_ne_zero nonzero
  have different : withoutLowest word ≠ word := by
    intro same
    have clear : (withoutLowest word).getLsbD word.ctz.toNat = false := by
      simp [withoutLowest]
    rw [same, set] at clear
    cases clear
  have bound : (withoutLowest word).toNat ≤ word.toNat := by
    rw [withoutLowest, BitVec.toNat_and]
    exact Nat.and_le_left
  exact Nat.lt_of_le_of_ne bound fun same => different (BitVec.eq_of_toNat_eq same)

/-- Where the listing of a set stands: the bits of the current word that are still
to come, how many words were taken, and the words ahead. -/
structure Cursor where
  current : BitVec 64
  taken : Nat
  ahead : List (BitVec 64)

/-- Nothing is taken before the first step. -/
def cursor (bits : BitSet) : Cursor := ⟨0, 0, bits.words⟩

namespace Cursor

/-- Take words until the current one has a bit to come. -/
def seek : List (BitVec 64) → BitVec 64 → Nat → Option Cursor
  | [], current, taken => if current = 0 then none else some ⟨current, taken, []⟩
  | word :: rest, current, taken =>
    if current = 0 then seek rest word (taken + 1) else some ⟨current, taken, word :: rest⟩

/-- The number of the lowest bit to come, which is then clear in the current word. -/
def next (cursor : Cursor) : Checked (Option (Nat × Cursor)) :=
  match seek cursor.ahead cursor.current cursor.taken with
  | none => .ok none
  | some found => do
    let position ← Checked.subtractSize found.taken 1
    let base ← Checked.multiplySize position 64
    let number ← Checked.addSize base found.current.ctz.toNat
    .ok (some (number, { found with current := withoutLowest found.current }))

/-- A bound on what is to come. Each word ahead outweighs every current word. -/
def size (cursor : Cursor) : Nat := cursor.ahead.length * UInt64.size + cursor.current.toNat

/-- Taking words ends at one that is not zero and adds nothing to what is to come. -/
theorem size_seek {ahead : List (BitVec 64)} {current : BitVec 64} {taken : Nat} {found : Cursor}
    (sought : seek ahead current taken = some found) :
    found.current ≠ 0 ∧ found.size ≤ ahead.length * UInt64.size + current.toNat := by
  induction ahead generalizing current taken with
  | nil =>
    rw [seek] at sought
    split at sought
    · cases sought
    · cases sought
      exact ⟨by assumption, Nat.le_refl _⟩
  | cons word rest induction =>
    rw [seek] at sought
    split at sought
    · obtain ⟨nonzero, bound⟩ := induction sought
      have weight : rest.length * UInt64.size + word.toNat ≤ (rest.length + 1) * UInt64.size := by
        rw [Nat.succ_mul]
        exact Nat.add_le_add_left (Nat.le_of_lt word.isLt) _
      exact ⟨nonzero, Nat.le_trans bound (Nat.le_trans weight (Nat.le_add_right _ _))⟩
    · cases sought
      exact ⟨by assumption, Nat.le_refl _⟩

/-- Every number given leaves less to come. -/
theorem size_next {cursor rest : Cursor} {number : Nat}
    (step : cursor.next = .ok (some (number, rest))) : rest.size < cursor.size := by
  rw [next] at step
  cases sought : seek cursor.ahead cursor.current cursor.taken with
  | none =>
    rw [sought] at step
    cases step
  | some found =>
    obtain ⟨nonzero, bound⟩ := size_seek sought
    have left : rest = { found with current := withoutLowest found.current } := by
      simp only [sought, bind, Except.bind] at step
      repeat' split at step
      all_goals cases step
      rfl
    have less := toNat_withoutLowest nonzero
    subst left
    exact Nat.lt_of_lt_of_le (Nat.add_lt_add_left less _) bound

end Cursor

/-- The walk through the members of a set. -/
def walk : Walk Cursor Nat where
  next := Cursor.next
  size := Cursor.size
  shrinks := Cursor.size_next

/-- The members in the order in which the walk comes to them. -/
def enumerate (bits : BitSet) : Checked (List Nat) := walk.collect bits.cursor

/-- Drop the zero words at the end of a list. -/
def trimmed : List (BitVec 64) → List (BitVec 64)
  | [] => []
  | word :: rest =>
    match trimmed rest with
    | [] => if word = 0 then [] else [word]
    | kept => word :: kept

/-- The words up to the last one that is not zero. Two sets are equal when
these words are, and a digest reads nothing else. -/
def significant (bits : BitSet) : List (BitVec 64) := trimmed bits.words

instance : BEq BitSet := ⟨fun left right => left.significant == right.significant⟩

/-- The members between braces, each followed by a space. -/
def text (bits : BitSet) : Checked String := do
  let members ← bits.enumerate
  return "\x7b " ++ String.join (members.map fun member => toString member ++ " ") ++ "\x7d"

end BitSet

end StackMaps
