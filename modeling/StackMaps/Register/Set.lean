import StackMaps.Walk

/-!
# Sets of registers

A register set is one 64-bit word with a bit for each register place. A register
whose index lies beyond the word has no bit: putting it in, taking it out and
asking for it are faults, while `has` reads the word and finds nothing there.
Every other 64-bit word is a set, whoever made it.

The registers of a set are listed at once by `toList`, and taken out one by one by
`walk`.
-/

namespace StackMaps

namespace Register

/-- A register with the given encoding, which must fit in five bits. -/
def make (code : Nat) (bank : Bank) : Checked Register :=
  if code < 32 then .ok ⟨UInt8.ofNat code, bank⟩ else .error .codeTooLarge

/-- The register at a place, made from its encoding bits and its bank bit. -/
def atPlace (place : Nat) : Checked Register :=
  make (place % 32) (if place / 32 % 2 = 0 then .general else .floating)

/-- The register's place among the 64, when it has one. -/
def place? (register : Register) : Option (Fin places) :=
  if inside : register.index < places then some ⟨register.index, inside⟩ else none

end Register

/-- A set of registers as a word of membership bits. -/
structure RegisterSet where
  word : BitVec 64
  deriving DecidableEq

namespace RegisterSet

/-- The set without registers. -/
def empty : RegisterSet := ⟨0⟩

/-- Whether the register's bit is set. A register without a bit is absent. -/
def has (registers : RegisterSet) (register : Register) : Bool :=
  registers.word.getLsbD register.index

/-- Set the register's bit, if it has one. -/
def put (registers : RegisterSet) (register : Register) : RegisterSet :=
  ⟨registers.word ||| BitVec.twoPow 64 register.index⟩

/-- Clear the register's bit, if it has one. -/
def drop (registers : RegisterSet) (register : Register) : RegisterSet :=
  ⟨registers.word &&& ~~~BitVec.twoPow 64 register.index⟩

/-- An answer about a register that must have a bit. -/
def requireBit {α : Type} (register : Register) (answer : α) : Checked α :=
  if register.index < Register.places then .ok answer else .error .shiftTooFar

/-- Ask for a register. -/
def contains (registers : RegisterSet) (register : Register) : Checked Bool :=
  requireBit register (registers.has register)

/-- Put a register in. -/
def insert (registers : RegisterSet) (register : Register) : Checked RegisterSet :=
  requireBit register (registers.put register)

/-- Take a register out. -/
def erase (registers : RegisterSet) (register : Register) : Checked RegisterSet :=
  requireBit register (registers.drop register)

/-- The registers of either set. -/
def union (left right : RegisterSet) : RegisterSet := ⟨left.word ||| right.word⟩

/-- Insert registers one after another. -/
def insertAll (registers : RegisterSet) (more : List Register) : Checked RegisterSet :=
  more.foldlM insert registers

/-- The set of the listed registers. -/
def ofList (registers : List Register) : Checked RegisterSet := empty.insertAll registers

/-- Insert the registers of a list from a position on. -/
def insertFrom (registers : RegisterSet) (more : List Register) (position : Nat) :
    Checked RegisterSet :=
  if position < more.length then do
    let register ← Checked.element more position
    let extended ← registers.insert register
    extended.insertFrom more (position + 1)
  else .ok registers
termination_by more.length - position

/-- The set of the listed registers, read from the list position by position. -/
def ofSlice (registers : List Register) : Checked RegisterSet := empty.insertFrom registers 0

/-- The set of the registers that a walk hands out. -/
def ofWalk {σ : Type} (walk : Walk σ Register) (state : σ) : Checked RegisterSet :=
  walk.fold insert empty state

/-- Whether no bit is set. -/
def isEmpty (registers : RegisterSet) : Bool := registers.word == 0

/-- The number of set bits. -/
def size (registers : RegisterSet) : Nat := registers.word.cpop.toNat

/-- The registers in ascending order of index. -/
def toList (registers : RegisterSet) : List Register :=
  ((List.range Register.places).filter registers.word.getLsbD).map Register.ofIndex

/-- Take the register with the lowest index out of a set. Subtracting one from the
word turns over its lowest set bit and the clear ones below, and keeps the rest. -/
def next (registers : RegisterSet) : Checked (Option (Register × RegisterSet)) :=
  if registers.word = 0 then .ok none
  else do
    let register ← Register.atPlace registers.word.ctz.toNat
    .ok (some (register, ⟨registers.word &&& (registers.word - 1)⟩))

/-- What is left of a set after a register was taken out is a smaller word. -/
theorem toNat_word_next {registers rest : RegisterSet} {register : Register}
    (step : registers.next = .ok (some (register, rest))) :
    rest.word.toNat < registers.word.toNat := by
  by_cases zero : registers.word = 0
  · simp [next, zero] at step
  · have positive : 0 < registers.word.toNat :=
      Nat.pos_of_ne_zero fun none => zero (BitVec.eq_of_toNat_eq none)
    have less : (registers.word - 1).toNat = registers.word.toNat - 1 :=
      BitVec.toNat_sub_of_le (BitVec.le_def.mpr positive)
    have left : rest.word = registers.word &&& (registers.word - 1) := by
      simp only [next, zero, if_false] at step
      cases made : Register.atPlace registers.word.ctz.toNat with
      | error fault =>
        rw [made] at step
        cases step
      | ok found =>
        rw [made] at step
        cases step
        rfl
    rw [left, BitVec.toNat_and, less]
    have below : registers.word.toNat &&& (registers.word.toNat - 1) ≤ registers.word.toNat - 1 :=
      Nat.and_le_right
    omega

/-- The walk through the registers of a set, which is what remains of it. -/
def walk : Walk RegisterSet Register where
  next := next
  size := fun registers => registers.word.toNat
  shrinks := toNat_word_next

/-- The registers in the order in which the walk takes them out. -/
def enumerate (registers : RegisterSet) : Checked (List Register) := walk.collect registers

/-- A change to a set. -/
inductive Change where
  | insert (register : Register)
  | erase (register : Register)
  | union (other : RegisterSet)
  deriving DecidableEq

/-- The set that one change leaves. -/
def change (registers : RegisterSet) : Change → Checked RegisterSet
  | .insert register => registers.insert register
  | .erase register => registers.erase register
  | .union other => .ok (registers.union other)

/-- The set that a sequence of changes leaves. -/
def changeAll : RegisterSet → List Change → Checked RegisterSet
  | registers, [] => .ok registers
  | registers, first :: rest => do
    let changed ← registers.change first
    changed.changeAll rest

/-- Full description of every member. -/
def describe (registers : RegisterSet) : String :=
  "\x7b" ++ String.intercalate ", " (registers.toList.map Register.describe) ++ "\x7d"

end RegisterSet

end StackMaps
