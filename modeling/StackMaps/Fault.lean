import StackMaps.Register
import StackMaps.Architecture

/-!
# Faults and checked arithmetic

A fault is a broken promise of the caller, or arithmetic that left its machine
range: the operation stops and has no result. Faults are kept apart from the
ordinary refusals of the library, which are answers a caller is expected to
handle. Each cause has one wording, given by `Fault.message`.

Machine arithmetic is done in checked steps. A step that would leave its range
is a fault at that step, so which fault stops a computation follows from the
order of its steps.
-/

namespace StackMaps

/-- Why an operation could not go on. -/
inductive Fault where
  /-- A register was requested with an encoding above five bits. -/
  | codeTooLarge
  /-- A register set was asked about a register beyond its 64 places. -/
  | shiftTooFar
  /-- A position past the end of a table of the given length. -/
  | outOfBounds (length index : Nat)
  /-- A range that starts past the end of a table of the given length. -/
  | rangeStartsPastEnd (start length : Nat)
  /-- A range that ends past the end of a table of the given length. -/
  | rangeEndsPastEnd (stop length : Nat)
  /-- A sum left its machine range. -/
  | addOverflow
  /-- A difference left its machine range. -/
  | subtractOverflow
  /-- A product left its machine range. -/
  | multiplyOverflow
  /-- A size above half of the address space, which no memory can have. -/
  | capacityOverflow
  /-- A quotient by zero. -/
  | divideByZero
  /-- A remainder by zero. -/
  | remainderByZero
  /-- A handle that refers to nothing was used as an index. -/
  | invalidHandle
  /-- Liveness was recorded at a safepoint the method does not have. -/
  | safepointBeyondEnd
  /-- A frame layout with slots of no width. -/
  | zeroWidth
  /-- Fewer bytes than the bits that were to be read from them. -/
  | tooFewBytes
  /-- A bit at or above the length of its bitmap was to be set. -/
  | bitBeyondLength (position length : Nat)
  /-- A bitmap whose length is not the one its table stores. -/
  | lengthMismatch (left right : Nat)
  /-- A catalog was asked about a register the target does not have. -/
  | foreignRegister (register : Register) (target : Architecture)
  /-- A catalog was given more or fewer names than registers. -/
  | namesUnmatched
  /-- A catalog was given a register away from the position of its encoding. -/
  | codeOutOfPlace
  /-- A catalog was given a register among those of the other bank. -/
  | bankOutOfPlace
  deriving DecidableEq

namespace Fault

/-- The wording of each fault. -/
def message : Fault → String
  | codeTooLarge => "assertion failed: hw_enc <= PReg::MAX"
  | shiftTooFar => "attempt to shift left with overflow"
  | outOfBounds length index =>
    "index out of bounds: the len is " ++ toString length ++ " but the index is " ++
      toString index
  | rangeStartsPastEnd start length =>
    "range start index " ++ toString start ++ " out of range for slice of length " ++
      toString length
  | rangeEndsPastEnd stop length =>
    "range end index " ++ toString stop ++ " out of range for slice of length " ++
      toString length
  | addOverflow => "attempt to add with overflow"
  | subtractOverflow => "attempt to subtract with overflow"
  | multiplyOverflow => "attempt to multiply with overflow"
  | capacityOverflow => "capacity overflow"
  | divideByZero => "attempt to divide by zero"
  | remainderByZero => "attempt to calculate the remainder with a divisor of zero"
  | invalidHandle => "assertion failed: self.is_valid()"
  | safepointBeyondEnd => "assertion failed: safepoint.index() < self.safepoints.len()"
  | zeroWidth => "assertion failed: stack_slot_width > 0"
  | tooFewBytes => "assertion failed: bytes.len() * 8 >= len"
  | bitBeyondLength position length =>
    "bit " ++ toString position ++ " of a " ++ toString length ++ "-bit map"
  | lengthMismatch left right =>
    "assertion `left == right` failed\n  left: " ++ toString left ++ "\n right: " ++
      toString right
  | foreignRegister register target => register.text ++ " is not a register of " ++ target.name
  | namesUnmatched => "assertion failed: regs.len() == names_by_class[class].len()"
  | codeOutOfPlace => "assertion failed: regs[i].hw_enc() == i"
  | bankOutOfPlace => "assertion failed: regs[i].class() as usize == class"

end Fault

/-- A computation that either completes or stops at a fault. -/
abbrev Checked (α : Type) : Type := Except Fault α

namespace Checked

/-- Add two 32-bit quantities. -/
def add (left right : UInt32) : Checked UInt32 :=
  if left.toNat + right.toNat < UInt32.size then .ok (left + right) else .error .addOverflow

/-- Divide two 32-bit quantities, discarding the remainder. -/
def divide (left right : UInt32) : Checked UInt32 :=
  if right = 0 then .error .divideByZero else .ok (left / right)

/-- The remainder of a division of 32-bit quantities. -/
def remainder (left right : UInt32) : Checked UInt32 :=
  if right = 0 then .error .remainderByZero else .ok (left % right)

/-- Add two signed 64-bit quantities. -/
def addSigned (left right : Int) : Checked Int :=
  if Int64.minValue.toInt ≤ left + right ∧ left + right ≤ Int64.maxValue.toInt then
    .ok (left + right)
  else .error .addOverflow

/-- Multiply two signed 32-bit quantities. -/
def multiplySigned (left right : Int32) : Checked Int32 :=
  if Int32.minValue.toInt ≤ left.toInt * right.toInt ∧
      left.toInt * right.toInt ≤ Int32.maxValue.toInt then
    .ok (left * right)
  else .error .multiplyOverflow

/-- Add two sizes of the 64-bit address space. -/
def addSize (left right : Nat) : Checked Nat :=
  if left + right < UInt64.size then .ok (left + right) else .error .addOverflow

/-- Subtract a size from another that must not be smaller. -/
def subtractSize (left right : Nat) : Checked Nat :=
  if right ≤ left then .ok (left - right) else .error .subtractOverflow

/-- Multiply two sizes of the 64-bit address space. -/
def multiplySize (left right : Nat) : Checked Nat :=
  if left * right < UInt64.size then .ok (left * right) else .error .multiplyOverflow

/-- A size that memory can have: it stays below half of the address space. -/
def requireCapacity (size : Nat) : Checked Unit :=
  if size < UInt64.size / 2 then .ok () else .error .capacityOverflow

/-- The element at a position of a table. -/
def element {α : Type} (table : List α) (index : Nat) : Checked α :=
  match table[index]? with
  | some value => .ok value
  | none => .error (.outOfBounds table.length index)

/-- The run of a table from one position up to a later one. Where it starts is
tested before where it ends. -/
def range {α : Type} (table : List α) (start stop : Nat) : Checked (List α) :=
  if table.length < start then .error (.rangeStartsPastEnd start table.length)
  else if table.length < stop then .error (.rangeEndsPastEnd stop table.length)
  else .ok ((table.drop start).take (stop - start))

end Checked

end StackMaps
