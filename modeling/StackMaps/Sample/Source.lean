import StackMaps.Failure

/-!
# Sources of choices

A source answers questions, one after another: a number from a range, an element of
a list, a truth value, a word. What it answers depends on its state only, and it may
have no answer. `Source.bytes` is the source that a finite byte string is. It never
runs out: at the end of the bytes it goes on with the choices that zero bytes would
give. A number from a range reads no more bytes than the width of the range needs,
most significant first, and is reduced to the range.

A draw asks a source and performs checked operations in between. It ends early when
the source has no answer, at a fault, or when an operation that must be accepted is
refused.
-/

namespace StackMaps

/-- Something that answers questions from a state. -/
structure Source where
  State : Type
  /-- A number from one end of a range to the other, of a type with so many bytes. -/
  between (width : Nat) (low high : Int) : State → Option (Int × State)
  /-- An element of a list. -/
  choose {α : Type} (elements : List α) : State → Option (α × State)
  /-- A truth value. -/
  flag : State → Option (Bool × State)
  /-- A signed word of 64 bits. -/
  word : State → Option (Int64 × State)

namespace Source

namespace Bytes

/-- Read bytes as long as the span has digits left that they could decide, the
allowance is not used up, and there are bytes. Returns the number they spell. -/
def gather (span : Nat) : Nat → Nat → Nat → List Byte → Nat × List Byte
  | allowance + 1, used, sofar, byte :: rest =>
    if span / 256 ^ used = 0 then (sofar, byte :: rest)
    else gather span allowance (used + 1) (sofar * 256 + byte.toNat) rest
  | _, _, sofar, rest => (sofar, rest)

/-- A number from a range, reduced to it from the bytes that were read. -/
def between (width : Nat) (low high : Int) (bytes : List Byte) : Int × List Byte :=
  let span := (high - low).toNat
  let (number, rest) := gather span width 0 0 bytes
  (low + (number % (span + 1) : Nat), rest)

/-- The element at a position that is drawn from eight bytes. An empty list has none. -/
def choose {α : Type} (elements : List α) (bytes : List Byte) : Option (α × List Byte) :=
  let (position, rest) := between 8 0 (elements.length - 1) bytes
  elements[position.toNat]?.map fun element => (element, rest)

/-- The next byte, or zero at the end. -/
def next : List Byte → Byte × List Byte
  | [] => (0, [])
  | first :: rest => (first, rest)

/-- The number that the next bytes spell, least significant first. -/
def littleEndian : Nat → List Byte → Nat × List Byte
  | 0, bytes => (0, bytes)
  | count + 1, bytes =>
    let (low, rest) := next bytes
    let (high, rest) := littleEndian count rest
    (low.toNat + 256 * high, rest)

end Bytes

/-- A byte string, read from the front. -/
def bytes : Source where
  State := List Byte
  between width low high bytes := some (Bytes.between width low high bytes)
  choose := Bytes.choose
  flag bytes :=
    let (first, rest) := Bytes.next bytes
    some (first.getLsbD 0, rest)
  word bytes :=
    let (number, rest) := Bytes.littleEndian 8 bytes
    some ((UInt64.ofNat number).toInt64, rest)

end Source

/-- Why a draw ended early. -/
inductive Interruption where
  /-- The source had no answer. -/
  | exhausted
  /-- An operation could not go on. -/
  | fault (cause : Fault)
  /-- An operation that must be accepted was refused. -/
  | refused (failure : Failure)
  deriving DecidableEq

/-- A computation that asks a source. -/
abbrev Draw (source : Source) (α : Type) : Type := StateT source.State (Except Interruption) α

namespace Draw

variable {source : Source} {α : Type}

/-- Ask a question of the source. -/
def ask (question : source.State → Option (α × source.State)) : Draw source α := fun state =>
  match question state with
  | some answer => .ok answer
  | none => .error .exhausted

/-- Perform a checked step. -/
def perform (step : Checked α) : Draw source α := fun state =>
  match step with
  | .ok value => .ok (value, state)
  | .error cause => .error (.fault cause)

/-- Go on only if an operation was accepted. -/
def expect : Except Failure Unit → Draw source Unit
  | .ok () => pure ()
  | .error failure => fun _ => .error (.refused failure)

/-- Take a step so many times, each from where the last one ended. -/
def times (step : α → Draw source α) : Nat → α → Draw source α
  | 0, start => pure start
  | count + 1, start => do
    let next ← step start
    times step count next

end Draw

end StackMaps
