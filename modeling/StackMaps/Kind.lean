import StackMaps.Register

/-!
# Value kinds

What a compiler value is, as far as storage goes: whether the collector follows
it, which register bank can hold it, and how many bytes it takes.
-/

namespace StackMaps

/-- The kinds of compiler values. Only references are traced by the collector. -/
inductive Kind where
  | reference
  | word
  | int
  | long
  | float
  | double
  deriving DecidableEq

namespace Kind

/-- Every kind, in the order that numbers them in stored methods. -/
def all : List Kind := [.reference, .word, .int, .long, .float, .double]

/-- Only a reference is followed by the collector. -/
def isReference : Kind → Bool
  | .reference => true
  | _ => false

/-- The bank whose registers can hold a value of this kind. -/
def bank : Kind → Bank
  | .float | .double => .floating
  | .reference | .word | .int | .long => .general

/-- Bytes a value takes on a target with the given word size. -/
def size (wordSize : UInt32) : Kind → UInt32
  | .reference | .word => wordSize
  | .int | .float => 4
  | .long | .double => 8

/-- The kind as it is written in listings. -/
def text : Kind → String
  | .reference => "ref"
  | .word => "word"
  | .int => "int"
  | .long => "long"
  | .float => "float"
  | .double => "double"

end Kind

end StackMaps
