/-!
# Physical registers

A register is named by its hardware encoding inside one of two banks. Five
encoding bits below one bank bit give every register of a real target a place
among 64; that place is its bit in a register set and its row in a convention's
save table.

Encodings arrive from outside as whole bytes, so a register may carry one that
no target has. Its index is still defined, by the same bit pattern, and may then
lie beyond the 64 places.
-/

namespace StackMaps

/-- The two register files of a target: general-purpose and floating-point. -/
inductive Bank where
  | general
  | floating
  deriving DecidableEq

namespace Bank

/-- Both banks, general-purpose first. -/
def all : List Bank := [.general, .floating]

/-- The bank bit of a register index. -/
def rank : Bank → Nat
  | .general => 0
  | .floating => 1

/-- The bank as it is spelled in messages. -/
def label : Bank → String
  | .general => "Int"
  | .floating => "Float"

/-- The letter that ends the short name of a register of this bank. -/
def letter : Bank → String
  | .general => "i"
  | .floating => "f"

end Bank

/-- A register: a hardware encoding and the bank it counts in. Any byte is
admitted as an encoding; membership in a target is a catalog's answer. -/
structure Register where
  code : UInt8
  bank : Bank
  deriving DecidableEq

namespace Register

/-- Number of bits an encoding may use on a supported target. -/
def codeBits : Nat := 5

/-- Number of places a register of a supported target can take. -/
def places : Nat := 64

/-- The bank bit above the encoding bits. An encoding that does not fit in five
bits overlaps the bank bit instead of moving it. -/
def index (register : Register) : Nat :=
  (register.bank.rank <<< codeBits) ||| register.code.toNat

/-- The register at a place. Only the six index bits are read, so every number
denotes some register. -/
def ofIndex (place : Nat) : Register where
  code := UInt8.ofNat (place % 32)
  bank := if place / 32 % 2 = 0 then .general else .floating

/-- Stands where no register is meant. It is the last general-purpose place,
which only the larger targets use. -/
def placeholder : Register := ⟨31, .general⟩

/-- Short name, used in messages that cannot rely on a target's own names. -/
def text (register : Register) : String :=
  "p" ++ toString register.code.toNat ++ register.bank.letter

/-- Long form with every component spelled out. -/
def describe (register : Register) : String :=
  "PReg(hw = " ++ toString register.code.toNat ++ ", class = " ++ register.bank.label ++
    ", index = " ++ toString register.index ++ ")"

/-- Registers are listed by encoding, and within one encoding by bank. -/
def le (left right : Register) : Bool :=
  left.code < right.code || (left.code == right.code && left.bank.rank ≤ right.bank.rank)

/-- Registers in listing order. -/
def sorted (registers : List Register) : List Register := registers.mergeSort le

end Register

end StackMaps
