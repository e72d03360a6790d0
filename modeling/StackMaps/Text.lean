/-!
# Number spellings

The few ways in which listings and messages write numbers: hexadecimal with its
marker, hexadecimal padded to a column, single bytes, and decimal with an
explicit sign.
-/

namespace StackMaps

/-- The unit of packed storage, eight bits with the least significant first. -/
abbrev Byte : Type := BitVec 8

namespace Text

/-- Lower-case hexadecimal digits without leading zeros; zero is one digit. -/
def hexDigits (number : Nat) : String := String.ofList (Nat.toDigits 16 number)

/-- Hexadecimal with its marker. -/
def hex (number : Nat) : String := "0x" ++ hexDigits number

/-- Hexadecimal with its marker and at least four digits, so that the offsets of
a listing stand in one column. Longer numbers are written in full. -/
def hexColumn (number : Nat) : String :=
  let digits := Nat.toDigits 16 number
  "0x" ++ String.ofList (List.replicate (4 - digits.length) '0' ++ digits)

/-- A byte as exactly two digits. -/
def hexByte (byte : Byte) : String :=
  String.ofList [Nat.digitChar (byte.toNat / 16), Nat.digitChar (byte.toNat % 16)]

/-- Decimal with an explicit sign, also for zero. -/
def signed (number : Int) : String :=
  if number < 0 then "-" ++ toString number.natAbs else "+" ++ toString number.natAbs

/-- Decimal with a sign only when negative. -/
def decimal (number : Int) : String :=
  if number < 0 then "-" ++ toString number.natAbs else toString number.natAbs

end Text

end StackMaps
