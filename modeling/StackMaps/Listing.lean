import StackMaps.Method

/-!
# Listings of compiled methods

A compiled method is listed as one line with its name, target, frame size and
number of safepoints, and one line for each entry of its table with the frame
slots and the registers that hold references. Registers appear under the
target's names, so an entry that marks a register the target does not have
cannot be listed.
-/

namespace StackMaps

namespace CompiledMethod

/-- The names of the registers with the given encodings. -/
def registerNames (catalog : Catalog) (codes : List Nat) : Checked (List String) :=
  codes.mapM fun code => do
    let register ← Checked.element (catalog.registers .general) code
    catalog.name register

/-- The line of one entry. -/
def entryLine (catalog : Catalog) (entry : Entry) : Checked String := do
  let slots ← entry.frameSlotsChecked
  let codes ← entry.registerCodesChecked
  let names ← registerNames catalog codes
  return "  " ++ Text.hexColumn entry.pc.toNat ++ ": frame [" ++
    String.intercalate " " (slots.map toString) ++ "] regs [" ++
    String.intercalate " " names ++ "]\n"

/-- The first line. -/
def header (method : CompiledMethod) : String :=
  method.name ++ " (" ++ method.target.name ++ ", frame " ++ toString method.frameSize.toNat ++
    " bytes, " ++ toString method.maps.size ++ " safepoint(s))\n"

/-- The listing of a compiled method. -/
def listing (method : CompiledMethod) : Checked String := do
  let lines ← (List.range method.maps.size).mapM fun position => do
    let entry ← method.maps.entry position
    entryLine method.target.catalog entry
  return method.header ++ String.join lines

/-- The packed bytes of one entry as hexadecimal, frame first. -/
def bytesLine (entry : Entry) : String :=
  let row (bytes : List Byte) := String.intercalate " " (bytes.map Text.hexByte)
  "  " ++ Text.hexColumn entry.pc.toNat ++ ": " ++ row entry.frame ++ " | " ++
    row entry.registers ++ "\n"

/-- The packed bytes of the whole table. -/
def bytesListing (method : CompiledMethod) : Checked String := do
  let entries ← method.maps.entries
  return "table: " ++ toString method.maps.frameBits ++ " frame bit(s), " ++
    toString method.maps.registerBits ++ " register bit(s) per entry\n" ++
    String.join (entries.map bytesLine)

end CompiledMethod

end StackMaps
