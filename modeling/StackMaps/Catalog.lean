import StackMaps.Fault

/-!
# Register catalogs

A catalog lists the registers of one target, bank by bank, with their assembler
names. Both tables are dense: the register at position `i` of a bank's table has
encoding `i`, so an encoding is at once the catalog index of its register and
its bit in the register half of a reference map. A catalog can only be made from
tables that are dense and of equal length, and carries that fact.
-/

namespace StackMaps

namespace Catalog

/-- The tables of one bank agree in length, and each register stands at the
position of its encoding and in its own bank. -/
def Dense (bank : Bank) (registers : List Register) (names : List String) : Prop :=
  registers.length = names.length ∧
    ∀ entry ∈ registers.zipIdx, entry.1.code.toNat = entry.2 ∧ entry.1.bank = bank

instance (bank : Bank) (registers : List Register) (names : List String) :
    Decidable (Dense bank registers names) :=
  inferInstanceAs (Decidable (_ ∧ _))

/-- Both banks have dense tables. -/
def WellFormed (registers : Bank → List Register) (names : Bank → List String) : Prop :=
  Dense .general (registers .general) (names .general) ∧
    Dense .floating (registers .floating) (names .floating)

instance (registers : Bank → List Register) (names : Bank → List String) :
    Decidable (WellFormed registers names) :=
  inferInstanceAs (Decidable (_ ∧ _))

end Catalog

/-- The registers of one target and their names. -/
structure Catalog where
  target : Architecture
  registers : Bank → List Register
  names : Bank → List String
  wellFormed : Catalog.WellFormed registers names

namespace Catalog

/-- Go through the registers of a bank from a position on: each must stand at the
position of its encoding and in its own bank. -/
def examineFrom (bank : Bank) : Nat → List Register → Checked Unit
  | _, [] => .ok ()
  | position, register :: rest =>
    if register.code.toNat ≠ position then .error .codeOutOfPlace
    else if register.bank ≠ bank then .error .bankOutOfPlace
    else examineFrom bank (position + 1) rest

/-- Examine the tables of one bank: first their lengths, then the registers. -/
def examine (bank : Bank) (registers : List Register) (names : List String) : Checked Unit :=
  if registers.length ≠ names.length then .error .namesUnmatched
  else examineFrom bank 0 registers

/-- Registers pass from a position on exactly when each stands where it should. -/
theorem examineFrom_eq_ok {bank : Bank} {position : Nat} {registers : List Register} :
    examineFrom bank position registers = .ok () ↔
      ∀ entry ∈ registers.zipIdx position, entry.1.code.toNat = entry.2 ∧ entry.1.bank = bank := by
  induction registers generalizing position with
  | nil => simp [examineFrom]
  | cons first rest induction =>
    rw [examineFrom, List.zipIdx_cons, List.forall_mem_cons, ← induction]
    by_cases code : first.code.toNat = position
    · by_cases same : first.bank = bank
      · simp [code, same]
      · simp [code, same]
    · simp [code]

/-- Tables pass exactly when they are dense. -/
theorem examine_eq_ok {bank : Bank} {registers : List Register} {names : List String} :
    examine bank registers names = .ok () ↔ Dense bank registers names := by
  rw [examine, Dense, ← examineFrom_eq_ok]
  by_cases length : registers.length = names.length
  · simp [length]
  · simp [length]

/-- A catalog over the given tables, which are examined bank by bank. -/
def ofTables (target : Architecture) (registers : Bank → List Register)
    (names : Bank → List String) : Checked Catalog :=
  match general : examine .general (registers .general) (names .general) with
  | .error fault => .error fault
  | .ok () =>
    match floating : examine .floating (registers .floating) (names .floating) with
    | .error fault => .error fault
    | .ok () =>
      .ok ⟨target, registers, names, examine_eq_ok.mp general, examine_eq_ok.mp floating⟩

/-- Each register of a catalog has a name. -/
theorem length_names (catalog : Catalog) (bank : Bank) :
    (catalog.registers bank).length = (catalog.names bank).length := by
  cases bank with
  | general => exact catalog.wellFormed.1.1
  | floating => exact catalog.wellFormed.2.1

/-- Whether the target has this register. Density makes the bound enough. -/
def contains (catalog : Catalog) (register : Register) : Bool :=
  register.code.toNat < (catalog.registers register.bank).length

/-- The position of a register in its bank's table. -/
def indexOf (catalog : Catalog) (register : Register) : Checked Nat :=
  if catalog.contains register then .ok register.code.toNat
  else .error (.foreignRegister register catalog.target)

/-- The assembler name of a register. -/
def name (catalog : Catalog) (register : Register) : Checked String := do
  let position ← catalog.indexOf register
  Checked.element (catalog.names register.bank) position

/-- The register with an assembler name, looked for in one bank after another. A
name found there stands at the position of its register. -/
def findName (catalog : Catalog) (name : String) : List Bank → Checked (Option Register)
  | [] => .ok none
  | bank :: rest =>
    match (catalog.names bank).findIdx? (· == name) with
    | some position => some <$> Checked.element (catalog.registers bank) position
    | none => catalog.findName name rest

/-- The register with an assembler name, looked for among the general-purpose
registers first. -/
def byName (catalog : Catalog) (name : String) : Checked (Option Register) :=
  catalog.findName name Bank.all

/-- The number of registers that can hold a reference, which is the width of the
register half of a reference map. -/
def referenceCount (catalog : Catalog) : Nat := (catalog.registers .general).length

/-- The first registers of a bank, in encoding order. -/
def firstRegisters (count : Nat) (bank : Bank) : List Register :=
  (List.range count).map fun code => ⟨UInt8.ofNat code, bank⟩

/-- Names made of a stem and a number counted from zero. -/
def numbered (stem : String) (count : Nat) : List String :=
  (List.range count).map fun number => stem ++ toString number

/-- The 64-bit x86 registers. -/
def amd64 : Catalog where
  target := .amd64
  registers := firstRegisters 16
  names
    | .general =>
      ["rax", "rcx", "rdx", "rbx", "rsp", "rbp", "rsi", "rdi", "r8", "r9", "r10", "r11", "r12",
        "r13", "r14", "r15"]
    | .floating => numbered "xmm" 16
  wellFormed := by decide

/-- The 64-bit ARM registers. The stack pointer takes the last general place. -/
def aarch64 : Catalog where
  target := .aarch64
  registers := firstRegisters 32
  names
    | .general => numbered "x" 31 ++ ["sp"]
    | .floating => numbered "v" 32
  wellFormed := by decide

/-- The 32-bit x86 registers. -/
def ia32 : Catalog where
  target := .ia32
  registers := firstRegisters 8
  names
    | .general => ["eax", "ecx", "edx", "ebx", "esp", "ebp", "esi", "edi"]
    | .floating => numbered "xmm" 8
  wellFormed := by decide

/-- The 64-bit SPARC registers: globals, outs, locals and ins of the current
window, eight each, and the floating-point file. -/
def sparcv9 : Catalog where
  target := .sparcv9
  registers := firstRegisters 32
  names
    | .general => numbered "%g" 8 ++ numbered "%o" 8 ++ numbered "%l" 8 ++ numbered "%i" 8
    | .floating => numbered "%f" 32
  wellFormed := by decide

end Catalog

namespace Architecture

/-- The register catalog of a target. -/
def catalog : Architecture → Catalog
  | .amd64 => Catalog.amd64
  | .aarch64 => Catalog.aarch64
  | .ia32 => Catalog.ia32
  | .sparcv9 => Catalog.sparcv9

end Architecture

end StackMaps
