import Mathlib.Logic.ExistsUnique
import StackMaps.Proofs.Growth

/-!
# Look-ups in a catalog

All look-ups of a catalog rest on what the examination of its tables established: the
register at a position has that position as its encoding, and there is a name beside it.
So the bare bound on the encoding decides membership, the position of a register and its
name are read without a further test, and a name that is found is the name of the
register at its position. A name that several registers have leads to the first of them;
if all names differ, naming a register and looking the name up are inverse.
-/

namespace StackMaps

namespace Catalog

variable {catalog : Catalog} {register other : Register} {name : String} {position : Nat}

/-- A catalog is made from tables that pass the examination, and from no others, and has
these tables. -/
theorem ofTables_eq_ok {target : Architecture} {registers : Bank → List Register}
    {names : Bank → List String} :
    ofTables target registers names = .ok catalog ↔
      catalog.target = target ∧ catalog.registers = registers ∧ catalog.names = names := by
  constructor
  · intro made
    rw [ofTables] at made
    split at made
    · cases made
    · split at made
      · cases made
      · cases made
        exact ⟨rfl, rfl, rfl⟩
  · rintro ⟨rfl, rfl, rfl⟩
    have general := examine_eq_ok.mpr catalog.wellFormed.1
    have floating := examine_eq_ok.mpr catalog.wellFormed.2
    rw [ofTables]
    split
    · simp_all
    · split
      · simp_all
      · rfl

/-! ## Positions -/

/-- A register of a catalog stands at the position of its encoding. -/
theorem getElem?_of_contains (listed : catalog.contains register = true) :
    (catalog.registers register.bank)[register.code.toNat]? = some register := by
  obtain ⟨position, stored⟩ := List.getElem?_of_mem (contains_iff_mem.mp listed)
  rwa [((catalog.dense register.bank).code_eq stored).1]

/-- What stands at a position of a bank is a register of the catalog with that position as
its encoding. -/
theorem contains_of_getElem? {bank : Bank}
    (stored : (catalog.registers bank)[position]? = some register) :
    catalog.contains register = true ∧ register.code.toNat = position ∧ register.bank = bank := by
  obtain ⟨code, rfl⟩ := (catalog.dense bank).code_eq stored
  exact ⟨contains_iff_mem.mpr (List.mem_of_getElem? stored), code, rfl⟩

/-- The position of a register is its encoding, if it is listed. -/
theorem indexOf_eq_ok : catalog.indexOf register = .ok position ↔
    catalog.contains register = true ∧ position = register.code.toNat := by
  rw [indexOf]
  by_cases listed : catalog.contains register = true
  · simp [listed, eq_comm]
  · simp [listed]

/-- A register has a position exactly if it is listed. -/
theorem indexOf_eq_error :
    (∃ fault, catalog.indexOf register = .error fault) ↔ catalog.contains register = false := by
  rw [indexOf]
  cases catalog.contains register <;> simp

/-- A listed register has a position in its table, and stands there. -/
theorem indexOf_of_mem {bank : Bank} (listed : register ∈ catalog.registers bank) :
    ∃ position < (catalog.registers bank).length, catalog.indexOf register = .ok position ∧
      (catalog.registers bank)[position]? = some register := by
  obtain ⟨position, stored⟩ := List.getElem?_of_mem listed
  obtain ⟨member, rfl, rfl⟩ := contains_of_getElem? stored
  exact ⟨_, (List.getElem?_eq_some_iff.mp stored).1, indexOf_eq_ok.mpr ⟨member, rfl⟩, stored⟩

/-- Each position of a table is the position of one of its registers. -/
theorem existsUnique_indexOf {bank : Bank} (inside : position < (catalog.registers bank).length) :
    ∃! register, register ∈ catalog.registers bank ∧ catalog.indexOf register = .ok position := by
  have stored := List.getElem?_eq_getElem inside
  obtain ⟨member, code, _⟩ := contains_of_getElem? stored
  refine ⟨_, ⟨List.getElem_mem inside, indexOf_eq_ok.mpr ⟨member, code.symm⟩⟩, ?_⟩
  rintro other ⟨listed, found⟩
  obtain ⟨place, alsoStored⟩ := List.getElem?_of_mem listed
  obtain rfl : position = place :=
    (indexOf_eq_ok.mp found).2.trans (contains_of_getElem? alsoStored).2.1
  exact Option.some.inj (alsoStored.symm.trans stored)

/-! ## Names -/

/-- The name of a register is the one beside it, if it is listed. -/
theorem name_eq_ok : catalog.name register = .ok name ↔
    catalog.contains register = true ∧
      (catalog.names register.bank)[register.code.toNat]? = some name := by
  simp only [Catalog.name, Checked.bind_eq_ok, indexOf_eq_ok, Checked.element_eq_ok]
  constructor
  · rintro ⟨position, ⟨listed, rfl⟩, stored⟩
    exact ⟨listed, stored⟩
  · rintro ⟨listed, stored⟩
    exact ⟨_, ⟨listed, rfl⟩, stored⟩

/-- A register that the catalog lists has a name. -/
theorem name_of_contains (listed : catalog.contains register = true) :
    ∃ name, catalog.name register = .ok name := by
  have inside : register.code.toNat < (catalog.registers register.bank).length := by
    simpa [contains] using listed
  rw [catalog.length_names] at inside
  exact ⟨_, name_eq_ok.mpr ⟨listed, List.getElem?_eq_getElem inside⟩⟩

/-- Naming any other register is a fault. -/
theorem name_of_foreign (foreign : catalog.contains register = false) :
    catalog.name register = .error (.foreignRegister register catalog.target) := by
  rw [Catalog.name, indexOf, foreign]
  rfl

/-- A register has a name exactly if it is listed. -/
theorem name_eq_error :
    (∃ fault, catalog.name register = .error fault) ↔ catalog.contains register = false := by
  constructor
  · rintro ⟨fault, failed⟩
    refine Bool.eq_false_iff.mpr fun listed => ?_
    obtain ⟨name, named⟩ := name_of_contains listed
    rw [named] at failed
    cases failed
  · intro foreign
    exact ⟨_, name_of_foreign foreign⟩

/-- The listed names of a bank are the names of its registers. -/
theorem mem_names {bank : Bank} :
    name ∈ catalog.names bank ↔
      ∃ register, register.bank = bank ∧ catalog.name register = .ok name := by
  constructor
  · intro listed
    obtain ⟨position, stored⟩ := List.getElem?_of_mem listed
    have inside : position < (catalog.registers bank).length := by
      rw [catalog.length_names]
      exact (List.getElem?_eq_some_iff.mp stored).1
    obtain ⟨listed, code, home⟩ := contains_of_getElem? (List.getElem?_eq_getElem inside)
    refine ⟨(catalog.registers bank)[position], home, name_eq_ok.mpr ⟨listed, ?_⟩⟩
    rwa [home, code]
  · rintro ⟨register, rfl, named⟩
    exact List.mem_of_getElem? (name_eq_ok.mp named).2

/-- Looking a name up in some banks never faults. It finds nothing if none of the banks
lists the name, and otherwise a register of these banks that has it. -/
theorem findName_exact (catalog : Catalog) (name : String) (banks : List Bank) :
    (catalog.findName name banks = .ok none ∧ ∀ bank ∈ banks, name ∉ catalog.names bank) ∨
      ∃ register, catalog.findName name banks = .ok (some register) ∧
        register.bank ∈ banks ∧ catalog.name register = .ok name := by
  induction banks with
  | nil => exact Or.inl ⟨rfl, by simp⟩
  | cons bank rest induction =>
    cases found : (catalog.names bank).findIdx? (· == name) with
    | none =>
      have absent : name ∉ catalog.names bank := by
        intro listed
        have differs := List.findIdx?_eq_none_iff.mp found name listed
        simp at differs
      have later : catalog.findName name (bank :: rest) = catalog.findName name rest := by
        simp only [findName, found]
      rw [later]
      rcases induction with ⟨nothing, elsewhere⟩ | ⟨register, stored, home, named⟩
      · exact Or.inl ⟨nothing, List.forall_mem_cons.mpr ⟨absent, elsewhere⟩⟩
      · exact Or.inr ⟨register, stored, List.mem_cons_of_mem bank home, named⟩
    | some position =>
      obtain ⟨inside, same, _⟩ := List.findIdx?_eq_some_iff_getElem.mp found
      have beside : position < (catalog.registers bank).length := by
        rwa [catalog.length_names]
      have stored := List.getElem?_eq_getElem beside
      obtain ⟨listed, code, home⟩ := contains_of_getElem? stored
      refine Or.inr ⟨(catalog.registers bank)[position], ?_, ?_, ?_⟩
      · simp only [findName, found]
        rw [Checked.element_eq_ok.mpr stored]
        rfl
      · rw [home]
        exact List.mem_cons_self
      · rw [name_eq_ok, home, code, List.getElem?_eq_getElem inside, beq_iff_eq.mp same]
        exact ⟨listed, rfl⟩

/-- If all names of both banks differ, a name belongs to one register only. -/
theorem eq_of_name (distinct : (catalog.names .general ++ catalog.names .floating).Nodup)
    (named : catalog.name register = .ok name) (alsoNamed : catalog.name other = .ok name) :
    register = other := by
  obtain ⟨general, floating, apart⟩ := List.nodup_append.mp distinct
  have each : ∀ bank, (catalog.names bank).Nodup := by
    intro bank
    cases bank with
    | general => exact general
    | floating => exact floating
  have home : register.bank = other.bank := by
    have listed := mem_names.mpr ⟨register, rfl, named⟩
    have alsoListed := mem_names.mpr ⟨other, rfl, alsoNamed⟩
    cases first : register.bank <;> cases second : other.bank
    · rfl
    · rw [first] at listed
      rw [second] at alsoListed
      exact absurd rfl (apart name listed name alsoListed)
    · rw [first] at listed
      rw [second] at alsoListed
      exact absurd rfl (apart name alsoListed name listed)
    · rfl
  obtain ⟨listed, stored⟩ := name_eq_ok.mp named
  obtain ⟨alsoListed, alsoStored⟩ := name_eq_ok.mp alsoNamed
  -- In one bank the name stands at one position, and so does its register.
  have inside := (List.getElem?_eq_some_iff.mp stored).1
  have code : register.code.toNat = other.code.toNat := by
    rw [← home] at alsoStored
    exact (List.getElem?_inj inside (each register.bank)).mp (stored.trans alsoStored.symm)
  have same := getElem?_of_contains listed
  rw [code, home, getElem?_of_contains alsoListed] at same
  exact (Option.some.inj same).symm

/-- Looking a name up never faults. It finds nothing if no register has the name, and
otherwise a register that has it. -/
theorem byName_exact (catalog : Catalog) (name : String) :
    (catalog.byName name = .ok none ∧ ∀ register, catalog.name register ≠ .ok name) ∨
      ∃ register, catalog.byName name = .ok (some register) ∧
        catalog.name register = .ok name := by
  rcases catalog.findName_exact name Bank.all with ⟨nothing, absent⟩ | ⟨register, found, _, named⟩
  · refine Or.inl ⟨nothing, ?_⟩
    intro register named
    have searched : register.bank ∈ Bank.all := by cases register.bank <;> decide
    exact absent register.bank searched (mem_names.mpr ⟨register, rfl, named⟩)
  · exact Or.inr ⟨register, found, named⟩

/-- A name that is found is the name of what was found. -/
theorem name_of_byName (found : catalog.byName name = .ok (some register)) :
    catalog.contains register = true ∧ catalog.name register = .ok name := by
  rcases catalog.byName_exact name with ⟨nothing, _⟩ | ⟨other, alsoFound, named⟩
  · rw [nothing] at found
    cases found
  · cases alsoFound.symm.trans found
    exact ⟨(name_eq_ok.mp named).1, named⟩

/-- Nothing is found exactly if no listed register has the name. -/
theorem byName_eq_none : catalog.byName name = .ok none ↔
    ∀ bank, ∀ register ∈ catalog.registers bank, catalog.name register ≠ .ok name := by
  rcases catalog.byName_exact name with ⟨nothing, absent⟩ | ⟨register, found, named⟩
  · exact ⟨fun _ _ register _ => absent register, fun _ => nothing⟩
  · have listed := contains_iff_mem.mp (name_eq_ok.mp named).1
    constructor
    · intro nothing
      cases found.symm.trans nothing
    · intro absent
      exact absurd named (absent _ register listed)

/-- If all names of both banks differ, a listed register is found by its name. -/
theorem byName_of_distinct (distinct : (catalog.names .general ++ catalog.names .floating).Nodup)
    (listed : catalog.contains register = true) :
    ∃ name, catalog.name register = .ok name ∧ catalog.byName name = .ok (some register) := by
  obtain ⟨name, named⟩ := name_of_contains listed
  refine ⟨name, named, ?_⟩
  rcases catalog.byName_exact name with ⟨_, absent⟩ | ⟨other, found, alsoNamed⟩
  · exact absurd named (absent register)
  · rwa [eq_of_name distinct named alsoNamed]

end Catalog

/-- The look-ups of a catalog agree, whatever tables it was made from. Membership is being
listed. A register has a position and a name exactly if it is listed; the positions of the
registers of a bank are those of their table, each taken once. A name that is found is the
name of what was found, nothing is found exactly if no register has the name, and if all
names differ a register is found by its name. -/
theorem catalog_lookups_agree {target : Architecture} {registers : Bank → List Register}
    {names : Bank → List String} {catalog : Catalog}
    (made : Catalog.ofTables target registers names = .ok catalog) :
    (catalog.registers = registers ∧ catalog.names = names) ∧
    (∀ register, catalog.contains register = true ↔ register ∈ registers register.bank) ∧
    (∀ register,
      ((∃ fault, catalog.indexOf register = .error fault) ↔ catalog.contains register = false) ∧
      ((∃ fault, catalog.name register = .error fault) ↔ catalog.contains register = false)) ∧
    (∀ bank,
      (∀ register ∈ registers bank, ∃ position < (registers bank).length,
        catalog.indexOf register = .ok position ∧
          (registers bank)[position]? = some register) ∧
      ∀ position < (registers bank).length,
        ∃! register, register ∈ registers bank ∧ catalog.indexOf register = .ok position) ∧
    (∀ name register, catalog.byName name = .ok (some register) →
      catalog.contains register = true ∧ catalog.name register = .ok name) ∧
    (∀ name, (∃ answer, catalog.byName name = .ok answer) ∧
      (catalog.byName name = .ok none ↔
        ∀ bank, ∀ register ∈ registers bank, catalog.name register ≠ .ok name)) ∧
    ((names .general ++ names .floating).Nodup → ∀ register, catalog.contains register = true →
      ∃ name, catalog.name register = .ok name ∧ catalog.byName name = .ok (some register)) := by
  obtain ⟨_, rfl, rfl⟩ := Catalog.ofTables_eq_ok.mp made
  refine ⟨⟨rfl, rfl⟩, fun _ => Catalog.contains_iff_mem,
    fun _ => ⟨Catalog.indexOf_eq_error, Catalog.name_eq_error⟩,
    fun _ => ⟨fun _ => Catalog.indexOf_of_mem, fun _ => Catalog.existsUnique_indexOf⟩,
    fun _ _ => Catalog.name_of_byName, fun name => ⟨?_, Catalog.byName_eq_none⟩,
    fun distinct _ => Catalog.byName_of_distinct distinct⟩
  rcases catalog.byName_exact name with ⟨nothing, _⟩ | ⟨register, found, _⟩
  · exact ⟨_, nothing⟩
  · exact ⟨_, found⟩

/-- The tables of the x86 registers pass, and all their names differ. The last vector
register is found by its name, and the encoding after the last general-purpose register
has no position. -/
theorem catalog_lookups_agree_amd64 :
    Catalog.ofTables .amd64 Catalog.amd64.registers Catalog.amd64.names = .ok Catalog.amd64 ∧
    (Catalog.amd64.names .general ++ Catalog.amd64.names .floating).Nodup ∧
    (∃ name, Catalog.amd64.name ⟨15, .floating⟩ = .ok name ∧
      Catalog.amd64.byName name = .ok (some ⟨15, .floating⟩)) ∧
    ∃ fault, Catalog.amd64.indexOf ⟨16, .general⟩ = .error fault := by
  have made : Catalog.ofTables .amd64 Catalog.amd64.registers Catalog.amd64.names =
      .ok Catalog.amd64 := Catalog.ofTables_eq_ok.mpr ⟨rfl, rfl, rfl⟩
  have distinct : (Catalog.amd64.names .general ++ Catalog.amd64.names .floating).Nodup := by
    decide +kernel
  obtain ⟨_, _, faults, _, _, _, found⟩ := catalog_lookups_agree made
  exact ⟨made, distinct, found distinct ⟨15, .floating⟩ (by decide),
    (faults ⟨16, .general⟩).1.mpr (by decide)⟩

end StackMaps
