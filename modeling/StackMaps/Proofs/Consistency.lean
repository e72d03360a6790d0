import StackMaps.Convention.Binding
import StackMaps.Proofs.Validation

/-!
# What validation accepts

Validation never faults. It accepts exactly the consistent conventions, although two of its
searches look at less than consistency speaks of. A reserved register is compared with the
allocatable ones of its own bank only: binding a role files the register under its own bank,
so a register of the other bank is never found there. And save words are searched by place:
each place is that of one encoded register, whatever register the word was bound to.
-/

namespace StackMaps

namespace Convention

variable {convention next : Convention}

/-- All parts of a convention fit its target and each other. -/
structure Consistent (convention : Convention) : Prop where
  width : convention.slotSize = convention.target.wordSize
  whole : convention.slotSize.toNat ∣ convention.reserved.toNat
  /-- Allocatable registers are registers of their bank, and none of them is reserved for a
  role in any bank. -/
  allocatable : ∀ bank, ∀ register ∈ convention.allocatable bank,
    register.bank = bank ∧ register ∈ convention.catalog.registers bank ∧
      ∀ role : Role, role.isReserved = true →
        ∀ other, convention.registerFor role other ≠ .ok register
  /-- Saved registers can hold references and are saved below the spill area. -/
  saved : ∀ register : Register, register.Encoded →
    ∀ word, convention.saveWord register = .ok (some word) →
      register.bank = .general ∧ register ∈ convention.catalog.registers .general ∧
        word < convention.reserved.toNat / convention.slotSize.toNat
  /-- Results are returned in stack slots or in registers of their kind's bank. -/
  results : ∀ kind location, convention.resultLocation kind = .ok location →
    (∃ slot, location = .stack slot) ∨
      ∃ register, location = .register register ∧ register.bank = kind.bank ∧
        register ∈ convention.catalog.registers kind.bank

/-- The save words of all places are in order exactly if those of all encoded registers
are. Each place is that of the register it encodes. -/
theorem saveDefects_eq_none : (∀ place, convention.saveDefect? place = none) ↔
    ∀ register : Register, register.Encoded →
      ∀ word, convention.saveWord register = .ok (some word) →
        register.bank = .general ∧ register ∈ convention.catalog.registers .general ∧
          word < convention.reserved.toNat / convention.slotSize.toNat := by
  have stored : ∀ (place : Fin Register.places) (register : Register) (word : Nat),
      register.index = place.val →
      (convention.saveWord register = .ok (some word) ↔
        ∃ bound, convention.saveWords place = some bound ∧ bound.toNat = word) := by
    intro place register word home
    have placed : register.place? = some place := by
      rw [Register.place?, dif_pos (home ▸ place.isLt)]
      exact congrArg some (Fin.ext home)
    simp [saveWord, placed]
  simp only [saveDefect?_eq_none, owns_iff, and_assoc]
  constructor
  · intro clean register encoded word bound
    have inside := Register.index_lt_of_encoded encoded
    obtain ⟨saved, found, rfl⟩ := (stored ⟨register.index, inside⟩ register word rfl).mp bound
    have sound := clean ⟨register.index, inside⟩ saved found
    rwa [Register.ofIndex_of_encoded encoded] at sound
  · intro clean place word bound
    have home := Register.index_ofIndex place.isLt
    exact clean _ (Register.encoded_ofIndex place) _
      ((stored place _ _ home).mpr ⟨word, bound, rfl⟩)

/-! ## Roles of a convention that was built -/

/-- The register of each role is filed under its own bank. -/
def RolesFiled (convention : Convention) : Prop :=
  ∀ role bank register, convention.roles role bank = some register → register.bank = bank

/-- Binding a part of a convention keeps the roles filed. -/
theorem RolesFiled.perform (filed : convention.RolesFiled) {binding : Binding}
    (made : convention.perform binding = .ok next) : next.RolesFiled := by
  cases binding with
  | allocatable bank registers =>
    cases made
    exact filed
  | preserved registers =>
    cases made
    exact filed
  | role bound holder =>
    cases made
    intro role bank register found
    simp only [bindRole] at found
    split at found
    · rename_i same
      cases found
      exact same.2.symm
    · exact filed role bank register found
  | result kind location =>
    cases made
    exact filed
  | saveWord register word =>
    simp only [Convention.perform, bindSaveWord] at made
    split at made
    · cases made
      exact filed
    · cases made

/-- So does a sequence of bindings. -/
theorem RolesFiled.build (filed : convention.RolesFiled) {bindings : List Binding}
    (made : convention.build bindings = .ok next) : next.RolesFiled := by
  induction bindings generalizing convention with
  | nil =>
    cases made
    exact filed
  | cons first rest induction =>
    obtain ⟨step, performed, later⟩ := Checked.bind_eq_ok.mp made
    exact induction (filed.perform performed) later

/-- Where roles are filed under their banks, a register of a bank is in order as an
allocatable one exactly if no reserved role has it in any bank. -/
theorem RolesFiled.allocatableDefect?_eq_none (filed : convention.RolesFiled) {bank : Bank}
    {register : Register} :
    convention.allocatableDefect? bank register = none ↔
      register.bank = bank ∧ register ∈ convention.catalog.registers bank ∧
        ∀ role : Role, role.isReserved = true →
          ∀ other, convention.registerFor role other ≠ .ok register := by
  rw [Convention.allocatableDefect?_eq_none, owns_iff, and_assoc]
  refine and_congr_right fun home => and_congr_right fun _ => forall₂_congr fun role _ => ?_
  simp only [ne_eq, registerFor_eq_ok]
  constructor
  · intro free other taken
    obtain rfl : bank = other := home.symm.trans (filed role other register taken)
    exact free taken
  · exact fun free => free bank

/-- Where roles are filed under their banks, a convention is valid exactly if it is
consistent. -/
theorem RolesFiled.validateChecked_eq_ok (filed : convention.RolesFiled) :
    convention.validateChecked = .ok (.ok ()) ↔ convention.Consistent := by
  have whole : convention.reserved % convention.slotSize = 0 ↔
      convention.slotSize.toNat ∣ convention.reserved.toNat := by
    rw [← UInt32.toNat_inj, UInt32.toNat_mod]
    exact (Nat.dvd_iff_mod_eq_zero ..).symm
  rw [Convention.validateChecked_eq_ok, defect?_eq_none, whole, saveDefects_eq_none]
  simp only [filed.allocatableDefect?_eq_none, resultDefect?_eq_none]
  constructor
  · rintro ⟨width, whole, allocatable, saved, results⟩
    exact ⟨width, whole, allocatable, saved, results⟩
  · rintro ⟨width, whole, allocatable, saved, results⟩
    exact ⟨width, whole, allocatable, saved, results⟩

end Convention

/-- Validation of a convention that was built from a bare one, with whatever geometry and
bindings, never faults, and accepts exactly the consistent conventions. -/
theorem validation_accepts_consistent {target : Architecture} {slotSize reserved : UInt32}
    {bindings : List Convention.Binding} {convention : Convention}
    (made : (Convention.bare target slotSize reserved).build bindings = .ok convention) :
    (∃ verdict, convention.validateChecked = .ok verdict) ∧
      (convention.validateChecked = .ok (.ok ()) ↔ convention.Consistent) := by
  have bare : (Convention.bare target slotSize reserved).RolesFiled := by
    intro role bank register found
    cases found
  exact ⟨⟨_, convention.validateChecked_eq⟩, (bare.build made).validateChecked_eq_ok⟩

/-- A convention with a save word, whose allocatable register has the encoding of a reserved
register of the other bank, is accepted and so consistent. One that offers its stack pointer
to the allocator is not, nor is one whose slots have no width, which is refused before
anything is divided by it. -/
theorem validation_accepts_consistent_saving :
    (∃ convention, (Convention.bare .amd64 8 32).build
        [.allocatable .general [⟨0, .general⟩], .role .scratch ⟨0, .floating⟩,
          .result .reference (.register ⟨0, .general⟩), .saveWord ⟨3, .general⟩ 3] =
          .ok convention ∧ convention.Consistent) ∧
    (∃ convention, (Convention.bare .amd64 8 0).build
        [.allocatable .general [⟨0, .general⟩, ⟨4, .general⟩],
          .role .stackPointer ⟨4, .general⟩] = .ok convention ∧ ¬ convention.Consistent) ∧
    (∃ verdict, (Convention.bare .ia32 0 7).validateChecked = .ok verdict) ∧
    ¬ (Convention.bare .ia32 0 7).Consistent := by
  have saving := validation_accepts_consistent (rfl : (Convention.bare .amd64 8 32).build
    [.allocatable .general [⟨0, .general⟩], .role .scratch ⟨0, .floating⟩,
      .result .reference (.register ⟨0, .general⟩), .saveWord ⟨3, .general⟩ 3] = .ok _)
  have offering := validation_accepts_consistent (rfl : (Convention.bare .amd64 8 0).build
    [.allocatable .general [⟨0, .general⟩, ⟨4, .general⟩], .role .stackPointer ⟨4, .general⟩] =
      .ok _)
  have flat := validation_accepts_consistent (rfl : (Convention.bare .ia32 0 7).build [] = .ok _)
  refine ⟨⟨_, rfl, saving.2.mp rfl⟩, ⟨_, rfl, ?_⟩, flat.1, ?_⟩
  · intro consistent
    cases offering.2.mpr consistent
  · intro consistent
    cases flat.2.mpr consistent

end StackMaps
