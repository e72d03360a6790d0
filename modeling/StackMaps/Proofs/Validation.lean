import StackMaps.Proofs.Growth
import StackMaps.Proofs.RegisterSets

/-!
# What validation looks at

Validation searches the parts of a convention one after another and stops at the first
defect. It divides by the slot width only after the width was found to be a word, and makes
registers only from places, so it never faults and finds what the plain search finds.

Each search is read as its rule: the geometry, the registers that are offered to the
allocator, the save words and the result locations are in order exactly if nothing is found.
-/

namespace StackMaps.Convention

variable {convention : Convention}

/-! ## Checked and plain validation -/

/-- A search of steps that complete is the plain search. -/
theorem firstDefect_eq {α : Type} {examine : α → Checked (Option Defect)}
    {plain : α → Option Defect} (items : List α)
    (agrees : ∀ item, examine item = .ok (plain item)) :
    firstDefect examine items = .ok (items.findSome? plain) := by
  induction items with
  | nil => rfl
  | cons first rest induction =>
    rw [firstDefect, agrees, List.findSome?_cons, Checked.ok_bind]
    cases plain first with
    | none => exact induction
    | some defect => rfl

/-- Where slots have some width, a save word is judged without a fault. -/
theorem saveDefectChecked_eq (width : convention.slotSize ≠ 0) (place : Fin Register.places) :
    convention.saveDefectChecked place = .ok (convention.saveDefect? place) := by
  have slots : Checked.divide convention.reserved convention.slotSize =
      .ok (convention.reserved / convention.slotSize) := if_neg width
  unfold saveDefectChecked saveDefect?
  cases convention.saveWords place with
  | none => rfl
  | some word =>
    simp only [Register.atPlace_eq, slots, Checked.ok_bind]
    split <;> rfl

/-- Where slots have some width, each search completes. -/
theorem searches_eq (width : convention.slotSize ≠ 0) : convention.searches =
    [.ok (Bank.all.findSome? fun bank =>
        (convention.allocatable bank).findSome? (convention.allocatableDefect? bank)),
      .ok ((List.finRange Register.places).findSome? convention.saveDefect?),
      .ok (Kind.all.findSome? convention.resultDefect?)] := by
  rw [searches,
    firstDefect_eq _ fun bank => firstDefect_eq (convention.allocatable bank) fun _ => rfl,
    firstDefect_eq _ (saveDefectChecked_eq width), firstDefect_eq _ fun _ => rfl]

/-- The defect is found without a fault. -/
theorem defectChecked_eq (convention : Convention) :
    convention.defectChecked = .ok convention.defect? := by
  unfold defectChecked defect?
  by_cases sized : convention.slotSize = convention.target.wordSize
  · have width : convention.slotSize ≠ 0 := by
      rw [sized]
      cases convention.target <;> decide
    have rest : Checked.remainder convention.reserved convention.slotSize =
        .ok (convention.reserved % convention.slotSize) := if_neg width
    rw [if_neg (not_not_intro sized), if_neg (not_not_intro sized), rest, Checked.ok_bind,
      searches_eq width]
    split
    · rfl
    · simp only [firstDefect, id, Checked.ok_bind]
      generalize Bank.all.findSome? _ = allocatables
      generalize List.findSome? convention.saveDefect? _ = saves
      generalize List.findSome? convention.resultDefect? _ = results
      cases allocatables <;> cases saves <;> cases results <;> rfl
  · rw [if_pos sized, if_pos sized]

/-- Validation never faults. -/
theorem validateChecked_eq (convention : Convention) :
    convention.validateChecked = .ok convention.validate := by
  rw [validateChecked, validate, defectChecked_eq, Checked.ok_bind]
  cases convention.defect? <;> rfl

/-- A convention is accepted exactly if it has no defect. -/
theorem validateChecked_eq_ok :
    convention.validateChecked = .ok (.ok ()) ↔ convention.defect? = none := by
  rw [validateChecked_eq, Except.ok.injEq, validate]
  cases convention.defect? with
  | none => simp
  | some defect => simp

/-! ## The rule of each search -/

/-- There is no defect exactly if the geometry is in order and no part that is bound is
defective. -/
theorem defect?_eq_none : convention.defect? = none ↔
    convention.slotSize = convention.target.wordSize ∧
      convention.reserved % convention.slotSize = 0 ∧
      (∀ bank, ∀ register ∈ convention.allocatable bank,
        convention.allocatableDefect? bank register = none) ∧
      (∀ place, convention.saveDefect? place = none) ∧
      ∀ kind, convention.resultDefect? kind = none := by
  have banks : ∀ bank, bank ∈ Bank.all := by
    intro bank
    cases bank <;> decide
  have kinds : ∀ kind, kind ∈ Kind.all := by
    intro kind
    cases kind <;> decide
  unfold defect?
  by_cases sized : convention.slotSize = convention.target.wordSize
  · rw [if_neg (not_not_intro sized), and_iff_right sized]
    by_cases whole : convention.reserved % convention.slotSize = 0
    · rw [if_neg (not_not_intro whole), and_iff_right whole]
      simp only [Option.orElse_eq_orElse, Option.orElse_eq_or, Option.or_eq_none_iff,
        List.findSome?_eq_none_iff, banks, kinds, List.mem_finRange, forall_const]
    · simp only [whole, ne_eq, not_false_eq_true, if_true, reduceCtorEq, false_and]
  · simp only [sized, ne_eq, not_false_eq_true, if_true, reduceCtorEq, false_and]

/-- A save word is in order exactly if it is unbound, or is that of a register that can
hold a reference and lies in the reserved area. -/
theorem saveDefect?_eq_none {place : Fin Register.places} :
    convention.saveDefect? place = none ↔ ∀ word, convention.saveWords place = some word →
      convention.owns .general (Register.ofIndex place) = true ∧
        word.toNat < convention.reserved.toNat / convention.slotSize.toNat := by
  unfold saveDefect?
  cases convention.saveWords place with
  | none => simp
  | some word =>
    by_cases owned : convention.owns .general (Register.ofIndex place) = true
    · simp [owned, UInt32.toNat_div]
    · simp [owned]

/-- The register of a role is the one bound to it. -/
theorem registerFor_eq_ok {role : Role} {bank : Bank} {register : Register} :
    convention.registerFor role bank = .ok register ↔
      convention.roles role bank = some register := by
  unfold registerFor
  cases convention.roles role bank <;> simp

/-- An allocatable register is in order exactly if it is owned and is not that of a reserved
role in its bank. -/
theorem allocatableDefect?_eq_none {bank : Bank} {register : Register} :
    convention.allocatableDefect? bank register = none ↔
      convention.owns bank register = true ∧
        ∀ role : Role, role.isReserved = true → convention.roles role bank ≠ some register := by
  have roles : ∀ role, role ∈ Role.all := by
    intro role
    cases role <;> decide
  unfold allocatableDefect?
  by_cases owned : convention.owns bank register = true
  · simp [owned, roles]
  · simp [owned]

/-- A result location is in order exactly if it is unbound, a stack slot, or a register that
the target owns in the bank of the kind. -/
theorem resultDefect?_eq_none {kind : Kind} :
    convention.resultDefect? kind = none ↔
      ∀ location, convention.resultLocation kind = .ok location →
        (∃ slot, location = .stack slot) ∨
          ∃ register, location = .register register ∧ register.bank = kind.bank ∧
            register ∈ convention.catalog.registers kind.bank := by
  unfold resultDefect? resultLocation
  rcases convention.results kind with _ | ⟨register | slot | bits | _⟩
  · simp
  · simp [owns_iff]
  · simp
  · simp
  · simp

end StackMaps.Convention
