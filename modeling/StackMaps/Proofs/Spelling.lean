import StackMaps.Catalog
import StackMaps.Text

/-!
# Texts that can be read back

A listing puts numbers and names between fixed texts. It can be read back if every
field ends where the text after it starts, and if the field itself has one reading.

A field ends at the first occurrence of a character that it does not contain. Numbers
are spelled with digits only, and are read by a fold over the digits, in which leading
zeros count for nothing. Words without spaces that are not empty are cut apart at the
spaces between them. The names of a target are such words, and different ones.
-/

namespace StackMaps.Text

/-! ## Fields -/

/-- Two lists that continue with one stop, which neither contains, are equal, and so is
what follows. -/
theorem cut_list {stop : Char} {left right leftRest rightRest : List Char}
    (leftFree : stop ∉ left) (rightFree : stop ∉ right)
    (same : left ++ stop :: leftRest = right ++ stop :: rightRest) :
    left = right ∧ leftRest = rightRest := by
  induction left generalizing right with
  | nil =>
    cases right with
    | nil => exact ⟨rfl, (List.cons.inj same).2⟩
    | cons first rest =>
      have met : stop = first := (List.cons.inj same).1
      exact absurd (met ▸ List.mem_cons_self) rightFree
  | cons first rest induction =>
    cases right with
    | nil =>
      have met : first = stop := (List.cons.inj same).1
      exact absurd (met ▸ List.mem_cons_self) leftFree
    | cons other others =>
      obtain ⟨rfl, later⟩ := List.cons.inj same
      obtain ⟨rfl, following⟩ := induction (fun member => leftFree (List.mem_cons_of_mem _ member))
        (fun member => rightFree (List.mem_cons_of_mem _ member)) later
      exact ⟨rfl, following⟩

/-- A field ends where the text after it starts, if it does not contain the first
character of that text. -/
theorem cut {stop : Char} {between left right leftRest rightRest : String}
    (starts : between.toList.head? = some stop)
    (leftFree : stop ∉ left.toList) (rightFree : stop ∉ right.toList)
    (same : left ++ (between ++ leftRest) = right ++ (between ++ rightRest)) :
    left = right ∧ leftRest = rightRest := by
  obtain ⟨tail, starts⟩ := List.head?_eq_some_iff.mp starts
  have lists := congrArg String.toList same
  simp only [String.toList_append, starts, List.cons_append] at lists
  obtain ⟨field, following⟩ := cut_list leftFree rightFree lists
  exact ⟨String.toList_inj.mp field, String.toList_inj.mp (List.append_cancel_left following)⟩

/-! ## Numbers -/

/-- The number that a digit stands for. -/
def digitValue (digit : Char) : Nat :=
  if digit.isDigit then digit.toNat - '0'.toNat else digit.toNat - 'a'.toNat + 10

/-- The number that digits spell. -/
def readDigits (base : Nat) (digits : List Char) : Nat :=
  digits.foldl (fun number digit => base * number + digitValue digit) 0

/-- Every digit stands for its number. -/
theorem digitValue_digitChar {value : Nat} (small : value < 16) :
    digitValue (Nat.digitChar value) = value := by
  revert value
  decide

/-- The digits of a number spell it. -/
theorem readDigits_toDigits {base : Nat} (several : 1 < base) (few : base ≤ 16) (number : Nat) :
    readDigits base (Nat.toDigits base number) = number := by
  induction number using Nat.strongRecOn with
  | ind number induction =>
    by_cases small : number < base
    · rw [Nat.toDigits_of_lt_base small]
      simp [readDigits, digitValue_digitChar (Nat.lt_of_lt_of_le small few)]
    · have large : base ≤ number := Nat.le_of_not_lt small
      have shorter := induction (number / base) (Nat.div_lt_self (by omega) several)
      have below : number % base < base := Nat.mod_lt number (by omega)
      have last := digitValue_digitChar (Nat.lt_of_lt_of_le below few)
      rw [Nat.toDigits_of_base_le several large]
      rw [readDigits] at shorter ⊢
      rw [List.foldl_append, shorter, List.foldl_cons, List.foldl_nil, last]
      exact Nat.div_add_mod number base

/-- Leading zeros do not change the number that digits spell. -/
theorem readDigits_zeros (base count : Nat) (digits : List Char) :
    readDigits base (List.replicate count '0' ++ digits) = readDigits base digits := by
  have zero : base * 0 + digitValue '0' = 0 := by
    rw [Nat.mul_zero]
    rfl
  induction count with
  | zero => rfl
  | succ count induction =>
    rw [List.replicate_succ, List.cons_append, readDigits, List.foldl_cons, zero]
    exact induction

/-- No character outside the digits of a base stands in a number of that base. -/
theorem notMem_toDigits {base : Nat} {stop : Char} (several : 1 < base)
    (other : ∀ value < base, stop ≠ Nat.digitChar value) (number : Nat) :
    stop ∉ Nat.toDigits base number := by
  induction number using Nat.strongRecOn with
  | ind number induction =>
    by_cases small : number < base
    · rw [Nat.toDigits_of_lt_base small, List.mem_singleton]
      exact other number small
    · have large : base ≤ number := Nat.le_of_not_lt small
      rw [Nat.toDigits_of_base_le several large, List.mem_append, List.mem_singleton, not_or]
      exact ⟨induction (number / base) (Nat.div_lt_self (by omega) several),
        other (number % base) (Nat.mod_lt number (by omega))⟩

/-- A number in decimal is not empty. -/
theorem decimal_ne_empty (number : Nat) : toString number ≠ "" := by
  intro empty
  have digits := congrArg String.toList empty
  rw [Nat.toString_eq_ofList_toDigits, String.toList_ofList] at digits
  exact Nat.toDigits_ne_nil digits

/-- No character outside the decimal digits stands in a number. -/
theorem notMem_decimal {stop : Char} (other : ∀ value < 10, stop ≠ Nat.digitChar value)
    (number : Nat) : stop ∉ (toString number).toList := by
  rw [Nat.toString_eq_ofList_toDigits, String.toList_ofList]
  exact notMem_toDigits (by decide) other number

/-- A hexadecimal column has no colon. -/
theorem colon_notMem_hexColumn (number : Nat) : ':' ∉ (hexColumn number).toList := by
  have digits : ':' ∉ Nat.toDigits 16 number := notMem_toDigits (by decide) (by decide) number
  intro member
  simp only [hexColumn, String.toList_append, String.toList_ofList, List.mem_append,
    List.mem_replicate] at member
  rcases member with marker | ⟨_, zero⟩ | digit
  · revert marker
    decide
  · revert zero
    decide
  · exact digits digit

/-- A number is read back from its decimal spelling. -/
theorem decimal_inj {left right : Nat} (same : toString left = toString right) :
    left = right := by
  rw [Nat.toString_eq_ofList_toDigits, Nat.toString_eq_ofList_toDigits] at same
  have values := congrArg (readDigits 10) (String.ofList_injective same)
  rwa [readDigits_toDigits (by decide) (by decide),
    readDigits_toDigits (by decide) (by decide)] at values

/-- A number is read back from its hexadecimal column. -/
theorem hexColumn_inj {left right : Nat} (same : hexColumn left = hexColumn right) :
    left = right := by
  have columns := String.ofList_injective ((String.append_right_inj _).mp same)
  have values := congrArg (readDigits 16) columns
  rwa [readDigits_zeros, readDigits_zeros, readDigits_toDigits (by decide) (by decide),
    readDigits_toDigits (by decide) (by decide)] at values

/-! ## Words -/

/-- A text that stands in a list of words: not empty, without a space, and without the
bracket that closes the list. -/
structure Word (text : String) : Prop where
  nonempty : text ≠ ""
  unspaced : ' ' ∉ text.toList
  unclosed : ']' ∉ text.toList

instance (text : String) : Decidable (Word text) :=
  decidable_of_iff (text ≠ "" ∧ ' ' ∉ text.toList ∧ ']' ∉ text.toList)
    ⟨fun ⟨nonempty, unspaced, unclosed⟩ => ⟨nonempty, unspaced, unclosed⟩,
      fun word => ⟨word.nonempty, word.unspaced, word.unclosed⟩⟩

/-- Numbers in decimal are words. -/
theorem word_decimal (number : Nat) : Word (toString number) where
  nonempty := decimal_ne_empty number
  unspaced := notMem_decimal (by decide) number
  unclosed := notMem_decimal (by decide) number

/-- The bracket that closes a list of words is not in it. -/
theorem bracket_notMem_spaced {words : List String} (proper : ∀ word ∈ words, Word word) :
    ']' ∉ (String.intercalate " " words).toList := by
  induction words with
  | nil => simp
  | cons first rest induction =>
    have here := (proper first (by simp)).unclosed
    have later := induction fun word member => proper word (by simp [member])
    cases rest with
    | nil => simpa using here
    | cons second others =>
      rw [String.intercalate_cons_cons]
      simp only [String.toList_append, List.mem_append, not_or]
      exact ⟨⟨here, by decide⟩, later⟩

/-- Words with spaces between them are empty only if there are none. -/
theorem spaced_ne_empty {first : String} {rest : List String} (proper : Word first) :
    String.intercalate " " (first :: rest) ≠ "" := by
  cases rest with
  | nil =>
    rw [String.intercalate_singleton]
    exact proper.nonempty
  | cons second others =>
    rw [String.intercalate_cons_cons]
    simp

/-- Words are cut apart at the spaces between them. -/
theorem splitOn_spaced {words : List String} (proper : ∀ word ∈ words, Word word)
    (nonempty : words ≠ []) :
    (String.intercalate " " words).toList.splitOn ' ' = words.map String.toList := by
  rw [String.toList_intercalate]
  refine List.splitOn_intercalate ' ' ?_ (by simpa using nonempty)
  intro list member
  obtain ⟨word, held, rfl⟩ := List.mem_map.mp member
  exact (proper word held).unspaced

/-- Words are read back from the text with spaces between them. -/
theorem spaced_inj {left right : List String} (leftProper : ∀ word ∈ left, Word word)
    (rightProper : ∀ word ∈ right, Word word)
    (same : String.intercalate " " left = String.intercalate " " right) : left = right := by
  cases left with
  | nil =>
    cases right with
    | nil => rfl
    | cons first rest => exact absurd same.symm (spaced_ne_empty (rightProper first (by simp)))
  | cons first rest =>
    cases right with
    | nil => exact absurd same (spaced_ne_empty (leftProper first (by simp)))
    | cons other others =>
      have lists := splitOn_spaced leftProper (by simp)
      rw [same, splitOn_spaced rightProper (by simp)] at lists
      exact (List.map_inj_right fun _ _ => String.toList_inj.mp).mp lists.symm

end StackMaps.Text

namespace StackMaps

/-- The general-purpose registers of every target have different words as names. -/
theorem Architecture.names_spelled (target : Architecture) :
    (target.catalog.names .general).Nodup ∧
      ∀ name ∈ target.catalog.names .general, Text.Word name := by
  cases target with
  | amd64 => decide +kernel
  | aarch64 => decide +kernel
  | ia32 => decide +kernel
  | sparcv9 => decide +kernel

/-- Targets have different names. -/
theorem Architecture.name_inj {left right : Architecture} (same : left.name = right.name) :
    left = right := by
  cases left <;> cases right <;> simp [name] at same ⊢

/-- The name of a target has no comma. -/
theorem Architecture.comma_notMem_name (target : Architecture) : ',' ∉ target.name.toList := by
  cases target <;> decide

end StackMaps
