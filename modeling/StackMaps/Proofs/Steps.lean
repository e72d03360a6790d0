import Mathlib.Algebra.Group.Nat.Defs
import StackMaps.Handle

/-!
# Checked steps

How a computation of checked steps is taken apart. A sequence completes exactly
when its first step completes and the rest completes from the value it left, so
the result of an operation can be peeled step by step. A loop whose steps cannot
fault is the plain loop.

Handles are the positions of a table as long as the table is shorter than the
handle that refers to nothing.
-/

namespace StackMaps

namespace Checked

/-- A sequence completes when both of its parts do, the second from the value of
the first. -/
theorem bind_eq_ok {α β : Type} {first : Checked α} {next : α → Checked β} {result : β} :
    first >>= next = .ok result ↔ ∃ value, first = .ok value ∧ next value = .ok result := by
  cases first with
  | error fault => simp [bind, Except.bind]
  | ok value => simp [bind, Except.bind]

/-- Applying a function to the value of a step neither adds nor removes a fault. -/
theorem map_eq_ok {α β : Type} {first : Checked α} {change : α → β} {result : β} :
    change <$> first = .ok result ↔ ∃ value, first = .ok value ∧ change value = result := by
  cases first with
  | error fault => simp [Functor.map, Except.map]
  | ok value => simp [Functor.map, Except.map]

/-- A completed step hands its value on. -/
@[simp] theorem ok_bind {α β : Type} (value : α) (next : α → Checked β) :
    (Except.ok value : Checked α) >>= next = next value := rfl

/-- Returning a value completes. -/
@[simp] theorem pure_eq_ok {α : Type} (value : α) : (pure value : Checked α) = .ok value := rfl

/-- A loop of checked steps that complete from every state is the plain loop. -/
theorem foldlM_eq_ok {σ α : Type} (step : σ → α → Checked σ) (plain : σ → α → σ) (list : List α)
    (start : σ) (agrees : ∀ state, ∀ item ∈ list, step state item = .ok (plain state item)) :
    list.foldlM step start = .ok (list.foldl plain start) := by
  induction list generalizing start with
  | nil => rfl
  | cons first rest induction =>
    have later : ∀ state, ∀ item ∈ rest, step state item = .ok (plain state item) := by
      intro state item member
      exact agrees state item (by simp [member])
    rw [List.foldlM_cons, agrees start first (by simp)]
    exact induction (plain start first) later

/-- Steps that complete for every item of a list complete for the list. -/
theorem mapM_eq_ok {α β : Type} (step : α → Checked β) (plain : α → β) (list : List α)
    (agrees : ∀ item ∈ list, step item = .ok (plain item)) :
    list.mapM step = .ok (list.map plain) := by
  induction list with
  | nil => rfl
  | cons first rest induction =>
    have later : rest.mapM step = .ok (rest.map plain) := by
      apply induction
      intro item member
      exact agrees item (by simp [member])
    rw [List.mapM_cons, agrees first (by simp), later]
    rfl

/-- A 32-bit sum completes exactly when it stays in range, and is then the sum of
the numbers. -/
theorem add_eq_ok {left right sum : UInt32} :
    add left right = .ok sum ↔
      left.toNat + right.toNat < 2 ^ 32 ∧ sum.toNat = left.toNat + right.toNat := by
  have range : UInt32.size = 2 ^ 32 := rfl
  rw [add, range]
  by_cases inside : left.toNat + right.toNat < 2 ^ 32
  · have value : (left + right).toNat = left.toNat + right.toNat := by
      rw [UInt32.toNat_add, Nat.mod_eq_of_lt inside]
    simp only [inside, if_true, true_and, Except.ok.injEq]
    constructor
    · intro same
      rw [← same, value]
    · intro same
      exact UInt32.toNat_inj.mp (value.trans same.symm)
  · simp only [inside, if_false, reduceCtorEq, false_and]

/-- A quotient completes exactly when the divisor is not zero. -/
theorem divide_eq_ok {left right quotient : UInt32} :
    divide left right = .ok quotient ↔ right ≠ 0 ∧ quotient = left / right := by
  unfold divide
  by_cases zero : right = 0
  · simp [zero]
  · simp [zero, eq_comm]

/-- A sum of sizes completes exactly inside the address space. -/
theorem addSize_eq_ok {left right sum : Nat} :
    addSize left right = .ok sum ↔ left + right < 2 ^ 64 ∧ sum = left + right := by
  have space : UInt64.size = 2 ^ 64 := rfl
  rw [addSize, space]
  by_cases inside : left + right < 2 ^ 64
  · simp only [inside, if_true, true_and, Except.ok.injEq, eq_comm]
  · simp only [inside, if_false, reduceCtorEq, false_and]

/-- A product of sizes completes exactly inside the address space. -/
theorem multiplySize_eq_ok {left right product : Nat} :
    multiplySize left right = .ok product ↔ left * right < 2 ^ 64 ∧ product = left * right := by
  have space : UInt64.size = 2 ^ 64 := rfl
  rw [multiplySize, space]
  by_cases inside : left * right < 2 ^ 64
  · simp only [inside, if_true, true_and, Except.ok.injEq, eq_comm]
  · simp only [inside, if_false, reduceCtorEq, false_and]

/-- A size is one that memory can have exactly below half of the address space. -/
theorem requireCapacity_eq_ok {size : Nat} : requireCapacity size = .ok () ↔ size < 2 ^ 63 := by
  have half : UInt64.size / 2 = 2 ^ 63 := rfl
  rw [requireCapacity, half]
  by_cases inside : size < 2 ^ 63
  · simp only [inside, if_true]
  · simp only [inside, if_false, reduceCtorEq]

/-- A run inside a table is read without a fault. -/
theorem range_eq {α : Type} {table : List α} {start stop : Nat} (starts : start ≤ table.length)
    (stops : stop ≤ table.length) :
    range table start stop = .ok ((table.drop start).take (stop - start)) := by
  rw [range, if_neg (by omega), if_neg (by omega)]

/-- An element is read exactly where the table has one. -/
theorem element_eq_ok {α : Type} {table : List α} {index : Nat} {value : α} :
    element table index = .ok value ↔ table[index]? = some value := by
  unfold element
  cases stored : table[index]? with
  | none => simp
  | some found => simp

end Checked

namespace Handle

variable {α : Type}

/-- A position below the range of handle numbers is kept by its handle. -/
theorem toNat_ofNat {position : Nat} (small : position < 2 ^ 32) :
    (ofNat position : Handle α).number.toNat = position :=
  UInt32.toNat_ofNat_of_lt small

/-- A handle is the handle of the position it numbers. -/
theorem ofNat_toNat (handle : Handle α) : ofNat handle.number.toNat = handle := by
  apply eq_of_number
  simp [ofNat]

/-- Handles with one position are one handle. -/
theorem eq_of_toNat {left right : Handle α} (same : left.number.toNat = right.number.toNat) :
    left = right :=
  eq_of_number (UInt32.toNat_inj.mp same)

/-- A handle refers to something exactly when its number is not the largest. -/
theorem isValid_iff (handle : Handle α) :
    handle.isValid = true ↔ handle.number.toNat < 2 ^ 32 - 1 := by
  have bound : handle.number.toNat < 2 ^ 32 := handle.number.toNat_lt
  have largest : (nowhere : Handle α).number.toNat = 2 ^ 32 - 1 := rfl
  simp only [isValid, decide_eq_true_eq]
  constructor
  · intro different
    have apart : handle.number.toNat ≠ 2 ^ 32 - 1 := by
      intro same
      exact different (eq_of_toNat (same.trans largest.symm))
    omega
  · intro small same
    rw [same, largest] at small
    omega

/-- A handle is used as an index exactly when it refers to something. -/
theorem index_eq_ok {handle : Handle α} {position : Nat} :
    handle.index = .ok position ↔
      handle.number.toNat < 2 ^ 32 - 1 ∧ handle.number.toNat = position := by
  unfold index
  by_cases valid : handle.isValid = true
  · have small := (isValid_iff handle).mp valid
    simp only [valid, small, if_true, true_and, Except.ok.injEq]
  · have large : ¬ handle.number.toNat < 2 ^ 32 - 1 := by
      intro small
      exact valid ((isValid_iff handle).mpr small)
    simp only [valid, large, Bool.false_eq_true, if_false, reduceCtorEq, false_and]

/-- An entry is fetched exactly through a handle that refers to something and
whose position is in the table. -/
theorem fetch_eq_ok {handle : Handle α} {table : List α} {value : α} :
    handle.fetch table = .ok value ↔
      handle.number.toNat < 2 ^ 32 - 1 ∧ table[handle.number.toNat]? = some value := by
  unfold fetch
  rw [Checked.bind_eq_ok]
  constructor
  · rintro ⟨position, indexed, stored⟩
    obtain ⟨small, rfl⟩ := index_eq_ok.mp indexed
    exact ⟨small, Checked.element_eq_ok.mp stored⟩
  · rintro ⟨small, stored⟩
    exact ⟨handle.number.toNat, index_eq_ok.mpr ⟨small, rfl⟩, Checked.element_eq_ok.mpr stored⟩

/-- In a table that handles can number, a handle fetches what stands at its
position. -/
theorem fetch_of_short {handle : Handle α} {table : List α} {value : α}
    (short : table.length < 2 ^ 32 - 1) :
    handle.fetch table = .ok value ↔ table[handle.number.toNat]? = some value := by
  rw [fetch_eq_ok]
  constructor
  · exact And.right
  · intro stored
    obtain ⟨inside, _⟩ := List.getElem?_eq_some_iff.mp stored
    exact ⟨by omega, stored⟩

/-- A handle into a table with one more entry fetches what it fetched before, or
the entry at the end. -/
theorem fetch_append {handle : Handle α} {table : List α} {added value : α}
    (fetched : handle.fetch (table ++ [added]) = .ok value) :
    handle.fetch table = .ok value ∨ (handle.number.toNat = table.length ∧ value = added) := by
  obtain ⟨small, stored⟩ := fetch_eq_ok.mp fetched
  rw [List.getElem?_append] at stored
  split at stored
  · exact Or.inl (fetch_eq_ok.mpr ⟨small, stored⟩)
  · obtain ⟨inside, same⟩ := List.getElem?_eq_some_iff.mp stored
    rw [List.length_singleton] at inside
    refine Or.inr ⟨by omega, ?_⟩
    rw [← same, List.getElem_singleton]

/-- What a handle fetches it fetches from a longer table too. -/
theorem fetch_append_left {handle : Handle α} {table : List α} {value : α}
    (fetched : handle.fetch table = .ok value) (more : List α) :
    handle.fetch (table ++ more) = .ok value := by
  obtain ⟨small, stored⟩ := fetch_eq_ok.mp fetched
  have inside := (List.getElem?_eq_some_iff.mp stored).1
  exact fetch_eq_ok.mpr ⟨small, (List.getElem?_append_left inside).trans stored⟩

/-- A handle fetches what replaced its entry. -/
theorem fetch_set_self {handle : Handle α} {table : List α} {value : α}
    (fetched : handle.fetch table = .ok value) (changed : α) :
    handle.fetch (table.set handle.number.toNat changed) = .ok changed := by
  obtain ⟨small, stored⟩ := fetch_eq_ok.mp fetched
  have inside := (List.getElem?_eq_some_iff.mp stored).1
  exact fetch_eq_ok.mpr ⟨small, List.getElem?_set_self inside⟩

/-- A handle fetches its entry after another one was replaced. -/
theorem fetch_set_of_ne {handle other : Handle α} {table : List α} {value : α}
    (fetched : handle.fetch table = .ok value) (apart : other ≠ handle) (changed : α) :
    handle.fetch (table.set other.number.toNat changed) = .ok value := by
  obtain ⟨small, stored⟩ := fetch_eq_ok.mp fetched
  have different : other.number.toNat ≠ handle.number.toNat := by
    intro equal
    exact apart (eq_of_toNat equal)
  exact fetch_eq_ok.mpr ⟨small, (List.getElem?_set_ne different).trans stored⟩

/-- Replacing an entry changes what its own handle fetches, and nothing else. -/
theorem fetch_set {handle other : Handle α} {table : List α} {changed value : α}
    (fetched : handle.fetch (table.set other.number.toNat changed) = .ok value) :
    (handle = other ∧ value = changed) ∨ (handle ≠ other ∧ handle.fetch table = .ok value) := by
  obtain ⟨small, stored⟩ := fetch_eq_ok.mp fetched
  by_cases same : handle = other
  · subst same
    rw [List.getElem?_set_self'] at stored
    obtain ⟨_, _, rfl⟩ := Option.map_eq_some_iff.mp stored
    exact Or.inl ⟨rfl, rfl⟩
  · have apart : other.number.toNat ≠ handle.number.toNat := by
      intro equal
      exact same (eq_of_toNat equal.symm)
    rw [List.getElem?_set_ne apart] at stored
    exact Or.inr ⟨same, fetch_eq_ok.mpr ⟨small, stored⟩⟩

/-- The entries of a table, position by position. -/
theorem getElem?_entries (table : List α) (position : Nat) :
    (entries table)[position]? = table[position]?.map fun value => (ofNat position, value) := by
  simp only [entries, List.getElem?_map, List.getElem?_zipIdx, Option.map_map]
  cases table[position]? with
  | none => rfl
  | some value => simp

/-- In a table that handles can number, an entry is a handle with what it
fetches. -/
theorem mem_entries {table : List α} (short : table.length < 2 ^ 32 - 1) {handle : Handle α}
    {value : α} : (handle, value) ∈ entries table ↔ handle.fetch table = .ok value := by
  rw [fetch_of_short short]
  constructor
  · intro member
    obtain ⟨position, stored⟩ := List.getElem?_of_mem member
    rw [getElem?_entries, Option.map_eq_some_iff] at stored
    obtain ⟨found, present, same⟩ := stored
    obtain ⟨rfl, rfl⟩ := Prod.mk.inj same
    obtain ⟨inside, _⟩ := List.getElem?_eq_some_iff.mp present
    rwa [toNat_ofNat (by omega)]
  · intro stored
    have placed : (entries table)[handle.number.toNat]? = some (handle, value) := by
      rw [getElem?_entries, stored, Option.map_some, ofNat_toNat]
    exact List.mem_of_getElem? placed

/-- In a table that handles can number, every entry's handle is a position of the
table. -/
theorem entries_bounded {table : List α} (short : table.length < 2 ^ 32 - 1)
    {entry : Handle α × α} (member : entry ∈ entries table) :
    entry.1.number.toNat < table.length := by
  have stored := (fetch_of_short short).mp ((mem_entries short).mp member)
  exact (List.getElem?_eq_some_iff.mp stored).1

/-- Handles of a table that they can number ascend. -/
theorem entries_ascending {table : List α} (short : table.length < 2 ^ 32 - 1) :
    (entries table).Pairwise fun left right => left.1.number.toNat < right.1.number.toNat := by
  rw [List.pairwise_iff_getElem]
  intro left right leftInside rightInside before
  have leftStored := List.getElem?_eq_getElem leftInside
  have rightStored := List.getElem?_eq_getElem rightInside
  have length : (entries table).length = table.length := by simp [entries]
  rw [getElem?_entries, Option.map_eq_some_iff] at leftStored rightStored
  obtain ⟨leftValue, _, leftSame⟩ := leftStored
  obtain ⟨rightValue, _, rightSame⟩ := rightStored
  rw [← leftSame, ← rightSame, toNat_ofNat (by omega), toNat_ofNat (by omega)]
  exact before

end Handle

end StackMaps
