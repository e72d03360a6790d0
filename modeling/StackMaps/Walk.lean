import StackMaps.Fault

/-!
# Walks

A walk hands out items one at a time. Each step ends the walk or gives an item
and the state from which the next step goes on. Every item given leaves less to
do, so from each state a walk comes to its end or to a fault after finitely many
steps, and what visits its items needs no bound of its own.
-/

namespace StackMaps

/-- A way of handing out items from a state, in checked steps. -/
structure Walk (σ α : Type) where
  /-- The next item and the state after it, or nothing at the end. -/
  next : σ → Checked (Option (α × σ))
  /-- A measure of what is left to do. -/
  size : σ → Nat
  shrinks : ∀ {state item rest}, next state = .ok (some (item, rest)) → size rest < size state

namespace Walk

variable {σ α β : Type}

/-- Visit the items one after another, up to the end or the first fault. -/
def fold (walk : Walk σ α) (visit : β → α → Checked β) (value : β) (state : σ) : Checked β :=
  match _ : walk.next state with
  | .error fault => .error fault
  | .ok none => .ok value
  | .ok (some (item, rest)) => do
    let visited ← visit value item
    walk.fold visit visited rest
termination_by walk.size state
decreasing_by
  apply walk.shrinks
  assumption

/-- The items in the order in which they are handed out. -/
def collect (walk : Walk σ α) (state : σ) : Checked (List α) :=
  Array.toList <$> walk.fold (fun items item => .ok (items.push item)) #[] state

/-- The walk through the items of a list. -/
def list : Walk (List α) α where
  next
    | [] => .ok none
    | item :: rest => .ok (some (item, rest))
  size := List.length
  shrinks := by
    intro state item rest step
    cases state with
    | nil => cases step
    | cons first others =>
      cases step
      exact Nat.lt_succ_self _

/-- From a state, the walk hands out exactly these items in this order and then
ends. -/
inductive Yields (walk : Walk σ α) : σ → List α → Prop
  | ended {state : σ} : walk.next state = .ok none → Yields walk state []
  | handed {state rest : σ} {item : α} {items : List α} :
    walk.next state = .ok (some (item, rest)) → Yields walk rest items →
      Yields walk state (item :: items)

/-- What a visit does after the next step. -/
theorem fold_eq (walk : Walk σ α) (visit : β → α → Checked β) (value : β) (state : σ) :
    walk.fold visit value state =
      match walk.next state with
      | .error fault => .error fault
      | .ok none => .ok value
      | .ok (some (item, rest)) =>
        visit value item >>= fun visited => walk.fold visit visited rest := by
  rw [fold]
  split <;> simp only [*]

variable {walk : Walk σ α} {state : σ} {items : List α}

/-- Visiting a walk that ends visits the list of its items. -/
theorem fold_of_yields (yields : walk.Yields state items) (visit : β → α → Checked β) (value : β) :
    walk.fold visit value state = items.foldlM visit value := by
  induction yields generalizing value with
  | ended last =>
    rw [fold_eq, last]
    rfl
  | handed step _ induction =>
    rw [fold_eq, step, List.foldlM_cons]
    exact congrArg _ (funext induction)

/-- A visit that completes has come to the end of the walk. -/
theorem yields_of_fold {visit : β → α → Checked β} {value final : β} {state : σ}
    (completed : walk.fold visit value state = .ok final) :
    ∃ items, walk.Yields state items ∧ items.foldlM visit value = .ok final := by
  rw [fold_eq] at completed
  match step : walk.next state with
  | .error fault =>
    rw [step] at completed
    cases completed
  | .ok none =>
    rw [step] at completed
    exact ⟨[], .ended step, completed⟩
  | .ok (some (item, rest)) =>
    simp only [step] at completed
    cases visited : visit value item with
    | error fault =>
      rw [visited] at completed
      cases completed
    | ok next =>
      have went : walk.fold visit next rest = .ok final := by rwa [visited] at completed
      obtain ⟨items, yields, later⟩ := yields_of_fold went
      refine ⟨item :: items, .handed step yields, ?_⟩
      rw [List.foldlM_cons, visited]
      exact later
termination_by walk.size state
decreasing_by exact walk.shrinks step

/-- A walk that ends is collected as the list of its items. -/
theorem collect_of_yields (yields : walk.Yields state items) :
    walk.collect state = .ok items := by
  have pushed : ∀ (items : List α) (start : Array α),
      items.foldlM (fun items item => (.ok (items.push item) : Checked (Array α))) start =
        .ok (start ++ items) := by
    intro items
    induction items with
    | nil =>
      intro start
      exact congrArg Except.ok (by simp)
    | cons first rest induction =>
      intro start
      rw [List.foldlM_cons]
      exact (induction (start.push first)).trans (by simp)
  rw [collect, fold_of_yields yields, pushed]
  simp [Functor.map, Except.map]

/-- The walk through a list hands out the list. -/
theorem yields_list (items : List α) : list.Yields items items := by
  induction items with
  | nil => exact .ended rfl
  | cons first rest induction => exact .handed rfl induction

end Walk

end StackMaps
