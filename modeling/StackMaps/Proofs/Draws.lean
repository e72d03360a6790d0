import StackMaps.Sample.Source
import StackMaps.Proofs.Steps

/-!
# What a draw yields

Of a source only this is assumed: a number that it answers is in the range that was
asked for, and an element is one of the list. It may have no answer at any time.

A draw yields values with a property if from every state it ends with such a value,
or the source ran out of answers. It then never faults, and nothing that must be
accepted is refused. The property is established along the draw: each question adds
what is known of its answer, each checked step has to complete, and a loop carries an
invariant.
-/

namespace StackMaps

namespace Source

/-- What a source answers is what it was asked for. -/
structure Sound (source : Source) : Prop where
  between : ∀ {width : Nat} {low high number : Int} {state rest : source.State}, low ≤ high →
    source.between width low high state = some (number, rest) → low ≤ number ∧ number ≤ high
  choose : ∀ {α : Type} {elements : List α} {element : α} {state rest : source.State},
    elements ≠ [] → source.choose elements state = some (element, rest) → element ∈ elements

/-- A question that can be answered is left without an answer. -/
inductive RunsOut (source : Source) : Prop where
  | between {width : Nat} {low high : Int} {state : source.State} (ordered : low ≤ high)
      (silent : source.between width low high state = none)
  | choose {α : Type} {elements : List α} {state : source.State} (nonempty : elements ≠ [])
      (silent : source.choose elements state = none)
  | flag {state : source.State} (silent : source.flag state = none)
  | word {state : source.State} (silent : source.word state = none)

namespace Bytes

/-- A number that is drawn from bytes is in the range. -/
theorem between_mem {width : Nat} {low high : Int} (ordered : low ≤ high) (bytes : List Byte) :
    low ≤ (between width low high bytes).1 ∧ (between width low high bytes).1 ≤ high := by
  have reduced : (gather (high - low).toNat width 0 0 bytes).1 % ((high - low).toNat + 1) <
      (high - low).toNat + 1 := Nat.mod_lt _ (Nat.succ_pos _)
  have value : (between width low high bytes).1 = low +
      ((gather (high - low).toNat width 0 0 bytes).1 % ((high - low).toNat + 1) : Nat) := rfl
  rw [value]
  omega

/-- A choice from a list with elements is one of them. -/
theorem choose_mem {α : Type} {elements : List α} (nonempty : elements ≠ []) (bytes : List Byte) :
    ∃ element ∈ elements, ∃ rest, choose elements bytes = some (element, rest) := by
  have positive : 0 < elements.length := List.length_pos_iff.mpr nonempty
  have range : 0 ≤ (between 8 0 (elements.length - 1) bytes).1 ∧
      (between 8 0 (elements.length - 1) bytes).1 ≤ elements.length - 1 :=
    between_mem (by omega) bytes
  have inside : (between 8 0 (elements.length - 1) bytes).1.toNat < elements.length := by omega
  refine ⟨elements.get ⟨_, inside⟩, List.get_mem _ _,
    (between 8 0 (elements.length - 1) bytes).2, ?_⟩
  simp only [choose, List.getElem?_eq_getElem inside, Option.map_some]
  rfl

end Bytes

/-- A byte string answers what it is asked. -/
theorem bytes_sound : bytes.Sound where
  between := by
    intro width low high number state rest ordered answered
    have range : low ≤ (Bytes.between width low high state).1 ∧
        (Bytes.between width low high state).1 ≤ high := Bytes.between_mem ordered state
    rwa [Option.some.inj answered] at range
  choose := by
    intro α elements element state rest nonempty answered
    obtain ⟨chosen, member, after, same⟩ := Bytes.choose_mem nonempty state
    obtain ⟨rfl, _⟩ := Prod.mk.inj (Option.some.inj (same.symm.trans answered))
    exact member

/-- A byte string never runs out of answers. -/
theorem bytes_never_runs_out : ¬ bytes.RunsOut := by
  intro runsOut
  cases runsOut with
  | between ordered silent => cases silent
  | choose nonempty silent =>
    obtain ⟨chosen, _, after, same⟩ := Bytes.choose_mem nonempty _
    cases same.symm.trans silent
  | flag silent => cases silent
  | word silent => cases silent

end Source

namespace Draw

variable {source : Source} {α β : Type}

/-- From every state a draw ends with a value that has the property, unless the source
runs out. -/
def Yields (draw : Draw source α) (property : α → Prop) : Prop :=
  ∀ state, (source.RunsOut ∧ draw state = .error .exhausted) ∨
    ∃ value rest, draw state = .ok (value, rest) ∧ property value

/-- A value that is returned is yielded. -/
theorem yields_pure {property : α → Prop} {value : α} (holds : property value) :
    Yields (pure value : Draw source α) property :=
  fun state => Or.inr ⟨value, state, rfl, holds⟩

/-- What follows a draw goes on from a value that the draw yields. -/
theorem Yields.bind {first : Draw source α} {next : α → Draw source β} {middle : α → Prop}
    {property : β → Prop} (now : Yields first middle)
    (later : ∀ value, middle value → Yields (next value) property) :
    Yields (first >>= next) property := by
  intro state
  rcases now state with ⟨runsOut, ended⟩ | ⟨value, rest, ended, holds⟩
  · refine Or.inl ⟨runsOut, ?_⟩
    change (first state >>= fun pair => next pair.1 pair.2) = _
    rw [ended]
    rfl
  · have continued : (first >>= next) state = next value rest := by
      change (first state >>= fun pair => next pair.1 pair.2) = _
      rw [ended]
      rfl
    rw [continued]
    exact later value holds rest

/-- A draw that yields values with a property yields values with a weaker one. -/
theorem Yields.mono {draw : Draw source α} {property weaker : α → Prop}
    (yields : Yields draw property) (implies : ∀ value, property value → weaker value) :
    Yields draw weaker := by
  intro state
  rcases yields state with ended | ⟨value, rest, ended, holds⟩
  · exact Or.inl ended
  · exact Or.inr ⟨value, rest, ended, implies value holds⟩

/-- A question yields what its answers are known to be. -/
theorem yields_ask {question : source.State → Option (α × source.State)} {property : α → Prop}
    (silent : ∀ state, question state = none → source.RunsOut)
    (answers : ∀ state value rest, question state = some (value, rest) → property value) :
    Yields (ask question) property := by
  intro state
  cases asked : question state with
  | none => exact Or.inl ⟨silent state asked, by rw [ask, asked]⟩
  | some answer =>
    exact Or.inr ⟨answer.1, answer.2, by rw [ask, asked], answers state _ _ asked⟩

/-- A number from a range is in the range. -/
theorem yields_between (sound : source.Sound) {width : Nat} {low high : Int}
    (ordered : low ≤ high) :
    Yields (ask (source.between width low high)) fun number => low ≤ number ∧ number ≤ high :=
  yields_ask (fun _ => .between ordered) fun _ _ _ => sound.between ordered

/-- A choice from a list with elements is one of them. -/
theorem yields_choose (sound : source.Sound) {elements : List α} (nonempty : elements ≠ []) :
    Yields (ask (source.choose elements)) fun element => element ∈ elements :=
  yields_ask (fun _ => .choose nonempty) fun _ _ _ => sound.choose nonempty

/-- Nothing is known of a truth value. -/
theorem yields_flag : Yields (ask source.flag) fun _ => True :=
  yields_ask (fun _ => .flag) fun _ _ _ _ => trivial

/-- Nothing is known of a word. -/
theorem yields_word : Yields (ask source.word) fun _ => True :=
  yields_ask (fun _ => .word) fun _ _ _ _ => trivial

/-- A checked step that completes yields its value. -/
theorem yields_perform {step : Checked α} {value : α} (completes : step = .ok value) :
    Yields (perform step : Draw source α) fun result => result = value := by
  intro state
  rw [completes]
  exact Or.inr ⟨value, state, rfl, rfl⟩

/-- An operation that was accepted is gone on from. -/
theorem yields_accepted : Yields (expect (.ok ()) : Draw source Unit) fun _ => True :=
  yields_pure trivial

/-- A loop over a list yields what every step carries on. -/
theorem yields_foldlM {step : α → β → Draw source α} {invariant : α → Prop} {list : List β}
    (carries : ∀ state, ∀ item ∈ list, invariant state → Yields (step state item) invariant)
    {start : α} (holds : invariant start) : Yields (list.foldlM step start) invariant := by
  induction list generalizing start with
  | nil => exact yields_pure holds
  | cons first rest induction =>
    rw [List.foldlM_cons]
    apply (carries start first List.mem_cons_self holds).bind
    intro next kept
    apply induction _ kept
    intro state item member
    exact carries state item (List.mem_cons_of_mem _ member)

/-- A step that is taken so many times yields what it carries on from one count to the
next. -/
theorem yields_times {step : α → Draw source α} {invariant : Nat → α → Prop} {total : Nat}
    (carries : ∀ done state, done < total → invariant done state →
      Yields (step state) (invariant (done + 1)))
    {count done : Nat} (adds : done + count = total) {start : α} (holds : invariant done start) :
    Yields (times step count start) (invariant total) := by
  induction count generalizing done start with
  | zero =>
    obtain rfl : done = total := adds
    exact yields_pure holds
  | succ count induction =>
    apply (carries done start (by omega) holds).bind
    intro next kept
    exact induction (by omega) kept

end Draw

end StackMaps
