import Mathlib.Logic.Relation

/-! Finite runs of a system whose actions are executable. An action either
yields the next state or is not enabled. A run may be restricted by a side
condition on the state and the action taken there. -/
namespace Transition

variable {σ α : Type*}

/-- One enabled action that the side condition allows. -/
def StepWhere (step : σ → α → Option σ) (ok : σ → α → Prop) (s t : σ) : Prop :=
  ∃ a, ok s a ∧ step s a = some t

/-- A finite run all of whose actions satisfy the side condition. -/
def Run (step : σ → α → Option σ) (ok : σ → α → Prop) : σ → σ → Prop :=
  Relation.ReflTransGen (StepWhere step ok)

variable {step : σ → α → Option σ} {ok ok' : σ → α → Prop}

theorem Run.refl (s : σ) : Run step ok s s := Relation.ReflTransGen.refl

theorem Run.tail {s t u : σ} {a : α} (run : Run step ok s t) (hOk : ok t a)
    (last : step t a = some u) : Run step ok s u :=
  Relation.ReflTransGen.tail run ⟨a, hOk, last⟩

theorem Run.trans {s t u : σ} (left : Run step ok s t) (right : Run step ok t u) :
    Run step ok s u :=
  Relation.ReflTransGen.trans left right

/-- What holds at the start and survives every allowed action holds at the
end of the run. -/
theorem Run.invariant {P : σ → Prop} {s t : σ} (run : Run step ok s t) (hStart : P s)
    (hStep : ∀ u a v, P u → ok u a → step u a = some v → P v) : P t := by
  induction run with
  | refl => exact hStart
  | tail _ last ih =>
      obtain ⟨a, hOk, hNext⟩ := last
      exact hStep _ a _ ih hOk hNext

/-- A weaker side condition admits every run of a stronger one. -/
theorem Run.mono {s t : σ} (run : Run step ok s t) (h : ∀ u a, ok u a → ok' u a) :
    Run step ok' s t := by
  induction run with
  | refl => exact Run.refl _
  | tail _ last ih =>
      obtain ⟨a, hOk, hNext⟩ := last
      exact ih.tail (h _ a hOk) hNext

/-- Perform a fixed sequence of actions, stopping at one that is not enabled. -/
def exec (step : σ → α → Option σ) : σ → List α → Option σ
  | s, [] => some s
  | s, a :: rest => (step s a).bind fun t => exec step t rest

theorem exec_append {s t : σ} {first : List α} (h : exec step s first = some t)
    (second : List α) : exec step s (first ++ second) = exec step t second := by
  induction first generalizing s with
  | nil =>
      cases h
      rfl
  | cons a rest ih =>
      obtain ⟨u, hStep, hRest⟩ := Option.bind_eq_some_iff.mp h
      rw [List.cons_append, exec, hStep, Option.bind_some, ih hRest]

/-- A performed sequence is a run when its actions meet the side condition
wherever they are taken. -/
theorem Run.of_exec {s t : σ} {actions : List α} (hOk : ∀ u, ∀ a ∈ actions, ok u a)
    (h : exec step s actions = some t) : Run step ok s t := by
  induction actions generalizing s with
  | nil =>
      cases h
      exact Run.refl _
  | cons a rest ih =>
      obtain ⟨u, hStep, hRest⟩ := Option.bind_eq_some_iff.mp h
      have hTail := ih (fun v b hb => hOk v b (List.mem_cons_of_mem _ hb)) hRest
      exact Relation.ReflTransGen.head ⟨a, hOk s a List.mem_cons_self, hStep⟩ hTail

/-- The actions that pass a check. -/
def guarded (step : σ → α → Option σ) (check : σ → α → Bool) (s : σ) (a : α) : Option σ :=
  if check s a then step s a else none

/-- A performed sequence whose actions are checked for the side condition is a
run. -/
theorem Run.of_guarded {check : σ → α → Bool} (hCheck : ∀ u a, check u a = true → ok u a) {s t : σ}
    {actions : List α} (h : exec (guarded step check) s actions = some t) : Run step ok s t := by
  induction actions generalizing s with
  | nil =>
      cases h
      exact Run.refl _
  | cons a rest ih =>
      obtain ⟨u, hStep, hRest⟩ := Option.bind_eq_some_iff.mp h
      unfold guarded at hStep
      split at hStep
      next hPassed =>
        exact Relation.ReflTransGen.head ⟨a, hCheck s a hPassed, hStep⟩ (ih hRest)
      · cases hStep

/-- In every state that a sequence of actions visits, up to its end or to an
action that is not enabled. -/
def Throughout (step : σ → α → Option σ) (P : σ → Prop) : σ → List α → Prop
  | s, [] => P s
  | s, a :: rest => P s ∧ ∀ t, step s a = some t → Throughout step P t rest

/-- At every action that a sequence performs. -/
def Along (step : σ → α → Option σ) (Q : σ → α → Prop) : σ → List α → Prop
  | _, [] => True
  | s, a :: rest => ∀ t, step s a = some t → Q s a ∧ Along step Q t rest

/-- The first state that a sequence visits is the one it starts in. -/
theorem Throughout.start {P : σ → Prop} {s : σ} {actions : List α}
    (h : Throughout step P s actions) : P s := by
  cases actions with
  | nil => exact h
  | cons a rest => exact h.1

/-- A performed sequence ends in one of the states it visits. -/
theorem Throughout.last {P : σ → Prop} {s t : σ} {actions : List α}
    (h : Throughout step P s actions) (hExec : exec step s actions = some t) : P t := by
  induction actions generalizing s with
  | nil =>
      cases hExec
      exact h
  | cons a rest ih =>
      obtain ⟨u, hStep, hRest⟩ := Option.bind_eq_some_iff.mp hExec
      exact ih (h.2 u hStep) hRest

theorem along_true {s : σ} (actions : List α) : Along step (fun _ _ => True) s actions := by
  induction actions generalizing s with
  | nil => trivial
  | cons a rest ih => exact fun t _ => ⟨trivial, ih⟩

/-- Where an invariant is kept exactly by the actions that meet a condition, a
property of the states and the actions holds along a sequence exactly if the
condition does. -/
theorem throughout_iff_along {I P : σ → Prop} {Q : σ → α → Prop} (hHolds : ∀ s, I s → P s)
    (hKeep : ∀ s a t, I s → step s a = some t → ok s a → Q s a ∧ I t)
    (hOnly : ∀ s a t, I s → step s a = some t → Q s a → P t → ok s a) {s : σ} (hStart : I s)
    (actions : List α) :
    (Throughout step P s actions ∧ Along step Q s actions) ↔ Along step ok s actions := by
  induction actions generalizing s with
  | nil => exact ⟨fun _ => trivial, fun _ => ⟨hHolds s hStart, trivial⟩⟩
  | cons a rest ih =>
      constructor
      · rintro ⟨hStates, hActions⟩ t hStep
        obtain ⟨hQ, hActions⟩ := hActions t hStep
        have hRest := hStates.2 t hStep
        have hOk := hOnly s a t hStart hStep hQ hRest.start
        exact ⟨hOk, (ih (hKeep s a t hStart hStep hOk).2).mp ⟨hRest, hActions⟩⟩
      · intro h
        have hNext : ∀ t, step s a = some t →
            Q s a ∧ Throughout step P t rest ∧ Along step Q t rest := by
          intro t hStep
          obtain ⟨hOk, hRest⟩ := h t hStep
          obtain ⟨hQ, hInv⟩ := hKeep s a t hStart hStep hOk
          exact ⟨hQ, (ih hInv).mpr hRest⟩
        exact ⟨⟨hHolds s hStart, fun t hStep => (hNext t hStep).2.1⟩,
          fun t hStep => ⟨(hNext t hStep).1, (hNext t hStep).2.2⟩⟩

/-- The same for a property of the states alone. -/
theorem throughout_iff {I P : σ → Prop} (hHolds : ∀ s, I s → P s)
    (hKeep : ∀ s a t, I s → step s a = some t → ok s a → I t)
    (hOnly : ∀ s a t, I s → step s a = some t → P t → ok s a) {s : σ} (hStart : I s)
    (actions : List α) : Throughout step P s actions ↔ Along step ok s actions := by
  rw [← throughout_iff_along (Q := fun _ _ => True) hHolds
    (fun s a t hInv hStep hOk => ⟨trivial, hKeep s a t hInv hStep hOk⟩)
    (fun s a t hInv hStep _ hNext => hOnly s a t hInv hStep hNext) hStart actions]
  exact ⟨fun h => ⟨h, along_true actions⟩, And.left⟩

end Transition
