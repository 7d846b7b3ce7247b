import Mathlib.Logic.Relation

/-! Loops that may go wrong. A pass through the body yields the next state or
leaves the loop, and it faults where memory would be accessed out of bounds. -/
namespace Loop

inductive Pass (σ : Type*) where
  | next (s : σ)
  | leave
  | fault
deriving DecidableEq

variable {σ : Type*}

/-- Some passes through the body. -/
def Steps (pass : σ → Pass σ) : σ → σ → Prop :=
  Relation.ReflTransGen fun s t => pass s = .next t

/-- The loop is left in this state. A loop that faults or goes on forever is
left in none. -/
def Ends (pass : σ → Pass σ) (s t : σ) : Prop := Steps pass s t ∧ pass t = .leave

variable {pass : σ → Pass σ} {s t u : σ}

theorem Steps.refl (s : σ) : Steps pass s s := Relation.ReflTransGen.refl

theorem Steps.tail (prior : Steps pass s t) (last : pass t = .next u) : Steps pass s u :=
  Relation.ReflTransGen.tail prior last

/-- A loop goes on where it was. -/
theorem Steps.trans (left : Steps pass s t) (right : Steps pass t u) : Steps pass s u :=
  Relation.ReflTransGen.trans left right

/-- A loop that goes on ends as it does from there. -/
theorem Steps.ends (left : Steps pass s t) (h : Ends pass t u) : Ends pass s u :=
  ⟨left.trans h.1, h.2⟩

/-- What every pass keeps holds as long as the loop runs. -/
theorem Steps.invariant {I : σ → Prop} (steps : Steps pass s t) (hStart : I s)
    (hPass : ∀ u v, I u → pass u = .next v → I v) : I t := by
  induction steps with
  | refl => exact hStart
  | tail _ last ih => exact hPass _ _ ih last

/-- A loop whose states all keep it going is never left. -/
theorem not_ends {I : σ → Prop} (hStart : I s) (hPass : ∀ u v, I u → pass u = .next v → I v)
    (hStays : ∀ u, I u → pass u ≠ .leave) (t : σ) : ¬ Ends pass s t := by
  rintro ⟨steps, hLeave⟩
  exact hStays t (steps.invariant hStart hPass) hLeave

end Loop
