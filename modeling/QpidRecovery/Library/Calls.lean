import Mathlib.Tactic.TypeStar

/-! Objects behind an interface. An object represents a value of an abstract type,
and a sequence of calls is performed on both. A call that goes wrong is not
performed. -/
namespace Calls

variable {σ α γ ρ : Type*}

section Definitions
variable (perform : σ → γ → Option (σ × ρ)) (apply : α → γ → α) (returns : α → γ → ρ → Prop)
  (represents : σ → α → Prop) (fits : α → γ → Prop)

/-- Along the calls every one is performed, returns what it should, and leaves an
object that represents the value. -/
def Follows : σ → α → List γ → Prop
  | s, a, [] => represents s a
  | s, a, c :: rest => represents s a ∧ ∃ t r, perform s c = some (t, r) ∧ returns a c r ∧
      Follows t (apply a c) rest

/-- Every call fits the value that the calls before it made. -/
def AllFit : α → List γ → Prop
  | _, [] => True
  | a, c :: rest => fits a c ∧ AllFit (apply a c) rest

end Definitions

variable {perform : σ → γ → Option (σ × ρ)} {apply : α → γ → α} {returns : α → γ → ρ → Prop}
  {represents : σ → α → Prop} {fits : α → γ → Prop}

/-- Where a call is performed exactly if it fits, and then does what it should,
an object follows the calls exactly if all of them fit. -/
theorem follows_iff
    (hFits : ∀ s a c, represents s a → fits a c →
      ∃ t r, perform s c = some (t, r) ∧ returns a c r ∧ represents t (apply a c))
    (hOnly : ∀ s a c, represents s a → (perform s c).isSome → fits a c)
    {s : σ} {a : α} (hStart : represents s a) (calls : List γ) :
    Follows perform apply returns represents s a calls ↔ AllFit apply fits a calls := by
  induction calls generalizing s a with
  | nil => exact ⟨fun _ => trivial, fun _ => hStart⟩
  | cons c rest ih =>
      constructor
      · rintro ⟨_, t, r, hCall, _, hRest⟩
        have hFit := hOnly s a c hStart (by rw [hCall]; rfl)
        obtain ⟨t', r', hCall', _, hNext⟩ := hFits s a c hStart hFit
        rw [hCall] at hCall'
        cases hCall'
        exact ⟨hFit, (ih hNext).mp hRest⟩
      · rintro ⟨hFit, hRest⟩
        obtain ⟨t, r, hCall, hReturns, hNext⟩ := hFits s a c hStart hFit
        exact ⟨hStart, t, r, hCall, hReturns, (ih hNext).mpr hRest⟩

/-- An object whose calls all do what they should. -/
theorem follows
    (hCalls : ∀ s a c, represents s a →
      ∃ t r, perform s c = some (t, r) ∧ returns a c r ∧ represents t (apply a c))
    {s : σ} {a : α} (hStart : represents s a) (calls : List γ) :
    Follows perform apply returns represents s a calls := by
  induction calls generalizing s a with
  | nil => exact hStart
  | cons c rest ih =>
      obtain ⟨t, r, hCall, hReturns, hNext⟩ := hCalls s a c hStart
      exact ⟨hStart, t, r, hCall, hReturns, ih hNext⟩

end Calls
