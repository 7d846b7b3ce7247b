import Mathlib.Data.List.Basic

/-! Properties of a growing trace of events. A property of what precedes or
follows each event is proved for one appended block at a time. -/
namespace Trace

variable {ε : Type*}

/-- What follows each event of the trace satisfies `Q` of that event. -/
def AfterEach (Q : ε → List ε → Prop) (t : List ε) : Prop :=
  ∀ before a after, t = before ++ a :: after → Q a after

/-- What precedes each event of the trace satisfies `Q` of that event. -/
def BeforeEach (Q : List ε → ε → Prop) (t : List ε) : Prop :=
  ∀ before b after, t = before ++ b :: after → Q before b

/-- An event of an appended trace is an event of one of its two parts. -/
theorem split_append {t new before after : List ε} {a : ε}
    (h : t ++ new = before ++ a :: after) :
    (∃ rest, t = before ++ a :: rest ∧ after = rest ++ new) ∨
      ∃ rest, before = t ++ rest ∧ new = rest ++ a :: after := by
  rcases List.append_eq_append_iff.mp h with ⟨rest, hBefore, hNew⟩ | ⟨rest, hOld, hAfter⟩
  · exact .inr ⟨rest, hBefore, hNew⟩
  · cases rest with
    | nil =>
        rw [List.append_nil] at hOld
        exact .inr ⟨[], by rw [hOld, List.append_nil], hAfter.symm⟩
    | cons b rest =>
        obtain ⟨rfl, hRest⟩ := List.cons.inj hAfter
        exact .inl ⟨rest, hOld, hRest⟩

section AfterEach
variable {Q Q' : ε → List ε → Prop} {t new : List ε}

theorem AfterEach.nil : AfterEach Q [] := by
  intro before a after h
  simp at h

/-- What follows may be required less strictly. -/
theorem AfterEach.mono (h : AfterEach Q t) (hQ : ∀ a l, Q a l → Q' a l) : AfterEach Q' t :=
  fun before a after hSplit => hQ a after (h before a after hSplit)

/-- Appending keeps the property when the new block keeps it for the old
events and has it for its own. -/
theorem AfterEach.append (h : AfterEach Q t) (hKeep : ∀ a l, a ∈ t → Q a l → Q' a (l ++ new))
    (hNew : AfterEach Q' new) : AfterEach Q' (t ++ new) := by
  intro before a after hSplit
  rcases split_append hSplit with ⟨rest, hOld, rfl⟩ | ⟨rest, _, hBlock⟩
  · exact hKeep a rest (by simp [hOld]) (h before a rest hOld)
  · exact hNew rest a after hBlock

/-- One more entry in front. -/
theorem AfterEach.cons {a : ε} (hHead : Q a t) (h : AfterEach Q t) : AfterEach Q (a :: t) := by
  intro before b after hSplit
  cases before with
  | nil =>
      obtain ⟨rfl, rfl⟩ := List.cons.inj hSplit
      exact hHead
  | cons _ before => exact h before b after (List.cons.inj hSplit).2

/-- A property that says nothing about the events of the block. -/
theorem afterEach_of_forall (h : ∀ a ∈ t, ∀ l, Q a l) : AfterEach Q t := by
  intro before a after hSplit
  exact h a (by simp [hSplit]) after

end AfterEach

section BeforeEach
variable {Q : List ε → ε → Prop} {t new : List ε}

theorem BeforeEach.nil : BeforeEach Q [] := by
  intro before b after h
  simp at h

/-- What comes later sees all that came before. -/
theorem BeforeEach.append (h : BeforeEach Q t) (hNew : BeforeEach (fun l b => Q (t ++ l) b) new) :
    BeforeEach Q (t ++ new) := by
  intro before b after hSplit
  rcases split_append hSplit with ⟨rest, hOld, _⟩ | ⟨rest, rfl, hBlock⟩
  · exact h before b rest hOld
  · exact hNew rest b after hBlock

/-- A property of the entries needs no past. -/
theorem beforeEach_of_forall (h : ∀ b ∈ t, ∀ l, Q l b) : BeforeEach Q t := by
  intro before b after hSplit
  exact h b (by simp [hSplit]) before

end BeforeEach

end Trace
