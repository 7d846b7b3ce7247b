import Mathlib.Data.Set.Basic

/-! Comparisons that return an integer of which only the sign counts, and the
orders they follow. -/
namespace ThreeWay

/-- What a returned integer says. -/
def answer (c : Int) : Ordering := compare c 0

@[simp] theorem answer_zero : answer 0 = .eq := rfl

/-- What the sign of a comparison answers. -/
theorem answer_eq_eq {c : Int} : answer c = .eq ↔ c = 0 := Int.compare_eq_eq

theorem answer_eq_lt {c : Int} : answer c = .lt ↔ c < 0 := Int.compare_eq_lt

theorem answer_eq_gt {c : Int} : answer c = .gt ↔ 0 < c := Int.compare_eq_gt

theorem isLE_answer {c : Int} : (answer c).isLE ↔ c ≤ 0 := Int.isLE_compare

/-- Opposite answers are opposite signs. -/
theorem answer_eq_swap {c d : Int} : answer c = (answer d).swap ↔ c.sign = -d.sign := by
  rcases Int.lt_trichotomy d 0 with hd | rfl | hd
  · rw [answer_eq_lt.mpr hd, Int.sign_eq_neg_one_of_neg hd]
    exact answer_eq_gt.trans Int.sign_eq_one_iff_pos.symm
  · exact answer_eq_eq.trans Int.sign_eq_zero_iff_zero.symm
  · rw [answer_eq_gt.mpr hd, Int.sign_eq_one_of_pos hd]
    exact answer_eq_lt.trans Int.sign_eq_neg_one_iff_neg.symm

/-- Returning a nonzero comparison and else going on is lexicographic. -/
theorem answer_nonzero (c rest : Int) :
    answer (if c ≠ 0 then c else rest) = (answer c).then (answer rest) := by
  rcases Int.lt_trichotomy c 0 with hc | rfl | hc
  · rw [if_pos (by omega), answer_eq_lt.mpr hc]
    rfl
  · rfl
  · rw [if_pos (by omega), answer_eq_gt.mpr hc]
    rfl

section Key
variable {β : Type*} [Ord β] [LE β] [LT β] [Std.LawfulOrderOrd β] [Std.LawfulOrderLT β]
  [Std.LawfulEqOrd β] [DecidableEq β] [DecidableLT β]

/-- Comparing two values by equality and order, and else going on. -/
theorem answer_unequal (a b : β) (rest : Int) :
    answer (if a ≠ b then (if a > b then 1 else -1) else rest) =
      (compare a b).then (answer rest) := by
  cases hOrder : compare a b with
  | lt =>
      have hLt : a < b := Std.compare_eq_lt.mp hOrder
      have hNe : a ≠ b := by
        rintro rfl
        simp at hOrder
      have hGt : ¬ a > b := by
        intro hGt
        rw [Std.compare_eq_gt.mpr hGt] at hOrder
        cases hOrder
      rw [if_pos hNe, if_neg hGt]
      rfl
  | eq =>
      rw [if_neg (not_not.mpr (Std.LawfulEqOrd.eq_of_compare hOrder))]
      rfl
  | gt =>
      have hNe : a ≠ b := by
        rintro rfl
        simp at hOrder
      rw [if_pos hNe, if_pos (Std.compare_eq_gt.mp hOrder)]
      rfl

end Key

variable {α : Type*}

/-- On a set of values a comparison is one total preorder, whose ties are the
pairs of a given relation. -/
structure Lawful (S : Set α) (cmp : α → α → Int) (same : α → α → Prop) : Prop where
  sign : ∀ a ∈ S, ∀ b ∈ S, (cmp a b).sign = -(cmp b a).sign
  trans : ∀ a ∈ S, ∀ b ∈ S, ∀ c ∈ S, cmp a b ≤ 0 → cmp b c ≤ 0 → cmp a c ≤ 0
  zero : ∀ a ∈ S, ∀ b ∈ S, cmp a b = 0 ↔ same a b

/-- A comparison that answers as an order does on a set inherits its laws there. -/
theorem Lawful.of_order {S : Set α} {cmp : α → α → Int} {same : α → α → Prop}
    {ord : α → α → Ordering} [Std.TransCmp ord]
    (hAnswer : ∀ a ∈ S, ∀ b ∈ S, answer (cmp a b) = ord a b)
    (hSame : ∀ a b, ord a b = .eq ↔ same a b) : Lawful S cmp same where
  sign a ha b hb := by
    rw [← answer_eq_swap, hAnswer a ha b hb, hAnswer b hb a ha]
    exact Std.OrientedCmp.eq_swap
  trans a ha b hb c hc := by
    rw [← isLE_answer, ← isLE_answer, ← isLE_answer, hAnswer a ha b hb, hAnswer b hb c hc,
      hAnswer a ha c hc]
    exact Std.TransCmp.isLE_trans
  zero a ha b hb := by
    rw [← answer_eq_eq, hAnswer a ha b hb, hSame a b]

end ThreeWay
