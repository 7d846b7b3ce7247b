import Mathlib.Data.Nat.ModEq

/-! Sums in one's complement arithmetic. What overflows a word is added to it,
so that a word stands for its remainder by the largest one. Only the sum of
nothing but zeros is zero. -/
namespace OnesComplement

/-- The word that a sum comes to, if `m` is the largest word. -/
def word (m n : Nat) : Nat := if n = 0 then 0 else (n - 1) % m + 1

variable {m n w : Nat}

@[simp] theorem word_zero : word m 0 = 0 := rfl

theorem word_eq_zero : word m n = 0 ↔ n = 0 := by
  unfold word
  split_ifs with hZero <;> simp [hZero]

theorem word_le (hm : 0 < m) : word m n ≤ m := by
  unfold word
  split_ifs
  · exact Nat.zero_le _
  · exact Nat.mod_lt _ hm

/-- A word has the remainder of its number. -/
theorem word_modEq : word m n ≡ n [MOD m] := by
  unfold word
  split_ifs with hZero
  · rw [hZero]
  · have hRest : (n - 1) % m + 1 ≡ n - 1 + 1 [MOD m] := (Nat.mod_modEq _ _).add_right 1
    rwa [Nat.sub_add_cancel (Nat.one_le_iff_ne_zero.mpr hZero)] at hRest

/-- Zero and the largest word have one remainder, and the sum tells which of
them it is. -/
theorem eq_word (hLe : w ≤ m) (hZero : w = 0 ↔ n = 0) (hMod : w ≡ n [MOD m]) : w = word m n := by
  by_cases hn : n = 0
  · rw [hZero.mpr hn, hn, word_zero]
  have hw : w ≠ 0 := fun h => hn (hZero.mp h)
  have hPred : w - 1 ≡ n - 1 [MOD m] := by
    apply Nat.ModEq.add_right_cancel' 1
    rwa [Nat.sub_add_cancel (Nat.one_le_iff_ne_zero.mpr hw),
      Nat.sub_add_cancel (Nat.one_le_iff_ne_zero.mpr hn)]
  have hRemainder : (n - 1) % m = w - 1 := by
    rw [← hPred, Nat.mod_eq_of_lt (by omega)]
  rw [word, if_neg hn, hRemainder]
  omega

/-- A sum may be reduced before it is complete. -/
theorem word_add_word (a b : Nat) (hm : 0 < m) : word m (word m a + b) = word m (a + b) := by
  apply eq_word (word_le hm)
  · rw [word_eq_zero]
    simp [word_eq_zero]
  · exact word_modEq.trans (word_modEq.add_right b)

/-- With the complement of what it comes to, a sum comes to the largest word. -/
theorem word_add_complement (a : Nat) (hm : 0 < m) : word m (a + (m - word m a)) = m := by
  symm
  have hLe : word m a ≤ m := word_le hm
  apply eq_word (Nat.le_refl m)
  · have hZero : word m a = 0 ↔ a = 0 := word_eq_zero
    omega
  · have hSum : word m a + (m - word m a) ≡ a + (m - word m a) [MOD m] := word_modEq.add_right _
    rwa [Nat.add_sub_cancel' hLe] at hSum

/-- Add what is above the lowest word to it. -/
def carry (m n : Nat) : Nat := n / (m + 1) + n % (m + 1)

/-- Adding the carry keeps the remainder. -/
theorem carry_modEq (m n : Nat) : carry m n ≡ n [MOD m] := by
  have hBase : m + 1 ≡ 1 [MOD m] := by simp [Nat.ModEq]
  have hSum : 1 * (n / (m + 1)) + n % (m + 1) ≡ (m + 1) * (n / (m + 1)) + n % (m + 1) [MOD m] :=
    (hBase.symm.mul_right _).add_right _
  rwa [Nat.one_mul, Nat.div_add_mod] at hSum

theorem carry_eq_zero : carry m n = 0 ↔ n = 0 := by
  constructor
  · intro h
    obtain ⟨hHigh, hLow⟩ := Nat.add_eq_zero_iff.mp h
    rw [← Nat.div_add_mod n (m + 1), hHigh, hLow, Nat.mul_zero]
  · rintro rfl
    simp [carry]

/-- Two carries reduce what takes at most two words. -/
theorem carry_carry (hm : 0 < m) (hn : n < (m + 1) * (m + 1)) :
    carry m (carry m n) = word m n := by
  apply eq_word
  · have hHigh : n / (m + 1) ≤ m := Nat.lt_succ_iff.mp (Nat.div_lt_of_lt_mul hn)
    have hLow : n % (m + 1) ≤ m := Nat.lt_succ_iff.mp (Nat.mod_lt _ (Nat.succ_pos m))
    have hSum : carry m n ≤ m + m := Nat.add_le_add hHigh hLow
    by_cases hFits : carry m n < m + 1
    · rw [carry, Nat.div_eq_of_lt hFits, Nat.mod_eq_of_lt hFits]
      omega
    · have hQuotient : carry m n / (m + 1) = 1 := by
        rw [Nat.div_eq_iff (Nat.succ_pos m)]
        omega
      have hSplit := Nat.div_add_mod (carry m n) (m + 1)
      rw [hQuotient] at hSplit
      rw [carry, hQuotient]
      omega
  · rw [carry_eq_zero, carry_eq_zero]
  · exact (carry_modEq m _).trans (carry_modEq m n)

end OnesComplement
