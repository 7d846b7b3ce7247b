import QpidRecovery.Common.Basic
import QpidRecovery.Library.Layout
import Mathlib.Data.List.TakeWhile

/-! Character arrays as they lie in memory, with whatever follows the NUL. -/
namespace QpidRecovery

abbrev CharArray (n : Nat) := CArray UInt8 n

namespace CharArray

variable {n : Nat}

/-- The array has its terminating NUL inside. -/
def Terminated (a : CharArray n) : Prop := 0 ∈ a.elems

instance (a : CharArray n) : Decidable a.Terminated := inferInstanceAs (Decidable (0 ∈ a.elems))

/-- `strcpy` of a string that fits. The bytes after the NUL keep their values. -/
def strcpy (dest : CharArray n) (s : CString n) : CharArray n where
  elems := s.bytes ++ 0 :: dest.elems.drop (s.bytes.length + 1)
  length_eq := by
    have hFits := s.fits
    have hLength := dest.length_eq
    simp only [List.length_append, List.length_cons, List.length_drop]
    omega

/-- A string that ends is shorter than its array. -/
theorem takeWhile_length_lt {l : List UInt8} (h : 0 ∈ l) :
    (l.takeWhile (· ≠ 0)).length < l.length := by
  induction l with
  | nil => cases h
  | cons b rest ih =>
      by_cases hb : b = 0
      · simp [hb]
      · have hRest : 0 ∈ rest := by
          rcases List.mem_cons.mp h with hEq | hMem
          · exact absurd hEq.symm hb
          · exact hMem
        have hLt := ih hRest
        simpa [hb] using hLt

/-- The string up to the NUL, when there is one. -/
def toCString (a : CharArray n) : Option (CString n) :=
  if h : a.Terminated then
    some {
      bytes := a.elems.takeWhile (· ≠ 0)
      noNul := fun hMem => by simpa using List.mem_takeWhile_imp hMem
      fits := by
        have hLt := takeWhile_length_lt h
        rwa [a.length_eq] at hLt }
  else none

/-- What was copied in is read back. -/
theorem toCString_strcpy (dest : CharArray n) (s : CString n) :
    (dest.strcpy s).toCString = some s := by
  have hTerminated : (dest.strcpy s).Terminated := by simp [Terminated, strcpy]
  have hPrefix : (dest.strcpy s).elems.takeWhile (· ≠ 0) = s.bytes := by
    have hAll : ∀ b ∈ s.bytes, decide (b ≠ 0) = true := by
      intro b hb
      have hne : b ≠ 0 := by
        rintro rfl
        exact s.noNul hb
      simpa using hne
    rw [strcpy, List.takeWhile_append_of_pos hAll]
    simp
  rw [toCString, dif_pos hTerminated]
  congr 1
  exact CString.ext hPrefix

/-- A string is read within bounds exactly if it ends. -/
theorem isSome_toCString (a : CharArray n) : a.toCString.isSome ↔ a.Terminated := by
  unfold toCString
  split
  next h => simpa using h
  next h => simpa using h

/-- `strcmp` on memory: it stops at the first difference or at a NUL of both,
and `none` is a read past an end. -/
def strcmpBytes : List UInt8 → List UInt8 → Option Int
  | a :: s, b :: t =>
      if a = b then
        if a = 0 then some 0 else strcmpBytes s t
      else some (if a > b then 1 else -1)
  | _, _ => none

def strcmp (a b : CharArray n) : Option Int := strcmpBytes a.elems b.elems

/-- One end is enough for the comparison to stop. -/
theorem isSome_strcmpBytes {s t : List UInt8} (hLength : s.length = t.length)
    (h : 0 ∈ s ∨ 0 ∈ t) : (strcmpBytes s t).isSome := by
  induction s generalizing t with
  | nil =>
      rw [List.length_nil, eq_comm, List.length_eq_zero_iff] at hLength
      simp [hLength] at h
  | cons a s ih =>
      cases t with
      | nil => cases hLength
      | cons b t =>
          by_cases hEq : a = b
          · by_cases hNul : a = 0
            · simp [strcmpBytes, ← hEq, hNul]
            · have hRest : 0 ∈ s ∨ 0 ∈ t := by
                have hNul' : b ≠ 0 := hEq ▸ hNul
                simpa [Ne.symm hNul, Ne.symm hNul'] using h
              simpa [strcmpBytes, ← hEq, hNul] using ih (Nat.succ.inj hLength) hRest
          · simp [strcmpBytes, hEq]

/-- Without a difference only the end stops it. -/
theorem isSome_strcmpBytes_self (s : List UInt8) : (strcmpBytes s s).isSome ↔ 0 ∈ s := by
  constructor
  · induction s with
    | nil => simp [strcmpBytes]
    | cons a s ih =>
        intro h
        by_cases hNul : a = 0
        · simp [hNul]
        · simp only [strcmpBytes, if_true, if_neg hNul] at h
          exact List.mem_cons_of_mem a (ih h)
  · exact fun h => isSome_strcmpBytes rfl (Or.inl h)

theorem strcmpBytes_self {s : List UInt8} (h : 0 ∈ s) : strcmpBytes s s = some 0 := by
  induction s with
  | nil => cases h
  | cons a s ih =>
      by_cases hNul : a = 0
      · simp [strcmpBytes, hNul]
      · have hRest : 0 ∈ s := (List.mem_cons.mp h).resolve_left (Ne.symm hNul)
        simp [strcmpBytes, hNul, ih hRest]

/-- A string is equal to itself. -/
theorem strcmp_self {a : CharArray n} (h : a.Terminated) : a.strcmp a = some 0 :=
  strcmpBytes_self h

/-- Two arrays are compared within bounds, if one of the strings ends. -/
theorem isSome_strcmp {a b : CharArray n} (h : a.Terminated ∨ b.Terminated) :
    (a.strcmp b).isSome :=
  isSome_strcmpBytes (a.length_eq.trans b.length_eq.symm) h

/-- An array is compared with itself within bounds exactly if its string
ends. -/
theorem isSome_strcmp_self (a : CharArray n) : (a.strcmp a).isSome ↔ a.Terminated :=
  isSome_strcmpBytes_self a.elems

/-- Nothing behind the ends is compared. -/
theorem strcmpBytes_takeWhile {s t : List UInt8} (hs : 0 ∈ s) (ht : 0 ∈ t) :
    strcmpBytes s t =
      some (QpidRecovery.strcmp (s.takeWhile (· ≠ 0)) (t.takeWhile (· ≠ 0))) := by
  induction s generalizing t with
  | nil => cases hs
  | cons a s ih =>
      cases t with
      | nil => cases ht
      | cons b t =>
          by_cases ha : a = 0 <;> by_cases hb : b = 0
          · simp [strcmpBytes, ha, hb, QpidRecovery.strcmp]
          · have hOrder : ¬ (0 : UInt8) > b := UInt8.not_lt.mpr (UInt8.zero_le)
            simp [strcmpBytes, ha, hb, Ne.symm hb, QpidRecovery.strcmp]
          · have hOrder : a > (0 : UInt8) := UInt8.pos_iff_ne_zero.mpr ha
            simp [strcmpBytes, ha, hb, QpidRecovery.strcmp, hOrder]
          · have hs' : 0 ∈ s := (List.mem_cons.mp hs).resolve_left (Ne.symm ha)
            have ht' : 0 ∈ t := (List.mem_cons.mp ht).resolve_left (Ne.symm hb)
            by_cases hEq : a = b
            · subst hEq
              simp only [strcmpBytes, if_true, if_neg ha, ih hs' ht']
              simp [ha, QpidRecovery.strcmp]
            · simp [strcmpBytes, ha, hb, hEq, QpidRecovery.strcmp]

/-- On two strings the memory comparison is the comparison of the strings. -/
theorem strcmp_toCString {a b : CharArray n} {s t : CString n} (ha : a.toCString = some s)
    (hb : b.toCString = some t) : a.strcmp b = some (QpidRecovery.strcmp s.bytes t.bytes) := by
  have hTerminatedA : a.Terminated := (isSome_toCString a).mp (by simp [ha])
  have hTerminatedB : b.Terminated := (isSome_toCString b).mp (by simp [hb])
  rw [toCString, dif_pos hTerminatedA, Option.some.injEq] at ha
  rw [toCString, dif_pos hTerminatedB, Option.some.injEq] at hb
  rw [← ha, ← hb]
  exact strcmpBytes_takeWhile hTerminatedA hTerminatedB

end CharArray

end QpidRecovery
