import Mathlib.Data.List.Basic
import QpidRecovery.Library.Loop

/-! Loops over a vector that erase entries on the way. After an erase the index
steps back, and the increment then finds the entry that moved up. The index may
be of any type whose operations count up to the size of the vector. -/
namespace Loop

variable {α ι : Type*}

def Pass.ofOption {σ : Type*} : Option σ → Pass σ
  | some s => .next s
  | none => .fault

/-- The operations of the index: the condition of the loop for a size, the
position it stands for, and the steps. A step that overflows may be undefined. -/
structure Index (ι : Type*) where
  start : ι
  goesOn : ι → Nat → Bool
  position : ι → Nat
  next : ι → Option ι
  back : ι → Option ι

/-- The indices for the positions of all vectors up to a size. -/
structure Index.Counts (ix : Index ι) (bound : Nat) (nth : Nat → ι) : Prop where
  start : nth 0 = ix.start
  goesOn : ∀ k size, k ≤ size → size ≤ bound → (ix.goesOn (nth k) size = true ↔ k < size)
  position : ∀ k, k < bound → ix.position (nth k) = k
  next : ∀ k, k < bound → ix.next (nth k) = some (nth (k + 1))
  stays : ∀ k, k < bound → (ix.back (nth k)).bind ix.next = some (nth k)

/-- The vector and the index, with the entries that were tried and erased. -/
structure Erasing (α ι : Type*) where
  vec : List α
  i : ι
  tried : List α
  erased : List α

namespace Erasing

def start (ix : Index ι) (v : List α) : Erasing α ι := ⟨v, ix.start, [], []⟩

/-- The attempts succeed or fail in their order. -/
def pass (ix : Index ι) (succeeds : Nat → Bool) (s : Erasing α ι) : Pass (Erasing α ι) :=
  if ix.goesOn s.i s.vec.length then
    match s.vec[ix.position s.i]? with
    | none => .fault
    | some a =>
        if succeeds s.tried.length then
          .ofOption ((ix.next s.i).map fun i => { s with i := i, tried := s.tried ++ [a] })
        else
          .ofOption (((ix.back s.i).bind ix.next).map fun i =>
            { vec := s.vec.eraseIdx (ix.position s.i)
              i := i
              tried := s.tried ++ [a]
              erased := s.erased ++ [a] })
  else .leave

end Erasing

/-- The entries whose attempt succeeds, where the attempts are counted from a
number on. -/
def keptFrom (succeeds : Nat → Bool) (k : Nat) (v : List α) : List α :=
  ((v.zipIdx k).filter fun p => succeeds p.2).map Prod.fst

section Kept
variable {succeeds : Nat → Bool} {k : Nat} {a : α} {v : List α}

theorem keptFrom_cons : keptFrom succeeds k (a :: v) =
    if succeeds k then a :: keptFrom succeeds (k + 1) v else keptFrom succeeds (k + 1) v := by
  rw [keptFrom, List.zipIdx_cons, List.filter_cons]
  split
  · rfl
  · rfl

/-- Where success depends on the entry alone, the vector is filtered. -/
theorem keptFrom_eq_filter {p : α → Bool} (h : ∀ j a, v[j]? = some a → succeeds (k + j) = p a) :
    keptFrom succeeds k v = v.filter p := by
  induction v generalizing k with
  | nil => rfl
  | cons a v ih =>
      have hHead : succeeds k = p a := h 0 a rfl
      have hTail := ih (k := k + 1) fun j b hb => by
        have hNext := h (j + 1) b hb
        rwa [show k + (j + 1) = k + 1 + j by omega] at hNext
      rw [keptFrom_cons, hTail, hHead, List.filter_cons]

end Kept

section Run
variable {ix : Index ι} {bound : Nat} {nth : Nat → ι} {succeeds : Nat → Bool}

/-- The entries before the index were kept, and those from it on are still to be
tried. -/
theorem Erasing.ends_from (hCounts : ix.Counts bound nth) (rest : List α) (s : Erasing α ι)
    (kept : List α) (hVec : s.vec = kept ++ rest) (hIndex : s.i = nth kept.length)
    (hBound : s.vec.length ≤ bound) :
    ∃ t, Ends (pass ix succeeds) s t ∧
      t.vec = kept ++ keptFrom succeeds s.tried.length rest ∧
      t.tried = s.tried ++ rest ∧
      t.erased = s.erased ++ keptFrom (fun k => !succeeds k) s.tried.length rest := by
  induction rest generalizing s kept with
  | nil =>
      refine ⟨s, ⟨.refl s, ?_⟩, ?_, ?_, ?_⟩
      · have hLength : kept.length = s.vec.length := by rw [hVec, List.append_nil]
        rw [pass, if_neg]
        rw [hIndex, hCounts.goesOn _ _ (Nat.le_of_eq hLength) hBound]
        omega
      · rw [hVec]
        rfl
      · rw [List.append_nil]
      · exact (List.append_nil _).symm
  | cons a rest ih =>
      have hLength : s.vec.length = kept.length + (rest.length + 1) := by
        rw [hVec, List.length_append, List.length_cons]
      have hLt : kept.length < bound := by omega
      have hGoesOn : ix.goesOn s.i s.vec.length = true := by
        rw [hIndex, hCounts.goesOn _ _ (by omega) hBound]
        omega
      have hHere : s.vec[ix.position s.i]? = some a := by
        rw [hIndex, hCounts.position _ hLt, hVec, List.getElem?_append_right (Nat.le_refl _),
          Nat.sub_self]
        rfl
      rw [keptFrom_cons, keptFrom_cons]
      cases hSucceeds : succeeds s.tried.length with
      | true =>
          have hPass : pass ix succeeds s = .next
              { s with i := nth (kept.length + 1), tried := s.tried ++ [a] } := by
            rw [pass, if_pos hGoesOn, hHere]
            dsimp only
            rw [if_pos hSucceeds, hIndex, hCounts.next _ hLt]
            rfl
          obtain ⟨t, hEnds, hKept, hTried, hErased⟩ :=
            ih { s with i := nth (kept.length + 1), tried := s.tried ++ [a] } (kept ++ [a])
              (by simp [hVec]) (by simp) hBound
          refine ⟨t, ((Steps.refl s).tail hPass).ends hEnds, ?_, ?_, ?_⟩
          · simpa using hKept
          · simpa using hTried
          · simpa using hErased
      | false =>
          have hPass : pass ix succeeds s = .next
              { vec := kept ++ rest
                i := nth kept.length
                tried := s.tried ++ [a]
                erased := s.erased ++ [a] } := by
            rw [pass, if_pos hGoesOn, hHere]
            dsimp only
            rw [if_neg (by simp [hSucceeds]), hIndex, hCounts.stays _ hLt, hCounts.position _ hLt,
              hVec, List.eraseIdx_append_of_length_le (Nat.le_refl _), Nat.sub_self]
            rfl
          obtain ⟨t, hEnds, hKept, hTried, hErased⟩ :=
            ih { vec := kept ++ rest
                 i := nth kept.length
                 tried := s.tried ++ [a]
                 erased := s.erased ++ [a] } kept rfl rfl (by
              rw [List.length_append]
              omega)
          refine ⟨t, ((Steps.refl s).tail hPass).ends hEnds, ?_, ?_, ?_⟩
          · simpa using hKept
          · simpa using hTried
          · simpa using hErased

/-- The loop ends. Every entry was tried once and in order, and those that
failed were erased. -/
theorem Erasing.ends (hCounts : ix.Counts bound nth) {v : List α} (hBound : v.length ≤ bound)
    (succeeds : Nat → Bool) :
    ∃ t, Ends (pass ix succeeds) (start ix v) t ∧ t.vec = keptFrom succeeds 0 v ∧ t.tried = v ∧
      t.erased = keptFrom (fun k => !succeeds k) 0 v :=
  ends_from hCounts v (start ix v) [] rfl hCounts.start.symm hBound

end Run

end Loop
