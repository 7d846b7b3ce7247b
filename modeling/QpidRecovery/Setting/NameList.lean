import QpidRecovery.Library.Fields
import QpidRecovery.Requestor.Arguments

/-! The name lists. A file of names is read once, word by word, and its names
are handed out in their order. -/
namespace QpidRecovery.NameList

open Fields
open Requestor (isSpace)

def URL_MAX_LENGTH : Nat := 64

/-- `fscanf` with `%63s`. A longer word is read in pieces. -/
def fscanf (f : Text) : Option (Text × Text) := field isSpace (URL_MAX_LENGTH - 1) f

/-- What `str` holds of a word. -/
def UrlString (word : Text) : Text := word.takeWhile (· ≠ 0)

/-- The loop reads until `fscanf` finds no word. -/
def readNameList (f : Text) : List Text :=
  match _h : fscanf f with
  | none => []
  | some (word, f) => UrlString word :: readNameList f
termination_by f.length
decreasing_by exact field_length _h

/-- A file of names, each of which is one word that fits. -/
structure NameFile where
  entries : List (Text × Text)
  trailing : Text
  spaces : ∀ e ∈ entries, ∀ c ∈ e.1, isSpace c = true
  apart : ∀ e ∈ entries.tail, e.1 ≠ []
  ends : ∀ c ∈ trailing, isSpace c = true
  words : ∀ e ∈ entries, e.2 ≠ [] ∧ e.2.length < URL_MAX_LENGTH ∧ ∀ c ∈ e.2, isSpace c = false
  noNul : ∀ e ∈ entries, 0 ∉ e.2

def NameFile.text (f : NameFile) : Text := render f.entries f.trailing

def NameFile.names (f : NameFile) : List Text := f.entries.map Prod.snd

/-- The names are the words of the file, as strings. -/
theorem readNameList_eq (f : Text) :
    readNameList f = (fields isSpace (URL_MAX_LENGTH - 1) f).map UrlString := by
  induction f using readNameList.induct with
  | case1 f hNone =>
      have hField : field isSpace (URL_MAX_LENGTH - 1) f = none := hNone
      rw [readNameList, fields]
      split
      · split
        · rfl
        · next hOther =>
            rw [hField] at hOther
            cases hOther
      · next hOther =>
          rw [hNone] at hOther
          cases hOther
  | case2 f word rest hSome ih =>
      have hField : field isSpace (URL_MAX_LENGTH - 1) f = some (word, rest) := hSome
      rw [readNameList, fields]
      split
      · next hOther =>
          rw [hSome] at hOther
          cases hOther
      · next hWord =>
          rw [hSome] at hWord
          cases hWord
          split
          · next hOther =>
              rw [hField] at hOther
              cases hOther
          · next hWord =>
              rw [hField] at hWord
              cases hWord
              rw [ih, List.map_cons]

/-- A word without a NUL is a string. -/
theorem UrlString_eq {word : Text} (hNul : 0 ∉ word) : UrlString word = word := by
  rw [UrlString, List.takeWhile_eq_self_iff]
  intro c hc
  apply decide_eq_true
  rintro rfl
  exact hNul hc

/-- What is read fits its array. -/
theorem readNameList_fits (f : Text) :
    ∀ name ∈ readNameList f, 0 ∉ name ∧ name.length < URL_MAX_LENGTH := by
  intro name hMem
  rw [readNameList_eq] at hMem
  obtain ⟨word, hWord, rfl⟩ := List.mem_map.mp hMem
  have hReads : Reads isSpace (URL_MAX_LENGTH - 1) f (fields isSpace (URL_MAX_LENGTH - 1) f) :=
    (fields_eq_iff (by decide)).mp rfl
  obtain ⟨_, hLe, _⟩ := hReads.mem word hWord
  constructor
  · intro hNul
    have hNe := List.mem_takeWhile_imp hNul
    simp at hNe
  · have hCut := (List.takeWhile_sublist (l := word) fun c => decide (c ≠ 0)).length_le
    unfold URL_MAX_LENGTH at *
    show (word.takeWhile _).length < 64
    omega

/-- The names of a file are read as they stand there. -/
theorem NameFile.readNameList_text (f : NameFile) : readNameList f.text = f.names := by
  have hReads : Reads isSpace (URL_MAX_LENGTH - 1) f.text f.names :=
    reads_render f.ends f.spaces f.apart fun e he =>
      ⟨(f.words e he).1, Nat.le_sub_one_of_lt (f.words e he).2.1, (f.words e he).2.2⟩
  rw [readNameList_eq, hReads.fields_eq, NameFile.names, List.map_map]
  apply List.map_congr_left
  exact fun e he => UrlString_eq (f.noNul e he)

section Hand
variable {α : Type}

/-- A vector whose elements are handed out one after another. -/
structure VectorAndIndex (α : Type) where
  elements : List α
  index : Nat
  inRange : index ≤ elements.length

/-- `none` is `NULL`. -/
def VectorAndIndex.getAnElement (v : VectorAndIndex α) : Option α × VectorAndIndex α :=
  if h : v.index < v.elements.length then
    (some v.elements[v.index], { v with index := v.index + 1, inRange := h })
  else (none, v)

/-- What is not yet handed out. -/
def VectorAndIndex.left (v : VectorAndIndex α) : List α := v.elements.drop v.index

/-- At the end nothing is handed out. -/
theorem VectorAndIndex.getAnElement_nil {v : VectorAndIndex α} (h : v.left = []) :
    v.getAnElement = (none, v) := by
  have hEnd : ¬v.index < v.elements.length := by
    rw [Nat.not_lt]
    exact List.drop_eq_nil_iff.mp h
  rw [getAnElement, dif_neg hEnd]

/-- The next element is handed out. -/
theorem VectorAndIndex.getAnElement_cons {v : VectorAndIndex α} {a : α} {rest : List α}
    (h : v.left = a :: rest) : v.getAnElement.1 = some a ∧ v.getAnElement.2.left = rest := by
  have hBound : v.index < v.elements.length := by
    by_contra hEnd
    rw [left, List.drop_eq_nil_of_le (Nat.le_of_not_lt hEnd)] at h
    cases h
  rw [left, List.drop_eq_getElem_cons hBound] at h
  obtain ⟨hHead, hRest⟩ := List.cons.inj h
  rw [getAnElement, dif_pos hBound]
  exact ⟨congrArg some hHead, hRest⟩

end Hand

end QpidRecovery.NameList
