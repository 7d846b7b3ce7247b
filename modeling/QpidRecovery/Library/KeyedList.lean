import Mathlib.Data.List.Induction
import Mathlib.Data.List.Nodup

/-! Lists that hold one value a key, kept by replacing or appending reports in
their order. -/
namespace KeyedList

variable {α κ : Type*}

section Store
variable [DecidableEq κ]

/-- The value of the same key is replaced, or the new one appended. -/
def put (key : α → κ) (a : α) : List α → List α
  | [] => [a]
  | b :: l => if key b = key a then a :: l else b :: put key a l

/-- What a sequence of reports leaves. -/
def collect (key : α → κ) (reports : List α) : List α :=
  reports.foldl (fun l a => put key a l) []

end Store

def Unique (key : α → κ) (l : List α) : Prop := (l.map key).Nodup

/-- The last report of a key. -/
def LastOf (key : α → κ) (reports : List α) (a : α) : Prop :=
  ∃ before after, reports = before ++ a :: after ∧ ∀ b ∈ after, key b ≠ key a

variable {key : α → κ} {l reports : List α} {a b : α}

/-- The key tells the elements apart. -/
theorem Unique.eq_of_key (h : Unique key l) (ha : a ∈ l) (hb : b ∈ l) (hKey : key a = key b) :
    a = b :=
  List.inj_on_of_nodup_map h ha hb hKey

/-- A report replaces what was reported before under its key. -/
theorem lastOf_append_singleton :
    LastOf key (reports ++ [a]) b ↔ b = a ∨ LastOf key reports b ∧ key b ≠ key a := by
  constructor
  · rintro ⟨before, after, hSplit, hLast⟩
    rcases List.eq_nil_or_concat after with rfl | ⟨after, c, rfl⟩
    · exact .inl (List.singleton_inj.mp (List.append_inj' hSplit rfl).2).symm
    · rw [List.concat_eq_append, ← List.cons_append, ← List.append_assoc] at hSplit
      obtain ⟨rfl, hEnd⟩ := List.append_inj' hSplit rfl
      obtain rfl := List.singleton_inj.mp hEnd
      refine .inr ⟨⟨before, after, rfl, fun d hd => hLast d (by simp [hd])⟩, ?_⟩
      exact Ne.symm (hLast a (by simp))
  · rintro (rfl | ⟨⟨before, after, rfl, hLast⟩, hNe⟩)
    · exact ⟨reports, [], rfl, by simp⟩
    · refine ⟨before, after ++ [a], by simp, ?_⟩
      intro c hc
      rcases List.mem_append.mp hc with hc | hc
      · exact hLast c hc
      · rw [List.mem_singleton.mp hc]
        exact Ne.symm hNe

section Store
variable [DecidableEq κ]

/-- A key keeps its place, and a new one goes to the end. -/
theorem map_put : (put key a l).map key =
    if key a ∈ l.map key then l.map key else l.map key ++ [key a] := by
  induction l with
  | nil => rfl
  | cons b l ih =>
      by_cases hKey : key b = key a
      · simp [put, hKey]
      · have hKey' : key a ≠ key b := Ne.symm hKey
        rw [put, if_neg hKey, List.map_cons, ih]
        by_cases hMem : key a ∈ l.map key
        · rw [if_pos hMem, List.map_cons, if_pos (List.mem_cons_of_mem _ hMem)]
        · rw [if_neg hMem, List.map_cons, if_neg (by simp [hKey', hMem]), List.cons_append]

/-- The keys stay unique. -/
theorem Unique.put (h : Unique key l) : Unique key (put key a l) := by
  unfold Unique
  rw [map_put]
  split
  · exact h
  · next hNew =>
      rw [List.nodup_append]
      refine ⟨h, List.nodup_singleton _, ?_⟩
      rintro k hk k' hk' rfl
      rw [List.mem_singleton.mp hk'] at hk
      exact hNew hk

/-- What is in the list after a report. -/
theorem mem_put (h : Unique key l) : b ∈ KeyedList.put key a l ↔ b = a ∨ b ∈ l ∧ key b ≠ key a := by
  induction l with
  | nil => simp [KeyedList.put]
  | cons c l ih =>
      obtain ⟨hHead, hTail⟩ := List.nodup_cons.mp h
      by_cases hKey : key c = key a
      · rw [KeyedList.put, if_pos hKey, List.mem_cons]
        constructor
        · rintro (rfl | hb)
          · exact .inl rfl
          · refine .inr ⟨List.mem_cons_of_mem _ hb, ?_⟩
            intro hEq
            exact hHead (List.mem_map.mpr ⟨b, hb, hEq.trans hKey.symm⟩)
        · rintro (rfl | ⟨hb, hNe⟩)
          · exact .inl rfl
          · rcases List.mem_cons.mp hb with rfl | hb
            · exact absurd hKey hNe
            · exact .inr hb
      · rw [KeyedList.put, if_neg hKey, List.mem_cons, ih hTail, List.mem_cons]
        constructor
        · rintro (rfl | rfl | ⟨hb, hNe⟩)
          · exact .inr ⟨.inl rfl, hKey⟩
          · exact .inl rfl
          · exact .inr ⟨.inr hb, hNe⟩
        · rintro (rfl | ⟨rfl | hb, hNe⟩)
          · exact .inr (.inl rfl)
          · exact .inl rfl
          · exact .inr (.inr ⟨hb, hNe⟩)

/-- A value leaves those of the keys that a test tells from its own. -/
theorem filter_put {p : κ → Bool} (h : p (key a) = false) :
    (KeyedList.put key a l).filter (fun b => p (key b)) = l.filter fun b => p (key b) := by
  induction l with
  | nil => simp [KeyedList.put, h]
  | cons b l ih =>
      by_cases hKey : key b = key a
      · have hOld : p (key b) = false := hKey ▸ h
        rw [KeyedList.put, if_pos hKey, List.filter_cons_of_neg (by simp [h]),
          List.filter_cons_of_neg (by simp [hOld])]
      · rw [KeyedList.put, if_neg hKey, List.filter_cons, List.filter_cons, ih]

theorem collect_append_singleton :
    collect key (reports ++ [a]) = KeyedList.put key a (collect key reports) := by
  rw [collect, List.foldl_append]
  rfl

/-- The keys stand in the order in which they were first reported. -/
theorem map_collect (reports : List α) :
    (collect key reports).map key = (reports.map key).eraseDups := by
  induction reports using List.reverseRecOn with
  | nil => rfl
  | append_singleton reports a ih =>
      rw [collect_append_singleton, map_put, ih, List.map_append, List.eraseDups_append]
      simp only [List.mem_eraseDups, List.map_cons, List.map_nil]
      by_cases hSeen : key a ∈ reports.map key
      · have hNone : [key a].removeAll (reports.map key) = [] := by
          simpa [List.removeAll] using hSeen
        rw [if_pos hSeen, hNone, List.eraseDups_nil, List.append_nil]
      · have hNew : [key a].removeAll (reports.map key) = [key a] := by
          simpa [List.removeAll] using hSeen
        rw [if_neg hSeen, hNew, List.eraseDups_cons, List.filter_nil, List.eraseDups_nil]

/-- No key is collected twice. -/
theorem unique_collect (reports : List α) : Unique key (collect key reports) := by
  induction reports using List.reverseRecOn with
  | nil => exact List.nodup_nil
  | append_singleton reports a ih =>
      rw [collect_append_singleton]
      exact ih.put

/-- The reports leave the last one of every key. -/
theorem mem_collect : a ∈ collect key reports ↔ LastOf key reports a := by
  induction reports using List.reverseRecOn with
  | nil => simp [collect, LastOf]
  | append_singleton reports b ih =>
      rw [collect_append_singleton, mem_put (unique_collect reports), ih, lastOf_append_singleton]

end Store

end KeyedList
