import Mathlib.Data.List.TakeWhile

/-! Text that is read one field at a time. Blanks before a field are skipped,
and a field ends at a blank, at the end of the text, or at a given length. -/
namespace Fields

variable {α : Type*} (blank : α → Bool) (width : Nat)

/-- The next field, with what follows it. -/
def field (text : List α) : Option (List α × List α) :=
  let rest := text.dropWhile blank
  let name := (rest.takeWhile fun c => !blank c).take width
  if name.isEmpty then none else some (name, rest.drop name.length)

variable {blank width} {text rest name : List α} {names : List (List α)}

theorem field_length (h : field blank width text = some (name, rest)) :
    rest.length < text.length := by
  simp only [field] at h
  split_ifs at h with hEmpty
  cases h
  have hName : ((text.dropWhile blank).takeWhile fun c => !blank c).take width ≠ [] := by
    simpa using hEmpty
  have hPos := List.length_pos_iff.mpr hName
  have hLe := (List.dropWhile_sublist blank (l := text)).length_le
  have hTake := ((List.take_sublist width _).trans
    (List.takeWhile_sublist (fun c => !blank c) (l := text.dropWhile blank))).length_le
  rw [List.length_drop]
  omega

variable (blank width) in
/-- Fields are read until there is none. -/
def fields (text : List α) : List (List α) :=
  match _h : field blank width text with
  | none => []
  | some (name, rest) => name :: fields rest
termination_by text.length
decreasing_by exact field_length _h

/-- What can be read as a list of fields. -/
inductive Reads (blank : α → Bool) (width : Nat) : List α → List (List α) → Prop where
  | done {spaces : List α} (hSpaces : ∀ c ∈ spaces, blank c = true) : Reads blank width spaces []
  | field {spaces name rest : List α} {names : List (List α)}
      (hSpaces : ∀ c ∈ spaces, blank c = true) (hName : ∀ c ∈ name, blank c = false)
      (hNonempty : name ≠ []) (hWidth : name.length ≤ width)
      (hEnds : name.length < width → rest.head?.all blank = true)
      (hRest : Reads blank width rest names) :
      Reads blank width (spaces ++ (name ++ rest)) (name :: names)

/-- A field is not empty, fits and holds no blank. -/
theorem Reads.mem (h : Reads blank width text names) :
    ∀ name ∈ names, name ≠ [] ∧ name.length ≤ width ∧ ∀ c ∈ name, blank c = false := by
  induction h with
  | done => exact fun name hMem => absurd hMem List.not_mem_nil
  | field _ hName hNonempty hWidth _ _ ih =>
      intro name hMem
      rcases List.mem_cons.mp hMem with rfl | hMore
      · exact ⟨hNonempty, hWidth, hName⟩
      · exact ih name hMore

theorem field_blank {spaces : List α} (hSpaces : ∀ c ∈ spaces, blank c = true) :
    field blank width spaces = none := by
  have hRest : spaces.dropWhile blank = [] := List.dropWhile_eq_nil_iff.mpr hSpaces
  simp [field, hRest]

theorem field_eq {spaces : List α} (hSpaces : ∀ c ∈ spaces, blank c = true)
    (hName : ∀ c ∈ name, blank c = false) (hNonempty : name ≠ []) (hWidth : name.length ≤ width)
    (hEnds : name.length < width → rest.head?.all blank = true) :
    field blank width (spaces ++ (name ++ rest)) = some (name, rest) := by
  have hDrop : (spaces ++ (name ++ rest)).dropWhile blank = name ++ rest := by
    rw [List.dropWhile_append_of_pos hSpaces]
    cases name with
    | nil => exact absurd rfl hNonempty
    | cons c name => simp [hName c List.mem_cons_self]
  have hNot : ∀ c ∈ name, (!blank c) = true := fun c hc => by rw [hName c hc]; rfl
  have hTake : ((name ++ rest).takeWhile fun c => !blank c).take width = name := by
    rw [List.takeWhile_append_of_pos hNot]
    rcases Nat.lt_or_eq_of_le hWidth with hShort | hLong
    · have hEmpty : (rest.takeWhile fun c => !blank c) = [] := by
        cases rest with
        | nil => rfl
        | cons c rest =>
            have hBlank : blank c = true := hEnds hShort
            simp [hBlank]
      rw [hEmpty, List.append_nil, List.take_of_length_le hWidth]
    · rw [← hLong, List.take_left]
  simp only [field, hDrop, hTake]
  rw [if_neg (by simpa using hNonempty), List.drop_left]

/-- What can be read is read. -/
theorem Reads.fields_eq (h : Reads blank width text names) : fields blank width text = names := by
  induction h with
  | done hSpaces =>
      rw [fields]
      split
      · rfl
      · next hSome =>
          rw [field_blank hSpaces] at hSome
          cases hSome
  | field hSpaces hName hNonempty hWidth hEnds _ ih =>
      rw [fields]
      split
      · next hNone =>
          rw [field_eq hSpaces hName hNonempty hWidth hEnds] at hNone
          cases hNone
      · next hSome =>
          rw [field_eq hSpaces hName hNonempty hWidth hEnds] at hSome
          cases hSome
          rw [ih]

/-- A field that is read is one that can be. -/
theorem field_spec (text : List α) (hWidth : 0 < width) :
    (field blank width text = none ∧ ∀ c ∈ text, blank c = true) ∨
      ∃ name rest, field blank width text = some (name, rest) ∧
        text = text.takeWhile blank ++ (name ++ rest) ∧ (∀ c ∈ name, blank c = false) ∧
        name ≠ [] ∧ name.length ≤ width ∧ (name.length < width → rest.head?.all blank = true) := by
  have hText : text.takeWhile blank ++ text.dropWhile blank = text :=
    List.takeWhile_append_dropWhile
  have hHead := List.head?_dropWhile_not blank text
  unfold field
  dsimp only
  generalize text.dropWhile blank = rest at hText hHead
  cases rest with
  | nil =>
      left
      rw [List.append_nil] at hText
      refine ⟨if_pos ?_, List.takeWhile_eq_self_iff.mp hText⟩
      rw [List.takeWhile_nil, List.take_nil]
      rfl
  | cons c rest =>
      right
      have hWord : (c :: rest).takeWhile (fun c => !blank c) ++
          (c :: rest).dropWhile (fun c => !blank c) = c :: rest := List.takeWhile_append_dropWhile
      have hAfter := List.head?_dropWhile_not (fun c => !blank c) (c :: rest)
      have hNot : ∀ d ∈ (c :: rest).takeWhile (fun c => !blank c), blank d = false := by
        intro d hd
        simpa using List.mem_takeWhile_imp hd
      have hNonempty : (c :: rest).takeWhile (fun c => !blank c) ≠ [] := by
        have hFirst : blank c = false := by simpa using hHead
        simp [hFirst]
      generalize (c :: rest).takeWhile (fun c => !blank c) = word at *
      generalize (c :: rest).dropWhile (fun c => !blank c) = after at *
      have hTake : word.take width ≠ [] := by
        intro hNil
        rcases List.take_eq_nil_iff.mp hNil with hZero | hEmpty
        · omega
        · exact hNonempty hEmpty
      refine ⟨word.take width, (c :: rest).drop (word.take width).length, ?_, ?_, ?_, hTake, ?_, ?_⟩
      · rw [if_neg (by simpa using hTake)]
      · have hPrefix : word.take width <+: c :: rest := by
          rw [← hWord]
          exact (List.take_prefix width word).trans (List.prefix_append word after)
        rw [List.prefix_iff_eq_append.mp hPrefix, hText]
      · exact fun d hd => hNot d (List.mem_of_mem_take hd)
      · exact List.length_take_le _ _
      · intro hShort
        have hAll : word.take width = word := by
          rw [List.length_take] at hShort
          exact List.take_of_length_le (by omega)
        rw [hAll, ← hWord, List.drop_left]
        cases after with
        | nil => rfl
        | cons d after => simpa using hAfter

/-- Every text is read, and in one way only. -/
theorem fields_eq_iff (hWidth : 0 < width) :
    fields blank width text = names ↔ Reads blank width text names := by
  refine ⟨?_, Reads.fields_eq⟩
  rintro rfl
  induction text using fields.induct blank width with
  | case1 text hNone =>
      rw [fields]
      split
      · rcases field_spec text hWidth with ⟨_, hBlank⟩ | ⟨_, _, hSome, _⟩
        · exact .done hBlank
        · rw [hNone] at hSome
          cases hSome
      · next hSome =>
          rw [hNone] at hSome
          cases hSome
  | case2 text name rest hField ih =>
      rw [fields]
      split
      · next hNone =>
          rw [hField] at hNone
          cases hNone
      · next name' rest' hSome =>
          rw [hField] at hSome
          cases hSome
          rcases field_spec text hWidth with ⟨hNone, _⟩ |
            ⟨_, _, hSpec, hText, hName, hNonempty, hLe, hEnds⟩
          · rw [hField] at hNone
            cases hNone
          · rw [hField] at hSpec
            cases hSpec
            rw [hText]
            exact .field (fun _ => List.mem_takeWhile_imp) hName hNonempty hLe hEnds ih

/-- Names that are separated by blanks. -/
def render : List (List α × List α) → List α → List α
  | [], trailing => trailing
  | (spaces, name) :: more, trailing => spaces ++ (name ++ render more trailing)

/-- What is written with blanks between the names is read back. -/
theorem reads_render {entries : List (List α × List α)} {trailing : List α}
    (hTrailing : ∀ c ∈ trailing, blank c = true)
    (hSpaces : ∀ e ∈ entries, ∀ c ∈ e.1, blank c = true) (hApart : ∀ e ∈ entries.tail, e.1 ≠ [])
    (hNames : ∀ e ∈ entries, e.2 ≠ [] ∧ e.2.length ≤ width ∧ ∀ c ∈ e.2, blank c = false) :
    Reads blank width (render entries trailing) (entries.map Prod.snd) := by
  induction entries with
  | nil => exact .done hTrailing
  | cons e more ih =>
      obtain ⟨hNonempty, hLe, hName⟩ := hNames e List.mem_cons_self
      have hRest := ih (fun f hf => hSpaces f (List.mem_cons_of_mem _ hf))
        (fun f hf => hApart f (List.mem_of_mem_tail hf))
        (fun f hf => hNames f (List.mem_cons_of_mem _ hf))
      refine .field (hSpaces e List.mem_cons_self) hName hNonempty hLe (fun _ => ?_) hRest
      cases more with
      | nil =>
          cases trailing with
          | nil => rfl
          | cons c trailing => exact hTrailing c List.mem_cons_self
      | cons f more =>
          have hBlanks := hSpaces f (List.mem_cons_of_mem _ List.mem_cons_self)
          cases hGap : f.1 with
          | nil => exact absurd hGap (hApart f List.mem_cons_self)
          | cons c gap =>
              rw [hGap] at hBlanks
              simp [render, hGap, hBlanks c List.mem_cons_self]

end Fields
