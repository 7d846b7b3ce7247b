import Mathlib.Algebra.Group.Prod
import Mathlib.Algebra.Order.Group.Multiset
import Mathlib.Data.List.Perm.Basic
import QpidRecovery.Common.FileSelector
import QpidRecovery.Library.Calls
import QpidRecovery.Library.Transition

/-! The descriptors of a process. Its objects hold descriptors; a descriptor
that is opened is registered for its object, and it is unregistered before it is
closed. Accounts of this kind compose, and they keep the selector in step with
what is open. -/
namespace QpidRecovery

namespace FileSelector

variable {Fd : Type} [DecidableEq Fd] {fs : FileSelector Fd} {fd : Option Fd}

theorem nodup_registerFD (h : fs.regfd.Nodup) : (fs.registerFD fd).regfd.Nodup := by
  unfold registerFD
  split
  · exact h
  next hNew =>
    have hConcat := h.concat hNew
    rw [List.concat_eq_append] at hConcat
    exact hConcat

theorem mem_registerFD {x : Option Fd} (h : x ∈ (fs.registerFD fd).regfd) :
    x ∈ fs.regfd ∨ x = fd := by
  unfold registerFD at h
  split at h
  · exact .inl h
  · rcases List.mem_append.mp h with hOld | hNew
    · exact .inl hOld
    · exact .inr (List.mem_singleton.mp hNew)

theorem registered_registerFD {x : Option Fd} (h : x ∈ fs.regfd) : x ∈ (fs.registerFD fd).regfd := by
  unfold registerFD
  split
  · exact h
  · exact List.mem_append_left _ h

theorem registered_self : fd ∈ (fs.registerFD fd).regfd := by
  unfold registerFD
  split
  next hOld => exact hOld
  · exact List.mem_append_right _ (List.mem_singleton_self fd)

/-- Up to the order of the entries, only the removed one is missing. -/
theorem unregisterFD_perm (fd : Option Fd) (fs : FileSelector Fd) :
    (fs.unregisterFD fd).regfd.Perm (fs.regfd.erase fd) := by
  unfold unregisterFD
  rw [List.erase_eq_eraseIdx]
  cases hIdx : fs.regfd.idxOf? fd with
  | none => exact List.Perm.refl _
  | some i =>
      obtain ⟨hBound, _, _⟩ := List.idxOf?_eq_some_iff.mp hIdx
      cases hLast : fs.regfd.getLast? with
      | none =>
          rw [List.getLast?_eq_none_iff.mp hLast] at hBound
          cases hBound
      | some last =>
          dsimp only
          have hSet : (fs.regfd.set i last).getLast? = some last := by
            rw [List.getLast?_eq_getElem?] at hLast ⊢
            rw [List.length_set, List.getElem?_set, hLast]
            split
            · rfl
            · rfl
          have hMoved : ((fs.regfd.set i last).dropLast ++ [last]).Perm
              (last :: fs.regfd.eraseIdx i) := by
            rw [List.dropLast_append_getLast? last hSet]
            exact List.set_perm_cons_eraseIdx hBound last
          exact ((List.perm_append_singleton last _).symm.trans hMoved).cons_inv

theorem nodup_unregisterFD (h : fs.regfd.Nodup) : (fs.unregisterFD fd).regfd.Nodup :=
  (unregisterFD_perm fd fs).nodup_iff.mpr (h.erase fd)

theorem mem_unregisterFD {x : Option Fd} (hNodup : fs.regfd.Nodup)
    (h : x ∈ (fs.unregisterFD fd).regfd) : x ≠ fd ∧ x ∈ fs.regfd :=
  hNodup.mem_erase_iff.mp ((unregisterFD_perm fd fs).subset h)

/-- The first entry keeps its place while new ones are appended. -/
theorem head_registerFD {first : Option Fd} (h : fs.regfd.head? = some first) :
    (fs.registerFD fd).regfd.head? = some first := by
  unfold registerFD
  split
  · exact h
  · rw [List.head?_append, h]
    rfl

/-- It keeps its place while others are removed. -/
theorem head_unregisterFD {first : Option Fd} (h : fs.regfd.head? = some first) (hOther : fd ≠ first) :
    (fs.unregisterFD fd).regfd.head? = some first := by
  unfold unregisterFD
  split
  next i last hIdx hLast =>
    obtain ⟨hBound, hAt, _⟩ := List.idxOf?_eq_some_iff.mp hIdx
    cases hRegistered : fs.regfd with
    | nil =>
        rw [hRegistered] at h
        cases h
    | cons x rest =>
        rw [hRegistered] at h hLast
        cases h
        cases i with
        | zero =>
            simp only [hRegistered, List.getElem_cons_zero] at hAt
            exact absurd hAt.symm hOther
        | succ i =>
            have hRest : i < rest.length := by
              rw [hRegistered, List.length_cons] at hBound
              omega
            have hMore : rest.set i last ≠ [] := by
              intro hNil
              rw [← List.length_eq_zero_iff, List.length_set] at hNil
              omega
            dsimp only
            rw [List.set_cons_succ, List.dropLast_cons_of_ne_nil hMore]
            rfl
  · exact h

omit [DecidableEq Fd] in
/-- The first entry is served whenever it is ready. -/
theorem first_unready {first : Fd} {readable : Fd → Bool}
    (hHead : fs.regfd.head? = some (some first)) (h : fs.getReadReadyFD readable ≠ some first) :
    readable first = false := by
  cases hReady : readable first with
  | false => rfl
  | true =>
      cases hEntries : fs.regfd with
      | nil =>
          rw [hEntries] at hHead
          cases hHead
      | cons x rest =>
          rw [hEntries] at hHead
          cases hHead
          apply absurd _ h
          unfold getReadReadyFD
          rw [hEntries, List.findSome?_cons, Option.filter_some, if_pos hReady]

end FileSelector

/-- A call that concerns a descriptor. `opened` is the return of `connect` or
`accept` with a new one, and `none` is the descriptor `-1`. -/
inductive Call (Fd : Type) where
  | opened (fd : Fd)
  | register (fd : Option Fd)
  | unregister (fd : Option Fd)
  | close (fd : Fd)
deriving DecidableEq, Repr

namespace Call

variable {Fd : Type} [DecidableEq Fd]

def select (fs : FileSelector Fd) : Call Fd → FileSelector Fd
  | opened _ | close _ => fs
  | register fd => fs.registerFD fd
  | unregister fd => fs.unregisterFD fd

/-- The selector after a sequence of calls. -/
def selects (calls : List (Call Fd)) (fs : FileSelector Fd) : FileSelector Fd :=
  calls.foldl select fs

def selectWithin (fs : FileSelector Fd) : Call Fd → Option (FileSelector Fd)
  | opened _ | close _ => some fs
  | register fd => fs.registerWithin fd
  | unregister fd => some (fs.unregisterFD fd)

/-- The selector after a sequence of calls, if all its entries lie in the array. -/
def selectsWithin : List (Call Fd) → FileSelector Fd → Option (FileSelector Fd)
  | [], fs => some fs
  | c :: rest, fs => (c.selectWithin fs).bind (selectsWithin rest)

/-- A new descriptor finds an entry left. -/
def Fits (fs : FileSelector Fd) : Call Fd → Prop
  | register fd => fd ∈ fs.regfd ∨ fs.regfd.length < SELECTOR_SIZE
  | opened _ | close _ | unregister _ => True

/-- Every call fits the selector that the calls before it made. -/
def AllFit (calls : List (Call Fd)) (fs : FileSelector Fd) : Prop :=
  Calls.AllFit select Fits fs calls

instance (fs : FileSelector Fd) : (c : Call Fd) → Decidable (c.Fits fs)
  | register _ => inferInstanceAs (Decidable (_ ∨ _))
  | opened _ | close _ | unregister _ => inferInstanceAs (Decidable True)

instance decidableAllFit : (calls : List (Call Fd)) → (fs : FileSelector Fd) →
    Decidable (AllFit calls fs)
  | [], _ => inferInstanceAs (Decidable True)
  | c :: rest, fs =>
      have := decidableAllFit rest (select fs c)
      inferInstanceAs (Decidable (c.Fits fs ∧ AllFit rest (select fs c)))

/-- The open descriptors after a sequence of calls. The kernel hands out none
that is open. -/
def openedAfter : List (Call Fd) → List Fd → Option (List Fd)
  | [], live => some live
  | opened fd :: rest, live => if fd ∈ live then none else openedAfter rest (fd :: live)
  | close fd :: rest, live => openedAfter rest (live.erase fd)
  | register _ :: rest, live | unregister _ :: rest, live => openedAfter rest live

/-- A connection that is registered if it was made. -/
def connected (sfd : Option Fd) : List (Call Fd) :=
  sfd.toList.flatMap fun fd => [.opened fd, .register (some fd)]

/-- A connection that is registered whether or not it was made. -/
def unchecked (sfd : Option Fd) : List (Call Fd) :=
  sfd.toList.map .opened ++ [.register sfd]

/-- The descriptor of an object is unregistered, and the destructor closes it. -/
def deleted (sfd : Option Fd) : List (Call Fd) :=
  .unregister sfd :: sfd.toList.map .close

theorem selectWithin_of_fits {fs : FileSelector Fd} {c : Call Fd} (h : c.Fits fs) :
    c.selectWithin fs = some (select fs c) := by
  cases c with
  | opened fd => rfl
  | close fd => rfl
  | unregister fd => rfl
  | register fd => exact if_pos h

theorem fits_of_selectWithin {fs fs' : FileSelector Fd} {c : Call Fd}
    (h : c.selectWithin fs = some fs') : c.Fits fs := by
  cases c with
  | opened fd => trivial
  | close fd => trivial
  | unregister fd => trivial
  | register fd =>
      simp only [selectWithin, FileSelector.registerWithin] at h
      split at h
      next hFits => exact hFits
      · cases h

/-- Calls that fit are those of the selector without bounds. -/
theorem selectsWithin_of_allFit {calls : List (Call Fd)} {fs : FileSelector Fd}
    (h : AllFit calls fs) : selectsWithin calls fs = some (selects calls fs) := by
  induction calls generalizing fs with
  | nil => rfl
  | cons c rest ih =>
      obtain ⟨hFits, hRest⟩ := h
      rw [selectsWithin, selectWithin_of_fits hFits, Option.bind_some, ih hRest]
      rfl

/-- Others leave the array. -/
theorem allFit_of_selectsWithin {calls : List (Call Fd)} {fs fs' : FileSelector Fd}
    (h : selectsWithin calls fs = some fs') : AllFit calls fs := by
  induction calls generalizing fs with
  | nil => trivial
  | cons c rest ih =>
      obtain ⟨middle, hFirst, hRest⟩ := Option.bind_eq_some_iff.mp h
      have hFits := fits_of_selectWithin hFirst
      rw [selectWithin_of_fits hFits] at hFirst
      cases hFirst
      exact ⟨hFits, ih hRest⟩

theorem isSome_selectsWithin {calls : List (Call Fd)} {fs : FileSelector Fd} :
    (selectsWithin calls fs).isSome ↔ AllFit calls fs := by
  constructor
  · intro h
    obtain ⟨fs', hSome⟩ := Option.isSome_iff_exists.mp h
    exact allFit_of_selectsWithin hSome
  · intro h
    rw [selectsWithin_of_allFit h]
    rfl

theorem length_select {fs : FileSelector Fd} {c : Call Fd} (hFits : c.Fits fs)
    (h : fs.regfd.length ≤ SELECTOR_SIZE) : (select fs c).regfd.length ≤ SELECTOR_SIZE := by
  cases c with
  | opened fd => exact h
  | close fd => exact h
  | register fd =>
      simp only [select, FileSelector.registerFD]
      split
      · exact h
      next hNew =>
        rw [List.length_append, List.length_singleton]
        exact hFits.resolve_left hNew
  | unregister fd =>
      simp only [select]
      rw [(FileSelector.unregisterFD_perm fd fs).length_eq]
      exact (List.length_erase_le).trans h

/-- Calls that fit list no more descriptors than the array has entries. -/
theorem length_selects {calls : List (Call Fd)} {fs : FileSelector Fd} (hFit : AllFit calls fs)
    (h : fs.regfd.length ≤ SELECTOR_SIZE) : (selects calls fs).regfd.length ≤ SELECTOR_SIZE := by
  induction calls generalizing fs with
  | nil => exact h
  | cons c rest ih =>
      obtain ⟨hFits, hRest⟩ := hFit
      exact ih hRest (length_select hFits h)

/-- New descriptors fit as far as the array goes. -/
theorem allFit_acquireAll {fds : List Fd} {fs : FileSelector Fd} (hNodup : fds.Nodup)
    (hNew : ∀ fd ∈ fds, some fd ∉ fs.regfd) (hInside : fs.regfd.length ≤ SELECTOR_SIZE) :
    AllFit (fds.flatMap fun fd => [.opened fd, .register (some fd)]) fs ↔
      fs.regfd.length + fds.length ≤ SELECTOR_SIZE := by
  induction fds generalizing fs with
  | nil => exact ⟨fun _ => hInside, fun _ => trivial⟩
  | cons fd rest ih =>
      obtain ⟨hHead, hTail⟩ := List.nodup_cons.mp hNodup
      have hFirst := hNew fd List.mem_cons_self
      have hRegistered : (fs.registerFD (some fd)).regfd = fs.regfd ++ [some fd] := by
        unfold FileSelector.registerFD
        rw [if_neg hFirst]
      have hLength : (fs.registerFD (some fd)).regfd.length = fs.regfd.length + 1 := by
        rw [hRegistered, List.length_append, List.length_singleton]
      have hRest : ∀ x ∈ rest, some x ∉ (fs.registerFD (some fd)).regfd := by
        intro x hx hMem
        rcases FileSelector.mem_registerFD hMem with hOld | hSame
        · exact hNew x (List.mem_cons_of_mem _ hx) hOld
        · cases hSame
          exact hHead hx
      rw [List.length_cons]
      constructor
      · rintro ⟨_, hFits, hAll⟩
        have hLt : fs.regfd.length < SELECTOR_SIZE := hFits.resolve_left hFirst
        have hBound := (ih hTail hRest (by rw [hLength]; exact hLt)).mp hAll
        omega
      · intro hBound
        have hLt : fs.regfd.length < SELECTOR_SIZE := by omega
        have hAll := (ih hTail hRest (by rw [hLength]; exact hLt)).mpr (by omega)
        exact ⟨trivial, .inr hLt, hAll⟩

/-- What is unregistered and closed always fits. -/
theorem allFit_releaseAll (fds : List Fd) (fs : FileSelector Fd) :
    AllFit (fds.flatMap fun fd => [.unregister (some fd), .close fd]) fs := by
  induction fds generalizing fs with
  | nil => trivial
  | cons fd rest ih => exact ⟨trivial, trivial, ih (fs.unregisterFD (some fd))⟩

theorem selects_unchecked (sfd : Option Fd) (fs : FileSelector Fd) :
    selects (unchecked sfd) fs = fs.registerFD sfd := by
  cases sfd with
  | none => rfl
  | some fd => rfl

theorem selects_deleted (sfd : Option Fd) (fs : FileSelector Fd) :
    selects (deleted sfd) fs = fs.unregisterFD sfd := by
  cases sfd with
  | none => rfl
  | some fd => rfl

theorem selects_close (fds : List Fd) (fs : FileSelector Fd) :
    selects (fds.map .close) fs = fs := by
  induction fds with
  | nil => rfl
  | cons fd rest ih => exact ih

theorem selects_acquireAll (fds : List Fd) (fs : FileSelector Fd) :
    selects (fds.flatMap fun fd => [.opened fd, .register (some fd)]) fs =
      fds.foldl (fun fs fd => fs.registerFD (some fd)) fs := by
  induction fds generalizing fs with
  | nil => rfl
  | cons fd rest ih => exact ih (fs.registerFD (some fd))

theorem selects_releaseAll (fds : List Fd) (fs : FileSelector Fd) :
    selects (fds.flatMap fun fd => [.unregister (some fd), .close fd]) fs =
      fds.foldl (fun fs fd => fs.unregisterFD (some fd)) fs := by
  induction fds generalizing fs with
  | nil => rfl
  | cons fd rest ih => exact ih (fs.unregisterFD (some fd))

theorem selects_append (first second : List (Call Fd)) (fs : FileSelector Fd) :
    selects (first ++ second) fs = selects second (selects first fs) :=
  List.foldl_append

theorem openedAfter_append (first second : List (Call Fd)) (live : List Fd) :
    openedAfter (first ++ second) live =
      (openedAfter first live).bind (openedAfter second) := by
  induction first generalizing live with
  | nil => rfl
  | cons c rest ih =>
      cases c with
      | opened fd =>
          simp only [List.cons_append, openedAfter]
          split
          · rfl
          · exact ih _
      | close fd => exact ih _
      | register fd => exact ih _
      | unregister fd => exact ih _

/-- The kernel hands out different descriptors, none of which is open. -/
theorem fresh_of_acquireAll {fds live live' : List Fd}
    (h : openedAfter (fds.flatMap fun fd => [.opened fd, .register (some fd)]) live = some live') :
    fds.Nodup ∧ ∀ fd ∈ fds, fd ∉ live := by
  induction fds generalizing live with
  | nil => exact ⟨List.nodup_nil, fun _ hMem => absurd hMem List.not_mem_nil⟩
  | cons fd rest ih =>
      simp only [List.flatMap_cons, List.cons_append, List.nil_append, openedAfter] at h
      split at h
      · cases h
      next hNew =>
        obtain ⟨hNodup, hFresh⟩ := ih h
        constructor
        · exact List.nodup_cons.mpr ⟨fun hMem => hFresh fd hMem List.mem_cons_self, hNodup⟩
        · intro x hx
          rcases List.mem_cons.mp hx with rfl | hx
          · exact hNew
          · exact fun hOld => hFresh x hx (List.mem_cons_of_mem _ hOld)

/-- The descriptors that some calls open. -/
def newFds (calls : List (Call Fd)) : List Fd :=
  calls.filterMap fun c => match c with
    | opened fd => some fd
    | _ => none

/-- What is open was open before or is new. -/
theorem openedAfter_subset {calls : List (Call Fd)} {live live' : List Fd}
    (h : openedAfter calls live = some live') :
    ∀ fd ∈ live', fd ∈ live ∨ fd ∈ newFds calls := by
  induction calls generalizing live with
  | nil =>
      cases h
      exact fun fd hMem => .inl hMem
  | cons c rest ih =>
      intro fd hMem
      cases c with
      | opened fd' =>
          simp only [openedAfter] at h
          split at h
          · cases h
          · rcases ih h fd hMem with hOld | hNew
            · rcases List.mem_cons.mp hOld with rfl | hOld
              · exact .inr List.mem_cons_self
              · exact .inl hOld
            · exact .inr (List.mem_cons_of_mem _ hNew)
      | close fd' =>
          rcases ih h fd hMem with hOld | hNew
          · exact .inl (List.mem_of_mem_erase hOld)
          · exact .inr hNew
      | register fd' => exact ih h fd hMem
      | unregister fd' => exact ih h fd hMem

/-- The descriptor -1 stays registered until it is removed. -/
theorem selects_none {calls : List (Call Fd)} {fs : FileSelector Fd} (h : none ∈ fs.regfd)
    (hKeep : .unregister none ∉ calls) : none ∈ (selects calls fs).regfd := by
  induction calls generalizing fs with
  | nil => exact h
  | cons c rest ih =>
      rw [List.mem_cons, not_or] at hKeep
      obtain ⟨hOther, hRest⟩ := hKeep
      apply ih _ hRest
      cases c with
      | opened fd => exact h
      | close fd => exact h
      | register fd => exact FileSelector.registered_registerFD h
      | unregister fd =>
          apply (FileSelector.unregisterFD_perm fd fs).symm.subset
          exact (List.mem_erase_of_ne fun hNone => hOther (congrArg unregister hNone)).mpr h

end Call

/-- The descriptors of some objects: those that are registered for them, and
those that never are. -/
abbrev Holding (Fd : Type) := Multiset Fd × Multiset Fd

/-- The calls that lead from one holding to another. A descriptor may also be
unregistered and kept, if `may` allows it, or be left open by its object. -/
inductive Accounted {Fd : Type} (may : Option Fd → Prop) :
    List (Call Fd) → Holding Fd → Holding Fd → Prop where
  | nil (l : Holding Fd) : Accounted may [] l l
  | acquire (fd : Fd) (l : Holding Fd) :
      Accounted may [.opened fd, .register (some fd)] l (l + ({fd}, 0))
  | release (fd : Fd) (l : Holding Fd) :
      Accounted may [.unregister (some fd), .close fd] (l + ({fd}, 0)) l
  | forget (fd : Option Fd) (l : Holding Fd) (hMay : may fd) : Accounted may [.unregister fd] l l
  | hold (fd : Fd) (l : Holding Fd) : Accounted may [.opened fd] l (l + (0, {fd}))
  | drop (fd : Fd) (l : Holding Fd) : Accounted may [.close fd] (l + (0, {fd})) l
  | leak (fd : Fd) (l : Holding Fd) : Accounted may [] (l + (0, {fd})) l
  | trans {first second : List (Call Fd)} {l m n : Holding Fd} (left : Accounted may first l m)
      (right : Accounted may second m n) : Accounted may (first ++ second) l n

namespace Accounted

variable {Fd : Type} {may : Option Fd → Prop} {calls : List (Call Fd)} {l l' : Holding Fd}

/-- Other objects are not concerned. -/
theorem frame (h : Accounted may calls l l') (r : Holding Fd) :
    Accounted may calls (l + r) (l' + r) := by
  induction h with
  | nil l => exact .nil _
  | acquire fd l =>
      rw [add_right_comm]
      exact .acquire fd _
  | release fd l =>
      rw [add_right_comm]
      exact .release fd _
  | forget fd l hMay => exact .forget fd _ hMay
  | hold fd l =>
      rw [add_right_comm]
      exact .hold fd _
  | drop fd l =>
      rw [add_right_comm]
      exact .drop fd _
  | leak fd l =>
      rw [add_right_comm]
      exact .leak fd _
  | trans _ _ ihLeft ihRight => exact .trans ihLeft ihRight

theorem of_eq (h : Accounted may calls l l') {m m' : Holding Fd} (hBefore : m = l)
    (hAfter : m' = l') : Accounted may calls m m' := by
  rw [hBefore, hAfter]
  exact h

section Lists

theorem coe_cons (fd : Fd) (fds : List Fd) :
    ((fd :: fds : List Fd) : Multiset Fd) = ↑fds + {fd} := by
  rw [← Multiset.cons_coe, ← Multiset.singleton_add, add_comm]

theorem registered_cons (fd : Fd) (fds : List Fd) (l : Holding Fd) :
    l + ((↑(fd :: fds) : Multiset Fd), 0) = l + ((↑fds : Multiset Fd), 0) + ({fd}, 0) := by
  apply Prod.ext
  · show l.1 + ↑(fd :: fds) = l.1 + ↑fds + {fd}
    rw [coe_cons, add_assoc]
  · show l.2 + 0 = l.2 + 0 + 0
    rw [add_zero, add_zero]

theorem unregistered_cons (fd : Fd) (fds : List Fd) (l : Holding Fd) :
    l + (0, (↑(fd :: fds) : Multiset Fd)) = l + (0, (↑fds : Multiset Fd)) + (0, {fd}) := by
  apply Prod.ext
  · show l.1 + 0 = l.1 + 0 + 0
    rw [add_zero, add_zero]
  · show l.2 + ↑(fd :: fds) = l.2 + ↑fds + {fd}
    rw [coe_cons, add_assoc]

/-- Open and register several. -/
theorem acquireAll (fds : List Fd) (l : Holding Fd) :
    Accounted may (fds.flatMap fun fd => [.opened fd, .register (some fd)]) l
      (l + ((↑fds : Multiset Fd), 0)) := by
  induction fds generalizing l with
  | nil => exact of_eq (.nil l) rfl (add_zero l)
  | cons fd rest ih =>
      rw [List.flatMap_cons, registered_cons, add_right_comm]
      exact (acquire fd l).trans (ih _)

/-- Unregister and close several. -/
theorem releaseAll (fds : List Fd) (l : Holding Fd) :
    Accounted may (fds.flatMap fun fd => [.unregister (some fd), .close fd])
      (l + ((↑fds : Multiset Fd), 0)) l := by
  induction fds generalizing l with
  | nil => exact of_eq (.nil l) (add_zero l) rfl
  | cons fd rest ih =>
      rw [List.flatMap_cons, registered_cons]
      exact (release fd _).trans (ih l)

/-- Close several that were not registered. -/
theorem dropAll (fds : List Fd) (l : Holding Fd) :
    Accounted may (fds.map .close) (l + (0, (↑fds : Multiset Fd))) l := by
  induction fds generalizing l with
  | nil => exact of_eq (.nil l) (add_zero l) rfl
  | cons fd rest ih =>
      rw [List.map_cons, unregistered_cons, ← List.singleton_append]
      exact (drop fd _).trans (ih l)

/-- Leave several open. -/
theorem leakAll (fds : List Fd) (l : Holding Fd) :
    Accounted may [] (l + (0, (↑fds : Multiset Fd))) l := by
  induction fds generalizing l with
  | nil => exact of_eq (.nil l) (add_zero l) rfl
  | cons fd rest ih =>
      rw [unregistered_cons]
      exact (leak fd _).trans (ih l)

/-- An object that is registered for its descriptor, if it has one. -/
theorem connected (sfd : Option Fd) (l : Holding Fd) :
    Accounted may (Call.connected sfd) l (l + ((↑sfd.toList : Multiset Fd), 0)) :=
  acquireAll sfd.toList l

/-- An object that may have no descriptor. -/
theorem deleted (hNone : may none) (sfd : Option Fd) (l : Holding Fd) :
    Accounted may (Call.deleted sfd) (l + ((↑sfd.toList : Multiset Fd), 0)) l := by
  cases sfd with
  | none => exact of_eq (.forget none l hNone) (add_zero l) rfl
  | some fd => exact .release fd l

end Lists

end Accounted

/-- One object of a list, and the others. -/
theorem holding_set {Fd α : Type} {f : α → Holding Fd} {objects : List α} {i : Nat} {a : α}
    (h : objects[i]? = some a) :
    ∃ r, (objects.map f).sum = r + f a ∧ ((objects.eraseIdx i).map f).sum = r ∧
      ∀ b, ((objects.set i b).map f).sum = r + f b := by
  induction objects generalizing i with
  | nil => cases h
  | cons c rest ih =>
      cases i with
      | zero =>
          cases h
          refine ⟨(rest.map f).sum, ?_, rfl, ?_⟩
          · rw [List.map_cons, List.sum_cons, add_comm]
          · intro b
            rw [List.set_cons_zero, List.map_cons, List.sum_cons, add_comm]
      | succ i =>
          obtain ⟨r, hSum, hErase, hSet⟩ := ih h
          refine ⟨f c + r, ?_, ?_, ?_⟩
          · rw [List.map_cons, List.sum_cons, hSum, add_assoc]
          · rw [List.eraseIdx_cons_succ, List.map_cons, List.sum_cons, hErase]
          · intro b
            rw [List.set_cons_succ, List.map_cons, List.sum_cons, hSet, add_assoc]

/-- No descriptor is held twice, all are open, and what is registered is held
for that. -/
structure Consistent {Fd : Type} (l : Holding Fd) (live : List Fd) (fs : FileSelector Fd) : Prop where
  distinct : (l.1 + l.2).Nodup
  isOpen : ∀ fd ∈ l.1 + l.2, fd ∈ live
  nodup : live.Nodup
  unique : fs.regfd.Nodup
  registered : ∀ x ∈ fs.regfd, ∃ fd ∈ l.1, x = some fd

section Consistent
variable {Fd : Type} [DecidableEq Fd] {may : Option Fd → Prop} {calls : List (Call Fd)}
  {l l' : Holding Fd} {live live' : List Fd} {fs : FileSelector Fd}

omit [DecidableEq Fd] in
theorem all_registered (fd : Fd) (l : Holding Fd) :
    (l + ({fd}, 0)).1 + (l + ({fd}, 0)).2 = fd ::ₘ (l.1 + l.2) := by
  show l.1 + {fd} + (l.2 + 0) = _
  rw [add_zero, add_right_comm, add_comm, Multiset.singleton_add]

omit [DecidableEq Fd] in
theorem all_unregistered (fd : Fd) (l : Holding Fd) :
    (l + (0, {fd})).1 + (l + (0, {fd})).2 = fd ::ₘ (l.1 + l.2) := by
  show l.1 + 0 + (l.2 + {fd}) = _
  rw [add_zero, ← add_assoc, add_comm, Multiset.singleton_add]

omit [DecidableEq Fd] in
theorem registered_of_hold (fd : Fd) (l : Holding Fd) : (l + (0, {fd})).1 = l.1 := add_zero l.1

omit [DecidableEq Fd] in
/-- A new descriptor has no holder yet. -/
theorem Consistent.hold (hInv : Consistent l live fs) {fd : Fd} (hNew : fd ∉ live) :
    Consistent (l + (0, {fd})) (fd :: live) fs where
  distinct := by
    rw [all_unregistered]
    exact Multiset.nodup_cons.mpr ⟨fun hHeld => hNew (hInv.isOpen fd hHeld), hInv.distinct⟩
  isOpen := by
    intro x hx
    rw [all_unregistered] at hx
    rcases Multiset.mem_cons.mp hx with rfl | hOld
    · exact List.mem_cons_self
    · exact List.mem_cons_of_mem _ (hInv.isOpen x hOld)
  nodup := List.nodup_cons.mpr ⟨hNew, hInv.nodup⟩
  unique := hInv.unique
  registered := by
    rw [registered_of_hold]
    exact hInv.registered

omit [DecidableEq Fd] in
/-- A descriptor has no other holder. -/
theorem Consistent.unheld {fd : Fd} (hInv : Consistent (l + (0, {fd})) live fs) :
    fd ∉ l.1 + l.2 := by
  have hDistinct := hInv.distinct
  rw [all_unregistered] at hDistinct
  exact (Multiset.nodup_cons.mp hDistinct).1

omit [DecidableEq Fd] in
/-- A descriptor may be given up without being closed. -/
theorem Consistent.leak {fd : Fd} (hInv : Consistent (l + (0, {fd})) live fs) :
    Consistent l live fs where
  distinct := by
    have hDistinct := hInv.distinct
    rw [all_unregistered] at hDistinct
    exact (Multiset.nodup_cons.mp hDistinct).2
  isOpen := by
    intro x hx
    apply hInv.isOpen
    rw [all_unregistered]
    exact Multiset.mem_cons_of_mem hx
  nodup := hInv.nodup
  unique := hInv.unique
  registered := by
    have hRegistered := hInv.registered
    rw [registered_of_hold] at hRegistered
    exact hRegistered

/-- A descriptor that nobody holds is closed. -/
theorem Consistent.close {fd : Fd} (hInv : Consistent l live fs) (hUnheld : fd ∉ l.1 + l.2) :
    Consistent l (live.erase fd) fs where
  distinct := hInv.distinct
  isOpen := by
    intro x hx
    have hOther : x ≠ fd := fun hSame => hUnheld (hSame ▸ hx)
    exact (List.mem_erase_of_ne hOther).mpr (hInv.isOpen x hx)
  nodup := hInv.nodup.erase fd
  unique := hInv.unique
  registered := hInv.registered

/-- A descriptor that was open is registered. -/
theorem Consistent.register {fd : Fd} (hInv : Consistent (l + (0, {fd})) live fs) :
    Consistent (l + ({fd}, 0)) live (fs.registerFD (some fd)) where
  distinct := by
    rw [all_registered, ← all_unregistered]
    exact hInv.distinct
  isOpen := by
    rw [all_registered, ← all_unregistered]
    exact hInv.isOpen
  nodup := hInv.nodup
  unique := FileSelector.nodup_registerFD hInv.unique
  registered := by
    intro x hx
    rcases FileSelector.mem_registerFD hx with hOld | rfl
    · obtain ⟨y, hy, hSame⟩ := hInv.registered x hOld
      rw [registered_of_hold] at hy
      exact ⟨y, Multiset.mem_add.mpr (.inl hy), hSame⟩
    · exact ⟨fd, Multiset.mem_add.mpr (.inr (Multiset.mem_singleton_self fd)), rfl⟩

/-- A descriptor is unregistered and stays open. -/
theorem Consistent.unregister {fd : Fd} (hInv : Consistent (l + ({fd}, 0)) live fs) :
    Consistent (l + (0, {fd})) live (fs.unregisterFD (some fd)) where
  distinct := by
    rw [all_unregistered, ← all_registered]
    exact hInv.distinct
  isOpen := by
    rw [all_unregistered, ← all_registered]
    exact hInv.isOpen
  nodup := hInv.nodup
  unique := FileSelector.nodup_unregisterFD hInv.unique
  registered := by
    intro x hx
    obtain ⟨hOther, hOld⟩ := FileSelector.mem_unregisterFD hInv.unique hx
    obtain ⟨y, hy, rfl⟩ := hInv.registered x hOld
    rw [registered_of_hold]
    rcases Multiset.mem_add.mp hy with hKept | hSame
    · exact ⟨y, hKept, rfl⟩
    · exact absurd (congrArg some (Multiset.mem_singleton.mp hSame)) hOther

/-- Accounted calls keep the selector in step. -/
theorem Accounted.consistent (h : Accounted may calls l l') (hInv : Consistent l live fs)
    (hKernel : Call.openedAfter calls live = some live') :
    Consistent l' live' (Call.selects calls fs) := by
  induction h generalizing live live' fs with
  | nil l =>
      cases hKernel
      exact hInv
  | acquire fd l =>
      simp only [Call.openedAfter] at hKernel
      split at hKernel
      · cases hKernel
      next hNew =>
        cases hKernel
        exact (hInv.hold hNew).register
  | release fd l =>
      cases hKernel
      have hUnregistered := hInv.unregister
      exact hUnregistered.leak.close hUnregistered.unheld
  | forget fd l hMay =>
      cases hKernel
      refine ⟨hInv.distinct, hInv.isOpen, hInv.nodup, FileSelector.nodup_unregisterFD hInv.unique, ?_⟩
      intro x hx
      exact hInv.registered x (FileSelector.mem_unregisterFD hInv.unique hx).2
  | hold fd l =>
      simp only [Call.openedAfter] at hKernel
      split at hKernel
      · cases hKernel
      next hNew =>
        cases hKernel
        exact hInv.hold hNew
  | drop fd l =>
      cases hKernel
      exact hInv.leak.close hInv.unheld
  | leak fd l =>
      cases hKernel
      exact hInv.leak
  | trans _ _ ihLeft ihRight =>
      rw [Call.openedAfter_append] at hKernel
      obtain ⟨middle, hFirst, hSecond⟩ := Option.bind_eq_some_iff.mp hKernel
      rw [Call.selects_append]
      exact ihRight (ihLeft hInv hFirst) hSecond

omit [DecidableEq Fd] in
/-- There are as many entries as descriptors that are held to be registered. -/
theorem Consistent.length_regfd (hInv : Consistent l live fs)
    (hAll : ∀ fd ∈ l.1, some fd ∈ fs.regfd) : fs.regfd.length = l.1.card := by
  have hNodup : (l.1.map some).Nodup :=
    (Multiset.nodup_add.mp hInv.distinct).1.map (Option.some_injective Fd)
  have hEntries : (↑fs.regfd : Multiset (Option Fd)) = l.1.map some := by
    apply ((Multiset.coe_nodup.mpr hInv.unique).ext hNodup).mpr
    intro x
    rw [Multiset.mem_coe, Multiset.mem_map]
    constructor
    · intro hx
      obtain ⟨fd, hHeld, hFd⟩ := hInv.registered x hx
      exact ⟨fd, hHeld, hFd.symm⟩
    · rintro ⟨fd, hHeld, rfl⟩
      exact hAll fd hHeld
  rw [← Multiset.coe_card, hEntries, Multiset.card_map]

theorem complete_register {fd : Fd} (hAll : ∀ x ∈ l.1, some x ∈ fs.regfd) :
    ∀ x ∈ (l + ({fd}, 0)).1, some x ∈ (fs.registerFD (some fd)).regfd := by
  intro x hx
  rcases Multiset.mem_add.mp hx with hOld | hNew
  · exact FileSelector.registered_registerFD (hAll x hOld)
  · rw [Multiset.mem_singleton.mp hNew]
    exact FileSelector.registered_self

theorem complete_unregister {fd : Fd} (hInv : Consistent (l + ({fd}, 0)) live fs)
    (hAll : ∀ x ∈ (l + ({fd}, 0)).1, some x ∈ fs.regfd) :
    ∀ x ∈ l.1, some x ∈ (fs.unregisterFD (some fd)).regfd := by
  intro x hx
  have hOther : some x ≠ some fd := by
    intro hSame
    cases hSame
    exact hInv.unregister.unheld (Multiset.mem_add.mpr (.inl hx))
  apply (FileSelector.unregisterFD_perm (some fd) fs).symm.subset
  exact (List.mem_erase_of_ne hOther).mpr (hAll x (Multiset.mem_add.mpr (.inl hx)))

/-- Whatever is held for that is registered, unless it is unregistered and kept. -/
theorem Accounted.complete (h : Accounted may calls l l') (hMay : ∀ x, may x → x = none)
    (hInv : Consistent l live fs) (hAll : ∀ fd ∈ l.1, some fd ∈ fs.regfd)
    (hKernel : Call.openedAfter calls live = some live') :
    ∀ fd ∈ l'.1, some fd ∈ (Call.selects calls fs).regfd := by
  induction h generalizing live live' fs with
  | nil l => exact hAll
  | acquire fd l => exact complete_register hAll
  | release fd l => exact complete_unregister hInv hAll
  | forget fd l hAllowed =>
      intro x hx
      rw [hMay fd hAllowed]
      apply (FileSelector.unregisterFD_perm none fs).symm.subset
      exact (List.mem_erase_of_ne (Option.some_ne_none x)).mpr (hAll x hx)
  | hold fd l =>
      rw [registered_of_hold]
      exact hAll
  | drop fd l | leak fd l =>
      rw [registered_of_hold] at hAll
      exact hAll
  | trans left _ ihLeft ihRight =>
      rw [Call.openedAfter_append] at hKernel
      obtain ⟨middle, hFirst, hSecond⟩ := Option.bind_eq_some_iff.mp hKernel
      rw [Call.selects_append]
      exact ihRight (left.consistent hInv hFirst) (ihLeft hInv hAll hFirst) hSecond

/-- What is held and watched stays registered, if none of it is unregistered and
kept. -/
theorem Accounted.watched {P : Fd → Prop} (h : Accounted may calls l l')
    (hMay : ∀ fd, may (some fd) → ¬ P fd) (hInv : Consistent l live fs)
    (hAll : ∀ fd ∈ l.1, P fd → some fd ∈ fs.regfd)
    (hKernel : Call.openedAfter calls live = some live') :
    ∀ fd ∈ l'.1, P fd → some fd ∈ (Call.selects calls fs).regfd := by
  induction h generalizing live live' fs with
  | nil l => exact hAll
  | acquire fd l =>
      intro x hx hP
      rcases Multiset.mem_add.mp hx with hOld | hNew
      · exact FileSelector.registered_registerFD (hAll x hOld hP)
      · rw [Multiset.mem_singleton.mp hNew]
        exact FileSelector.registered_self
  | release fd l =>
      intro x hx hP
      have hOther : some x ≠ some fd := by
        intro hSame
        cases hSame
        exact hInv.unregister.unheld (Multiset.mem_add.mpr (.inl hx))
      apply (FileSelector.unregisterFD_perm (some fd) fs).symm.subset
      exact (List.mem_erase_of_ne hOther).mpr (hAll x (Multiset.mem_add.mpr (.inl hx)) hP)
  | forget fd l hAllowed =>
      intro x hx hP
      have hOther : some x ≠ fd := by
        rintro rfl
        exact hMay x hAllowed hP
      apply (FileSelector.unregisterFD_perm fd fs).symm.subset
      exact (List.mem_erase_of_ne hOther).mpr (hAll x hx hP)
  | hold fd l =>
      rw [registered_of_hold]
      exact hAll
  | drop fd l | leak fd l =>
      rw [registered_of_hold] at hAll
      exact hAll
  | trans left _ ihLeft ihRight =>
      rw [Call.openedAfter_append] at hKernel
      obtain ⟨middle, hFirst, hSecond⟩ := Option.bind_eq_some_iff.mp hKernel
      rw [Call.selects_append]
      exact ihRight (left.consistent hInv hFirst) (ihLeft hInv hAll hFirst) hSecond

/-- A descriptor that no object holds stays open, and if it is registered first
it stays first. -/
theorem Accounted.first (h : Accounted may calls l l') {first : Fd}
    (hMay : ∀ x, may x → x ≠ some first) (hUnheld : first ∉ l.1 + l.2) (hOpen : first ∈ live)
    (hHead : fs.regfd.head? = some (some first))
    (hKernel : Call.openedAfter calls live = some live') :
    first ∉ l'.1 + l'.2 ∧ first ∈ live' ∧
      (Call.selects calls fs).regfd.head? = some (some first) := by
  induction h generalizing live live' fs with
  | nil l =>
      cases hKernel
      exact ⟨hUnheld, hOpen, hHead⟩
  | acquire fd l =>
      simp only [Call.openedAfter] at hKernel
      split at hKernel
      · cases hKernel
      next hNew =>
        cases hKernel
        rw [all_registered, Multiset.mem_cons, not_or]
        exact ⟨⟨fun hSame => hNew (hSame ▸ hOpen), hUnheld⟩, List.mem_cons_of_mem _ hOpen,
          FileSelector.head_registerFD hHead⟩
  | release fd l =>
      cases hKernel
      rw [all_registered, Multiset.mem_cons, not_or] at hUnheld
      refine ⟨hUnheld.2, (List.mem_erase_of_ne hUnheld.1).mpr hOpen, ?_⟩
      apply FileSelector.head_unregisterFD hHead
      exact fun hSame => hUnheld.1 (Option.some.inj hSame).symm
  | forget fd l hAllowed =>
      cases hKernel
      exact ⟨hUnheld, hOpen, FileSelector.head_unregisterFD hHead (hMay fd hAllowed)⟩
  | hold fd l =>
      simp only [Call.openedAfter] at hKernel
      split at hKernel
      · cases hKernel
      next hNew =>
        cases hKernel
        rw [all_unregistered, Multiset.mem_cons, not_or]
        exact ⟨⟨fun hSame => hNew (hSame ▸ hOpen), hUnheld⟩, List.mem_cons_of_mem _ hOpen, hHead⟩
  | drop fd l =>
      cases hKernel
      rw [all_unregistered, Multiset.mem_cons, not_or] at hUnheld
      exact ⟨hUnheld.2, (List.mem_erase_of_ne hUnheld.1).mpr hOpen, hHead⟩
  | leak fd l =>
      cases hKernel
      rw [all_unregistered, Multiset.mem_cons, not_or] at hUnheld
      exact ⟨hUnheld.2, hOpen, hHead⟩
  | trans _ _ ihLeft ihRight =>
      rw [Call.openedAfter_append] at hKernel
      obtain ⟨middle, hBefore, hAfter⟩ := Option.bind_eq_some_iff.mp hKernel
      obtain ⟨hUnheld', hOpen', hHead'⟩ := ihLeft hUnheld hOpen hHead hBefore
      rw [Call.selects_append]
      exact ihRight hUnheld' hOpen' hHead' hAfter

end Consistent

section Start
variable {Fd : Type} [DecidableEq Fd]

/-- At the start a process registers what it has opened. -/
theorem consistent_start (fds : List Fd) {before live : List Fd} (hBefore : before.Nodup)
    (hKernel : Call.openedAfter (fds.map .opened) before = some live) :
    Consistent ((↑fds : Multiset Fd), 0) live
      (fds.foldl (fun fs fd => fs.registerFD (some fd)) FileSelector.new) := by
  have hOpened : ∀ (fds live : List Fd), Call.openedAfter (fds.map .opened) live =
      Call.openedAfter (fds.flatMap fun fd => [.opened fd, .register (some fd)]) live := by
    intro fds
    induction fds with
    | nil => exact fun _ => rfl
    | cons fd rest ih =>
        intro live
        simp only [List.map_cons, List.flatMap_cons, List.cons_append, List.nil_append,
          Call.openedAfter, ih]
  have hNone : Consistent (0 : Holding Fd) before FileSelector.new :=
    ⟨Multiset.nodup_zero, fun _ hMem => absurd hMem (Multiset.notMem_zero _), hBefore,
      List.nodup_nil, fun _ hMem => absurd hMem List.not_mem_nil⟩
  have hAcquire : Accounted (fun _ => True) _ _ _ := .acquireAll fds (0 : Holding Fd)
  rw [hOpened] at hKernel
  have hStart := hAcquire.consistent hNone hKernel
  rw [Call.selects_acquireAll, zero_add] at hStart
  exact hStart

end Start

/-- Every entry is a descriptor that is open and that exactly one object holds,
one of those it is registered for. -/
def Sound {Fd : Type} [DecidableEq Fd] (l : Holding Fd) (live : List Fd) (fs : FileSelector Fd) :
    Prop :=
  ∀ x ∈ fs.regfd, ∃ fd, x = some fd ∧ fd ∈ live ∧ fd ∈ l.1 ∧ (l.1 + l.2).count fd = 1

/-- A process with the descriptors that are open and with the array of its
selector. There is no array after a write past its end. -/
structure Opened (σ Fd : Type) where
  process : σ
  live : List Fd
  array : Option (FileSelector Fd)

/-- Before its main loop a process has registered a few descriptors. -/
def Opened.started {σ Fd : Type} (selector : σ → FileSelector Fd) (s : σ) (live : List Fd) :
    Opened σ Fd :=
  ⟨s, live, some (selector s)⟩

section Processes
variable {Fd σ α : Type} [DecidableEq Fd]

theorem Consistent.sound {l : Holding Fd} {live : List Fd} {fs : FileSelector Fd}
    (h : Consistent l live fs) : Sound l live fs := by
  intro x hx
  obtain ⟨fd, hHeld, rfl⟩ := h.registered x hx
  have hMem : fd ∈ l.1 + l.2 := Multiset.mem_add.mpr (.inl hHeld)
  exact ⟨fd, rfl, h.isOpen fd hMem, hHeld, Multiset.count_eq_one_of_mem h.distinct hMem⟩

/-- An iteration makes its calls, if the kernel hands out the descriptors that
they open. -/
def Opened.step (step : σ → α → Option σ) (calls : σ → α → List (Call Fd)) (s : Opened σ Fd)
    (a : α) : Option (Opened σ Fd) :=
  match step s.process a, Call.openedAfter (calls s.process a) s.live with
  | some process, some live =>
      some ⟨process, live, s.array.bind (Call.selectsWithin (calls s.process a))⟩
  | _, _ => none

/-- Nothing was written past the array, and what it lists is sound. -/
def Opened.Registry (owned : σ → Holding Fd) (s : Opened σ Fd) : Prop :=
  ∃ fs, s.array = some fs ∧ Sound (owned s.process) s.live fs

/-- The registry is sound in every state that a sequence of iterations visits. -/
def Opened.StaysSound (step : σ → α → Option σ) (calls : σ → α → List (Call Fd))
    (owned : σ → Holding Fd) (s : Opened σ Fd) (actions : List α) : Prop :=
  Transition.Throughout (Opened.step step calls) (Opened.Registry owned) s actions

/-- The descriptor -1 is not open. -/
theorem not_sound_of_none {l : Holding Fd} {live : List Fd} {fs : FileSelector Fd}
    (h : none ∈ fs.regfd) : ¬ Sound l live fs := by
  intro hSound
  obtain ⟨fd, hFd, _⟩ := hSound none h
  cases hFd

theorem Opened.not_registry_of_none {owned : σ → Holding Fd} {s : Opened σ Fd}
    {fs : FileSelector Fd} (hArray : s.array = some fs) (h : none ∈ fs.regfd) :
    ¬ s.Registry owned := by
  rintro ⟨fs', hSame, hSound⟩
  cases hArray.symm.trans hSame
  exact not_sound_of_none h hSound

/-- The array is the selector of the process, and its accounts are kept. -/
structure Opened.InStep (owned : σ → Holding Fd) (selector : σ → FileSelector Fd)
    (s : Opened σ Fd) : Prop where
  array : s.array = some (selector s.process)
  consistent : Consistent (owned s.process) s.live (selector s.process)

/-- Where the iterations that meet a condition keep their accounts and the
others leave the descriptor -1 registered, the registry is sound throughout a
run exactly if the condition is met along it and the array has room. -/
theorem Opened.sound_iff {step : σ → α → Option σ} {calls : σ → α → List (Call Fd)}
    {owned : σ → Holding Fd} {selector : σ → FileSelector Fd} (ok : σ → α → Prop)
    (hSelects : ∀ s a t, step s a = some t →
      selector t = Call.selects (calls s a) (selector s))
    (hAccounted : ∀ s a t, step s a = some t → ok s a →
      Accounted (fun _ => True) (calls s a) (owned s) (owned t))
    (hOnly : ∀ s a t, step s a = some t → none ∉ (selector t).regfd → ok s a) {s : σ}
    {live : List Fd} (hStart : Consistent (owned s) live (selector s)) (actions : List α) :
    Opened.StaysSound step calls owned (.started selector s live) actions ↔
      Transition.Along (Opened.step step calls)
        (fun u a => ok u.process a ∧ Call.AllFit (calls u.process a) (selector u.process))
        (.started selector s live) actions := by
  apply Transition.throughout_iff (I := fun u : Opened σ Fd => u.InStep owned selector)
  · exact fun u hInv => ⟨_, hInv.array, hInv.consistent.sound⟩
  · rintro u a v hInv hNext ⟨hOk, hFit⟩
    unfold Opened.step at hNext
    split at hNext
    next process live hProcess hKernel =>
      cases hNext
      have hSelector := hSelects u.process a process hProcess
      constructor
      · rw [hInv.array, Option.bind_some, Call.selectsWithin_of_allFit hFit, hSelector]
      · have hAfter := (hAccounted u.process a process hProcess hOk).consistent hInv.consistent
          hKernel
        rw [← hSelector] at hAfter
        exact hAfter
    · cases hNext
  · rintro u a v hInv hNext ⟨fs, hArray, hSound⟩
    unfold Opened.step at hNext
    split at hNext
    next process live hProcess hKernel =>
      cases hNext
      rw [hInv.array, Option.bind_some] at hArray
      have hFit := Call.allFit_of_selectsWithin hArray
      rw [Call.selectsWithin_of_allFit hFit, ← hSelects u.process a process hProcess] at hArray
      cases hArray
      exact ⟨hOnly u.process a process hProcess fun hNone => not_sound_of_none hNone hSound, hFit⟩
    · cases hNext
  · exact ⟨rfl, hStart⟩

end Processes

end QpidRecovery
