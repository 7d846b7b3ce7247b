import Mathlib.Data.Finset.Card
import Mathlib.Data.List.Find
import QpidRecovery.Common.Descriptors
import QpidRecovery.Library.Calls
import QpidRecovery.Library.Layout

/-! The array behind a `FileSelector`. It has 400 entries, and a registration
does not test whether one is left. As long as one is, the array represents the
set of the registered descriptors. -/
namespace QpidRecovery

/-- The number of descriptors in an `fd_set`. Others have no bit in it. -/
def FD_SETSIZE : Int := 1024

/-- The descriptor of a failed call. -/
def failedFD : Int32 := -1

/-- The object with its array. Entries from `numberofreg` on hold whatever they
held. -/
structure SelectorArray where
  regfd : CArray Int32 SELECTOR_SIZE
  numberofreg : Nat
  inside : numberofreg ≤ SELECTOR_SIZE
deriving DecidableEq

/-- What `select` meets: an error, or the descriptors that can be read from. -/
inductive SelectOutcome where
  | error
  | ready (readable : Int32 → Bool)

/-- `select` leaves the bits of the ready descriptors below `nfds`. -/
def selectReady (nfds : Int) (rset : List Int32) (readable : Int32 → Bool) : List Int32 :=
  rset.filter fun fd => fd.toInt < nfds && readable fd

namespace SelectorArray

def fresh (memory : CArray Int32 SELECTOR_SIZE) : SelectorArray := ⟨memory, 0, Nat.zero_le _⟩

/-- The registered descriptors in the order of the array. -/
def entries (s : SelectorArray) : List Int32 := s.regfd.elems.take s.numberofreg

/-- Without an entry left, the write is out of bounds. -/
def registerFD (fd : Int32) (s : SelectorArray) : Option SelectorArray :=
  if fd ∈ s.entries then some s
  else if h : s.numberofreg < SELECTOR_SIZE then
    some {
      regfd := ⟨s.regfd.elems.set s.numberofreg fd, by rw [List.length_set, s.regfd.length_eq]⟩
      numberofreg := s.numberofreg + 1
      inside := h }
  else none

/-- The last entry moves into the place of the removed one. -/
def unregisterFD (fd : Int32) (s : SelectorArray) : SelectorArray :=
  match s.entries.idxOf? fd with
  | none => s
  | some i =>
      { regfd := ⟨s.regfd.elems.set i (s.regfd.elems.getD (s.numberofreg - 1) 0), by
          rw [List.length_set, s.regfd.length_eq]⟩
        numberofreg := s.numberofreg - 1
        inside := (Nat.sub_le _ _).trans s.inside }

def maxfd (s : SelectorArray) : Int32 :=
  s.entries.foldl (fun maxfd fd => if maxfd < fd then fd else maxfd) 0

/-- The descriptors that `FD_SET` is defined for. -/
def InFdSet (fd : Int32) : Prop := 0 ≤ fd.toInt ∧ fd.toInt < FD_SETSIZE

instance (fd : Int32) : Decidable (InFdSet fd) := inferInstanceAs (Decidable (_ ∧ _))

/-- `FD_SET` is defined for all registered descriptors. -/
def Selectable (s : SelectorArray) : Prop := ∀ fd ∈ s.entries, InFdSet fd

instance (s : SelectorArray) : Decidable s.Selectable := List.decidableBAll InFdSet s.entries

/-- The result is -2 after a timeout, and -1 after an error. A descriptor
without a bit in the `fd_set` is written out of bounds. -/
def getReadReadyFD (o : SelectOutcome) (s : SelectorArray) : Option Int32 :=
  if s.Selectable then
    match o with
    | .error => some (-1)
    | .ready readable =>
        let rset := selectReady (s.maxfd.toInt + 1) s.entries readable
        if rset = [] then some (-2)
        else some ((s.entries.find? fun fd => fd ∈ rset).getD (-777))
  else none

section Entries
variable {s t : SelectorArray} {fd : Int32}

/-- `numberofreg` counts the entries. -/
theorem length_entries (s : SelectorArray) : s.entries.length = s.numberofreg := by
  rw [entries, List.length_take_of_le]
  rw [s.regfd.length_eq]
  exact s.inside

/-- A new descriptor goes to the end. -/
theorem entries_registerFD (h : s.registerFD fd = some t) :
    t.entries = if fd ∈ s.entries then s.entries else s.entries ++ [fd] := by
  unfold registerFD at h
  split at h
  next hOld =>
    cases h
    rw [if_pos hOld]
  next hNew =>
    split at h
    next hRoom =>
      cases h
      have hLt : s.numberofreg < (s.regfd.elems.set s.numberofreg fd).length := by
        rw [List.length_set, s.regfd.length_eq]
        exact hRoom
      rw [if_neg hNew, entries, List.take_add_one, List.getElem?_eq_getElem hLt,
        List.getElem_set_self, List.take_set_of_le (Nat.le_refl _)]
      rfl
    · cases h

/-- The array is written within bounds as long as there is room. -/
theorem registerFD_isSome : (s.registerFD fd).isSome ↔
    fd ∈ s.entries ∨ s.numberofreg < SELECTOR_SIZE := by
  unfold registerFD
  split
  next hOld => simp [hOld]
  next hNew =>
    split
    next hRoom => simp [hRoom]
    next hFull => simp [hNew, hFull]

end Entries

section Ready
variable {s : SelectorArray}

/-- `maxfd` is the greatest of the descriptors. -/
theorem foldl_max_spec (l : List Int32) (first : Int32) :
    first ≤ l.foldl (fun maxfd fd => if maxfd < fd then fd else maxfd) first ∧
      ∀ fd ∈ l, fd ≤ l.foldl (fun maxfd fd => if maxfd < fd then fd else maxfd) first := by
  induction l generalizing first with
  | nil => exact ⟨Int32.le_refl _, fun fd hfd => absurd hfd List.not_mem_nil⟩
  | cons a l ih =>
      obtain ⟨hFirst, hRest⟩ := ih (if first < a then a else first)
      have hBoth : first ≤ (if first < a then a else first) ∧
          a ≤ (if first < a then a else first) := by
        split
        next hLt => exact ⟨Int32.le_of_lt hLt, Int32.le_refl _⟩
        next hLe => exact ⟨Int32.le_refl _, Int32.not_lt.mp hLe⟩
      constructor
      · exact Int32.le_trans hBoth.1 hFirst
      · intro fd hfd
        rcases List.mem_cons.mp hfd with rfl | hfd
        · exact Int32.le_trans hBoth.2 hFirst
        · exact hRest fd hfd

/-- `select` looks at every registered descriptor. -/
theorem selectReady_entries (s : SelectorArray) (readable : Int32 → Bool) :
    selectReady (s.maxfd.toInt + 1) s.entries readable = s.entries.filter readable := by
  apply List.filter_congr
  intro fd hfd
  have hMax : fd.toInt ≤ s.maxfd.toInt :=
    Int32.le_iff_toInt_le.mp ((foldl_max_spec s.entries 0).2 fd hfd)
  have hBelow : fd.toInt < s.maxfd.toInt + 1 := by omega
  rw [decide_eq_true hBelow, Bool.true_and]

/-- The first readable descriptor is returned. -/
theorem getReadReadyFD_ready (h : s.Selectable) (readable : Int32 → Bool) :
    s.getReadReadyFD (.ready readable) = some ((s.entries.find? readable).getD (-2)) := by
  have hFind : s.entries.find? (fun fd => fd ∈ s.entries.filter readable) =
      s.entries.find? readable := by
    apply List.find?_congr
    intro fd hfd
    rw [Bool.eq_iff_iff, decide_eq_true_iff, List.mem_filter]
    exact ⟨And.right, fun hReady => ⟨hfd, hReady⟩⟩
  rw [getReadReadyFD, if_pos h]
  dsimp only
  rw [selectReady_entries, hFind]
  split
  next hNone =>
    have hNotReady : s.entries.find? readable = none := by
      rw [List.find?_eq_none]
      intro fd hfd hReady
      have hMem := List.mem_filter.mpr ⟨hfd, hReady⟩
      rw [hNone] at hMem
      cases hMem
    rw [hNotReady]
    rfl
  next hSome =>
    cases hFirst : s.entries.find? readable with
    | none =>
        apply absurd _ hSome
        rw [List.filter_eq_nil_iff]
        exact List.find?_eq_none.mp hFirst
    | some fd => rfl

end Ready

section Abstraction

/-- The descriptor `-1` of a failed call is none. -/
def toOption (fd : Int32) : Option Int32 := if fd = failedFD then none else some fd

/-- Only `-1` stands for nothing. -/
theorem toOption_injective : Function.Injective toOption := by
  intro a b h
  unfold toOption at h
  split at h
  next ha =>
    split at h
    next hb => rw [ha, hb]
    · cases h
  · split at h
    · cases h
    · exact Option.some.inj h

/-- The selector without the bounds of its array. -/
def toSelector (s : SelectorArray) : FileSelector Int32 := ⟨s.entries.map toOption⟩

variable {s t : SelectorArray} {fd : Int32}

/-- The list of descriptors, registered. -/
theorem toSelector_registerFD (h : s.registerFD fd = some t) :
    t.toSelector = s.toSelector.registerFD (toOption fd) := by
  have hMem : toOption fd ∈ s.toSelector.regfd ↔ fd ∈ s.entries :=
    List.mem_map_of_injective toOption_injective
  rw [toSelector, entries_registerFD h, FileSelector.registerFD]
  by_cases hOld : fd ∈ s.entries
  · rw [if_pos hOld, if_pos (hMem.mpr hOld)]
    rfl
  · rw [if_neg hOld, if_neg (fun hIn => hOld (hMem.mp hIn)), List.map_append]
    rfl

/-- The selector has room exactly if the array has. -/
theorem toSelector_registerWithin (fd : Int32) (s : SelectorArray) :
    (s.registerFD fd).map toSelector = s.toSelector.registerWithin (toOption fd) := by
  have hMem : toOption fd ∈ s.toSelector.regfd ↔ fd ∈ s.entries :=
    List.mem_map_of_injective toOption_injective
  have hLength : s.toSelector.regfd.length = s.numberofreg := by
    rw [toSelector, List.length_map, length_entries]
  have hRoom : (toOption fd ∈ s.toSelector.regfd ∨ s.toSelector.regfd.length < SELECTOR_SIZE) ↔
      (s.registerFD fd).isSome := by
    rw [registerFD_isSome, hMem, hLength]
  unfold FileSelector.registerWithin
  cases hCall : s.registerFD fd with
  | none =>
      rw [hCall] at hRoom
      rw [if_neg (fun h => Bool.false_ne_true (hRoom.mp h))]
      rfl
  | some t =>
      rw [hCall] at hRoom
      rw [if_pos (hRoom.mpr rfl), Option.map_some, toSelector_registerFD hCall]

/-- A descriptor is found at its place. -/
theorem idxOf_toOption (fd : Int32) (l : List Int32) :
    (l.map toOption).idxOf? (toOption fd) = l.idxOf? fd := by
  have hTest : (fun x => x == toOption fd) ∘ toOption = fun x => x == fd := by
    funext x
    show (toOption x == toOption fd) = (x == fd)
    rw [Bool.eq_iff_iff, beq_iff_eq, beq_iff_eq, toOption_injective.eq_iff]
  unfold List.idxOf?
  rw [List.findIdx?_map, hTest]

/-- The list of descriptors, one taken out. -/
theorem toSelector_unregisterFD (fd : Int32) (s : SelectorArray) :
    (s.unregisterFD fd).toSelector = s.toSelector.unregisterFD (toOption fd) := by
  have hIdx : s.toSelector.regfd.idxOf? (toOption fd) = s.entries.idxOf? fd :=
    idxOf_toOption fd s.entries
  cases hFound : s.entries.idxOf? fd with
  | none =>
      rw [unregisterFD, FileSelector.unregisterFD, hIdx, hFound]
  | some i =>
      obtain ⟨hBound, _, _⟩ := List.idxOf?_eq_some_iff.mp hFound
      have hLength := length_entries s
      have hLast : s.entries.getLast? = some (s.regfd.elems.getD (s.numberofreg - 1) 0) := by
        have hLt : s.numberofreg - 1 < s.regfd.elems.length := by
          have hInside := s.inside
          rw [s.regfd.length_eq]
          omega
        rw [List.getLast?_eq_getElem?, hLength, entries, List.getElem?_take_of_lt (by omega),
          List.getD_eq_getElem?_getD, List.getElem?_eq_getElem hLt,
          Option.getD_some]
      have hSelector : s.toSelector.regfd.getLast? =
          some (toOption (s.regfd.elems.getD (s.numberofreg - 1) 0)) := by
        rw [toSelector, List.getLast?_map, hLast]
        rfl
      rw [unregisterFD, FileSelector.unregisterFD, hIdx, hFound, hSelector]
      dsimp only
      rw [toSelector, toSelector, entries, entries, List.dropLast_eq_take, List.length_set,
        List.length_map, ← List.map_set, ← List.map_take, ← List.take_set, List.take_take]
      have hCount : min ((List.take s.numberofreg s.regfd.elems).length - 1) s.numberofreg =
          s.numberofreg - 1 := by
        show min (s.entries.length - 1) _ = _
        omega
      rw [hCount]

/-- A timeout is no descriptor. -/
theorem toSelector_getReadReadyFD (h : s.Selectable) (readable : Int32 → Bool) :
    s.toSelector.getReadReadyFD readable = s.entries.find? readable := by
  have hValid : ∀ fd ∈ s.entries, (toOption fd).filter readable = if readable fd then some fd
      else none := by
    intro fd hfd
    have hOpen : fd ≠ failedFD := by
      rintro rfl
      have hSign := (h _ hfd).1
      revert hSign
      decide
    rw [toOption, if_neg hOpen, Option.filter_some]
  show (s.entries.map toOption).findSome? _ = _
  rw [List.findSome?_map]
  generalize s.entries = l at hValid
  induction l with
  | nil => rfl
  | cons fd l ih =>
      rw [List.findSome?_cons, List.find?_cons, Function.comp_apply,
        hValid fd List.mem_cons_self, ih fun x hx => hValid x (List.mem_cons_of_mem _ hx)]
      cases readable fd with
      | true => rfl
      | false => rfl

end Abstraction

/-- The array lists a set without repetition. -/
structure Represents (s : SelectorArray) (R : Finset Int32) : Prop where
  nodup : s.entries.Nodup
  mem_iff : ∀ fd, fd ∈ s.entries ↔ fd ∈ R

section Set
variable {s t : SelectorArray} {R : Finset Int32} {fd : Int32}

/-- `numberofreg` counts the set. -/
theorem Represents.card (h : Represents s R) : R.card = s.numberofreg := by
  have hSet : s.entries.toFinset = R := by
    ext fd
    rw [List.mem_toFinset, h.mem_iff]
  rw [← hSet, List.toFinset_card_of_nodup h.nodup, length_entries]

/-- A new selector stands for the empty set. -/
theorem represents_fresh (memory : CArray Int32 SELECTOR_SIZE) : Represents (fresh memory) ∅ where
  nodup := List.nodup_nil
  mem_iff fd := by simp [entries, fresh]

/-- A descriptor is added to the set. -/
theorem Represents.registerFD (h : Represents s R) (hCall : s.registerFD fd = some t) :
    Represents t (insert fd R) := by
  have hEntries := entries_registerFD hCall
  by_cases hOld : fd ∈ s.entries
  · rw [if_pos hOld] at hEntries
    rw [Finset.insert_eq_of_mem ((h.mem_iff fd).mp hOld)]
    exact ⟨hEntries ▸ h.nodup, fun x => hEntries ▸ h.mem_iff x⟩
  · rw [if_neg hOld] at hEntries
    constructor
    · rw [hEntries, ← List.concat_eq_append]
      exact h.nodup.concat hOld
    · intro x
      rw [hEntries, List.mem_append, List.mem_singleton, h.mem_iff, Finset.mem_insert, or_comm]

/-- The order changes, and nothing else but the descriptor itself. -/
theorem unregisterFD_perm (fd : Int32) (s : SelectorArray) :
    (s.unregisterFD fd).entries.Perm (s.entries.erase fd) := by
  have hPerm := FileSelector.unregisterFD_perm (toOption fd) s.toSelector
  rw [← toSelector_unregisterFD] at hPerm
  have hErase : s.toSelector.regfd.erase (toOption fd) = (s.entries.erase fd).map toOption :=
    (List.map_erase toOption_injective s.entries).symm
  rw [hErase] at hPerm
  exact (List.map_perm_map_iff toOption_injective).mp hPerm

/-- A descriptor is taken out of the set. -/
theorem Represents.unregisterFD (h : Represents s R) (fd : Int32) :
    Represents (s.unregisterFD fd) (R.erase fd) where
  nodup := (unregisterFD_perm fd s).nodup_iff.mpr (h.nodup.erase fd)
  mem_iff x := by
    rw [(unregisterFD_perm fd s).mem_iff, h.nodup.mem_erase_iff, h.mem_iff, Finset.mem_erase]

end Set

end SelectorArray

section Calls

inductive SelectorCall where
  | registerFD (fd : Int32)
  | unregisterFD (fd : Int32)
  | getReadReadyFD (o : SelectOutcome)

namespace SelectorCall

/-- The array after a call and the descriptor that it returns, if it returns
one. A `none` is an access out of bounds. -/
def perform (s : SelectorArray) : SelectorCall → Option (SelectorArray × Option Int32)
  | registerFD fd => (s.registerFD fd).map fun t => (t, none)
  | unregisterFD fd => some (s.unregisterFD fd, none)
  | getReadReadyFD o => (s.getReadReadyFD o).map fun r => (s, some r)

/-- What a call makes of the set of registered descriptors. -/
def apply (R : Finset Int32) : SelectorCall → Finset Int32
  | registerFD fd => insert fd R
  | unregisterFD fd => R.erase fd
  | getReadReadyFD _ => R

/-- What a call returns, given the set. If `select` reports a descriptor, it is a
registered one that is ready. -/
def Returns (R : Finset Int32) (result : Option Int32) : SelectorCall → Prop
  | registerFD _ | unregisterFD _ => result = none
  | getReadReadyFD .error => result = some (-1)
  | getReadReadyFD (.ready readable) =>
      (∃ fd ∈ R, readable fd = true ∧ result = some fd) ∨
        (∀ fd ∈ R, readable fd = false) ∧ result = some (-2)

/-- A new descriptor finds an entry left, and `select` is called with descriptors
that have a bit. -/
def Fits (R : Finset Int32) : SelectorCall → Prop
  | registerFD fd => fd ∈ R ∨ R.card < SELECTOR_SIZE
  | unregisterFD _ => True
  | getReadReadyFD _ => ∀ fd ∈ R, SelectorArray.InFdSet fd

open SelectorArray

section Step
variable {s : SelectorArray} {R : Finset Int32} {c : SelectorCall}

/-- A call that fits keeps the array in step with the set. -/
theorem perform_of_fits (h : Represents s R) (hFits : c.Fits R) :
    ∃ t result, c.perform s = some (t, result) ∧ c.Returns R result ∧ Represents t (c.apply R) := by
  cases c with
  | registerFD fd =>
      have hRoom : (s.registerFD fd).isSome := by
        rw [registerFD_isSome, h.mem_iff, ← h.card]
        exact hFits
      obtain ⟨t, hCall⟩ := Option.isSome_iff_exists.mp hRoom
      exact ⟨t, none, congrArg (Option.map _) hCall, rfl, h.registerFD hCall⟩
  | unregisterFD fd => exact ⟨s.unregisterFD fd, none, rfl, rfl, h.unregisterFD fd⟩
  | getReadReadyFD o =>
      have hInside : s.Selectable := fun fd hfd => hFits fd ((h.mem_iff fd).mp hfd)
      cases o with
      | error =>
          refine ⟨s, some (-1), ?_, rfl, h⟩
          rw [perform, SelectorArray.getReadReadyFD, if_pos hInside]
          rfl
      | ready readable =>
          have hCall := getReadReadyFD_ready hInside readable
          have hPerform := congrArg (Option.map fun r => (s, some r)) hCall
          refine ⟨s, _, hPerform, ?_, h⟩
          cases hFind : s.entries.find? readable with
          | none =>
              refine .inr ⟨?_, rfl⟩
              intro fd hfd
              simpa using List.find?_eq_none.mp hFind fd ((h.mem_iff fd).mpr hfd)
          | some fd =>
              have hMem := List.mem_of_find?_eq_some hFind
              exact .inl ⟨fd, (h.mem_iff fd).mp hMem, List.find?_some hFind, rfl⟩

/-- Every other call is out of bounds. -/
theorem fits_of_perform (h : Represents s R) (hCall : (c.perform s).isSome) : c.Fits R := by
  cases c with
  | registerFD fd =>
      rw [perform, Option.isSome_map, registerFD_isSome, h.mem_iff, ← h.card] at hCall
      exact hCall
  | unregisterFD fd => trivial
  | getReadReadyFD o =>
      rw [perform, Option.isSome_map] at hCall
      unfold SelectorArray.getReadReadyFD at hCall
      split at hCall
      next hInside => exact fun fd hfd => hInside fd ((h.mem_iff fd).mpr hfd)
      · cases hCall

end Step

/-- Along the calls, the array lists the set of the descriptors that were
registered and not since unregistered, no call leaves the bounds, and every
result is right. -/
def KeepsSet : SelectorArray → Finset Int32 → List SelectorCall → Prop :=
  Calls.Follows perform apply (fun R c result => c.Returns R result) Represents

/-- Every call fits the set that the calls before it made. -/
def AllFit : Finset Int32 → List SelectorCall → Prop := Calls.AllFit apply fun R c => c.Fits R

/-- The calls keep to the set exactly if all of them fit. -/
theorem keepsSet_iff {s : SelectorArray} {R : Finset Int32} (h : Represents s R)
    (calls : List SelectorCall) : KeepsSet s R calls ↔ AllFit R calls := by
  apply Calls.follows_iff _ _ h
  · intro s R c h hFits
    exact perform_of_fits h hFits
  · intro s R c h hCall
    exact fits_of_perform h hCall

/-- New descriptors fit only as far as the array goes. -/
theorem allFit_registerFD {R : Finset Int32} {fds : List Int32} (hNodup : fds.Nodup)
    (hNew : ∀ fd ∈ fds, fd ∉ R) (hRoom : R.card ≤ SELECTOR_SIZE)
    (h : AllFit R (fds.map registerFD)) : R.card + fds.length ≤ SELECTOR_SIZE := by
  induction fds generalizing R with
  | nil => exact hRoom
  | cons fd fds ih =>
      obtain ⟨hFits, hRest⟩ := h
      obtain ⟨hHead, hTail⟩ := List.nodup_cons.mp hNodup
      have hNotIn := hNew fd List.mem_cons_self
      have hLt := hFits.resolve_left hNotIn
      have hCard : (insert fd R).card = R.card + 1 := Finset.card_insert_of_notMem hNotIn
      have hBound := ih hTail (R := insert fd R) (fun x hx hIn => by
        rcases Finset.mem_insert.mp hIn with rfl | hIn
        · exact hHead hx
        · exact hNew x (List.mem_cons_of_mem _ hx) hIn) (by omega) hRest
      rw [List.length_cons]
      omega

end SelectorCall

/-- A selector represents a set along a sequence of calls exactly if a new
descriptor always finds one of the 400 entries left, and all descriptors have a
bit in the `fd_set` when `select` is called. -/
theorem selector_keepsSet_iff (memory : CArray Int32 SELECTOR_SIZE) (calls : List SelectorCall) :
    SelectorCall.KeepsSet (.fresh memory) ∅ calls ↔ SelectorCall.AllFit ∅ calls :=
  SelectorCall.keepsSet_iff (SelectorArray.represents_fresh memory) calls

/-- The sockets of one connection more than the array has entries. -/
def manyConnections : List Int32 := (List.range 401).map fun k => Int32.ofNat (k + 3)

/-- Without a bound on the connections, a registration leaves the array. -/
theorem not_keepsSet_manyConnections :
    ¬ SelectorCall.KeepsSet (.fresh ⟨List.replicate SELECTOR_SIZE 0, List.length_replicate⟩) ∅
      (manyConnections.map .registerFD) := by
  intro h
  have hNodup : manyConnections.Nodup := by
    apply (List.nodup_map_iff_inj_on List.nodup_range).mpr
    intro j hj k hk hEq
    have hSmall := List.mem_range.mp hj
    have hSmall' := List.mem_range.mp hk
    have hValue := congrArg Int32.toInt hEq
    rw [Int32.toInt_ofNat_of_lt (by omega), Int32.toInt_ofNat_of_lt (by omega)] at hValue
    omega
  have hFits := (SelectorCall.keepsSet_iff (SelectorArray.represents_fresh _) _).mp h
  have hBound := SelectorCall.allFit_registerFD hNodup (fun fd _ => Finset.notMem_empty fd)
    (Nat.zero_le _) hFits
  have hLength : manyConnections.length = 401 := by rw [manyConnections, List.length_map,
    List.length_range]
  rw [hLength, Finset.card_empty] at hBound
  exact absurd hBound (by decide)

end Calls

end QpidRecovery
