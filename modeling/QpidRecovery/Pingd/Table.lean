import Mathlib.Data.List.FinRange
import QpidRecovery.Library.Calls
import QpidRecovery.Library.Chain
import QpidRecovery.Pingd.Daemon

/-! The table of the ping daemon as it lies in memory. Its entries are linked
into two lists, those in use and the unused ones. An entry moves from one to the
other by a few writes of links. -/
namespace QpidRecovery.Pingd

open Chain

/-- The address of an entry of `pidtoaddr`. -/
abbrev Entry := Fin TABLE_SIZE

structure PidAddressList extends PidAddress where
  next : Option Entry

/-- The array and the two heads. `inUse` is `using` in the source. -/
structure PidTable where
  pidtoaddr : Entry → PidAddressList
  inUse : Option Entry
  unused : Option Entry

/-- What `u2` points to: the head `using` or the link of an entry. -/
inductive Link where
  | head
  | next (u : Entry)
deriving DecidableEq, Repr

section Lists
variable {p h : Int32} {before after : List PidAddress} {u : PidAddress}

/-- A child without an entry leaves the list alone. -/
theorem sethops_absent {l : List PidAddress} (hAbsent : ∀ e ∈ l, e.pid ≠ p) :
    sethops p h l = none := by
  induction l with
  | nil => rfl
  | cons e l ih =>
      rw [sethops, if_neg (hAbsent e List.mem_cons_self),
        ih fun x hx => hAbsent x (List.mem_cons_of_mem _ hx)]
      rfl

/-- The first entry of a child gets its hop count. -/
theorem sethops_found (hBefore : ∀ e ∈ before, e.pid ≠ p) (hPid : u.pid = p) :
    sethops p h (before ++ u :: after) = some (before ++ { u with hops := h } :: after) := by
  induction before with
  | nil =>
      rw [List.nil_append, sethops, if_pos hPid]
      rfl
  | cons e before ih =>
      rw [List.cons_append, sethops, if_neg (hBefore e List.mem_cons_self),
        ih fun x hx => hBefore x (List.mem_cons_of_mem _ hx)]
      rfl

end Lists

namespace PidTable

def write (u : Entry) (e : PidAddressList) (t : PidTable) : PidTable :=
  { t with pidtoaddr := Function.update t.pidtoaddr u e }

/-- `*u2 = x`. -/
def store (x : Option Entry) (t : PidTable) : Link → PidTable
  | .head => { t with inUse := x }
  | .next u => t.write u { t.pidtoaddr u with next := x }

/-- Every entry but the last one is linked to the one behind it. -/
def init (t : PidTable) : PidTable where
  pidtoaddr a := { t.pidtoaddr a with
    next := if h : a.val + 1 < TABLE_SIZE then some ⟨a.val + 1, h⟩ else none }
  inUse := none
  unused := some ⟨0, by decide⟩

/-- The result is -1 when no entry is unused. -/
def mappid (p : Int32) (client pingto : Address) (t : PidTable) : PidTable × Int32 :=
  match t.unused with
  | none => (t, -1)
  | some u =>
      let t := { t with unused := (t.pidtoaddr u).next }
      let t := t.write u
        { pid := p, hops := HOPS_ERROR, client := client, pingto := pingto, next := t.inUse }
      ({ t with inUse := some u }, 0)

/-- The loop over the list from an entry on, with the link that led there. A
`none` is a loop that does not end within the given number of entries. -/
def walk (t : PidTable) (p : Int32) : Nat → Option Entry → Link → Option (Option Entry × Link)
  | _, none, u2 => some (none, u2)
  | 0, some _, _ => none
  | fuel + 1, some u, u2 =>
      if (t.pidtoaddr u).pid = p then some (some u, u2)
      else walk t p fuel (t.pidtoaddr u).next (.next u)

/-- The result is -1 when the process has no entry. -/
def sethops (p h : Int32) (t : PidTable) : Option (PidTable × Int32) :=
  (walk t p TABLE_SIZE t.inUse .head).map fun found =>
    match found.1 with
    | none => (t, -1)
    | some u => (t.write u { t.pidtoaddr u with hops := h }, 0)

/-- The entry that is found leaves the list through the link that led to it. Its
contents are returned. -/
def unmappid (p : Int32) (t : PidTable) : Option (PidTable × Option PidAddress) :=
  (walk t p TABLE_SIZE t.inUse .head).map fun found =>
    match found.1 with
    | none => (t, none)
    | some u =>
        let e := t.pidtoaddr u
        let t := t.store e.next found.2
        let t := t.write u { t.pidtoaddr u with next := t.unused }
        ({ t with unused := some u }, some e.toPidAddress)

section Writes
variable {t : PidTable} {u : Entry} {e : PidAddressList} {x : Option Entry}

def links (t : PidTable) (u : Entry) : Option Entry := (t.pidtoaddr u).next

def contents (t : PidTable) (u : Entry) : PidAddress := (t.pidtoaddr u).toPidAddress

@[simp] theorem links_write : (t.write u e).links = Function.update t.links u e.next := by
  funext v
  exact Function.apply_update (fun _ => PidAddressList.next) t.pidtoaddr u e v

@[simp] theorem contents_write :
    (t.write u e).contents = Function.update t.contents u e.toPidAddress := by
  funext v
  exact Function.apply_update (fun _ => PidAddressList.toPidAddress) t.pidtoaddr u e v

@[simp] theorem contents_store (l : Link) : (t.store x l).contents = t.contents := by
  cases l with
  | head => rfl
  | next v => exact contents_write.trans (Function.update_eq_self v t.contents)

@[simp] theorem unused_store (l : Link) : (t.store x l).unused = t.unused := by
  cases l <;> rfl

end Writes

/-- The two lists share out the entries of the array, and those in use hold the
live mappings, the most recent one first. -/
structure Represents (t : PidTable) (us fs : List Entry) (live : List PidAddress) : Prop where
  inUse : Reads t.links t.inUse us
  unused : Reads t.links t.unused fs
  pool : (us ++ fs).Perm (List.finRange TABLE_SIZE)
  contents : us.map t.contents = live

theorem map_update {α β : Type} [DecidableEq α] {f : α → β} {l : List α} {a : α} {b : β}
    (h : a ∉ l) : l.map (Function.update f a b) = l.map f := by
  apply List.map_congr_left
  intro x hx
  exact Function.update_of_ne (fun hEq : x = a => h (hEq ▸ hx)) b f

section Represents
variable {t : PidTable} {us fs before after : List Entry} {live : List PidAddress} {u : Entry}

/-- No entry is linked twice, and none is both used and free. -/
theorem Represents.nodup (h : Represents t us fs live) : (us ++ fs).Nodup :=
  h.pool.nodup_iff.mpr (List.nodup_finRange TABLE_SIZE)

/-- Each entry of the array is in use or free. -/
theorem Represents.length (h : Represents t us fs live) : live.length + fs.length = TABLE_SIZE := by
  have hLength := h.pool.length_eq
  rw [List.length_append, List.length_finRange] at hLength
  rw [← h.contents, List.length_map, hLength]

theorem head_finRange {n : Nat} (h : 0 < n) : (List.finRange n).head? = some ⟨0, h⟩ := by
  rw [List.head?_eq_getElem?, List.getElem?_eq_getElem (by rwa [List.length_finRange]),
    List.getElem_finRange]
  rfl

/-- After the initialisation all entries are free. -/
theorem represents_init (t : PidTable) :
    Represents t.init [] (List.finRange TABLE_SIZE) [] where
  inUse := rfl
  unused := by
    have hHead : t.init.unused = (List.finRange TABLE_SIZE).head? :=
      (head_finRange (by decide)).symm
    rw [hHead]
    apply reads_of_getElem
    intro i u hu
    obtain ⟨hi, rfl⟩ := List.getElem?_eq_some_iff.mp hu
    rw [List.getElem_finRange]
    rw [List.length_finRange] at hi
    show (if h : i + 1 < TABLE_SIZE then some (⟨i + 1, h⟩ : Entry) else none) =
      (List.finRange TABLE_SIZE)[i + 1]?
    split
    next hNext =>
      rw [List.getElem?_eq_getElem (by rwa [List.length_finRange]), List.getElem_finRange]
      rfl
    next hLast =>
      rw [List.getElem?_eq_none (by rw [List.length_finRange]; omega)]
  pool := by rw [List.nil_append]
  contents := rfl

/-- `mappid` fails exactly if all entries are in use. -/
theorem Represents.mappid (h : Represents t us fs live) (p : Int32) (client pingto : Address) :
    (live.length = TABLE_SIZE ∧ t.mappid p client pingto = (t, -1)) ∨
      live.length < TABLE_SIZE ∧ ∃ t' us' fs', t.mappid p client pingto = (t', 0) ∧
        Represents t' us' fs' (⟨p, HOPS_ERROR, client, pingto⟩ :: live) := by
  have hLength := h.length
  cases fs with
  | nil =>
      refine .inl ⟨hLength, ?_⟩
      have hNone : t.unused = none := h.unused
      rw [PidTable.mappid, hNone]
  | cons u fs =>
      obtain ⟨hHead, hRest⟩ := h.unused
      have hNodup := List.nodup_middle.mp h.nodup
      obtain ⟨hFresh, _⟩ := List.nodup_cons.mp hNodup
      have hOutUs : u ∉ us := fun hMem => hFresh (List.mem_append_left _ hMem)
      have hOutFs : u ∉ fs := fun hMem => hFresh (List.mem_append_right _ hMem)
      rw [List.length_cons] at hLength
      refine .inr ⟨by omega, _, u :: us, fs, by rw [PidTable.mappid, hHead], ?_⟩
      constructor
      · exact links_write ▸ h.inUse.push hOutUs
      · exact links_write ▸ hRest.update_outside hOutFs _
      · exact List.perm_middle.symm.trans h.pool
      · show (u :: us).map (t.write u _).contents = _
        rw [contents_write, List.map_cons, Function.update_self, map_update hOutUs, h.contents]

section Walk
variable {p : Int32} {fuel : Nat} {head : Option Entry}

/-- The loop ends without an entry of the process. -/
theorem walk_absent (h : Reads t.links head us) (hFuel : us.length ≤ fuel)
    (hAbsent : ∀ w ∈ us, (t.contents w).pid ≠ p) (u2 : Link) :
    ∃ u2', t.walk p fuel head u2 = some (none, u2') := by
  induction us generalizing fuel head u2 with
  | nil =>
      cases h
      exact ⟨u2, by rw [walk]⟩
  | cons w us ih =>
      obtain ⟨rfl, hRest⟩ := h
      cases fuel with
      | zero => cases hFuel
      | succ fuel =>
          have hOther : ¬ (t.pidtoaddr w).pid = p := hAbsent w List.mem_cons_self
          rw [walk, if_neg hOther]
          exact ih hRest (Nat.le_of_succ_le_succ hFuel)
            (fun v hv => hAbsent v (List.mem_cons_of_mem _ hv)) _

/-- It ends at the first entry of the process, and knows the link to it. -/
theorem walk_found (h : Reads t.links head (before ++ u :: after))
    (hFuel : (before ++ u :: after).length ≤ fuel)
    (hBefore : ∀ w ∈ before, (t.contents w).pid ≠ p) (hPid : (t.contents u).pid = p) (u2 : Link) :
    t.walk p fuel head u2 = some (some u, (before.getLast?.map .next).getD u2) := by
  induction before generalizing fuel head u2 with
  | nil =>
      obtain ⟨rfl, _⟩ := h
      cases fuel with
      | zero => cases hFuel
      | succ fuel =>
          have hHere : (t.pidtoaddr u).pid = p := hPid
          rw [walk, if_pos hHere]
          rfl
  | cons w before ih =>
      obtain ⟨rfl, hRest⟩ := h
      cases fuel with
      | zero => cases hFuel
      | succ fuel =>
          have hOther : ¬ (t.pidtoaddr w).pid = p := hBefore w List.mem_cons_self
          have hWalk : t.walk p fuel (t.pidtoaddr w).next (.next w) =
              some (some u, (before.getLast?.map .next).getD (.next w)) :=
            ih hRest (Nat.le_of_succ_le_succ hFuel)
              (fun v hv => hBefore v (List.mem_cons_of_mem _ hv)) _
          rw [walk, if_neg hOther, hWalk, List.getLast?_cons, Option.map_some, Option.getD_some]
          cases before.getLast? with
          | none => rfl
          | some v => rfl

end Walk

/-- The most recent mapping of a process, if it has one. -/
theorem Represents.find (h : Represents t us fs live) (p : Int32) :
    ((∀ w ∈ us, (t.contents w).pid ≠ p) ∧ live.find? (fun e => e.pid = p) = none) ∨
      ∃ before u after, us = before ++ u :: after ∧ (∀ w ∈ before, (t.contents w).pid ≠ p) ∧
        (t.contents u).pid = p ∧ live.find? (fun e => e.pid = p) = some (t.contents u) := by
  have hFind : live.find? (fun e => e.pid = p) =
      (us.find? fun w => (t.contents w).pid = p).map t.contents := by
    rw [← h.contents, List.find?_map]
    rfl
  cases hFirst : us.find? (fun w => (t.contents w).pid = p) with
  | none =>
      refine .inl ⟨?_, by rw [hFind, hFirst, Option.map_none]⟩
      intro w hw hPid
      exact List.find?_eq_none.mp hFirst w hw (decide_eq_true hPid)
  | some u =>
      obtain ⟨hPid, before, after, hSplit, hBefore⟩ := List.find?_eq_some_iff_append.mp hFirst
      refine .inr ⟨before, u, after, hSplit, ?_, of_decide_eq_true hPid, ?_⟩
      · intro w hw hEq
        have hOther := hBefore w hw
        simp [hEq] at hOther
      · rw [hFind, hFirst, Option.map_some]

theorem Represents.fuel (h : Represents t us fs live) : us.length ≤ TABLE_SIZE := by
  have hLength := h.length
  rw [← h.contents, List.length_map] at hLength
  omega

/-- `sethops` writes to the most recent mapping of the process alone. -/
theorem Represents.sethops (h : Represents t us fs live) (p hops : Int32) :
    ∃ t', t.sethops p hops =
        some (t', if (live.find? fun e => e.pid = p).isSome then 0 else -1) ∧
      Represents t' us fs ((Pingd.sethops p hops live).getD live) := by
  rcases h.find p with ⟨hAbsent, hNone⟩ | ⟨before, u, after, rfl, hBefore, hPid, hSome⟩
  · obtain ⟨u2, hWalk⟩ := walk_absent h.inUse h.fuel hAbsent .head
    have hLive : ∀ e ∈ live, e.pid ≠ p := by
      intro e he hPid
      exact List.find?_eq_none.mp hNone e he (decide_eq_true hPid)
    refine ⟨t, ?_, ?_⟩
    · rw [PidTable.sethops, hWalk, hNone]
      rfl
    · rw [sethops_absent hLive]
      exact h
  · have hWalk := walk_found h.inUse h.fuel hBefore hPid .head
    have hUs := (List.nodup_append.mp h.nodup).1
    have hOutside := (List.nodup_cons.mp (List.nodup_middle.mp hUs)).1
    have hLinks : (t.write u { t.pidtoaddr u with hops := hops }).links = t.links :=
      links_write.trans (Function.update_eq_self u t.links)
    refine ⟨_, by rw [PidTable.sethops, hWalk, hSome]; rfl, ?_⟩
    constructor
    · rw [hLinks]
      exact h.inUse
    · rw [hLinks]
      exact h.unused
    · exact h.pool
    · have hLive : live = before.map t.contents ++ t.contents u :: after.map t.contents := by
        rw [← h.contents, List.map_append, List.map_cons]
      have hList : Pingd.sethops p hops live = some (before.map t.contents ++
          { t.contents u with hops := hops } :: after.map t.contents) := by
        rw [hLive]
        apply sethops_found _ hPid
        intro e he
        obtain ⟨w, hw, rfl⟩ := List.mem_map.mp he
        exact hBefore w hw
      rw [hList, Option.getD_some, contents_write, List.map_append, List.map_cons,
        Function.update_self, map_update fun hMem => hOutside (List.mem_append_left _ hMem),
        map_update fun hMem => hOutside (List.mem_append_right _ hMem)]
      rfl

/-- The write through the link takes an entry out of the list, at its head or
behind another one, and leaves the unused entries. -/
theorem Represents.store (h : Represents t (before ++ u :: after) fs live) :
    Reads (t.store (t.links u) ((before.getLast?.map .next).getD .head)).links
        (t.store (t.links u) ((before.getLast?.map .next).getD .head)).inUse (before ++ after) ∧
      Reads (t.store (t.links u) ((before.getLast?.map .next).getD .head)).links t.unused fs := by
  rcases List.eq_nil_or_concat before with rfl | ⟨before, v, rfl⟩
  · exact ⟨h.inUse.2, h.unused⟩
  · rw [List.concat_eq_append] at h ⊢
    rw [List.getLast?_concat, Option.map_some, Option.getD_some, List.append_assoc,
      List.singleton_append]
    have hReads := h.inUse
    have hNodup := h.nodup
    rw [List.append_assoc, List.singleton_append] at hReads
    simp only [List.append_assoc, List.cons_append] at hNodup
    have hUs : (before ++ v :: u :: after).Nodup :=
      (List.nodup_append.mp (by simpa using h.nodup)).1
    have hOutside : v ∉ fs := by
      intro hMem
      have hFirst := (List.nodup_cons.mp (List.nodup_middle.mp hNodup)).1
      exact hFirst (List.mem_append_right _ (List.mem_cons_of_mem _ (List.mem_append_right _ hMem)))
    have hLinks : (t.store (t.links u) (.next v)).links =
        Function.update t.links v (t.links u) := links_write
    rw [hLinks]
    exact ⟨hReads.unlink hUs, h.unused.update_outside hOutside _⟩

/-- `unmappid` takes out the most recent mapping of the process and returns it. -/
theorem Represents.unmappid (h : Represents t us fs live) (p : Int32) :
    ∃ t' us' fs', t.unmappid p = some (t', live.find? fun e => e.pid = p) ∧
      Represents t' us' fs' (live.eraseP fun e => e.pid = p) := by
  rcases h.find p with ⟨hAbsent, hNone⟩ | ⟨before, u, after, rfl, hBefore, hPid, hSome⟩
  · obtain ⟨u2, hWalk⟩ := walk_absent h.inUse h.fuel hAbsent .head
    refine ⟨t, us, fs, by rw [PidTable.unmappid, hWalk, hNone]; rfl, ?_⟩
    rw [List.eraseP_of_forall_not]
    · exact h
    · exact List.find?_eq_none.mp hNone
  · have hWalk := walk_found h.inUse h.fuel hBefore hPid .head
    obtain ⟨hUsed, hUnused⟩ := h.store
    have hOnce := (List.nodup_cons.mp (List.nodup_middle.mp
      (by simpa only [List.append_assoc, List.cons_append] using h.nodup))).1
    have hOutUs : u ∉ before ++ after := by
      intro hMem
      apply hOnce
      rw [← List.append_assoc]
      exact List.mem_append_left _ hMem
    have hOutFs : u ∉ fs := by
      intro hMem
      exact hOnce (List.mem_append_right _ (List.mem_append_right _ hMem))
    refine ⟨_, before ++ after, u :: fs, by rw [PidTable.unmappid, hWalk, hSome]; rfl, ?_⟩
    have hContents : ∀ e : PidTable, (e.write u { e.pidtoaddr u with next := e.unused }).contents =
        e.contents := fun e => contents_write.trans (Function.update_eq_self u e.contents)
    constructor
    · exact links_write ▸ hUsed.update_outside hOutUs _
    · have hPush := hUnused.push hOutFs
      rw [← unused_store (t := t) (x := t.links u) ((before.getLast?.map .next).getD .head)] at hPush
      exact links_write ▸ hPush
    · have hMoved : (before ++ after ++ u :: fs).Perm (before ++ u :: after ++ fs) :=
        List.perm_middle.trans (List.perm_middle.symm.append_right fs)
      exact hMoved.trans h.pool
    · have hErased : live.eraseP (fun e => e.pid = p) = (before ++ after).map t.contents := by
        have hHere : decide ((t.contents u).pid = p) = true := decide_eq_true hPid
        rw [← h.contents, List.map_append, List.eraseP_append_right, List.map_cons,
          List.eraseP_cons, hHere, cond_true, List.map_append]
        intro e he
        obtain ⟨w, hw, rfl⟩ := List.mem_map.mp he
        simpa using hBefore w hw
      rw [hErased]
      exact congrArg (fun f => (before ++ after).map f) ((hContents _).trans (contents_store _))

end Represents

end PidTable

section Calls

inductive TableCall where
  | mappid (p : Int32) (client pingto : Address)
  | sethops (p h : Int32)
  | unmappid (p : Int32)

/-- What a call returns: a code, or the contents of the entry that it found. -/
inductive TableResult where
  | code (r : Int32)
  | unmapped (e : Option PidAddress)
deriving DecidableEq, Repr

namespace TableCall

/-- A `none` is a loop that does not end. -/
def perform (t : PidTable) : TableCall → Option (PidTable × TableResult)
  | mappid p client pingto =>
      let out := t.mappid p client pingto
      some (out.1, .code out.2)
  | sethops p h => (t.sethops p h).map fun out => (out.1, .code out.2)
  | unmappid p => (t.unmappid p).map fun out => (out.1, .unmapped out.2)

/-- What a call makes of the live mappings, the most recent one first. -/
def apply (live : List PidAddress) : TableCall → List PidAddress
  | mappid p client pingto =>
      if live.length = TABLE_SIZE then live else ⟨p, HOPS_ERROR, client, pingto⟩ :: live
  | sethops p h => (Pingd.sethops p h live).getD live
  | unmappid p => live.eraseP fun e => e.pid = p

/-- What a call returns, given the live mappings. -/
def result (live : List PidAddress) : TableCall → TableResult
  | mappid _ _ _ => .code (if live.length = TABLE_SIZE then -1 else 0)
  | sethops p _ => .code (if (live.find? fun e => e.pid = p).isSome then 0 else -1)
  | unmappid p => .unmapped (live.find? fun e => e.pid = p)

/-- The list in use and the unused one share out all entries of the array, and
the one in use holds the live mappings. -/
def Partitioned (t : PidTable) (live : List PidAddress) : Prop :=
  ∃ us fs, t.Represents us fs live

/-- A call of the table keeps it partitioned and answers as the list does. -/
theorem perform_partitioned {t : PidTable} {live : List PidAddress} (h : Partitioned t live)
    (c : TableCall) :
    ∃ t' r, c.perform t = some (t', r) ∧ r = c.result live ∧ Partitioned t' (c.apply live) := by
  obtain ⟨us, fs, h⟩ := h
  cases c with
  | mappid p client pingto =>
      rcases h.mappid p client pingto with ⟨hFull, hCall⟩ | ⟨hRoom, t', us', fs', hCall, hNext⟩
      · refine ⟨t, _, by rw [perform, hCall], ?_, us, fs, ?_⟩
        · rw [result, if_pos hFull]
        · rw [apply, if_pos hFull]
          exact h
      · have hLess : live.length ≠ TABLE_SIZE := Nat.ne_of_lt hRoom
        refine ⟨t', _, by rw [perform, hCall], ?_, us', fs', ?_⟩
        · rw [result, if_neg hLess]
        · rw [apply, if_neg hLess]
          exact hNext
  | sethops p hops =>
      obtain ⟨t', hCall, hNext⟩ := h.sethops p hops
      exact ⟨t', _, congrArg (Option.map _) hCall, rfl, us, fs, hNext⟩
  | unmappid p =>
      obtain ⟨t', us', fs', hCall, hNext⟩ := h.unmappid p
      exact ⟨t', _, congrArg (Option.map _) hCall, rfl, us', fs', hNext⟩

end TableCall

/-- From `pidtoaddr_init` on, the two lists share out the entries of the array
after every call. A mapping fails exactly if all entries are in use. The most
recent mapping of a process is the one that is changed, returned and removed. -/
theorem table_partitioned (t : PidTable) (calls : List TableCall) :
    Calls.Follows TableCall.perform TableCall.apply (fun live c r => r = c.result live)
      TableCall.Partitioned t.init [] calls := by
  apply Calls.follows
  · intro t live c h
    exact TableCall.perform_partitioned h c
  · exact ⟨[], List.finRange TABLE_SIZE, t.represents_init⟩

end Calls

end QpidRecovery.Pingd
