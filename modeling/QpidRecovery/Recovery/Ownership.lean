import QpidRecovery.Recovery.Pointers
import QpidRecovery.Recovery.UrlParsing

/-! Who owns the cells of the recovery manager. Every cell that a pointer can
reach belongs to one vector, to one event of the pipe or to what the main loop
is doing, and all others are lost. -/
namespace QpidRecovery.Pointers

open Heap (Pointer)
open KeyedList
open RecoveryManager (exchange? queue? binding? bridge? link? collected)

variable {Id : Type}

section Objects

/-- An object of a type. -/
def objectOf : (t : ObjectType) → t.Info Id → CollectedObject Id
  | .broker => .broker
  | .link => .link
  | .exchange => .exchange
  | .queue => .queue
  | .binding => .binding
  | .bridge => .bridge

def typeOf : CollectedObject Id → ObjectType
  | .broker _ => .broker
  | .link _ => .link
  | .exchange _ => .exchange
  | .queue _ => .queue
  | .binding _ => .binding
  | .bridge _ => .bridge

@[simp] theorem typeOf_objectOf (t : ObjectType) (i : t.Info Id) : typeOf (objectOf t i) = t := by
  cases t <;> rfl

@[simp] theorem info_objectOf (t : ObjectType) (i : t.Info Id) :
    (objectOf t i).info = t.key i := by
  cases t <;> rfl

@[simp] theorem typeOf_construct (obj : Object Id) (t : ObjectType) :
    typeOf (obj.construct t) = t := by
  cases t <;> rfl

/-- Every object is one of its type. -/
theorem exists_objectOf (o : CollectedObject Id) : ∃ i, o = objectOf (typeOf o) i := by
  cases o with
  | broker i | link i | exchange i | queue i | binding i | bridge i => exact ⟨i, rfl⟩

end Objects

section Trace

/-- The events that were written to the pipe. -/
def sent (trace : List (Output Id)) : List (Proposer.ListenerEvent Id) :=
  trace.filterMap fun
    | .sent le => some le
    | _ => none

/-- The events that `handleEvent` took from it. -/
def received (trace : List (Output Id)) : List (Proposer.ListenerEvent Id) :=
  trace.filterMap fun
    | .received le => some le
    | _ => none

/-- What was done on other brokers. -/
def recoveries (trace : List (Output Id)) : List RecoveryCall :=
  trace.filterMap fun
    | .recovery c => some c
    | _ => none

/-- The objects of the property events. -/
def objects (events : List (Proposer.ListenerEvent Id)) : List (CollectedObject Id) :=
  events.filterMap fun
    | .objectProperty o => some o
    | _ => none

/-- The cells that no pointer reaches after an output: a copy that is ignored,
the object of an event, and the arguments of a thread that returned early with
all they hold. -/
def Output.lost : Output Id → Nat
  | .addObjectInfo _ r => if r = 1 then 1 else 0
  | .deleted .objectProperty => 1
  | .abandoned objects => objects + 1
  | _ => 0

def lost (trace : List (Output Id)) : Nat := (trace.map Output.lost).sum

variable (trace more : List (Output Id))

@[simp] theorem sent_append : sent (trace ++ more) = sent trace ++ sent more :=
  List.filterMap_append

@[simp] theorem received_append : received (trace ++ more) = received trace ++ received more :=
  List.filterMap_append

@[simp] theorem recoveries_append :
    recoveries (trace ++ more) = recoveries trace ++ recoveries more :=
  List.filterMap_append

@[simp] theorem lost_append : lost (trace ++ more) = lost trace + lost more := by
  simp [lost]

/-- The typed store that the same events leave. -/
def stored [DecidableEq Id] (trace : List (Output Id)) : RecoveryManager Id :=
  collected (objects (received trace))

end Trace

/-- What a heap holds of a typed store: a pointer for every object. -/
abbrev Held (Id : Type) := (t : ObjectType) → List (Pointer × t.Info Id)

def cellsOf (t : ObjectType) (l : List (Pointer × t.Info Id)) : List (Pointer × Cell Id) :=
  l.map fun x => (x.1, .objectInfo (objectOf t x.2))

def Held.cells (held : Held Id) : List (Pointer × Cell Id) :=
  vecOrder.flatMap fun t => cellsOf t (held t)

/-- An event on the heap. A property event has an object of its own. -/
structure Pending (Id : Type) where
  le : Pointer
  objinfo : Pointer
  event : Proposer.ListenerEvent Id

def Pending.fields (e : Pending Id) : ListenerEvent :=
  match e.event with
  | .brokerDisconnection brokerip brokerport => .brokerDisconnection brokerip brokerport
  | .linkDown srcip srcport dstip dstport => .linkDown srcip srcport dstip dstport
  | .objectProperty o => .objectProperty (some (typeOf o)) (some e.objinfo)

def Pending.object (e : Pending Id) : List (Pointer × Cell Id) :=
  match e.event with
  | .objectProperty o => [(e.objinfo, .objectInfo o)]
  | _ => []

def Pending.cells (e : Pending Id) : List (Pointer × Cell Id) :=
  (e.le, .listenerEvent e.fields) :: e.object

/-- What the main loop holds. -/
inductive Busy (Id : Type) where
  | waiting
  | handling (e : Pending Id)
  | copying (coarg : Pointer) (args : CopyObjectsArgs) (held : Held Id)

def Busy.main : Busy Id → Main
  | .waiting => .waiting
  | .handling e => .handling e.le
  | .copying coarg _ _ => .copying coarg

def Busy.cells : Busy Id → List (Pointer × Cell Id)
  | .waiting => []
  | .handling e => e.cells
  | .copying coarg args held => (coarg, .copyObjectsArgs args) :: held.cells

section Fits

/-- The main loop copies the host of a link to a buffer. -/
def LinkFits : CollectedObject Id → Prop
  | .link l => HostFits IP_LENGTH l.getLinkDestUrl
  | _ => True

/-- So it does with the address of a broker that disconnected. -/
def EventFits : Proposer.ListenerEvent Id → Prop
  | .objectProperty o => LinkFits o
  | .brokerDisconnection brokerip _ => brokerip.bytes.length < IP_LENGTH
  | _ => True

end Fits

section Cells
variable {h : Memory Id} {cells : List (Pointer × Cell Id)} {n : Nat}

/-- An owned object is read through its pointer. -/
theorem objectAt_of_mem (hOwned : h.Owned cells n) {p : Pointer} {o : CollectedObject Id}
    (hMem : (p, Cell.objectInfo o) ∈ cells) : objectAt p h = some o := by
  rw [objectAt, hOwned.read _ hMem]

/-- So is an owned event. -/
theorem eventAt_of_mem (hOwned : h.Owned cells n) {p : Pointer} {le : ListenerEvent}
    (hMem : (p, Cell.listenerEvent le) ∈ cells) : eventAt p h = some le := by
  rw [eventAt, hOwned.read _ hMem]

/-- So are the arguments of a thread. -/
theorem argsAt_of_mem (hOwned : h.Owned cells n) {p : Pointer} {args : CopyObjectsArgs}
    (hMem : (p, Cell.copyObjectsArgs args) ∈ cells) : argsAt p h = some args := by
  rw [argsAt, hOwned.read _ hMem]

theorem mem_cellsOf {t : ObjectType} {l : List (Pointer × t.Info Id)} {x : Pointer × t.Info Id}
    (hx : x ∈ l) : (x.1, Cell.objectInfo (objectOf t x.2)) ∈ cellsOf t l :=
  List.mem_map_of_mem hx

@[simp] theorem map_fst_cellsOf (t : ObjectType) (l : List (Pointer × t.Info Id)) :
    (cellsOf t l).map Prod.fst = l.map Prod.fst := by
  simp [cellsOf, Function.comp_def]

theorem mem_vecOrder (t : ObjectType) : t ∈ vecOrder := by
  cases t <;> decide

variable (held : Held Id) (t : ObjectType)

/-- What is held has its cell. -/
theorem Held.mem_cells {x : Pointer × t.Info Id} (hx : x ∈ held t) :
    (x.1, Cell.objectInfo (objectOf t x.2)) ∈ held.cells :=
  List.mem_flatMap.mpr ⟨t, mem_vecOrder t, mem_cellsOf hx⟩

/-- The cells of the held objects lie where the vectors lead. -/
theorem Held.map_fst_cells : held.cells.map Prod.fst =
    vecOrder.flatMap fun t => (held t).map Prod.fst := by
  rw [Held.cells, List.map_flatMap]
  congr 1
  funext t
  exact map_fst_cellsOf t (held t)

/-- The cells of all types but one. -/
def Held.others : List (Pointer × Cell Id) :=
  (vecOrder.erase t).flatMap fun u => cellsOf u (held u)

/-- An object of another type is among the others. -/
theorem Held.mem_others {u : ObjectType} (hNe : u ≠ t) {x : Pointer × u.Info Id} (hx : x ∈ held u) :
    (x.1, Cell.objectInfo (objectOf u x.2)) ∈ held.others t :=
  List.mem_flatMap.mpr ⟨u, (List.mem_erase_of_ne hNe).mpr (mem_vecOrder u), mem_cellsOf hx⟩

/-- One type and the others make up all cells. -/
theorem Held.cells_perm : held.cells.Perm (cellsOf t (held t) ++ held.others t) :=
  (List.perm_cons_erase (mem_vecOrder t)).flatMap_right _

/-- The others do not change with their type. -/
theorem Held.others_update (l : List (Pointer × t.Info Id)) :
    Held.others (Function.update held t l) t = held.others t := by
  apply List.flatMap_congr
  intro u hu
  have hNe : u ≠ t := by
    rintro rfl
    exact (List.Nodup.not_mem_erase (by decide)) hu
  rw [Function.update_of_ne hNe]

/-- Changing what is held of one type. -/
theorem Held.cells_update_perm (l : List (Pointer × t.Info Id)) :
    (Held.cells (Function.update held t l)).Perm (cellsOf t l ++ held.others t) := by
  have hPerm := Held.cells_perm (Function.update held t l) t
  rw [Function.update_self, Held.others_update] at hPerm
  exact hPerm

end Cells

section Ownership
variable [DecidableEq Id]

/-- What the main loop holds is reached by its pointers, and an event that it
handles was received. -/
def Busy.Agrees (trace : List (Output Id)) : Busy Id → Prop
  | .waiting => True
  | .handling e => e.event ∈ received trace
  | .copying _ args held => ∀ t, args.vecs t = (held t).map Prod.fst

/-- The copies are those of the objects stored for the broker that failed. -/
def Busy.Copies (trace : List (Output Id)) : Busy Id → Prop
  | .copying _ args held => ∀ t, (held t).map Prod.snd =
      t.vec ((stored trace).copyObjectsArgs (IPPortToUrl args.failip args.failport))
  | _ => True

/-- The heap, the vectors and the pipe, as one owner each has them. -/
structure Represents (s : State Id) (held : Held Id) (pending : List (Pending Id))
    (busy : Busy Id) : Prop where
  vecs : ∀ t, s.vecs t = (held t).map Prod.fst
  store : ∀ t, (held t).map Prod.snd = t.vec (stored s.trace)
  eventpipe : s.eventpipe = pending.map Pending.le
  order : sent s.trace = received s.trace ++ pending.map Pending.event
  main : s.main = busy.main
  agrees : busy.Agrees s.trace
  fits : ∀ le ∈ sent s.trace, EventFits le
  owned : s.heap.Owned (held.cells ++ pending.flatMap Pending.cells ++ busy.cells) (lost s.trace)

end Ownership

section Store
variable [DecidableEq Id] {h : Memory Id} {rest : List (Pointer × Cell Id)} {n : Nat}

/-- Whether the name of an object is ignored. -/
def skips : CollectedObject Id → Bool
  | .exchange e => isIgnoredName e.name
  | .queue q => isIgnoredName q.name
  | _ => false

omit [DecidableEq Id] in
/-- The pointer code ignores the same names. -/
theorem ignored_eq {p : Pointer} {o : CollectedObject Id} (hRead : objectAt p h = some o) :
    ignored p (typeOf o) h = some (skips o) := by
  cases o with
  | exchange e =>
      show (castAt exchange? p h).map _ = _
      rw [castAt, hRead]
      rfl
  | queue q =>
      show (castAt queue? p h).map _ = _
      rw [castAt, hRead]
      rfl
  | broker i | link i | binding i | bridge i => rfl

omit [DecidableEq Id] in
/-- A type keeps its own objects that are not ignored. -/
theorem kept_self (t : ObjectType) (i : t.Info Id) :
    t.kept (objectOf t i) = if skips (objectOf t i) then none else some i := by
  cases t with
  | exchange => exact RecoveryManager.keptExchange?_exchange i
  | queue => exact RecoveryManager.keptQueue?_queue i
  | broker | link | binding | bridge => rfl

omit [DecidableEq Id] in
/-- It keeps no other. -/
theorem kept_other {t u : ObjectType} (hNe : u ≠ t) (i : t.Info Id) :
    u.kept (objectOf t i) = none := by
  cases t
  all_goals cases u
  all_goals first | rfl | exact absurd rfl hNe

/-- The loop replaces the first object with the same key and deletes it, or
appends the new one. -/
theorem storeObject_spec (t : ObjectType) (p : Pointer) (i : t.Info Id)
    (l : List (Pointer × t.Info Id))
    (hOwned : h.Owned (cellsOf t l ++ (p, .objectInfo (objectOf t i)) :: rest) n) :
    ∃ l' h', storeObject p (l.map Prod.fst) h = some (l'.map Prod.fst, h') ∧
      l'.map Prod.snd = put t.key i (l.map Prod.snd) ∧ h'.Owned (cellsOf t l' ++ rest) n := by
  induction l generalizing h rest with
  | nil => exact ⟨[(p, i)], h, rfl, rfl, hOwned⟩
  | cons x l ih =>
      have hOld : objectAt x.1 h = some (objectOf t x.2) :=
        objectAt_of_mem hOwned List.mem_cons_self
      have hNew : objectAt p h = some (objectOf t i) :=
        objectAt_of_mem hOwned (List.mem_append_right _ List.mem_cons_self)
      by_cases hKey : t.key x.2 = t.key i
      · obtain ⟨h', hFree, hRest⟩ := Heap.Owned.free hOwned
        refine ⟨(p, i) :: l, h', ?_, ?_, hRest.perm List.perm_middle⟩
        · simp [storeObject, hOld, hNew, hKey, hFree]
        · simp [put, hKey]
      · have hLast : h.Owned (cellsOf t l ++ (p, .objectInfo (objectOf t i)) ::
            (x.1, .objectInfo (objectOf t x.2)) :: rest) n :=
          hOwned.perm (List.perm_middle.symm.trans ((List.Perm.swap _ _ _).append_left _))
        obtain ⟨l', h', hStore, hPut, hRest⟩ := ih hLast
        refine ⟨x :: l', h', ?_, ?_, hRest.perm List.perm_middle⟩
        · simp [storeObject, hOld, hNew, hKey, hStore]
        · simp [put, hKey, hPut]

/-- What `addObjectInfo` does with the pointer to a new object. -/
theorem addObjectInfo_spec {s : State Id} {held : Held Id} {p : Pointer} (t : ObjectType)
    (i : t.Info Id) (hVecs : ∀ u, s.vecs u = (held u).map Prod.fst)
    (hOwned : s.heap.Owned ((p, .objectInfo (objectOf t i)) :: (held.cells ++ rest)) n) :
    ∃ (heap : Memory Id) (vecs : Vectors) (held' : Held Id) (r : Int),
      addObjectInfo p (some t) s = some ({ s with heap := heap, vecs := vecs }, r) ∧
      (∀ u, vecs u = (held' u).map Prod.fst) ∧
      (∀ u, (held' u).map Prod.snd = (u.kept (objectOf t i)).elim ((held u).map Prod.snd) fun j =>
        put u.key j ((held u).map Prod.snd)) ∧
      heap.Owned (held'.cells ++ rest) (n + if r = 1 then 1 else 0) := by
  have hRead : objectAt p s.heap = some (objectOf t i) :=
    objectAt_of_mem hOwned List.mem_cons_self
  have hIgnored := ignored_eq hRead
  rw [typeOf_objectOf] at hIgnored
  cases hSkip : skips (objectOf t i) with
  | true =>
      refine ⟨s.heap, s.vecs, held, 1, ?_, hVecs, ?_, ?_⟩
      · simp [addObjectInfo, hIgnored, hSkip]
      · intro u
        by_cases hType : u = t
        · subst hType
          rw [kept_self, hSkip]
          rfl
        · rw [kept_other hType]
          rfl
      · have hLost : s.heap.Owned (held.cells ++ rest) (1 + n) :=
          Heap.Owned.leak (show s.heap.Owned ([_] ++ (held.cells ++ rest)) n from hOwned)
        rw [Nat.add_comm] at hLost
        exact hLost
  | false =>
      have hFirst : s.heap.Owned (cellsOf t (held t) ++ (p, .objectInfo (objectOf t i)) ::
          (held.others t ++ rest)) n := by
        apply hOwned.perm
        refine List.Perm.trans ?_ List.perm_middle.symm
        rw [← List.append_assoc]
        exact ((held.cells_perm t).append_right rest).cons _
      obtain ⟨l, heap, hStore, hPut, hRest⟩ := storeObject_spec t p i (held t) hFirst
      refine ⟨heap, Function.update s.vecs t (l.map Prod.fst), Function.update held t l, 0, ?_, ?_,
        ?_, ?_⟩
      · simp [addObjectInfo, hIgnored, hSkip, hVecs t, hStore]
      · intro u
        by_cases hType : u = t
        · subst hType
          rw [Function.update_self, Function.update_self]
        · rw [Function.update_of_ne hType, Function.update_of_ne hType, hVecs u]
      · intro u
        by_cases hType : u = t
        · subst hType
          rw [Function.update_self, hPut, kept_self, hSkip]
          rfl
        · rw [Function.update_of_ne hType, kept_other hType]
          rfl
      · have hPerm := (held.cells_update_perm t l).append_right rest
        rw [List.append_assoc] at hPerm
        exact hRest.perm hPerm.symm

end Store

section Received
variable [DecidableEq Id] {trace more : List (Output Id)}

/-- The typed store depends on the property events alone. -/
theorem stored_append (hMore : objects (received more) = []) :
    stored (trace ++ more) = stored trace := by
  simp only [stored, objects, received_append, List.filterMap_append] at hMore ⊢
  rw [hMore, List.append_nil]

/-- What is stored after an object is received. -/
theorem stored_property {o : CollectedObject Id}
    (hMore : received more = [.objectProperty o]) :
    stored (trace ++ more) = ((stored trace).addObjectInfo o).1 := by
  simp only [stored, received_append, hMore, objects, List.filterMap_append, collected,
    List.foldl_append]
  rfl

omit [DecidableEq Id] in
/-- Later output changes nothing about the event in hand. -/
theorem Busy.Agrees.append {busy : Busy Id} (h : busy.Agrees trace) :
    busy.Agrees (trace ++ more) := by
  cases busy with
  | waiting => trivial
  | handling e =>
      show e.event ∈ received (trace ++ more)
      rw [received_append]
      exact List.mem_append_left _ h
  | copying coarg args held => exact h

end Received

end QpidRecovery.Pointers
