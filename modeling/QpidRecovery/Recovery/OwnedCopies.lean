import QpidRecovery.Recovery.CopyObjects
import QpidRecovery.Recovery.OwnedEvents

/-! The copies that `copyObjects` makes of what is stored for a broker, from
the arguments of its thread to their deletion. -/
namespace QpidRecovery.Pointers

open Heap (Pointer)
open RecoveryManager (exchange? queue? binding? bridge? link?)

variable {Id : Type}

section Duplicates
variable {h : Memory Id} {cells : List (Pointer × Cell Id)} {n : Nat} (url : Text)

/-- A copy of every object of the broker, in the order of the vector. -/
theorem copyVec_spec (t : ObjectType) (l : List (Pointer × t.Info Id))
    (hMem : ∀ x ∈ l, (x.1, Cell.objectInfo (objectOf t x.2)) ∈ cells) (hOwned : h.Owned cells n) :
    ∃ (l' : List (Pointer × t.Info Id)) (heap : Memory Id),
      copyVec url (l.map Prod.fst) h = some (l'.map Prod.fst, heap) ∧
      l'.map Prod.snd = (l.map Prod.snd).filter (fun i => (t.key i).brokerurl = url) ∧
      heap.Owned (cellsOf t l' ++ cells) n := by
  induction l generalizing h cells with
  | nil => exact ⟨[], h, rfl, rfl, hOwned⟩
  | cons x l ih =>
      have hRead : objectAt x.1 h = some (objectOf t x.2) :=
        objectAt_of_mem hOwned (hMem x List.mem_cons_self)
      by_cases hUrl : (t.key x.2).brokerurl = url
      · obtain ⟨l', heap, hCopy, hList, hRest⟩ :=
          ih (fun y hy => List.mem_cons_of_mem _ (hMem y (List.mem_cons_of_mem _ hy)))
            (hOwned.alloc (.objectInfo (objectOf t x.2)))
        refine ⟨((h.alloc (.objectInfo (objectOf t x.2))).1, x.2) :: l', heap, ?_, ?_,
          hRest.perm List.perm_middle⟩
        · simp [copyVec, hRead, hUrl, hCopy]
        · simp [hUrl, hList]
      · obtain ⟨l', heap, hCopy, hList, hRest⟩ :=
          ih (fun y hy => hMem y (List.mem_cons_of_mem _ hy)) hOwned
        refine ⟨l', heap, ?_, ?_, hRest⟩
        · simp [copyVec, hRead, Ne.symm hUrl, hCopy]
        · simp [hUrl, hList]

/-- Each vector is copied into fresh cells, and the sources stay. -/
theorem copyVecs_spec {vecs : Vectors} {held : Held Id}
    (hVecs : ∀ t, vecs t = (held t).map Prod.fst) {types : List ObjectType}
    (hTypes : types.Nodup) (hMem : ∀ x ∈ held.cells, x ∈ cells) (hOwned : h.Owned cells n) :
    ∃ (vecs' : Vectors) (copies : Held Id) (heap : Memory Id),
      copyVecs url vecs types h = some (vecs', heap) ∧
      (∀ t, vecs' t = (copies t).map Prod.fst) ∧
      (∀ t ∈ types, (copies t).map Prod.snd =
        ((held t).map Prod.snd).filter (fun i => (t.key i).brokerurl = url)) ∧
      heap.Owned ((types.flatMap fun t => cellsOf t (copies t)) ++ cells) n := by
  induction types generalizing h cells with
  | nil =>
      refine ⟨fun _ => [], fun _ => [], h, rfl, fun _ => rfl, ?_, hOwned⟩
      intro t ht
      cases ht
  | cons t types ih =>
      rw [List.nodup_cons] at hTypes
      obtain ⟨l, heap₁, hCopy, hList, hOwned₁⟩ :=
        copyVec_spec url t (held t) (fun x hx => hMem _ (held.mem_cells t hx)) hOwned
      obtain ⟨vecs', copies, heap, hRest, hVecs', hLists, hOwned'⟩ :=
        ih hTypes.2 (fun x hx => List.mem_append_right _ (hMem x hx)) hOwned₁
      refine ⟨Function.update vecs' t (l.map Prod.fst), Function.update copies t l, heap, ?_, ?_,
        ?_, ?_⟩
      · simp [copyVecs, hVecs t, hCopy, hRest]
      · intro u
        by_cases hType : u = t
        · subst hType
          rw [Function.update_self, Function.update_self]
        · rw [Function.update_of_ne hType, Function.update_of_ne hType, hVecs' u]
      · intro u hu
        by_cases hType : u = t
        · subst hType
          rw [Function.update_self, hList]
        · rw [Function.update_of_ne hType]
          exact hLists u (List.mem_of_ne_of_mem hType hu)
      · have hSame : types.flatMap (fun u => cellsOf u (Function.update copies t l u)) =
            types.flatMap fun u => cellsOf u (copies u) := by
          apply List.flatMap_congr
          intro u hu
          have hNe : u ≠ t := by
            rintro rfl
            exact hTypes.1 hu
          rw [Function.update_of_ne hNe]
        rw [List.flatMap_cons, Function.update_self, hSame]
        apply hOwned'.perm
        rw [← List.append_assoc]
        exact List.perm_append_comm.append_right _

end Duplicates

section CopyObjects
variable [DecidableEq Id] {s : State Id} {held : Held Id} {pending : List (Pending Id)}

omit [DecidableEq Id] in
/-- Each vector of the arguments is the filtered vector of the manager. -/
theorem vec_copyObjectsArgs (t : ObjectType) (rm : RecoveryManager Id) (url : Text) :
    t.vec (rm.copyObjectsArgs url) =
      (t.vec rm).filter (fun i => (t.key i).brokerurl = url) := by
  cases t <;> rfl

/-- The main loop waits for a thread that owns the copies. -/
theorem represents_copying (hs : Represents s held pending .waiting) {heap : Memory Id}
    (args : CopyObjectsArgs) {copies : Held Id}
    (hVecs : ∀ t, args.vecs t = (copies t).map Prod.fst)
    (hOwned : heap.Owned (copies.cells ++ (held.cells ++ pending.flatMap Pending.cells ++
      Busy.cells .waiting)) (lost s.trace)) :
    Represents
      { s with
        heap := (heap.alloc (.copyObjectsArgs args)).2
        main := .copying (heap.alloc (.copyObjectsArgs args)).1 }
      held pending (.copying (heap.alloc (.copyObjectsArgs args)).1 args copies) where
  vecs := hs.vecs
  store := hs.store
  eventpipe := hs.eventpipe
  order := hs.order
  main := rfl
  agrees := hVecs
  fits := hs.fits
  owned := by
    apply (hOwned.alloc (.copyObjectsArgs args)).perm
    rw [Busy.cells, Busy.cells, List.append_nil]
    rw [← List.cons_append]
    exact List.perm_append_comm

/-- The arguments hold copies of what is stored for the broker. -/
theorem copyObjects_represents (hs : Represents s held pending .waiting) (failip : IPString)
    (failport : UInt32) (backupip : IPString) (backupport : UInt32) :
    ∃ t busy, copyObjects failip failport backupip backupport s = some t ∧
      Represents t held pending busy ∧ busy.Copies t.trace := by
  have hMain : s.main = .waiting := hs.main
  obtain ⟨vecs, copies, heap, hCopy, hVecs, hLists, hOwned⟩ :=
    copyVecs_spec (IPPortToUrl failip failport) hs.vecs (show vecOrder.Nodup by decide)
      (fun x hx => List.mem_append_left _ (List.mem_append_left _ hx)) hs.owned
  have hNext := represents_copying hs ⟨vecs, failip, failport, backupip, backupport⟩ hVecs hOwned
  refine ⟨_, _, by simp only [copyObjects, hMain, hCopy, Option.map_some], hNext, ?_⟩
  intro t
  rw [hLists t (mem_vecOrder t), hs.store t, vec_copyObjectsArgs]

end CopyObjects

section Search
variable {h : Memory Id} {cells : List (Pointer × Cell Id)} {n : Nat}

/-- The pointers of a list are searched as what they point to. -/
theorem findM?_map_fst {α : Type} {f : Pointer → Option Bool} {p : α → Bool}
    {l : List (Pointer × α)} (hRead : ∀ x ∈ l, f x.1 = some (p x.2)) :
    (l.map Prod.fst).findM? f = some ((l.find? fun x => p x.2).map Prod.fst) := by
  induction l with
  | nil => rfl
  | cons x l ih =>
      have hRest := ih fun y hy => hRead y (List.mem_cons_of_mem _ hy)
      rw [List.map_cons, List.findM?, hRead x List.mem_cons_self, List.find?_cons]
      cases p x.2 with
      | true => rfl
      | false => exact hRest

theorem reported_objectOf (t : ObjectType) (i : t.Info Id) : t.reported (objectOf t i) = some i := by
  cases t <;> rfl

/-- An object that is owned is read from the heap. -/
theorem castAt_of_mem (hOwned : h.Owned cells n) (t : ObjectType) {p : Pointer} {i : t.Info Id}
    (hMem : (p, Cell.objectInfo (objectOf t i)) ∈ cells) : castAt t.reported p h = some i := by
  rw [castAt, objectAt_of_mem hOwned hMem]
  exact reported_objectOf t i

variable (t : ObjectType) {l : List (Pointer × t.Info Id)}

/-- The search over pointers is the search over the objects they hold. -/
theorem search_eq [DecidableEq Id] (hOwned : h.Owned cells n)
    (hMem : ∀ x ∈ l, (x.1, Cell.objectInfo (objectOf t x.2)) ∈ cells) (url : Text) (oid : Id) :
    search url oid (l.map Prod.fst) h = some ((l.find? fun x =>
      (t.key x.2).objectid = oid ∧ (t.key x.2).brokerurl = url).map Prod.fst) := by
  apply findM?_map_fst (p := fun i => decide ((t.key i).objectid = oid ∧ (t.key i).brokerurl = url))
  intro x hx
  rw [objectAt_of_mem hOwned (hMem x hx), Option.map_some, info_objectOf]

theorem nameOf_eq (hOwned : h.Owned cells n)
    (hMem : ∀ x ∈ l, (x.1, Cell.objectInfo (objectOf t x.2)) ∈ cells) (name : t.Info Id → Text)
    (p : t.Info Id → Bool) (kept : Text) :
    nameOf t.reported name ((l.find? fun x => p x.2).map Prod.fst) kept h =
      some ((((l.map Prod.snd).find? p).map name).getD kept) := by
  rw [List.find?_map]
  cases hFind : l.find? fun x => p x.2 with
  | none =>
      have hNone : l.find? (p ∘ Prod.snd) = none := hFind
      rw [hNone]
      rfl
  | some x =>
      have hSome : l.find? (p ∘ Prod.snd) = some x := hFind
      rw [hSome, Option.map_some, nameOf,
        castAt_of_mem hOwned t (hMem x (List.mem_of_find?_eq_some hFind))]
      rfl

/-- The names are found and written as in the typed store. -/
theorem setBindingNames_spec [DecidableEq Id] {exchanges : List (Pointer × ExchangeInfo Id)}
    {queues : List (Pointer × QueueInfo Id)} {j : Pointer} {b : BindingInfo Id}
    (hExchanges : ∀ x ∈ exchanges, (x.1, Cell.objectInfo (.exchange x.2)) ∈ cells)
    (hQueues : ∀ x ∈ queues, (x.1, Cell.objectInfo (.queue x.2)) ∈ cells)
    (hOwned : h.Owned ((j, .objectInfo (.binding b)) :: cells) n) :
    ∃ heap, setBindingNames j (exchanges.map Prod.fst) (queues.map Prod.fst) h =
        some ((b.setBindingNames (exchanges.map Prod.snd) (queues.map Prod.snd)).2, heap) ∧
      heap.Owned ((j, .objectInfo (.binding
        (b.setBindingNames (exchanges.map Prod.snd) (queues.map Prod.snd)).1)) :: cells) n := by
  have hBinding : castAt binding? j h = some b :=
    castAt_of_mem hOwned .binding List.mem_cons_self
  have hEx := fun x hx => List.mem_cons_of_mem (j, Cell.objectInfo (.binding b)) (hExchanges x hx)
  have hQu := fun x hx => List.mem_cons_of_mem (j, Cell.objectInfo (.binding b)) (hQueues x hx)
  have hExchange : search b.brokerurl b.exid (exchanges.map Prod.fst) h =
      some ((exchanges.find? fun x =>
        x.2.objectid = b.exid ∧ x.2.brokerurl = b.brokerurl).map Prod.fst) :=
    search_eq .exchange hOwned hEx b.brokerurl b.exid
  have hQueue : search b.brokerurl b.quid (queues.map Prod.fst) h =
      some ((queues.find? fun x =>
        x.2.objectid = b.quid ∧ x.2.brokerurl = b.brokerurl).map Prod.fst) :=
    search_eq .queue hOwned hQu b.brokerurl b.quid
  have hExname : ∀ kept, nameOf exchange? ExchangeInfo.name ((exchanges.find? fun x =>
      x.2.objectid = b.exid ∧ x.2.brokerurl = b.brokerurl).map Prod.fst) kept h =
        some ((((exchanges.map Prod.snd).find? fun e =>
          e.objectid = b.exid ∧ e.brokerurl = b.brokerurl).map ExchangeInfo.name).getD kept) :=
    nameOf_eq .exchange hOwned hEx ExchangeInfo.name
      (fun e => decide (e.objectid = b.exid ∧ e.brokerurl = b.brokerurl))
  have hQuname : ∀ kept, nameOf queue? QueueInfo.name ((queues.find? fun x =>
      x.2.objectid = b.quid ∧ x.2.brokerurl = b.brokerurl).map Prod.fst) kept h =
        some ((((queues.map Prod.snd).find? fun q =>
          q.objectid = b.quid ∧ q.brokerurl = b.brokerurl).map QueueInfo.name).getD kept) :=
    nameOf_eq .queue hOwned hQu QueueInfo.name
      (fun q => decide (q.objectid = b.quid ∧ q.brokerurl = b.brokerurl))
  obtain ⟨heap, hWrite, hNext⟩ := hOwned.write (.objectInfo (.binding
    (b.setBindingNames (exchanges.map Prod.snd) (queues.map Prod.snd)).1))
  refine ⟨heap, ?_, hNext⟩
  simp only [setBindingNames, hBinding, Option.bind_some, hExchange, hExname, hQueue, hQuname]
  rw [BindingInfo.setBindingNames] at hWrite
  rw [hWrite, Option.map_some, BindingInfo.setBindingNames, List.find?_map, List.find?_map,
    Option.isSome_map, Option.isSome_map, Option.isSome_map, Option.isSome_map]
  rfl

end Search

end QpidRecovery.Pointers
