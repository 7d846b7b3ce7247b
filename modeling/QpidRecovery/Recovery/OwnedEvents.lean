import QpidRecovery.Recovery.Ownership

/-! The events of the recovery manager, from the listener that makes one to the
main loop that deletes it. -/
namespace QpidRecovery.Pointers

open Heap (Pointer)
open KeyedList
open RecoveryManager (link?)

variable {Id : Type}

section Listener
variable [DecidableEq Id] {s : State Id} {held : Held Id} {pending : List (Pending Id)}
  {busy : Busy Id}

theorem init_represents : Represents (State.init : State Id) (fun _ => []) [] .waiting where
  vecs := fun _ => rfl
  store := by
    intro t
    cases t <;> rfl
  eventpipe := rfl
  order := rfl
  main := rfl
  agrees := trivial
  fits := fun _ hSent => absurd hSent List.not_mem_nil
  owned := Heap.Owned.empty

/-- An event and what belongs to it go to the end of the pipe. -/
theorem represents_send (hs : Represents s held pending busy) {heap : Memory Id}
    {event : ListenerEvent} {le : Proposer.ListenerEvent Id} (objinfo : Pointer)
    (extra : List (Pointer × Cell Id))
    (hOwned : heap.Owned (extra ++ (held.cells ++ pending.flatMap Pending.cells ++ busy.cells))
      (lost s.trace))
    (hCells : ∀ p, Pending.cells ⟨p, objinfo, le⟩ = (p, .listenerEvent event) :: extra)
    (hFits : EventFits le) :
    Represents (sendEventPtr event le { s with heap := heap }) held
      (pending ++ [⟨(heap.alloc (.listenerEvent event)).1, objinfo, le⟩]) busy where
  vecs := hs.vecs
  store := by
    intro t
    rw [hs.store t]
    exact congrArg t.vec (stored_append rfl).symm
  eventpipe := by
    rw [List.map_append, ← hs.eventpipe]
    rfl
  order := by
    show sent (s.trace ++ [.sent le]) = received (s.trace ++ [.sent le]) ++ _
    rw [sent_append, received_append, hs.order, List.map_append, List.append_assoc,
      List.append_assoc]
    rfl
  main := hs.main
  agrees := hs.agrees.append
  fits := by
    intro e he
    have hMem : e ∈ sent (s.trace ++ [.sent le]) := he
    rw [sent_append, List.mem_append] at hMem
    rcases hMem with hMem | hMem
    · exact hs.fits e hMem
    · rw [List.mem_singleton.mp hMem]
      exact hFits
  owned := by
    have hNew := hOwned.alloc (.listenerEvent event)
    show (heap.alloc (.listenerEvent event)).2.Owned _ (lost (s.trace ++ [.sent le]))
    rw [lost_append]
    apply hNew.perm
    rw [List.flatMap_append, List.flatMap_singleton, hCells, ← List.cons_append]
    have hSwap : ∀ front middle back last : List (Pointer × Cell Id),
        (front ++ (middle ++ back ++ last)).Perm (middle ++ (back ++ front) ++ last) := by
      intro front middle back last
      rw [← List.append_assoc, ← List.append_assoc, ← List.append_assoc]
      apply List.Perm.append_right
      rw [List.append_assoc]
      exact List.perm_append_comm.trans (by rw [List.append_assoc])
    exact hSwap _ _ _ _

theorem sendEventPtr_represents (hs : Represents s held pending busy) (event : ListenerEvent)
    (le : Proposer.ListenerEvent Id)
    (hCells : ∀ p, Pending.cells ⟨p, 0, le⟩ = [(p, .listenerEvent event)])
    (hFits : EventFits le) :
    ∃ pending', Represents (sendEventPtr event le s) held pending' busy :=
  ⟨_, represents_send hs 0 [] hs.owned hCells hFits⟩

theorem sendLinkDownEvent_represents (hs : Represents s held pending busy) {srcurl dsturl : Text}
    (hSrc : HostFits 32 srcurl) (hDst : HostFits 32 dsturl) :
    ∃ t pending', sendLinkDownEvent srcurl dsturl s = some t ∧
      Represents t held pending' busy := by
  obtain ⟨src, hSrc⟩ := hSrc.parse
  obtain ⟨dst, hDst⟩ := hDst.parse
  obtain ⟨pending', hNext⟩ := sendEventPtr_represents hs (.linkDown src.1 src.2 dst.1 dst.2)
    (.linkDown src.1 src.2 dst.1 dst.2) (fun _ => rfl) trivial
  exact ⟨_, pending', by simp [sendLinkDownEvent, hSrc, hDst], hNext⟩

theorem brokerDisconnected_represents (hs : Represents s held pending busy) {url : Text}
    (hFits : HostFits IP_LENGTH url) :
    ∃ t pending', brokerDisconnected url s = some t ∧ Represents t held pending' busy := by
  obtain ⟨broker, hBroker⟩ := (hFits.mono (m := 32) (by decide)).parse
  have hHost : broker.1.bytes.length < IP_LENGTH := by
    rw [urlToIPPort_host hBroker]
    exact Nat.lt_of_le_of_lt (List.takeWhile_sublist _).length_le hFits.2
  obtain ⟨pending', hNext⟩ := sendEventPtr_represents hs (.brokerDisconnection broker.1 broker.2)
    (.brokerDisconnection broker.1 broker.2) (fun _ => rfl) hHost
  exact ⟨_, pending', by simp [brokerDisconnected, hBroker], hNext⟩

/-- An object of a known class becomes an event. The event of any other is
deleted before anyone else sees it. -/
theorem objectProps_represents (hs : Represents s held pending busy) {object : Object Id}
    (hFits : ∀ t, objectStringToType object.className = some t → LinkFits (object.construct t)) :
    ∃ t pending', objectProps object s = some t ∧ Represents t held pending' busy := by
  cases hType : objectStringToType object.className with
  | some t =>
      have hOwned := hs.owned.alloc (.objectInfo (object.construct t))
      have hStep : objectProps object s = some (sendEventPtr
          (.objectProperty (some t) (some (s.heap.alloc (.objectInfo (object.construct t))).1))
          (.objectProperty (object.construct t))
          { s with heap := (s.heap.alloc (.objectInfo (object.construct t))).2 }) := by
        simp only [objectProps, hType, newObjectInfoByType]
      refine ⟨_, _, hStep, represents_send hs
        (s.heap.alloc (.objectInfo (object.construct t))).1 [_] hOwned ?_ (hFits t hType)⟩
      intro p
      simp [Pending.cells, Pending.fields, Pending.object]
  | none =>
      have hOwned := hs.owned.alloc (.listenerEvent (.objectProperty none none))
      obtain ⟨heap, hFree, hOwned⟩ := hOwned.free
      refine ⟨{ s with heap := heap }, pending, ?_, { hs with owned := hOwned }⟩
      simp [objectProps, hType, newObjectInfoByType, hFree]

end Listener

section MainLoop
variable [DecidableEq Id] {s : State Id} {held : Held Id} {pending : List (Pending Id)}
  {e : Pending Id}

/-- The first event of the pipe is now the main loop's. -/
theorem represents_take (hs : Represents s held (e :: pending) .waiting) {heap : Memory Id}
    {vecs : Vectors} {held' : Held Id} {more : List (Output Id)}
    (hVecs : ∀ t, vecs t = (held' t).map Prod.fst)
    (hStore : ∀ t, (held' t).map Prod.snd = t.vec (stored (s.trace ++ more)))
    (hSent : sent more = []) (hReceived : received more = [e.event])
    (hOwned : heap.Owned (held'.cells ++ (e :: pending).flatMap Pending.cells)
      (lost (s.trace ++ more))) :
    Represents (State.log more
        { s with
          heap := heap
          vecs := vecs
          eventpipe := pending.map Pending.le
          main := .handling e.le }) held' pending (.handling e) where
  vecs := hVecs
  store := hStore
  eventpipe := rfl
  order := by
    show sent (s.trace ++ more) = received (s.trace ++ more) ++ _
    rw [sent_append, hSent, List.append_nil, hs.order, received_append, hReceived,
      List.append_assoc]
    rfl
  main := rfl
  agrees := by
    show e.event ∈ received (s.trace ++ more)
    rw [received_append, hReceived]
    simp
  fits := by
    intro le hLe
    have hMem : le ∈ sent (s.trace ++ more) := hLe
    rw [sent_append, hSent, List.append_nil] at hMem
    exact hs.fits le hMem
  owned := by
    apply hOwned.perm
    rw [List.flatMap_cons, List.append_assoc]
    exact List.perm_append_comm.append_left _

/-- An event without an object changes nothing that is stored. -/
theorem represents_plain (hs : Represents s held (e :: pending) .waiting)
    (hPlain : objects [e.event] = []) :
    Represents (State.log [.received e.event]
        { s with eventpipe := pending.map Pending.le, main := .handling e.le })
      held pending (.handling e) := by
  apply represents_take hs hs.vecs
  · intro t
    rw [stored_append (by simpa [received] using hPlain)]
    exact hs.store t
  · rfl
  · rfl
  · have hOwned := hs.owned
    rw [show Busy.cells .waiting = ([] : List (Pointer × Cell Id)) from rfl,
      List.append_nil] at hOwned
    rw [lost_append]
    exact hOwned

/-- The object of a property event is copied and the copy stored. -/
theorem handleEvent_represents (hs : Represents s held (e :: pending) .waiting) :
    ∃ t held', handleEvent s = some t ∧ Represents t held' pending (.handling e) := by
  have hMain : s.main = .waiting := hs.main
  have hPipe : s.eventpipe = e.le :: pending.map Pending.le := hs.eventpipe
  have hFirst : ∀ x ∈ e.cells, x ∈ held.cells ++ (e :: pending).flatMap Pending.cells ++
      Busy.cells .waiting := by
    intro x hx
    simp [hx]
  have hRead : eventAt e.le s.heap = some e.fields :=
    eventAt_of_mem hs.owned (hFirst _ List.mem_cons_self)
  cases hEvent : e.event with
  | brokerDisconnection ip port =>
      have hFields : e.fields = .brokerDisconnection ip port := by rw [Pending.fields, hEvent]
      have hNext := represents_plain hs (by rw [hEvent]; rfl)
      rw [hEvent] at hNext
      exact ⟨_, held, by simp [handleEvent, hMain, hPipe, hRead, hFields], hNext⟩
  | linkDown srcip srcport dstip dstport =>
      have hFields : e.fields = .linkDown srcip srcport dstip dstport := by rw [Pending.fields, hEvent]
      have hNext := represents_plain hs (by rw [hEvent]; rfl)
      rw [hEvent] at hNext
      exact ⟨_, held, by simp [handleEvent, hMain, hPipe, hRead, hFields], hNext⟩
  | objectProperty o =>
      have hObject : objectAt e.objinfo s.heap = some o :=
        objectAt_of_mem hs.owned (hFirst _ (by simp [Pending.cells, Pending.object, hEvent]))
      obtain ⟨t, i, rfl⟩ : ∃ t i, o = objectOf t i := ⟨_, exists_objectOf o⟩
      have hFields : e.fields = .objectProperty (some t) (some e.objinfo) := by
        simp [Pending.fields, hEvent]
      have hMade := hs.owned.alloc (.objectInfo (objectOf t i))
      rw [show Busy.cells .waiting = ([] : List (Pointer × Cell Id)) from rfl,
        List.append_nil] at hMade
      obtain ⟨heap, vecs, held', r, hAdd, hVecs, hPut, hOwned⟩ := addObjectInfo_spec
        (s := { s with
          heap := (s.heap.alloc (.objectInfo (objectOf t i))).2
          eventpipe := pending.map Pending.le
          main := .handling e.le }) t i hs.vecs hMade
      have hNext : Represents (State.log
          [.received (.objectProperty (objectOf t i)), .addObjectInfo (objectOf t i) r]
          { s with
            heap := heap
            vecs := vecs
            eventpipe := pending.map Pending.le
            main := .handling e.le }) held' pending (.handling e) := by
        apply represents_take hs hVecs
        · intro u
          rw [hPut u, hs.store u, stored_property rfl, RecoveryManager.vec_addObjectInfo]
        · rfl
        · exact congrArg (fun event => [event]) hEvent.symm
        · simpa [lost, Output.lost] using hOwned
      exact ⟨_, held', by simp [handleEvent, hMain, hPipe, hRead, hFields, hObject, hAdd], hNext⟩

/-- Of a broker the main loop copies the address, and of a link it reads where it
leads. -/
theorem useEvent_eq (hs : Represents s held pending (.handling e)) :
    ∃ more, useEvent e.fields s = some (s.log more) ∧ sent more = [] ∧ received more = [] ∧
      lost more = 0 := by
  have hReceived : e.event ∈ received s.trace := hs.agrees
  have hFits : EventFits e.event := hs.fits _ (by simp [hs.order, hReceived])
  cases hEvent : e.event with
  | brokerDisconnection ip port =>
      rw [hEvent] at hFits
      refine ⟨[], ?_, rfl, rfl, rfl⟩
      have hCopy : ip.copyTo IP_LENGTH = some ⟨ip.bytes, ip.noNul, hFits⟩ := dif_pos hFits
      simp [useEvent, Pending.fields, hEvent, State.log, hCopy]
  | linkDown srcip srcport dstip dstport =>
      refine ⟨[], ?_, rfl, rfl, rfl⟩
      simp [useEvent, Pending.fields, hEvent, State.log]
  | objectProperty o =>
      have hObject : objectAt e.objinfo s.heap = some o :=
        objectAt_of_mem hs.owned
          (List.mem_append_right _ (by simp [Busy.cells, Pending.cells, Pending.object, hEvent]))
      cases o with
      | link l =>
          rw [hEvent] at hFits
          obtain ⟨dst, hParse⟩ := HostFits.parse hFits
          refine ⟨[.newLink dst.1 dst.2], ?_, rfl, rfl, rfl⟩
          simp [useEvent, Pending.fields, hEvent, typeOf, castAt, hObject, link?, hParse]
      | broker i | exchange i | queue i | binding i | bridge i =>
          refine ⟨[], ?_, rfl, rfl, rfl⟩
          simp [useEvent, Pending.fields, hEvent, typeOf, State.log]

omit [DecidableEq Id] in
theorem lost_deleted (e : Pending Id) :
    lost [(.deleted e.fields.getType : Output Id)] = e.object.length := by
  obtain ⟨le, p, event⟩ := e
  cases event <;> rfl

/-- The main loop is done with what it held. -/
theorem Represents.finish {busy : Busy Id} (hs : Represents s held pending busy) (heap : Memory Id)
    (more : List (Output Id)) (hSent : sent more = []) (hReceived : received more = [])
    (hOwned : heap.Owned (held.cells ++ pending.flatMap Pending.cells) (lost (s.trace ++ more))) :
    Represents ({ s with heap := heap, main := .waiting }.log more) held pending .waiting where
  vecs := hs.vecs
  store := by
    intro t
    rw [hs.store t]
    exact congrArg t.vec (stored_append (by rw [hReceived]; rfl)).symm
  eventpipe := hs.eventpipe
  order := by
    show sent (s.trace ++ more) = received (s.trace ++ more) ++ _
    rw [sent_append, received_append, hSent, hReceived, List.append_nil, List.append_nil, hs.order]
  main := rfl
  agrees := trivial
  fits := by
    intro le hLe
    have hMem : le ∈ sent (s.trace ++ more) := hLe
    rw [sent_append, hSent, List.append_nil] at hMem
    exact hs.fits le hMem
  owned := by
    rw [Busy.cells, List.append_nil]
    exact hOwned

/-- The object of a property event outlives it. -/
theorem deleteEvent_represents (hs : Represents s held pending (.handling e)) :
    ∃ t, deleteEvent s = some t ∧ Represents t held pending .waiting := by
  obtain ⟨more, hUse, hSent, hReceived, hLost⟩ := useEvent_eq hs
  have hMain : s.main = .handling e.le := hs.main
  have hRead : eventAt e.le s.heap = some e.fields :=
    eventAt_of_mem hs.owned (List.mem_append_right _ List.mem_cons_self)
  obtain ⟨heap, hFree, hOwned⟩ := Heap.Owned.free (hs.owned.perm List.perm_append_comm)
  have hNone : received (more ++ [.deleted e.fields.getType]) = [] := by
    rw [received_append, hReceived]
    rfl
  have hSentAll : sent (more ++ [.deleted e.fields.getType]) = [] := by
    rw [sent_append, hSent]
    rfl
  refine ⟨State.log (more ++ [.deleted e.fields.getType])
    { s with heap := heap, main := .waiting }, ?_, hs.finish heap _ hSentAll hNone ?_⟩
  · simp [deleteEvent, hMain, hRead, hUse, State.log, hFree]
  · rw [lost_append, lost_append, hLost, lost_deleted, Nat.zero_add, Nat.add_comm]
    exact hOwned.leak

end MainLoop

end QpidRecovery.Pointers
