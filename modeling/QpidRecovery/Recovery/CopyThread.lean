import QpidRecovery.Recovery.Collected
import QpidRecovery.Recovery.OwnedCopies

/-! The thread of `copyObjects`. It reads its own copies only, does what the
typed store says, and deletes the copies unless it returns early. -/
namespace QpidRecovery.Pointers

open Heap (Pointer)
open RecoveryManager (binding? bridge? link? copyLink copyLinks)

variable {Id : Type}

section Log

@[simp] theorem sent_recovery (calls : List RecoveryCall) :
    sent (calls.map (Output.recovery : _ → Output Id)) = [] := by
  simp [sent, List.filterMap_map]

@[simp] theorem received_recovery (calls : List RecoveryCall) :
    received (calls.map (Output.recovery : _ → Output Id)) = [] := by
  simp [received, List.filterMap_map]

@[simp] theorem recoveries_recovery (calls : List RecoveryCall) :
    recoveries (calls.map (Output.recovery : _ → Output Id)) = calls := by
  simp [recoveries, List.filterMap_map]

@[simp] theorem lost_recovery (calls : List RecoveryCall) :
    lost (calls.map (Output.recovery : _ → Output Id)) = 0 := by
  induction calls with
  | nil => rfl
  | cons c calls ih =>
      rw [List.map_cons, ← List.singleton_append, lost_append, ih]
      rfl

theorem log_log (s : State Id) (more last : List (Output Id)) :
    (s.log more).log last = s.log (more ++ last) := by
  simp [State.log]

theorem received_logCalls (s : State Id) (calls : List RecoveryCall) :
    received (s.log (calls.map .recovery)).trace = received s.trace := by
  show received (s.trace ++ _) = _
  rw [received_append, received_recovery, List.append_nil]

theorem recoveries_logCalls (s : State Id) (calls : List RecoveryCall) :
    recoveries (s.log (calls.map .recovery)).trace = recoveries s.trace ++ calls := by
  show recoveries (s.trace ++ _) = _
  rw [recoveries_append, recoveries_recovery]

variable [DecidableEq Id] {s : State Id} {held : Held Id} {pending : List (Pending Id)}
  {busy : Busy Id}

/-- Outputs that are no events and lose nothing. -/
theorem Represents.log (hs : Represents s held pending busy) {more : List (Output Id)}
    (hSent : sent more = []) (hReceived : received more = []) (hLost : lost more = 0) :
    Represents (s.log more) held pending busy where
  vecs := hs.vecs
  store := by
    intro t
    rw [hs.store t]
    exact congrArg t.vec (stored_append (by rw [hReceived]; rfl)).symm
  eventpipe := hs.eventpipe
  order := by
    show sent (s.trace ++ more) = received (s.trace ++ more) ++ _
    rw [sent_append, received_append, hSent, hReceived, List.append_nil, List.append_nil, hs.order]
  main := hs.main
  agrees := hs.agrees.append
  fits := by
    intro le hLe
    have hMem : le ∈ sent (s.trace ++ more) := hLe
    rw [sent_append, hSent, List.append_nil] at hMem
    exact hs.fits le hMem
  owned := by
    show s.heap.Owned _ (lost (s.trace ++ more))
    rw [lost_append, hLost]
    exact hs.owned

theorem Represents.logCalls (hs : Represents s held pending busy) (calls : List RecoveryCall) :
    Represents (s.log (calls.map .recovery)) held pending busy :=
  hs.log (sent_recovery calls) (received_recovery calls) (lost_recovery calls)

end Log

section Passes
variable [DecidableEq Id] (args : CopyObjectsArgs) (oldurl newurl : Text) (reply : BrokerReply)
  {s : State Id} {cells : List (Pointer × Cell Id)} {n : Nat}

/-- Objects whose copying is their `copyTo` alone. -/
theorem copyEach_plain {t : ObjectType} (f : t.Info Id → Operation)
    (hPlain : ∀ (j : Pointer) (s : State Id), copyObject args newurl reply t j s =
      (objectAt j s.heap).map fun o => s.log ((copyTo newurl o).map .recovery))
    (hCopyTo : ∀ i, copyTo newurl (objectOf t i) = [.create newurl (f i)])
    (l : List (Pointer × t.Info Id))
    (hMem : ∀ x ∈ l, (x.1, Cell.objectInfo (objectOf t x.2)) ∈ cells)
    (hOwned : s.heap.Owned cells n) :
    copyEach args oldurl newurl reply t (l.map Prod.fst) s = some (s.log
      ((((l.map Prod.snd).filter fun i => (t.key i).brokerurl = oldurl).map fun i =>
        RecoveryCall.create newurl (f i)).map .recovery)) := by
  induction l generalizing s with
  | nil => simp [copyEach, State.log]
  | cons x l ih =>
      have hRead : objectAt x.1 s.heap = some (objectOf t x.2) :=
        objectAt_of_mem hOwned (hMem x List.mem_cons_self)
      have hRest := fun y hy => hMem y (List.mem_cons_of_mem _ hy)
      by_cases hUrl : (t.key x.2).brokerurl = oldurl
      · have hNext := ih hRest (s := s.log [.recovery (.create newurl (f x.2))]) hOwned
        simp [copyEach, hRead, hUrl, hPlain, hCopyTo, hNext, log_log]
      · have hNext := ih hRest hOwned
        simp [copyEach, hRead, hUrl, Ne.symm hUrl, hNext]

/-- What the typed store makes of one binding. -/
def namedBinding (exchanges : List (ExchangeInfo Id)) (queues : List (QueueInfo Id))
    (oldurl : Text) (j : BindingInfo Id) : Option (BindingInfo Id) :=
  if j.brokerurl ≠ oldurl then none
  else
    let named := j.setBindingNames exchanges queues
    if named.2 then some named.1 else none

/-- The bindings get their names on the way. -/
theorem copyEach_bindings {exchanges : List (Pointer × ExchangeInfo Id)}
    {queues : List (Pointer × QueueInfo Id)} {vec : List Pointer} {exs : List (ExchangeInfo Id)}
    {qus : List (QueueInfo Id)} {bindings : List (BindingInfo Id)}
    (hExVec : args.vecs .exchange = exchanges.map Prod.fst)
    (hQuVec : args.vecs .queue = queues.map Prod.fst)
    (hExs : exchanges.map Prod.snd = exs) (hQus : queues.map Prod.snd = qus)
    (l : List (Pointer × BindingInfo Id)) (others : List (Pointer × Cell Id))
    (hVec : vec = l.map Prod.fst) (hBindings : l.map Prod.snd = bindings)
    (hExchanges : ∀ x ∈ exchanges, (x.1, Cell.objectInfo (.exchange x.2)) ∈ others)
    (hQueues : ∀ x ∈ queues, (x.1, Cell.objectInfo (.queue x.2)) ∈ others)
    (hOwned : s.heap.Owned (cellsOf .binding l ++ others) n) :
    ∃ (l' : List (Pointer × BindingInfo Id)) (heap : Memory Id),
      copyEach args oldurl newurl reply .binding vec s =
        some ({ s with heap := heap }.log
          (((bindings.filterMap (namedBinding exs qus oldurl)).map fun j : BindingInfo Id =>
            RecoveryCall.create newurl j.copyTo).map .recovery)) ∧
      l'.map Prod.fst = vec ∧ heap.Owned (cellsOf .binding l' ++ others) n := by
  subst hExs hQus hVec hBindings
  induction l generalizing s others with
  | nil => exact ⟨[], s.heap, by simp [copyEach, State.log], rfl, hOwned⟩
  | cons x l ih =>
      obtain ⟨j, b⟩ := x
      have hRead : objectAt j s.heap = some (.binding b) :=
        objectAt_of_mem hOwned List.mem_cons_self
      -- the cells of the other bindings, with this one among the rest
      have hRest : ∀ (t : State Id) (b' : BindingInfo Id),
          t.heap.Owned ((j, .objectInfo (.binding b')) :: (cellsOf .binding l ++ others)) n → _ :=
        fun t b' hNext => ih (s := t) ((j, .objectInfo (.binding b')) :: others)
          (fun y hy => List.mem_cons_of_mem _ (hExchanges y hy))
          (fun y hy => List.mem_cons_of_mem _ (hQueues y hy))
          (hNext.perm List.perm_middle.symm)
      by_cases hUrl : b.brokerurl = oldurl
      · have hInfo : (CollectedObject.binding b).info.brokerurl = oldurl := hUrl
        obtain ⟨heap₁, hNames, hOwned₁⟩ := setBindingNames_spec
          (fun y hy => List.mem_append_right _ (hExchanges y hy))
          (fun y hy => List.mem_append_right _ (hQueues y hy)) hOwned
        rw [← hExVec, ← hQuVec] at hNames
        cases hFound : (b.setBindingNames (exchanges.map Prod.snd) (queues.map Prod.snd)).2 with
        | false =>
            obtain ⟨l', heap, hCopy, hSame, hLast⟩ := hRest { s with heap := heap₁ } _ hOwned₁
            refine ⟨(j, _) :: l', heap, ?_, ?_, hLast.perm List.perm_middle⟩
            · simp [copyEach, copyObject, hRead, hInfo, hNames, hFound, hCopy, namedBinding, hUrl]
            · simp [hSame]
        | true =>
            have hRead₁ := objectAt_of_mem hOwned₁ List.mem_cons_self
            obtain ⟨l', heap, hCopy, hSame, hLast⟩ := hRest ({ s with heap := heap₁ }.log
              [.recovery (.create newurl (b.setBindingNames (exchanges.map Prod.snd)
                (queues.map Prod.snd)).1.copyTo)]) _ hOwned₁
            refine ⟨(j, _) :: l', heap, ?_, ?_, hLast.perm List.perm_middle⟩
            · simp only [State.log] at hCopy
              simp [copyEach, copyObject, hRead, hInfo, hNames, hFound, hRead₁, copyTo, State.log,
                hCopy, namedBinding, hUrl]
            · simp [hSame]
      · have hInfo : (CollectedObject.binding b).info.brokerurl ≠ oldurl := hUrl
        obtain ⟨l', heap, hCopy, hSame, hLast⟩ := hRest s b hOwned
        refine ⟨(j, b) :: l', heap, ?_, ?_, hLast.perm List.perm_middle⟩
        · simp [copyEach, hRead, hInfo.symm, hCopy, namedBinding, hUrl]
        · simp [hSame]

end Passes

section Links
variable [DecidableEq Id] {args : CopyObjectsArgs} (oldurl : Text) {newurl : Text}
  (reply : BrokerReply) {s : State Id} {held copies : Held Id} {pending : List (Pending Id)}
  {coarg : Pointer}

omit [DecidableEq Id] in
theorem sendLinkDownEvent_trace {srcurl dsturl : Text} {t : State Id}
    (h : sendLinkDownEvent srcurl dsturl s = some t) :
    ∃ le, t.trace = s.trace ++ [.sent le] := by
  obtain ⟨src, _, h⟩ := Option.bind_eq_some_iff.mp h
  obtain ⟨dst, _, rfl⟩ := Option.map_eq_some_iff.mp h
  exact ⟨_, rfl⟩

/-- The cells of the copies are among those that are owned. -/
theorem Represents.objectAt_copy (hs : Represents s held pending (.copying coarg args copies))
    {t : ObjectType} {x : Pointer × t.Info Id} (hx : x ∈ copies t) :
    objectAt x.1 s.heap = some (objectOf t x.2) :=
  objectAt_of_mem hs.owned
    (List.mem_append_right _ (List.mem_cons_of_mem _ (copies.mem_cells t hx)))

/-- One link is reported if it leads to a host that is down, and copied. -/
theorem copyObject_link (hs : Represents s held pending (.copying coarg args copies))
    (hNew : HostFits 32 newurl) {x : Pointer × LinkInfo Id} (hx : x ∈ copies .link)
    (hFits : HostFits IP_LENGTH x.2.getLinkDestUrl) :
    ∃ t pending' calls, copyObject args newurl reply .link x.1 s = some t ∧
      Represents t held pending' (.copying coarg args copies) ∧
      received t.trace = received s.trace ∧ recoveries t.trace = recoveries s.trace ++ calls ∧
      copyLink newurl reply x.2 = some calls := by
  have hRead : objectAt x.1 s.heap = some (.link x.2) := hs.objectAt_copy hx
  have hCast : castAt link? x.1 s.heap = some x.2 := by
    rw [castAt, hRead]
    rfl
  obtain ⟨dst, hParse⟩ := (hFits.mono (show IP_LENGTH ≤ 64 by decide)).parse
  cases hDown : reply.unreachable dst.1.bytes with
  | false =>
      refine ⟨_, pending, [.create newurl x.2.copyTo], ?_, hs.logCalls [.create newurl x.2.copyTo],
        ?_, ?_, ?_⟩
      · simp [copyObject, hCast, hParse, hDown, hRead, copyTo]
      · simp [State.log, received]
      · simp [State.log, recoveries]
      · simp [copyLink, hParse, hDown]
  | true =>
      obtain ⟨u, pending', hSend, hu⟩ := sendLinkDownEvent_represents hs hNew
        (hFits.mono (show IP_LENGTH ≤ 32 by decide))
      obtain ⟨le, hTrace⟩ := sendLinkDownEvent_trace hSend
      have hEvent : RecoveryManager.sendLinkDownEvent newurl x.2.getLinkDestUrl =
          some (.sendLinkDownEvent newurl x.2.getLinkDestUrl) := by
        obtain ⟨src, hSrc⟩ := hNew.parse
        obtain ⟨event, hDst⟩ := (hFits.mono (show IP_LENGTH ≤ 32 by decide)).parse
        rw [RecoveryManager.sendLinkDownEvent, hSrc, Option.bind_some, hDst]
        rfl
      have hRead' : objectAt x.1 u.heap = some (.link x.2) := hu.objectAt_copy hx
      refine ⟨_, pending', [.sendLinkDownEvent newurl x.2.getLinkDestUrl,
        .create newurl x.2.copyTo], ?_, hu.logCalls [.sendLinkDownEvent newurl x.2.getLinkDestUrl,
        .create newurl x.2.copyTo], ?_, ?_, ?_⟩
      · have hHeap : ∀ more, (u.log more).heap = u.heap := fun _ => rfl
        simp [copyObject, hCast, hParse, hDown, hSend, hHeap, hRead', copyTo, log_log]
      · simp [State.log, hTrace, received]
      · simp [State.log, hTrace, recoveries]
      · simp [copyLink, hParse, hDown, hEvent]

theorem copyEach_links (hs : Represents s held pending (.copying coarg args copies))
    (hNew : HostFits 32 newurl) {vec : List Pointer} {links : List (LinkInfo Id)}
    (l : List (Pointer × LinkInfo Id)) (hVec : vec = l.map Prod.fst)
    (hLinks : l.map Prod.snd = links) (hMem : ∀ x ∈ l, x ∈ copies .link)
    (hFits : ∀ i ∈ links, HostFits IP_LENGTH i.getLinkDestUrl) :
    ∃ t pending' linkcalls, copyEach args oldurl newurl reply .link vec s = some t ∧
      Represents t held pending' (.copying coarg args copies) ∧
      received t.trace = received s.trace ∧
      recoveries t.trace = recoveries s.trace ++ linkcalls ∧
      copyLinks newurl reply (links.filter fun i => i.brokerurl = oldurl) = (linkcalls, true) := by
  subst hVec hLinks
  induction l generalizing s pending with
  | nil => exact ⟨s, pending, [], rfl, hs, rfl, by simp, rfl⟩
  | cons x l ih =>
      have hRest := fun y hy => hMem y (List.mem_cons_of_mem _ hy)
      have hRestFits := fun y hy => hFits y (List.mem_cons_of_mem _ hy)
      have hFirst := hFits x.2 List.mem_cons_self
      have hx := hMem x List.mem_cons_self
      have hRead : objectAt x.1 s.heap = some (.link x.2) := hs.objectAt_copy hx
      have hInfo : (CollectedObject.link x.2).info.brokerurl = x.2.brokerurl := rfl
      by_cases hUrl : x.2.brokerurl = oldurl
      · obtain ⟨u, pending₁, calls, hCopy, hu, hReceived, hCalls, hLink⟩ :=
          copyObject_link reply hs hNew hx hFirst
        obtain ⟨t, pending₂, linkcalls, hEach, ht, hReceived', hCalls', hLinks⟩ :=
          ih hu hRest hRestFits
        refine ⟨t, pending₂, calls ++ linkcalls, ?_, ht, hReceived'.trans hReceived, ?_, ?_⟩
        · simp [copyEach, hRead, hInfo, hUrl, hCopy, hEach]
        · simp [hCalls', hCalls]
        · simp [hUrl, copyLinks, hLink, hLinks]
      · obtain ⟨t, pending₂, linkcalls, hEach, ht, hReceived, hCalls, hLinks⟩ :=
          ih hs hRest hRestFits
        refine ⟨t, pending₂, linkcalls, ?_, ht, hReceived, hCalls, ?_⟩
        · simp [copyEach, hRead, hInfo, Ne.symm hUrl, hEach]
        · simp [hUrl, hLinks]

end Links

section Bridges
variable {h : Memory Id} {cells : List (Pointer × Cell Id)} {n : Nat}

theorem mapM_map_fst {α β : Type} {f : Pointer → Option β} {g : α → β} {l : List (Pointer × α)}
    (hRead : ∀ x ∈ l, f x.1 = some (g x.2)) :
    (l.map Prod.fst).mapM f = some ((l.map Prod.snd).map g) := by
  induction l with
  | nil => rfl
  | cons x l ih =>
      have hRest := ih fun y hy => hRead y (List.mem_cons_of_mem _ hy)
      simp [hRead x List.mem_cons_self, hRest]

variable [DecidableEq Id]

/-- Bridges are moved as in the typed store. -/
theorem copyBridges_eq {links : List (Pointer × LinkInfo Id)}
    {bridges : List (Pointer × BridgeInfo Id)} {linkvec bridgevec : List Pointer}
    {ls : List (LinkInfo Id)} {bs : List (BridgeInfo Id)}
    (hLinkvec : linkvec = links.map Prod.fst) (hLs : links.map Prod.snd = ls)
    (hBridgevec : bridgevec = bridges.map Prod.fst) (hBs : bridges.map Prod.snd = bs)
    (hLinks : ∀ x ∈ links, (x.1, Cell.objectInfo (.link x.2)) ∈ cells)
    (hBridges : ∀ x ∈ bridges, (x.1, Cell.objectInfo (.bridge x.2)) ∈ cells)
    (hOwned : h.Owned cells n) (linkobjlist : List LinkObject) (oldsrc newsrc : Text)
    (changedst : Option (Text × Text)) :
    copyBridges linkvec bridgevec linkobjlist oldsrc newsrc changedst h =
      some (RecoveryManager.copyBridges ls bs linkobjlist oldsrc newsrc changedst) := by
  subst hLinkvec hLs hBridgevec hBs
  unfold copyBridges RecoveryManager.copyBridges
  rw [List.flatMap_def]
  show _ = Option.map List.flatten (some _)
  apply congrArg (Option.map List.flatten)
  apply mapM_map_fst
  intro x hx
  have hRead : objectAt x.1 h = some (.bridge x.2) := objectAt_of_mem hOwned (hBridges x hx)
  have hInfo : (CollectedObject.bridge x.2).info.brokerurl = x.2.brokerurl := rfl
  have hCast : castAt bridge? x.1 h = some x.2 := by
    rw [castAt, hRead]
    rfl
  have hSearch : search x.2.brokerurl x.2.linkid (links.map Prod.fst) h =
      some ((links.find? fun y =>
        y.2.objectid = x.2.linkid ∧ y.2.brokerurl = x.2.brokerurl).map Prod.fst) :=
    search_eq .link hOwned hLinks x.2.brokerurl x.2.linkid
  have hTyped : (links.map Prod.snd).find?
      (fun l => l.objectid = x.2.linkid ∧ l.brokerurl = x.2.brokerurl) =
        (links.find? fun y =>
          y.2.objectid = x.2.linkid ∧ y.2.brokerurl = x.2.brokerurl).map Prod.snd :=
    List.find?_map ..
  rw [hTyped]
  by_cases hSrc : x.2.brokerurl = oldsrc
  · subst hSrc
    cases hFind : links.find? fun y =>
        y.2.objectid = x.2.linkid ∧ y.2.brokerurl = x.2.brokerurl with
    | none =>
        simp only [copyBridge, hRead, Option.bind_some, hInfo, ne_eq, not_true_eq_false, if_false,
          hCast, hSearch, hFind, Option.map_none]
    | some y =>
        have hLink : castAt link? y.1 h = some y.2 :=
          castAt_of_mem hOwned .link (hLinks y (List.mem_of_find?_eq_some hFind))
        simp only [copyBridge, hRead, Option.bind_some, hInfo, ne_eq, not_true_eq_false, if_false,
          hCast, hSearch, hFind, Option.map_some, hLink]
        split
        · rfl
        · cases linkobjlist.find? fun j => j.brokerurl = newsrc ∧
              linkObjectDest j = (changedst.map Prod.snd).getD y.2.getLinkDestUrl with
          | none => rfl
          | some j => rfl
  · simp [copyBridge, hRead, hInfo, hSrc]

end Bridges

section Thread
variable [DecidableEq Id] {s : State Id} {held copies : Held Id} {pending : List (Pending Id)}
  {coarg : Pointer} {args : CopyObjectsArgs}

omit [DecidableEq Id] in
/-- The destructor deletes every copy, and the arguments go last. -/
theorem deleteArgs_spec {h : Memory Id} {cells : List (Pointer × Cell Id)} {n : Nat}
    (hVecs : ∀ t, args.vecs t = (copies t).map Prod.fst)
    (hOwned : h.Owned (cells ++ (coarg, .copyObjectsArgs args) :: copies.cells) n) :
    ∃ heap, deleteArgs coarg h = some heap ∧ heap.Owned cells n := by
  have hArgs : argsAt coarg h = some args :=
    argsAt_of_mem hOwned (List.mem_append_right _ List.mem_cons_self)
  have hFirst : h.Owned (copies.cells ++ (coarg, .copyObjectsArgs args) :: cells) n := by
    apply hOwned.perm
    refine List.perm_append_comm.trans ?_
    exact List.perm_middle.symm
  obtain ⟨heap₁, hAll, hOwned₁⟩ := hFirst.freeAll
  obtain ⟨heap, hFree, hLast⟩ := hOwned₁.free
  refine ⟨heap, ?_, hLast⟩
  have hPointers : args.vecs = fun t => (copies t).map Prod.fst := funext hVecs
  rw [Held.map_fst_cells, ← hPointers] at hAll
  simp only [deleteArgs, hArgs, Option.bind_some, hAll, hFree]

/-- The loop goes over the four types in turn. -/
theorem copyOrder_foldlM {oldurl newurl : Text} {reply : BrokerReply} :
    copyOrder.foldlM (fun s t => copyEach args oldurl newurl reply t (args.vecs t) s) s =
      (copyEach args oldurl newurl reply .exchange (args.vecs .exchange) s).bind fun s =>
        (copyEach args oldurl newurl reply .queue (args.vecs .queue) s).bind fun s =>
          (copyEach args oldurl newurl reply .binding (args.vecs .binding) s).bind fun s =>
            copyEach args oldurl newurl reply .link (args.vecs .link) s := by
  simp only [copyOrder, List.foldlM_cons, List.foldlM_nil, Option.bind_eq_bind, Option.pure_def,
    Option.bind_fun_some]

/-- A stored link was received, and its host fits. -/
theorem Represents.stored_fits {busy : Busy Id} (hs : Represents s held pending busy)
    {l : LinkInfo Id} (hl : l ∈ (stored s.trace).links) : HostFits IP_LENGTH l.getLinkDestUrl := by
  rw [stored, RecoveryManager.collected_links, KeyedList.mem_collect] at hl
  obtain ⟨before, after, hSplit, _⟩ := hl
  have hMem : l ∈ (objects (received s.trace)).filterMap link? := by simp [hSplit]
  obtain ⟨o, ho, hLink⟩ := List.mem_filterMap.mp hMem
  obtain ⟨le, hle, hObject⟩ := List.mem_filterMap.mp ho
  have hFits : EventFits le := hs.fits le (by rw [hs.order]; exact List.mem_append_left _ hle)
  cases le with
  | brokerDisconnection ip port => cases hObject
  | linkDown srcip srcport dstip dstport => cases hObject
  | objectProperty o' =>
      cases hObject
      cases o <;> cases hLink
      exact hFits

omit [DecidableEq Id] in
/-- The cells of a thread, with those of one type first. -/
theorem copying_perm {x : Pointer × Cell Id} {owned all first others : List (Pointer × Cell Id)}
    (hPerm : all.Perm (first ++ others)) :
    (owned ++ x :: all).Perm (first ++ (others ++ x :: owned)) := by
  have hSwap : (owned ++ x :: all).Perm (x :: all ++ owned) := List.perm_append_comm
  refine (hSwap.trans ((hPerm.cons x).append_right owned)).trans ?_
  rw [← List.append_assoc]
  exact List.perm_middle.symm

/-- Changing the copies of one type in place. -/
theorem Represents.update_copies (hs : Represents s held pending (.copying coarg args copies))
    (t : ObjectType) (l : List (Pointer × t.Info Id))
    (hSame : l.map Prod.fst = (copies t).map Prod.fst) {heap : Memory Id}
    (hOwned : heap.Owned (cellsOf t l ++ (copies.others t ++ (coarg, .copyObjectsArgs args) ::
      (held.cells ++ pending.flatMap Pending.cells))) (lost s.trace)) :
    Represents { s with heap := heap } held pending
      (.copying coarg args (Function.update copies t l)) where
  vecs := hs.vecs
  store := hs.store
  eventpipe := hs.eventpipe
  order := hs.order
  main := hs.main
  agrees := by
    intro u
    by_cases hType : u = t
    · subst hType
      rw [Function.update_self, hSame]
      exact hs.agrees u
    · rw [Function.update_of_ne hType]
      exact hs.agrees u
  fits := hs.fits
  owned := hOwned.perm (copying_perm (copies.cells_update_perm t l)).symm

variable (oldurl newurl : Text) (reply : BrokerReply) {rm : RecoveryManager Id}

/-- The loop over the bindings changes the copies of the bindings. -/
theorem copyBindings_represents (hs : Represents s held pending (.copying coarg args copies))
    (hCopies : ∀ t, (copies t).map Prod.snd = t.vec rm) :
    ∃ t copies', copyEach args oldurl newurl reply .binding (args.vecs .binding) s = some t ∧
      Represents t held pending (.copying coarg args copies') ∧
      (∀ u, u ≠ .binding → copies' u = copies u) ∧
      received t.trace = received s.trace ∧
      recoveries t.trace = recoveries s.trace ++
        ((rm.bindings.filterMap (namedBinding rm.exchanges rm.queues oldurl)).map fun j =>
          RecoveryCall.create newurl j.copyTo) := by
  have hAgrees : ∀ t, args.vecs t = (copies t).map Prod.fst := hs.agrees
  obtain ⟨l, heap, hCopy, hSame, hOwned⟩ := copyEach_bindings args oldurl newurl reply
    (hAgrees .exchange) (hAgrees .queue) (hCopies .exchange) (hCopies .queue) (copies .binding) _
    (hAgrees .binding) (hCopies .binding)
    (fun x hx => List.mem_append_left _ (copies.mem_others .binding (by decide) hx))
    (fun x hx => List.mem_append_left _ (copies.mem_others .binding (by decide) hx))
    (hs.owned.perm (copying_perm (copies.cells_perm .binding)))
  rw [hAgrees .binding] at hSame
  refine ⟨_, Function.update copies .binding l, hCopy,
    (hs.update_copies .binding l hSame hOwned).logCalls _, ?_, ?_, ?_⟩
  · exact fun u hNe => Function.update_of_ne hNe l copies
  · exact received_logCalls { s with heap := heap } _
  · exact recoveries_logCalls { s with heap := heap } _

/-- What the typed store says that the four loops do. -/
def copiedCalls (rm : RecoveryManager Id) (linkcalls : List RecoveryCall) : List RecoveryCall :=
  ((rm.exchanges.filter fun j => j.brokerurl = oldurl).map fun j => .create newurl j.copyTo) ++
    ((rm.queues.filter fun j => j.brokerurl = oldurl).map fun j => .create newurl j.copyTo) ++
    ((rm.bindings.filterMap (namedBinding rm.exchanges rm.queues oldurl)).map fun j =>
      .create newurl j.copyTo) ++
    linkcalls

theorem copyAll_represents (hs : Represents s held pending (.copying coarg args copies))
    (hCopies : ∀ t, (copies t).map Prod.snd = t.vec rm)
    (hFits : ∀ l ∈ rm.links, HostFits IP_LENGTH l.getLinkDestUrl) (hNew : HostFits 32 newurl) :
    ∃ t pending' copies' linkcalls,
      copyOrder.foldlM (fun s t => copyEach args oldurl newurl reply t (args.vecs t) s) s = some t ∧
      Represents t held pending' (.copying coarg args copies') ∧
      copies' .link = copies .link ∧ copies' .bridge = copies .bridge ∧
      received t.trace = received s.trace ∧
      recoveries t.trace = recoveries s.trace ++ copiedCalls oldurl newurl rm linkcalls ∧
      copyLinks newurl reply (rm.links.filter fun j => j.brokerurl = oldurl) =
        (linkcalls, true) := by
  have hAgrees : ∀ t, args.vecs t = (copies t).map Prod.fst := hs.agrees
  have hMem : ∀ t, ∀ x ∈ copies t, (x.1, Cell.objectInfo (objectOf t x.2)) ∈ copies.cells :=
    fun t x hx => copies.mem_cells t hx
  have hExchange := copyEach_plain (t := .exchange) args oldurl newurl reply ExchangeInfo.copyTo
    (fun _ _ => rfl) (fun _ => rfl) (copies .exchange)
    (fun x hx => List.mem_append_right _ (List.mem_cons_of_mem _ (hMem _ x hx))) hs.owned
  rw [← hAgrees, hCopies] at hExchange
  have hs₁ := hs.logCalls ((rm.exchanges.filter fun j => j.brokerurl = oldurl).map fun j =>
    .create newurl j.copyTo)
  have hQueue := copyEach_plain (t := .queue) args oldurl newurl reply QueueInfo.copyTo
    (fun _ _ => rfl) (fun _ => rfl) (copies .queue)
    (fun x hx => List.mem_append_right _ (List.mem_cons_of_mem _ (hMem _ x hx))) hs₁.owned
  rw [← hAgrees, hCopies] at hQueue
  have hs₂ := hs₁.logCalls ((rm.queues.filter fun j => j.brokerurl = oldurl).map fun j =>
    .create newurl j.copyTo)
  obtain ⟨s₃, copies', hBinding, hs₃, hOthers, hReceived₃, hCalls₃⟩ :=
    copyBindings_represents oldurl newurl reply hs₂ hCopies
  have hSame : ∀ {u}, u ≠ .binding → (copies' u).map Prod.snd = u.vec rm := by
    intro u hNe
    rw [hOthers u hNe]
    exact hCopies u
  obtain ⟨t, pending', linkcalls, hLink, ht, hReceived, hCalls, hTyped⟩ :=
    copyEach_links oldurl reply hs₃ hNew (copies' .link) (hs₃.agrees .link)
      (hSame (u := .link) (by decide)) (fun x hx => hx) hFits
  refine ⟨t, pending', copies', linkcalls, ?_, ht, hOthers .link (by decide),
    hOthers .bridge (by decide), ?_, ?_, hTyped⟩
  · rw [copyOrder_foldlM]
    exact Option.bind_eq_some_iff.mpr ⟨_, hExchange, Option.bind_eq_some_iff.mpr ⟨_, hQueue,
      Option.bind_eq_some_iff.mpr ⟨s₃, hBinding, hLink⟩⟩⟩
  · rw [hReceived, hReceived₃, received_logCalls, received_logCalls]
  · rw [hCalls, hCalls₃, recoveries_logCalls, recoveries_logCalls, copiedCalls]
    simp only [List.append_assoc]

/-- The url that the thread gives to the backup is the one it is told. -/
theorem getAddress_eq (ip : IPString) (port : UInt32) :
    BrokerAddress.getAddress ⟨ip, port⟩ = IPPortToUrl ip port := rfl

theorem copyObjects_of_one (failip : IPString) (failport : UInt32) (backupip : IPString)
    (backupport : UInt32) {linkcalls : List RecoveryCall} (hOne : reply.brokerobjects = 1)
    (hLinks : copyLinks (IPPortToUrl backupip backupport) reply
      ((rm.copyObjectsArgs (IPPortToUrl failip failport)).links.filter fun j =>
        j.brokerurl = IPPortToUrl failip failport) = (linkcalls, true)) :
    rm.copyObjects failip failport backupip backupport reply =
      some (.contact (IPPortToUrl backupip backupport) 1 ::
        (copiedCalls (IPPortToUrl failip failport) (IPPortToUrl backupip backupport)
          (rm.copyObjectsArgs (IPPortToUrl failip failport)) linkcalls ++
        RecoveryManager.copyBridges (rm.copyObjectsArgs (IPPortToUrl failip failport)).links
          (rm.copyObjectsArgs (IPPortToUrl failip failport)).bridges reply.linkobjects
          (IPPortToUrl failip failport) (IPPortToUrl backupip backupport) none), 0) := by
  apply RecoveryManager.copyObjects_eq_some.mpr
  refine ⟨?_, rfl⟩
  have hThread : copyLinks (BrokerAddress.getAddress ⟨backupip, backupport⟩) reply
      ((rm.copyObjectsArgs (IPPortToUrl failip failport)).links.filter fun j =>
        j.brokerurl = BrokerAddress.getAddress ⟨failip, failport⟩) = (linkcalls, true) := hLinks
  rw [RecoveryManager.copyObjectsCalls, RecoveryManager.copyObjectsThread,
    if_neg (not_not.mpr hOne)]
  dsimp only
  rw [hThread]
  rfl

/-- A backup that does not show one broker object makes the thread return
early. -/
theorem copyObjectsThread_early (hs : Represents s held pending (.copying coarg args copies))
    (hOne : reply.brokerobjects ≠ 1) :
    ∃ t, copyObjectsThread reply s = some t ∧ Represents t held pending .waiting ∧
      received t.trace = received s.trace ∧
      recoveries t.trace = recoveries s.trace ++
        [.contact (IPPortToUrl args.backupip args.backupport) reply.brokerobjects] := by
  have hMain : s.main = .copying coarg := hs.main
  have hArgs : argsAt coarg s.heap = some args :=
    argsAt_of_mem hs.owned (List.mem_append_right _ List.mem_cons_self)
  have hPointers : args.vecs = fun t => (copies t).map Prod.fst := funext hs.agrees
  have hLength : (vecOrder.flatMap args.vecs).length = copies.cells.length := by
    rw [hPointers, ← Held.map_fst_cells, List.length_map]
  have hNext := (hs.logCalls [.contact (IPPortToUrl args.backupip args.backupport)
    reply.brokerobjects]).finish s.heap [.abandoned (vecOrder.flatMap args.vecs).length] rfl rfl (by
        have hLost := (hs.owned.perm List.perm_append_comm).leak
        have hSum : lost ((s.trace ++ [.recovery (.contact
            (IPPortToUrl args.backupip args.backupport) reply.brokerobjects)]) ++
              [.abandoned (vecOrder.flatMap args.vecs).length]) =
            (Busy.copying coarg args copies).cells.length + lost s.trace := by
          rw [lost_append, lost_append, hLength, Busy.cells, List.length_cons]
          simp only [lost, Output.lost, List.map_cons, List.map_nil, List.sum_cons, List.sum_nil]
          omega
        show s.heap.Owned _ (lost ((s.trace ++ _) ++ _))
        rw [List.map_cons, List.map_nil, hSum]
        exact hLost)
  refine ⟨_, ?_, hNext, ?_, ?_⟩
  · simp only [copyObjectsThread, hMain, hArgs, Option.bind_some, getAddress_eq, ne_eq, hOne,
      not_false_eq_true, if_true]
    rfl
  · simp [State.log, received]
  · simp [State.log, recoveries]

/-- The thread does what the typed store says. It deletes its copies, or all of
them are lost when it returns early. -/
theorem copyObjectsThread_represents (hs : Represents s held pending (.copying coarg args copies))
    (hCopies : Busy.Copies s.trace (.copying coarg args copies)) :
    ∃ t pending' calls, copyObjectsThread reply s = some t ∧ Represents t held pending' .waiting ∧
      received t.trace = received s.trace ∧ recoveries t.trace = recoveries s.trace ++ calls ∧
      (stored s.trace).copyObjects args.failip args.failport args.backupip args.backupport reply =
        some (calls, 0) := by
  by_cases hOne : reply.brokerobjects = 1
  · have hMain : s.main = .copying coarg := hs.main
    have hArgs : argsAt coarg s.heap = some args :=
      argsAt_of_mem hs.owned (List.mem_append_right _ List.mem_cons_self)
    have hs₁ := hs.logCalls [.contact (IPPortToUrl args.backupip args.backupport) 1]
    have hFits : ∀ l ∈ ((stored s.trace).copyObjectsArgs
        (IPPortToUrl args.failip args.failport)).links, HostFits IP_LENGTH l.getLinkDestUrl :=
      fun l hl => hs.stored_fits (List.mem_filter.mp hl).1
    have hNew : HostFits 32 (IPPortToUrl args.backupip args.backupport) :=
      (hostFits_url args.backupip args.backupport).mono (by decide)
    obtain ⟨u, pending', copies', linkcalls, hAll, hu, hLink, hBridge, hReceived, hCalls, hTyped⟩ :=
      copyAll_represents (IPPortToUrl args.failip args.failport) _ reply hs₁ hCopies hFits hNew
    have hOwn : ∀ t, ∀ x ∈ copies' t, (x.1, Cell.objectInfo (objectOf t x.2)) ∈ held.cells ++
        pending'.flatMap Pending.cells ++ (coarg, .copyObjectsArgs args) :: copies'.cells :=
      fun t x hx => List.mem_append_right _ (List.mem_cons_of_mem _ (copies'.mem_cells t hx))
    obtain ⟨bridgecalls, hBridges, hSame⟩ : ∃ b,
        copyBridges (args.vecs .link) (args.vecs .bridge) reply.linkobjects
          (IPPortToUrl args.failip args.failport) (IPPortToUrl args.backupip args.backupport) none
          u.heap = some b ∧
        RecoveryManager.copyBridges
          ((stored s.trace).copyObjectsArgs (IPPortToUrl args.failip args.failport)).links
          ((stored s.trace).copyObjectsArgs (IPPortToUrl args.failip args.failport)).bridges
          reply.linkobjects (IPPortToUrl args.failip args.failport)
          (IPPortToUrl args.backupip args.backupport) none = b :=
      ⟨_, copyBridges_eq (hu.agrees .link) ((congrArg _ hLink).trans (hCopies .link))
        (hu.agrees .bridge) ((congrArg _ hBridge).trans (hCopies .bridge)) (hOwn .link)
        (hOwn .bridge) hu.owned _ _ _ _, rfl⟩
    obtain ⟨heap, hDelete, hOwned⟩ := deleteArgs_spec hu.agrees hu.owned
    have hNext := hu.finish heap (bridgecalls.map .recovery) (sent_recovery _) (received_recovery _)
      (by
        rw [lost_append, lost_recovery]
        exact hOwned)
    have hTypedCalls := copyObjects_of_one reply args.failip args.failport args.backupip
      args.backupport hOne hTyped
    rw [hSame] at hTypedCalls
    refine ⟨_, pending', _, ?_, hNext, ?_, ?_, hTypedCalls⟩
    · simp only [copyObjectsThread, hMain, hArgs, Option.bind_some, getAddress_eq, hOne, ne_eq,
        not_true_eq_false, if_false]
      exact Option.bind_eq_some_iff.mpr ⟨u, hAll, Option.bind_eq_some_iff.mpr ⟨_, hBridges,
        Option.map_eq_some_iff.mpr ⟨heap, hDelete, rfl⟩⟩⟩
    · exact (received_logCalls _ _).trans (hReceived.trans (received_logCalls _ _))
    · refine (recoveries_logCalls _ _).trans ?_
      show recoveries u.trace ++ bridgecalls = _
      rw [hCalls, recoveries_logCalls, List.append_assoc, List.append_assoc]
      rfl
  · obtain ⟨t, hStep, ht, hReceived, hCalls⟩ := copyObjectsThread_early reply hs hOne
    refine ⟨t, pending, _, hStep, ht, hReceived, hCalls, ?_⟩
    apply RecoveryManager.copyObjects_eq_some.mpr
    simp [RecoveryManager.copyObjectsCalls, RecoveryManager.copyObjectsThread, getAddress_eq, hOne]

end Thread

end QpidRecovery.Pointers
