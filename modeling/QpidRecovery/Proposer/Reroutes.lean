import QpidRecovery.Proposer.ProposerLists
import Mathlib.Data.List.Perm.Subperm

/-! The links that are rerouted. A link-down event opens a subscription for the
new address of the destination, and the first answer with a new address closes
all sockets of the subscription and reroutes the link. Nothing looks for an
older subscription of the same link. -/
namespace QpidRecovery.Proposer

open Transition

variable {Fd Id : Type}

namespace AddressChange

def failed (ac : AddressChange Fd) : Link := ⟨ac.srcip, ac.srcport, ac.oldip, ac.oldport⟩

def isOpen (ac : AddressChange Fd) : Bool := ac.slots.any fun slot => slot.2.isSome

theorem isOpen_of_listensOn [DecidableEq Fd] {ready : Fd} {ac : AddressChange Fd}
    (h : ac.listensOn ready = true) : ac.isOpen = true := by
  obtain ⟨slot, hSlot, hFd⟩ := List.any_eq_true.mp h
  apply List.any_eq_true.mpr
  refine ⟨slot, hSlot, ?_⟩
  rw [of_decide_eq_true hFd]
  rfl

theorem isOpen_of_drop [DecidableEq Fd] {ready : Fd} {ac : AddressChange Fd}
    (h : (ac.drop ready).isOpen = true) : ac.isOpen = true := by
  obtain ⟨slot, hSlot, hFd⟩ := List.any_eq_true.mp h
  obtain ⟨j, hj⟩ := List.mem_iff_getElem?.mp hSlot
  apply List.any_eq_true.mpr
  unfold drop at hj
  dsimp only at hj
  rw [List.getElem?_modify] at hj
  obtain ⟨old, hOld, hSame⟩ := Option.map_eq_some_iff.mp hj
  refine ⟨old, List.mem_of_getElem? hOld, ?_⟩
  split at hSame
  · rw [← hSame] at hFd
    cases hFd
  · rw [← hSame] at hFd
    exact hFd

theorem isOpen_closeAll (ac : AddressChange Fd) : ac.closeAll.isOpen = false := by
  simp [isOpen, closeAll]

/-- The links of the open ones. -/
def awaited (listening : List (AddressChange Fd)) : List Link :=
  (listening.filter isOpen).map failed

variable {listening : List (AddressChange Fd)} {i : Nat} {ac : AddressChange Fd}

theorem awaited_set (ac' : AddressChange Fd) (hEntry : listening[i]? = some ac) :
    ∃ before after : List Link, awaited listening = before ++ (awaited [ac] ++ after) ∧
      awaited (listening.set i ac') = before ++ (awaited [ac'] ++ after) := by
  obtain ⟨hBound, hAt⟩ := List.getElem?_eq_some_iff.mp hEntry
  obtain ⟨before, after, hList, _, hSet⟩ := @List.exists_of_set _ _ ac' _ hBound
  have hAppend : ∀ l r : List (AddressChange Fd), awaited (l ++ r) = awaited l ++ awaited r := by
    intro l r
    rw [awaited, List.filter_append, List.map_append]
    rfl
  have hCons : ∀ (a : AddressChange Fd) (l : List (AddressChange Fd)),
      awaited (a :: l) = awaited [a] ++ awaited l := by
    intro a l
    exact hAppend [a] l
  refine ⟨awaited before, awaited after, ?_, ?_⟩
  · rw [hAt] at hList
    rw [← hCons, ← hAppend, ← hList]
  · rw [hSet, hAppend, hCons]

/-- A subscription that is closed is not awaited any more. -/
theorem awaited_close (hEntry : listening[i]? = some ac) (hOpen : ac.isOpen = true) :
    (ac.failed :: awaited (listening.set i ac.closeAll)).Perm (awaited listening) := by
  obtain ⟨before, after, hOld, hNew⟩ := awaited_set ac.closeAll hEntry
  have hBefore : awaited [ac] = [ac.failed] := by
    simp [awaited, hOpen]
  have hAfter : awaited [ac.closeAll] = [] := by
    simp [awaited, isOpen_closeAll]
  rw [hOld, hNew, hBefore, hAfter, List.nil_append, List.singleton_append]
  exact List.perm_middle.symm

theorem awaited_drop [DecidableEq Fd] {ready : Fd} (hEntry : listening[i]? = some ac) :
    (awaited (listening.set i (ac.drop ready))).Sublist (awaited listening) := by
  obtain ⟨before, after, hOld, hNew⟩ := awaited_set (ac.drop ready) hEntry
  have hSlot : (awaited [ac.drop ready]).Sublist (awaited [ac]) := by
    cases hOpen : (ac.drop ready).isOpen with
    | true =>
        have hWas := isOpen_of_drop hOpen
        rw [awaited, awaited, List.filter_singleton, List.filter_singleton, hOpen, hWas]
        exact List.Sublist.refl _
    | false =>
        rw [awaited, List.filter_singleton, hOpen]
        exact List.nil_sublist _
  rw [hOld, hNew]
  exact (hSlot.append_right _).append_left _

end AddressChange

section Calls
variable [DecidableEq Fd]

/-- The link that an iteration opens a subscription for. -/
def subscription (s : State Fd Id) : Action Fd Id → Option Link
  | .event (.linkDown srcip srcport dstip dstport) o =>
      if o.broker.unreachable dstip.bytes ∧ (handedList dstip dstport s).any fun plist =>
          (List.range plist.ip.length).any fun i => (o.connect i).isSome then
        (srcip.copyTo IP_LENGTH).bind fun srcip => (dstip.copyTo IP_LENGTH).map fun dstip =>
          ⟨srcip, srcport, dstip, dstport⟩
      else none
  | _ => none

/-- The links of the calls of `reroute` that an iteration adds to the trace. -/
def reroutes (s t : State Fd Id) : List Link := (t.moved.drop s.moved.length).map Moved.link

/-- The links whose subscriptions can still be answered. -/
def State.awaited (s : State Fd Id) : List Link := AddressChange.awaited s.dstlistener.listening

end Calls

/-- The process with the links that were rerouted since their destination was
last recovered. -/
structure Rerouting (Fd Id : Type) where
  process : State Fd Id
  rerouted : List Link

/-- A step of the process, or the recovery of a destination, which happens
elsewhere. -/
inductive Happening (Fd Id : Type) where
  | act (action : Action Fd Id)
  | recovered (dstip : IPString) (dstport : UInt32)

namespace Rerouting
variable [DecidableEq Fd]

/-- The links that were rerouted, or may still be without another event. -/
def due (h : Rerouting Fd Id) : List Link := h.rerouted ++ h.process.awaited

def step [DecidableEq Id] (h : Rerouting Fd Id) : Happening Fd Id → Option (Rerouting Fd Id)
  | .act action =>
      (Proposer.step h.process action).map fun t => ⟨t, h.rerouted ++ reroutes h.process t⟩
  | .recovered dstip dstport =>
      some ⟨h.process, h.rerouted.filter fun link => ¬(link.dstip = dstip ∧ link.dstport = dstport)⟩

/-- A subscription is opened only for a link that has no open one and was not
rerouted since its destination was last recovered. -/
def ok (h : Rerouting Fd Id) : Happening Fd Id → Prop
  | .act action => ∀ link ∈ subscription h.process action, link ∉ h.due
  | .recovered _ _ => True

instance (h : Rerouting Fd Id) (e : Happening Fd Id) : Decidable (h.ok e) :=
  match e with
  | .act action => inferInstanceAs (Decidable (∀ link ∈ subscription h.process action, link ∉ h.due))
  | .recovered _ _ => inferInstanceAs (Decidable True)

def init (start : Time) (recoveryfd requestsfd querysfd : Option Fd) (backupbrokers : List Text) :
    Rerouting Fd Id :=
  ⟨.init start recoveryfd requestsfd querysfd backupbrokers, []⟩

end Rerouting

section Steps
variable [DecidableEq Fd] {s t : State Fd Id}

/-- A call of `reroute` uses up a subscription. -/
theorem readAddressChange_awaited (ready : Fd) (ra : Option ReplyAddress) (l : LinkDstListener Fd) :
    (((l.readAddressChange ready ra).link.map fun change => change.1.failed).toList ++
      AddressChange.awaited (l.readAddressChange ready ra).listener.listening).Subperm
        (AddressChange.awaited l.listening) := by
  unfold LinkDstListener.readAddressChange
  split
  · exact List.Subperm.refl _
  next i hFound =>
    obtain ⟨hBound, hListens, _⟩ := List.findIdx?_eq_some_iff_getElem.mp hFound
    have hEntry := List.getElem?_eq_getElem hBound
    rw [hEntry]
    cases ra with
    | none => exact (AddressChange.awaited_drop hEntry).subperm
    | some ra =>
        dsimp only
        split_ifs
        · exact List.Subperm.refl _
        · exact List.Subperm.refl _
        · exact (AddressChange.awaited_close hEntry
            (AddressChange.isOpen_of_listensOn hListens)).subperm

omit [DecidableEq Fd] in
theorem reroutes_of_kept (h : t.moved = s.moved) : reroutes s t = [] := by
  rw [reroutes, h, List.drop_length]
  rfl

omit [DecidableEq Fd] in
theorem reroutes_of_moved {m : Moved} (h : t.moved = s.moved ++ [m]) : reroutes s t = [m.link] := by
  rw [reroutes, h, List.drop_left]
  rfl

variable [DecidableEq Id]

theorem handleReady_listener {o : Outcomes Fd} {ready : Fd} {input : Input}
    (h : handleReady o ready input s = some t) :
    t.dstlistener = if receiver ready s.monitor = none then
      (s.dstlistener.readAddressChange ready input.address).listener else s.dstlistener := by
  have hUnread : (s.dstlistener.readAddressChange ready input.address).result = 0 →
      (s.dstlistener.readAddressChange ready input.address).listener = s.dstlistener :=
    fun hResult => congrArg State.dstlistener (afterChange_of_result hResult).2
  cases handleReady_step h with
  | beat i mon hReceiver hMon hRead hNext =>
      rw [if_neg (by simp [hReceiver]), hNext]
      rfl
  | lost i mon out hReceiver hMon hRead hStart hNext =>
      rw [if_neg (by simp [hReceiver]), hNext]
      exact (startRecovery_kept hStart).dstlistener
  | changed link newip newport hReceiver hLink hNext =>
      rw [if_pos hReceiver]
      rcases startRerouting_cases hNext with ⟨_, rfl⟩ | ⟨_, rm, calls, _, _, rfl⟩
      · rfl
      · rfl
  | answered hReceiver hLink hResult hNext =>
      rw [if_pos hReceiver, hNext]
      rfl
  | listed i hReceiver hResult hFound hNext =>
      rw [if_pos hReceiver, hUnread hResult, hNext]
      unfold readProposerList
      cases input.proposers with
      | reply plist => rfl
      | short overlay => rfl
      | failed => rfl
  | message m hReceiver hResult hFound hMessage hNext =>
      rw [if_pos hReceiver, hUnread hResult]
      exact (handlePaxosMessage_kept hNext).dstlistener
  | unread hReceiver hResult hFound hMessage hNext =>
      rw [if_pos hReceiver, hUnread hResult, hNext]

/-- A call of `reroute` follows an answer with a new address. -/
theorem handleReady_moved {o : Outcomes Fd} {ready : Fd} {input : Input}
    (h : handleReady o ready input s = some t) :
    t.moved = s.moved ∨ ∃ link newip newport, receiver ready s.monitor = none ∧
      (s.dstlistener.readAddressChange ready input.address).link = some (link, newip, newport) ∧
      t.moved = s.moved ++ [⟨link.name, link.failed, newip, newport⟩] := by
  cases handleReady_step h with
  | beat i mon hReceiver hMon hRead hNext =>
      rw [hNext]
      exact .inl rfl
  | lost i mon out hReceiver hMon hRead hStart hNext =>
      rw [hNext]
      exact .inl (startRecovery_kept hStart).moved
  | changed link newip newport hReceiver hLink hNext =>
      rcases startRerouting_cases hNext with ⟨_, rfl⟩ | ⟨_, rm, calls, _, _, rfl⟩
      · exact .inl rfl
      · refine .inr ⟨link, newip, newport, hReceiver, hLink, ?_⟩
        simp [State.moved, State.afterChange, Output.moved, AddressChange.failed]
  | answered hReceiver hLink hResult hNext =>
      rw [hNext]
      exact .inl rfl
  | listed i hReceiver hResult hFound hNext =>
      rw [hNext]
      unfold readProposerList
      cases input.proposers with
      | reply plist => exact .inl rfl
      | short overlay => exact .inl rfl
      | failed => exact .inl rfl
  | message m hReceiver hResult hFound hMessage hNext =>
      exact .inl (handlePaxosMessage_kept hNext).moved
  | unread hReceiver hResult hFound hMessage hNext =>
      rw [hNext]
      exact .inl rfl

theorem handleReady_awaited {o : Outcomes Fd} {ready : Fd} {input : Input}
    (h : handleReady o ready input s = some t) :
    (reroutes s t ++ t.awaited).Subperm s.awaited := by
  have hListener := handleReady_listener h
  have hRead := readAddressChange_awaited ready input.address s.dstlistener
  rcases handleReady_moved h with hSame | ⟨link, newip, newport, hReceiver, hLink, hMoved⟩
  · rw [reroutes_of_kept hSame, List.nil_append, State.awaited, hListener]
    split
    · exact (List.sublist_append_right _ _).subperm.trans hRead
    · exact List.Subperm.refl _
  · rw [if_pos hReceiver] at hListener
    rw [hLink] at hRead
    rw [reroutes_of_moved hMoved, State.awaited, hListener]
    exact hRead

/-- An event only opens subscriptions. -/
theorem handleEvent_moved {o : Outcomes Fd} {le : ListenerEvent Id}
    (h : handleEvent o le s = some t) : t.moved = s.moved := by
  cases le with
  | brokerDisconnection brokerip brokerport =>
      obtain ⟨ip, _, rfl⟩ := Option.map_eq_some_iff.mp h
      rfl
  | linkDown srcip srcport dstip dstport =>
      unfold handleEvent linkDown at h
      dsimp only at h
      split at h
      · cases h
        rfl
      · split at h
        · cases h
          rfl
        · split at h
          · obtain ⟨⟨l, opened, returned⟩, _, rfl⟩ := Option.map_eq_some_iff.mp h
            simp [State.moved, Output.moved, List.filterMap_map, Function.comp_def]
          · cases h
  | objectProperty objinfo =>
      unfold handleEvent at h
      dsimp only at h
      split at h
      · obtain ⟨dst, _, rfl⟩ := Option.map_eq_some_iff.mp h
        unfold listenProposerList
        split
        · rfl
        · rfl
      · cases h
        rfl

omit [DecidableEq Fd] [DecidableEq Id] in
/-- The slots of a new subscription, of which one is connected. -/
theorem any_connected (connect : Nat → Option Fd) (ip : List IPString) :
    (ip.mapIdx fun i ip => (ip, connect i)).any (fun slot => slot.2.isSome) =
      (List.range ip.length).any fun i => (connect i).isSome := by
  rw [Bool.eq_iff_iff, List.any_eq_true, List.any_eq_true]
  constructor
  · rintro ⟨slot, hSlot, hOpen⟩
    obtain ⟨i, hBound, rfl⟩ := List.mem_mapIdx.mp hSlot
    exact ⟨i, List.mem_range.mpr hBound, hOpen⟩
  · rintro ⟨i, hBound, hOpen⟩
    have hLess := List.mem_range.mp hBound
    exact ⟨(ip[i], connect i), List.mem_mapIdx.mpr ⟨i, hLess, rfl⟩, hOpen⟩

omit [DecidableEq Id] in
/-- A link-down event adds the link of its subscription, if it opens one. -/
theorem linkDown_awaited {o : Outcomes Fd} {srcip dstip : CString 32} {srcport dstport : UInt32}
    (h : linkDown o srcip srcport dstip dstport s = some t) :
    t.awaited = s.awaited ++
      (subscription s (.event (.linkDown srcip srcport dstip dstport) o)).toList := by
  rw [linkDown_eq] at h
  unfold subscription
  dsimp only
  split at h
  next hUp =>
    cases h
    rw [if_neg (by simp [hUp])]
    exact (List.append_nil _).symm
  next hDown =>
    cases hHanded : handedList dstip dstport s with
    | none =>
        rw [hHanded] at h
        cases h
        rw [if_neg (by simp)]
        exact (List.append_nil _).symm
    | some plist =>
        rw [hHanded, Option.elim_some] at h
        obtain ⟨src, hSrc, h⟩ := Option.bind_eq_some_iff.mp h
        obtain ⟨dst, hDst, h⟩ := Option.bind_eq_some_iff.mp h
        obtain ⟨l, hListen, rfl⟩ := Option.map_eq_some_iff.mp h
        have hSlots := any_connected o.connect plist.ip
        generalize hList : plist.ip.mapIdx (fun i ip => (ip, o.connect i)) = slots at hSlots
        have hOpened : slots.any (fun slot => slot.2.isSome) = true ↔
            (slots.filterMap Prod.snd).length ≠ 0 := by
          rw [List.any_eq_true, Ne, List.length_eq_zero_iff, List.filterMap_eq_nil_iff]
          push Not
          exact exists_congr fun slot => and_congr_right fun _ => Option.isSome_iff_ne_none
        unfold LinkDstListener.listenAddressChange at hListen
        split at hListen
        · cases hListen
        · dsimp only at hListen
          rw [hList] at hListen
          split at hListen
          next hNone =>
            cases hListen
            have hClosed : slots.any (fun slot => slot.2.isSome) = false := by
              rw [Bool.eq_false_iff]
              exact fun hAny => hOpened.mp hAny hNone
            rw [if_neg (by simp [← hSlots, hClosed])]
            exact (List.append_nil _).symm
          next hSome =>
            cases hListen
            have hAny := hOpened.mpr hSome
            have hDownTrue : o.broker.unreachable dstip.bytes = true :=
              Bool.eq_true_of_not_eq_false hDown
            rw [if_pos ⟨hDownTrue, by rw [Option.any_some, ← hSlots, hAny]⟩, hSrc, hDst]
            show AddressChange.awaited (s.dstlistener.listening ++ [_]) = _
            unfold State.awaited AddressChange.awaited
            rw [List.filter_append, List.map_append, List.filter_singleton]
            unfold AddressChange.isOpen
            dsimp only
            rw [hAny]
            rfl

theorem step_awaited {action : Action Fd Id} (h : Proposer.step s action = some t) :
    (reroutes s t = [] ∧ t.awaited = s.awaited ++ (subscription s action).toList) ∨
      (subscription s action = none ∧ (reroutes s t ++ t.awaited).Subperm s.awaited) := by
  have hSame : ∀ u : State Fd Id, u.dstlistener = s.dstlistener → u.awaited = s.awaited ++ [] := by
    intro u hListener
    rw [State.awaited, hListener, List.append_nil]
    rfl
  cases action with
  | wait d =>
      cases h
      exact .inl ⟨reroutes_of_kept rfl, hSame _ rfl⟩
  | request fromip r o =>
      cases h
      have hKept := handleRequest_kept o fromip r s
      exact .inl ⟨reroutes_of_kept hKept.moved, hSame _ hKept.dstlistener⟩
  | query newsfd name o =>
      cases h
      have hKept := handleQuery_kept o newsfd name s
      exact .inl ⟨reroutes_of_kept hKept.moved, hSame _ hKept.dstlistener⟩
  | event le o =>
      have hNone := reroutes_of_kept (handleEvent_moved h)
      cases le with
      | brokerDisconnection brokerip brokerport =>
          obtain ⟨ip, _, rfl⟩ := Option.map_eq_some_iff.mp h
          exact .inl ⟨hNone, hSame _ rfl⟩
      | linkDown srcip srcport dstip dstport => exact .inl ⟨hNone, linkDown_awaited h⟩
      | objectProperty objinfo =>
          refine .inl ⟨hNone, hSame _ ?_⟩
          simp only [Proposer.step, handleEvent] at h
          split at h
          · obtain ⟨dst, _, rfl⟩ := Option.map_eq_some_iff.mp h
            unfold listenProposerList
            split
            · rfl
            · rfl
          · cases h
            rfl
  | ready sfd input o => exact .inr ⟨rfl, handleReady_awaited h⟩
  | timeout o =>
      have hKept := checkAll_kept h
      exact .inl ⟨reroutes_of_kept hKept.moved, hSame _ hKept.dstlistener⟩

/-- Every call of `reroute` is for a link that was awaited. -/
theorem reroutes_awaited {action : Action Fd Id} (h : Proposer.step s action = some t) :
    (reroutes s t).Subperm s.awaited := by
  rcases step_awaited h with ⟨hNone, _⟩ | ⟨_, hUsed⟩
  · rw [hNone]
    exact List.nil_subperm
  · exact (List.sublist_append_left _ _).subperm.trans hUsed

end Steps

namespace Rerouting
variable [DecidableEq Fd] [DecidableEq Id] {h h' : Rerouting Fd Id}

theorem due_step (hNodup : h.due.Nodup) {e : Happening Fd Id} (hOk : h.ok e)
    (hStep : h.step e = some h') : h'.due.Nodup := by
  cases e with
  | recovered dstip dstport =>
      cases hStep
      exact hNodup.sublist (List.filter_sublist.append_right _)
  | act action =>
      obtain ⟨t, hNext, rfl⟩ := Option.map_eq_some_iff.mp hStep
      show (h.rerouted ++ reroutes h.process t ++ t.awaited).Nodup
      rw [List.append_assoc]
      rcases step_awaited hNext with ⟨hNone, hAwaited⟩ | ⟨_, hUsed⟩
      · rw [hNone, hAwaited, List.nil_append, ← List.append_assoc]
        cases hLink : subscription h.process action with
        | none =>
            rw [Option.toList_none, List.append_nil]
            exact hNodup
        | some link =>
            have hConcat := hNodup.concat (hOk link hLink)
            rw [List.concat_eq_append] at hConcat
            exact hConcat
      · obtain ⟨l, hPerm, hSublist⟩ := (List.subperm_append_left h.rerouted).mpr hUsed
        exact hPerm.nodup_iff.mp (hNodup.sublist hSublist)

/-- In every run in which subscriptions are opened only for links that are not
due, the trace has at most one call of `reroute` for a link between two
recoveries of its destination. Whatever the next iteration is, it adds none. -/
theorem reroutes_once (start : Time) (recoveryfd requestsfd querysfd : Option Fd)
    (backupbrokers : List Text) (h : Rerouting Fd Id)
    (hRun : Run step ok (.init start recoveryfd requestsfd querysfd backupbrokers) h) :
    h.rerouted.Nodup ∧ ∀ (action : Action Fd Id) (t : State Fd Id),
      Proposer.step h.process action = some t → (h.rerouted ++ reroutes h.process t).Nodup := by
  have hDue : h.due.Nodup := by
    apply hRun.invariant
    · exact List.nodup_nil
    · exact fun _ _ _ hNodup hOk hStep => due_step hNodup hOk hStep
  constructor
  · exact hDue.sublist (List.sublist_append_left _ _)
  · intro action t hStep
    obtain ⟨l, hPerm, hSublist⟩ :=
      (List.subperm_append_left h.rerouted).mpr (reroutes_awaited hStep)
    exact hPerm.nodup_iff.mp (hDue.sublist hSublist)

section Sample

/-- The link from `10.0.0.9:5672` to `127.0.0.1:5673`. -/
def failedLink : Link :=
  ⟨⟨[49, 48, 46, 48, 46, 48, 46, 57], by decide, by decide⟩, 5672, localhost, 5673⟩

/-- It fails, and the proposer of the destination is asked on a socket. -/
def linkFails (fd : Nat) : Happening Nat Nat :=
  .act (.event (.linkDown ⟨failedLink.srcip.bytes, by decide, by decide⟩ failedLink.srcport
      ⟨localhost.bytes, by decide, by decide⟩ 5673)
    { unconnected with
      connect := fun _ => some fd
      broker := ⟨0, [], fun ip => ip = localhost.bytes⟩ })

/-- The proposer tells the address of the backup. -/
def movedOn (fd : Nat) : Happening Nat Nat :=
  .act (.ready fd ⟨false, some ⟨brokerService, localhost, 5674⟩, .failed, none⟩ unconnected)

/-- A process that knows one proposer of the destination. -/
def subscribedFor : List (Happening Nat Nat) :=
  [.act (linkSeen 20), .act (replyOn 20 firstList)]

def notRerouted : Rerouting Nat Nat := init 0 (some 0) (some 1) (some 2) []

/-- The link is rerouted, its destination recovers, and it is rerouted again. -/
theorem reroutes_once_twice :
    ∃ h, Run step ok notRerouted h ∧ h.rerouted = [failedLink] ∧ h.rerouted.Nodup ∧
      ∀ (action : Action Nat Nat) (t : State Nat Nat),
        Proposer.step h.process action = some t →
          (h.rerouted ++ reroutes h.process t).Nodup := by
  have hExec : (exec (guarded step fun h e => decide (h.ok e)) notRerouted
      (subscribedFor ++ [linkFails 30, movedOn 30, .recovered localhost 5673, linkFails 31,
        movedOn 31])).map rerouted = some [failedLink] := by
    decide
  obtain ⟨h, hh, hRerouted⟩ := Option.map_eq_some_iff.mp hExec
  have hRun : Run step ok notRerouted h := Run.of_guarded (fun _ _ => of_decide_eq_true) hh
  exact ⟨h, hRun, hRerouted, reroutes_once 0 (some 0) (some 1) (some 2) [] h hRun⟩

/-- Two events for one link open two subscriptions, and both are answered. -/
theorem rerouted_twice :
    ¬ ∀ (happenings : List (Happening Nat Nat)) (h : Rerouting Nat Nat),
      exec step notRerouted happenings = some h → h.rerouted.Nodup := by
  intro hAll
  have hExec : (exec step notRerouted (subscribedFor ++
      [linkFails 30, linkFails 31, movedOn 30, movedOn 31])).map rerouted =
      some [failedLink, failedLink] := by
    decide
  obtain ⟨h, hh, hRerouted⟩ := Option.map_eq_some_iff.mp hExec
  have hNodup := hAll _ h hh
  rw [hRerouted] at hNodup
  exact absurd hNodup (by decide)

end Sample

end Rerouting

end QpidRecovery.Proposer
