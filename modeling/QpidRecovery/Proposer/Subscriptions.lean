import QpidRecovery.Proposer.Descriptors

/-! The sockets of the subscriptions to address changes. Records are never
erased, and the kernel hands a closed descriptor out again. Still every open
socket belongs to one slot of one record, and a record that reported a change
has none left. The registrations do not test whether the selector's array has an
entry left. -/
namespace QpidRecovery.Proposer

variable {Fd : Type}

section Sockets

/-- All slots of the record are -1. -/
def AddressChange.Finished (ac : AddressChange Fd) : Prop := ∀ slot ∈ ac.slots, slot.2 = none

/-- The slots that are not -1, of all records. -/
def LinkDstListener.sockets (l : LinkDstListener Fd) : List Fd :=
  l.listening.flatMap fun ac => ac.slots.filterMap Prod.snd

theorem LinkDstListener.sum_holding (l : LinkDstListener Fd) :
    (l.listening.map AddressChange.holding).sum = ((↑l.sockets : Multiset Fd), 0) := by
  unfold sockets
  induction l.listening with
  | nil => rfl
  | cons ac rest ih =>
      rw [List.map_cons, List.sum_cons, ih, List.flatMap_cons, ← Multiset.coe_add]
      exact Prod.ext rfl (add_zero 0)

theorem AddressChange.finished_closeAll (ac : AddressChange Fd) : ac.closeAll.Finished := by
  intro slot hSlot
  obtain ⟨_, _, rfl⟩ := List.mem_map.mp hSlot
  rfl

theorem holding_closeAll (ac : AddressChange Fd) : ac.closeAll.holding = 0 := by
  have hNone : ac.closeAll.slots.filterMap Prod.snd = [] :=
    List.filterMap_eq_nil_iff.mpr ac.finished_closeAll
  unfold AddressChange.holding
  rw [hNone]
  rfl

end Sockets

variable [DecidableEq Fd]

section Accounts
variable {may : Option Fd → Prop}

/-- The slot whose read failed gives its socket up. -/
theorem holding_drop {ready : Fd} {ac : AddressChange Fd}
    (h : ac.listensOn ready = true) (l : Holding Fd) :
    l + ac.holding = l + (ac.drop ready).holding + ({ready}, 0) := by
  have hSlots : ∀ slots : List (IPString × Option Fd),
      (slots.any fun slot => slot.2 = some ready) = true →
      (↑(slots.filterMap Prod.snd) : Multiset Fd) =
        ↑((slots.modify (slots.findIdx fun slot => slot.2 = some ready)
          fun slot => (slot.1, none)).filterMap Prod.snd) + {ready} := by
    intro slots hAny
    induction slots with
    | nil => cases hAny
    | cons slot rest ih =>
        obtain ⟨ip, sfd⟩ := slot
        by_cases hReady : sfd = some ready
        · subst hReady
          rw [List.findIdx_cons, decide_eq_true rfl]
          exact Accounted.coe_cons ready _
        · rw [List.any_cons, decide_eq_false hReady, Bool.false_or] at hAny
          rw [List.findIdx_cons, decide_eq_false hReady]
          dsimp only [cond_false]
          rw [List.modify_succ_cons]
          cases sfd with
          | none => exact ih hAny
          | some fd =>
              show (↑(fd :: rest.filterMap Prod.snd) : Multiset Fd) = ↑(fd :: _) + {ready}
              rw [Accounted.coe_cons, Accounted.coe_cons, ih hAny, add_right_comm]
  have hPair : ac.holding = (ac.drop ready).holding + ({ready}, 0) := by
    apply Prod.ext
    · exact hSlots ac.slots h
    · exact (add_zero 0).symm
  rw [hPair, add_assoc]

omit [DecidableEq Fd] in
/-- The sockets that were opened are held by the new record. -/
theorem LinkDstListener.listenAddressChange_accounted {connect : Nat → Option Fd}
    {rp : ReplyProposer} {sip oip : IPString} {sport oport : UInt32} {l : LinkDstListener Fd}
    {out : LinkDstListener Fd × List Fd × Int}
    (h : l.listenAddressChange connect rp sip sport oip oport = some out) (r : Holding Fd) :
    Accounted may (out.2.1.flatMap fun fd => [.opened fd, .register (some fd)])
      (r + (l.listening.map AddressChange.holding).sum)
      (r + (out.1.listening.map AddressChange.holding).sum) := by
  unfold listenAddressChange at h
  dsimp only at h
  split at h
  · cases h
  · split at h
    next hNone =>
      cases h
      dsimp only
      rw [List.length_eq_zero_iff.mp hNone]
      exact .nil _
    next hSome =>
      cases h
      dsimp only
      rw [List.map_append, List.sum_append, List.map_singleton, List.sum_singleton, ← add_assoc]
      exact Accounted.acquireAll _ _

/-- The sockets that were closed were those of the record that was found. -/
theorem LinkDstListener.readAddressChange_accounted (ready : Fd) (ra : Option ReplyAddress)
    (l : LinkDstListener Fd) (r : Holding Fd) :
    Accounted may ((l.readAddressChange ready ra).closed.flatMap
        fun fd => [.unregister (some fd), .close fd])
      (r + (l.listening.map AddressChange.holding).sum)
      (r + ((l.readAddressChange ready ra).listener.listening.map AddressChange.holding).sum) := by
  unfold readAddressChange
  split
  · exact .nil _
  next i hFound =>
    obtain ⟨hBound, hListens, _⟩ := List.findIdx?_eq_some_iff_getElem.mp hFound
    have hEntry := List.getElem?_eq_getElem hBound
    rw [hEntry]
    obtain ⟨rest, hBefore, _, hAfter⟩ := holding_set (f := AddressChange.holding) hEntry
    cases ra with
    | none =>
        dsimp only
        rw [hBefore, hAfter, ← add_assoc, ← add_assoc, holding_drop hListens]
        exact .release ready _
    | some ra =>
        dsimp only
        split
        · exact .nil _
        · split
          · exact .nil _
          · dsimp only
            rw [hBefore, hAfter, ← add_assoc, ← add_assoc, holding_closeAll, add_zero]
            exact Accounted.releaseAll _ _

end Accounts

section Finished
variable {l : LinkDstListener Fd} {ready : Fd} {ra : Option ReplyAddress}

/-- A record without a socket is not found. -/
theorem LinkDstListener.findIdx?_ne_finished (ready : Fd) {i : Nat} {ac : AddressChange Fd}
    (hEntry : l.listening[i]? = some ac) (hFinished : ac.Finished) :
    l.listening.findIdx? (AddressChange.listensOn ready) ≠ some i := by
  intro hFound
  obtain ⟨hBound, hListens, _⟩ := List.findIdx?_eq_some_iff_getElem.mp hFound
  obtain ⟨_, hAt⟩ := List.getElem?_eq_some_iff.mp hEntry
  rw [hAt] at hListens
  obtain ⟨slot, hSlot, hReady⟩ := List.any_eq_true.mp hListens
  rw [hFinished slot hSlot] at hReady
  cases of_decide_eq_true hReady

omit [DecidableEq Fd] in
/-- Records are only added. -/
theorem LinkDstListener.listenAddressChange_keeps {connect : Nat → Option Fd}
    {rp : ReplyProposer} {sip oip : IPString} {sport oport : UInt32}
    {out : LinkDstListener Fd × List Fd × Int}
    (h : l.listenAddressChange connect rp sip sport oip oport = some out) {i : Nat}
    {ac : AddressChange Fd} (hEntry : l.listening[i]? = some ac) :
    out.1.listening[i]? = some ac := by
  unfold listenAddressChange at h
  dsimp only at h
  split at h
  · cases h
  · split at h
    · cases h
      exact hEntry
    · cases h
      obtain ⟨hBound, _⟩ := List.getElem?_eq_some_iff.mp hEntry
      dsimp only
      rw [List.getElem?_append_left hBound, hEntry]

/-- A read changes at most the record that is found. -/
theorem LinkDstListener.readAddressChange_keeps (ra : Option ReplyAddress) {i : Nat}
    (hOther : l.listening.findIdx? (AddressChange.listensOn ready) ≠ some i) :
    (l.readAddressChange ready ra).listener.listening[i]? = l.listening[i]? := by
  unfold readAddressChange
  split
  · rfl
  next j hFound =>
    have hNe : j ≠ i := by
      intro hSame
      rw [hSame] at hFound
      exact hOther hFound
    split
    · rfl
    · exact List.getElem?_set_ne hNe
    · split
      · rfl
      · split
        · rfl
        · exact List.getElem?_set_ne hNe

/-- What a read that returns 1 has done. -/
theorem LinkDstListener.readAddressChange_changed
    (h : (l.readAddressChange ready ra).result = 1) :
    ∃ i ac reply, l.listening.findIdx? (AddressChange.listensOn ready) = some i ∧
      l.listening[i]? = some ac ∧ ra = some reply ∧
      (reply.ip, reply.port) ≠ (ac.oldip, ac.oldport) ∧
      l.readAddressChange ready ra = ⟨⟨l.listening.set i ac.closeAll⟩,
        ac.slots.filterMap Prod.snd, 1, some (ac, reply.ip, reply.port)⟩ := by
  cases hFound : l.listening.findIdx? (AddressChange.listensOn ready) with
  | none =>
      simp only [readAddressChange, hFound] at h
      cases h
  | some i =>
      obtain ⟨hBound, _⟩ := List.findIdx?_eq_some_iff_getElem.mp hFound
      have hEntry := List.getElem?_eq_getElem hBound
      generalize l.listening[i] = ac at hEntry
      cases ra with
      | none =>
          simp only [readAddressChange, hFound, hEntry] at h
          cases h
      | some reply =>
          by_cases hName : ac.name = reply.name
          · by_cases hSame : ac.oldip = reply.ip ∧ ac.oldport = reply.port
            · simp only [readAddressChange, hFound, hEntry, hName, hSame, ne_eq, not_true_eq_false,
                and_self, if_false, if_true] at h
              cases h
            · have hNew : (reply.ip, reply.port) ≠ (ac.oldip, ac.oldport) := by
                intro hEq
                obtain ⟨hIp, hPort⟩ := Prod.mk.inj hEq
                exact hSame ⟨hIp.symm, hPort.symm⟩
              have hResult : l.readAddressChange ready (some reply) =
                  ⟨⟨l.listening.set i ac.closeAll⟩, ac.slots.filterMap Prod.snd, 1,
                    some (ac, reply.ip, reply.port)⟩ := by
                simp only [readAddressChange, hFound, hEntry]
                rw [if_neg (not_not_intro hName), if_neg hSame]
              exact ⟨i, ac, reply, rfl, hEntry, rfl, hNew, hResult⟩
          · simp only [readAddressChange, hFound, hEntry, ne_eq, hName, not_false_eq_true,
              if_true] at h
            cases h

/-- A descriptor of another object is in no slot. -/
theorem LinkDstListener.readAddressChange_foreign (h : ready ∉ l.sockets) :
    l.readAddressChange ready ra = ⟨l, [], 0, none⟩ := by
  have hNone : l.listening.findIdx? (AddressChange.listensOn ready) = none := by
    apply List.findIdx?_eq_none_iff.mpr
    intro ac hac
    by_contra hListens
    obtain ⟨slot, hSlot, hReady⟩ := List.any_eq_true.mp (Bool.eq_true_of_not_eq_false hListens)
    apply h
    apply List.mem_flatMap.mpr
    exact ⟨ac, hac, List.mem_filterMap.mpr ⟨slot, hSlot, of_decide_eq_true hReady⟩⟩
  unfold readAddressChange
  rw [hNone]

end Finished

/-- The listener in its process, which shares the selector and the kernel's
descriptors with other objects. There is no array after a write past its end.
The records that reported a change are kept. -/
structure Subscriptions (Fd : Type) where
  listener : LinkDstListener Fd
  array : Option (FileSelector Fd)
  live : List Fd
  others : Holding Fd
  changed : List Nat

inductive SubscriptionCall (Fd : Type) where
  | listenAddressChange (connect : Nat → Option Fd) (rp : ReplyProposer) (sip : IPString)
      (sport : UInt32) (oip : IPString) (oport : UInt32)
  | readAddressChange (ready : Fd) (ra : Option ReplyAddress)
  /-- What another object does with a descriptor of its own. -/
  | other (c : Call Fd)

namespace Subscriptions

def init : Subscriptions Fd := ⟨⟨[]⟩, some .new, [], 0, []⟩

/-- The descriptors of other objects may be registered or not. They are
unregistered before they are closed. -/
def stepOther (s : Subscriptions Fd) : Call Fd → Option (Subscriptions Fd)
  | .opened fd =>
      if fd ∈ s.live then none
      else some { s with live := fd :: s.live, others := s.others + (0, {fd}) }
  | .register (some fd) =>
      if fd ∈ s.others.2 then
        some { s with
          array := s.array.bind (FileSelector.registerWithin (some fd))
          others := (s.others.1 + {fd}, s.others.2.erase fd) }
      else none
  | .unregister (some fd) =>
      if fd ∈ s.others.1 then
        some { s with
          array := s.array.map (FileSelector.unregisterFD (some fd))
          others := (s.others.1.erase fd, s.others.2 + {fd}) }
      else none
  | .close fd =>
      if fd ∈ s.others.2 then
        some { s with live := s.live.erase fd, others := (s.others.1, s.others.2.erase fd) }
      else none
  | .register none | .unregister none => none

/-- A call on the listener with the calls it makes. A `none` is a proposer list
that is too long, or a descriptor that the kernel does not hand out. -/
def step (s : Subscriptions Fd) : SubscriptionCall Fd → Option (Subscriptions Fd)
  | .listenAddressChange connect rp sip sport oip oport =>
      (s.listener.listenAddressChange connect rp sip sport oip oport).bind fun out =>
        let calls : List (Call Fd) := out.2.1.flatMap fun fd => [.opened fd, .register (some fd)]
        (Call.openedAfter calls s.live).map fun live =>
          { s with
            listener := out.1
            array := s.array.bind (Call.selectsWithin calls)
            live := live }
  | .readAddressChange ready ra =>
      let change := s.listener.readAddressChange ready ra
      let calls : List (Call Fd) :=
        change.closed.flatMap fun fd => [.unregister (some fd), .close fd]
      (Call.openedAfter calls s.live).map fun live =>
        { s with
          listener := change.listener
          array := s.array.bind (Call.selectsWithin calls)
          live := live
          changed := s.changed ++ if change.result = 1 then
            (s.listener.listening.findIdx? (AddressChange.listensOn ready)).toList else [] }
  | .other c => s.stepOther c

/-- How many descriptors are registered. -/
def registered (s : Subscriptions Fd) : Nat := s.listener.sockets.length + s.others.1.card

/-- What a call registers finds entries of the array left. -/
def Room (s : Subscriptions Fd) : SubscriptionCall Fd → Prop
  | .listenAddressChange connect rp _ _ _ _ =>
      s.registered + ((List.range rp.ip.length).filterMap connect).length ≤ SELECTOR_SIZE
  | .other (.register _) => s.registered < SELECTOR_SIZE
  | .other _ | .readAddressChange _ _ => True

/-- Every socket of the listener is open and belongs to one slot of one record.
What is registered are these sockets and those of other objects. A record that
reported a change has no socket left. -/
structure OwnsSockets (s : Subscriptions Fd) : Prop where
  distinct : s.listener.sockets.Nodup
  isOpen : ∀ fd ∈ s.listener.sockets, fd ∈ s.live
  apart : ∀ fd ∈ s.listener.sockets, fd ∉ s.others.1 + s.others.2
  registered : ∃ fs, s.array = some fs ∧
    ∀ fd, some fd ∈ fs.regfd ↔ fd ∈ s.listener.sockets ∨ fd ∈ s.others.1
  finished : ∀ i ∈ s.changed, ∃ ac, s.listener.listening[i]? = some ac ∧ ac.Finished

/-- A read concerns only sockets of the listener and records that have not
reported a change. It reports only an address that differs from the old one. -/
structure ReadsOwn (s : Subscriptions Fd) (ready : Fd) (ra : Option ReplyAddress) : Prop where
  unfinished : ∀ i ∈ s.changed,
    s.listener.listening.findIdx? (AddressChange.listensOn ready) ≠ some i
  foreign : ready ∉ s.listener.sockets →
    s.listener.readAddressChange ready ra = ⟨s.listener, [], 0, none⟩
  changed : (s.listener.readAddressChange ready ra).result = 1 →
    ∃ ac ∈ s.listener.listening, ∃ reply, ra = some reply ∧
      (reply.ip, reply.port) ≠ (ac.oldip, ac.oldport) ∧
      (s.listener.readAddressChange ready ra).link = some (ac, reply.ip, reply.port)

def Reads (s : Subscriptions Fd) : SubscriptionCall Fd → Prop
  | .readAddressChange ready ra => s.ReadsOwn ready ra
  | .listenAddressChange _ _ _ _ _ _ | .other _ => True

/-- The accounts of all objects together. -/
structure Booked (s : Subscriptions Fd) (fs : FileSelector Fd) : Prop where
  array : s.array = some fs
  inside : fs.regfd.length ≤ SELECTOR_SIZE
  consistent : Consistent (s.others + ((↑s.listener.sockets : Multiset Fd), 0)) s.live fs
  complete : ∀ fd ∈ (s.others + ((↑s.listener.sockets : Multiset Fd), 0)).1, some fd ∈ fs.regfd
  finished : ∀ i ∈ s.changed, ∃ ac, s.listener.listening[i]? = some ac ∧ ac.Finished

section Invariant
variable {s t : Subscriptions Fd} {fs : FileSelector Fd}

omit [DecidableEq Fd] in
theorem booked_init : Booked (init : Subscriptions Fd) .new where
  array := rfl
  inside := Nat.zero_le _
  consistent :=
    { distinct := Multiset.nodup_zero
      isOpen := fun fd hfd => absurd hfd (Multiset.notMem_zero fd)
      nodup := List.nodup_nil
      unique := List.nodup_nil
      registered := fun _ hx => absurd hx List.not_mem_nil }
  complete fd hfd := absurd hfd (Multiset.notMem_zero fd)
  finished _ hi := absurd hi List.not_mem_nil

omit [DecidableEq Fd] in
theorem all_holdings (others : Holding Fd) (sockets : List Fd) :
    (others + ((↑sockets : Multiset Fd), 0)).1 + (others + ((↑sockets : Multiset Fd), 0)).2 =
      others.1 + others.2 + ↑sockets := by
  show others.1 + ↑sockets + (others.2 + 0) = _
  rw [add_zero, add_right_comm]

omit [DecidableEq Fd] in
theorem Booked.ownsSockets (h : Booked s fs) : OwnsSockets s := by
  have hDistinct := h.consistent.distinct
  rw [all_holdings] at hDistinct
  obtain ⟨_, hSockets, hDisjoint⟩ := Multiset.nodup_add.mp hDistinct
  constructor
  · exact Multiset.coe_nodup.mp hSockets
  · intro fd hfd
    apply h.consistent.isOpen
    rw [all_holdings]
    exact Multiset.mem_add.mpr (.inr hfd)
  · intro fd hfd hOther
    exact Multiset.disjoint_left.mp hDisjoint hOther hfd
  · refine ⟨fs, h.array, fun fd => ?_⟩
    constructor
    · intro hRegistered
      obtain ⟨x, hx, hEq⟩ := h.consistent.registered _ hRegistered
      cases hEq
      rcases Multiset.mem_add.mp hx with hOther | hOwn
      · exact .inr hOther
      · exact .inl hOwn
    · rintro (hOwn | hOther)
      · exact h.complete fd (Multiset.mem_add.mpr (.inr hOwn))
      · exact h.complete fd (Multiset.mem_add.mpr (.inl hOther))
  · exact h.finished

omit [DecidableEq Fd] in
/-- The entries of the array are the descriptors that are counted. -/
theorem Booked.length_regfd (h : Booked s fs) : fs.regfd.length = s.registered := by
  rw [h.consistent.length_regfd h.complete]
  show (s.others.1 + ↑s.listener.sockets).card = _
  rw [Multiset.card_add, Multiset.coe_card, Nat.add_comm]
  rfl

/-- The calls of the listener are accounted for. -/
theorem Booked.of_accounted {calls : List (Call Fd)} {listener : LinkDstListener Fd}
    {live : List Fd} (h : Booked s fs)
    (hCalls : Accounted (· = none) calls
      (s.others + (s.listener.listening.map AddressChange.holding).sum)
      (s.others + (listener.listening.map AddressChange.holding).sum))
    (hKernel : Call.openedAfter calls s.live = some live) (hFit : Call.AllFit calls fs)
    {changed : List Nat}
    (hFinished : ∀ i ∈ changed, ∃ ac, listener.listening[i]? = some ac ∧ ac.Finished) :
    Booked ⟨listener, s.array.bind (Call.selectsWithin calls), live, s.others, changed⟩
      (Call.selects calls fs) := by
  rw [LinkDstListener.sum_holding, LinkDstListener.sum_holding] at hCalls
  exact {
    array := by rw [h.array, Option.bind_some, Call.selectsWithin_of_allFit hFit]
    inside := Call.length_selects hFit h.inside
    consistent := hCalls.consistent h.consistent hKernel
    complete := hCalls.complete (fun _ hNone => hNone) h.consistent h.complete hKernel
    finished := hFinished }

omit [DecidableEq Fd] in
theorem Booked.mk_of_eq {l m : Holding Fd} {listener : LinkDstListener Fd} {live : List Fd}
    {array : Option (FileSelector Fd)} (hEq : m + ((↑listener.sockets : Multiset Fd), 0) = l)
    {changed : List Nat} (hArray : array = some fs) (hInside : fs.regfd.length ≤ SELECTOR_SIZE)
    (hConsistent : Consistent l live fs) (hComplete : ∀ fd ∈ l.1, some fd ∈ fs.regfd)
    (hFinished : ∀ i ∈ changed, ∃ ac, listener.listening[i]? = some ac ∧ ac.Finished) :
    Booked ⟨listener, array, live, m, changed⟩ fs where
  array := hArray
  inside := hInside
  consistent := hEq ▸ hConsistent
  complete := hEq ▸ hComplete
  finished := hFinished

/-- A registered descriptor of another object beside the rest. -/
theorem others_registered {fd : Fd} {o : Holding Fd} (h : fd ∈ o.1) (r : Holding Fd) :
    o + r = (o.1.erase fd, o.2) + r + ({fd}, 0) := by
  have hSplit : o = (o.1.erase fd, o.2) + ({fd}, 0) := by
    apply Prod.ext
    · show o.1 = o.1.erase fd + {fd}
      rw [add_comm, Multiset.singleton_add, Multiset.cons_erase h]
    · exact (add_zero o.2).symm
  rw [add_right_comm, ← hSplit]

theorem others_unregistered {fd : Fd} {o : Holding Fd} (h : fd ∈ o.2) (r : Holding Fd) :
    o + r = (o.1, o.2.erase fd) + r + (0, {fd}) := by
  have hSplit : o = (o.1, o.2.erase fd) + (0, {fd}) := by
    apply Prod.ext
    · exact (add_zero o.1).symm
    · show o.2 = o.2.erase fd + {fd}
      rw [add_comm, Multiset.singleton_add, Multiset.cons_erase h]
  rw [add_right_comm, ← hSplit]

omit [DecidableEq Fd] in
theorem mk_add_left (a b c : Multiset Fd) : ((a + c, b) : Holding Fd) = (a, b) + (c, 0) :=
  Prod.ext rfl (add_zero b).symm

omit [DecidableEq Fd] in
theorem mk_add_right (a b c : Multiset Fd) : ((a, b + c) : Holding Fd) = (a, b) + (0, c) :=
  Prod.ext (add_zero a).symm rfl

omit [DecidableEq Fd] in
/-- The descriptor of another object that is registered is a new one. -/
theorem Booked.fits_register (h : Booked s fs) {fd : Fd} (hHeld : fd ∈ s.others.2) :
    (Call.register (some fd)).Fits fs ↔ s.registered < SELECTOR_SIZE := by
  have hNew : some fd ∉ fs.regfd := by
    intro hMem
    obtain ⟨x, hx, hSame⟩ := h.consistent.registered _ hMem
    cases hSame
    have hDistinct := (Multiset.nodup_add.mp h.consistent.distinct).2.2
    exact Multiset.disjoint_left.mp hDistinct hx (Multiset.mem_add.mpr (.inl hHeld))
  rw [← h.length_regfd]
  exact ⟨fun hFits => hFits.resolve_left hNew, fun hLt => .inr hLt⟩

/-- What other objects do keeps the accounts as well. -/
theorem Booked.stepOther (h : Booked s fs) {c : Call Fd} (hStep : s.stepOther c = some t)
    (hRoom : s.Room (.other c)) : ∃ fs', Booked t fs' := by
  have hInside := h.inside
  have hConsistent := h.consistent
  have hComplete := h.complete
  cases c with
  | opened fd =>
      simp only [Subscriptions.stepOther] at hStep
      split at hStep
      · cases hStep
      next hNew =>
        cases hStep
        refine ⟨fs, .mk_of_eq (add_right_comm _ _ _) h.array hInside (hConsistent.hold hNew)
          ?_ h.finished⟩
        rw [registered_of_hold]
        exact hComplete
  | register fd? =>
      cases fd? with
      | none => cases hStep
      | some fd =>
          simp only [Subscriptions.stepOther] at hStep
          split at hStep
          next hHeld =>
            cases hStep
            have hFits := (h.fits_register hHeld).mpr hRoom
            have hRegistered := Call.selectWithin_of_fits hFits
            rw [others_unregistered hHeld] at hConsistent hComplete
            rw [registered_of_hold] at hComplete
            refine ⟨fs.registerFD (some fd), .mk_of_eq ?_ ?_ (Call.length_select hFits hInside)
              hConsistent.register (complete_register hComplete) h.finished⟩
            · rw [mk_add_left, add_right_comm]
            · rw [h.array, Option.bind_some]
              exact hRegistered
          · cases hStep
  | unregister fd? =>
      cases fd? with
      | none => cases hStep
      | some fd =>
          simp only [Subscriptions.stepOther] at hStep
          split at hStep
          next hHeld =>
            cases hStep
            have hLength : (fs.unregisterFD (some fd)).regfd.length ≤ SELECTOR_SIZE :=
              Call.length_select (c := .unregister (some fd)) trivial hInside
            rw [others_registered hHeld] at hConsistent hComplete
            refine ⟨fs.unregisterFD (some fd), .mk_of_eq ?_ ?_ hLength hConsistent.unregister ?_
              h.finished⟩
            · rw [mk_add_right, add_right_comm]
            · rw [h.array, Option.map_some]
            · rw [registered_of_hold]
              exact complete_unregister hConsistent hComplete
          · cases hStep
  | close fd =>
      simp only [Subscriptions.stepOther] at hStep
      split at hStep
      next hHeld =>
        cases hStep
        rw [others_unregistered hHeld] at hConsistent hComplete
        rw [registered_of_hold] at hComplete
        exact ⟨fs, .mk_of_eq rfl h.array hInside (hConsistent.leak.close hConsistent.unheld) hComplete
          h.finished⟩
      · cases hStep

/-- The sockets of a new record fit exactly if they find entries left. -/
theorem Booked.allFit_listen {connect : Nat → Option Fd} {rp : ReplyProposer} {sip oip : IPString}
    {sport oport : UInt32} {out : LinkDstListener Fd × List Fd × Int} {live : List Fd}
    (h : Booked s fs)
    (hOut : s.listener.listenAddressChange connect rp sip sport oip oport = some out)
    (hKernel : Call.openedAfter (out.2.1.flatMap fun fd => [.opened fd, .register (some fd)])
      s.live = some live) :
    Call.AllFit (out.2.1.flatMap fun fd => [.opened fd, .register (some fd)]) fs ↔
      s.Room (.listenAddressChange connect rp sip sport oip oport) := by
  obtain ⟨hNodup, hFresh⟩ := Call.fresh_of_acquireAll hKernel
  have hNew : ∀ fd ∈ out.2.1, some fd ∉ fs.regfd := by
    intro fd hfd hMem
    obtain ⟨x, hx, hSame⟩ := h.consistent.registered _ hMem
    cases hSame
    exact hFresh fd hfd (h.consistent.isOpen fd (Multiset.mem_add.mpr (.inl hx)))
  rw [Call.allFit_acquireAll hNodup hNew h.inside, h.length_regfd,
    LinkDstListener.listenAddressChange_opened hOut]
  rfl

theorem Booked.listen {connect : Nat → Option Fd} {rp : ReplyProposer} {sip oip : IPString}
    {sport oport : UInt32} (h : Booked s fs)
    (hStep : s.step (.listenAddressChange connect rp sip sport oip oport) = some t)
    (hRoom : s.Room (.listenAddressChange connect rp sip sport oip oport)) : ∃ fs', Booked t fs' := by
  obtain ⟨out, hOut, hRest⟩ := Option.bind_eq_some_iff.mp hStep
  obtain ⟨live, hKernel, hNext⟩ := Option.map_eq_some_iff.mp hRest
  cases hNext
  have hFit := (h.allFit_listen hOut hKernel).mpr hRoom
  have hFinished : ∀ i ∈ s.changed, ∃ ac, out.1.listening[i]? = some ac ∧ ac.Finished := by
    intro i hi
    obtain ⟨ac, hEntry, hDone⟩ := h.finished i hi
    exact ⟨ac, LinkDstListener.listenAddressChange_keeps hOut hEntry, hDone⟩
  exact ⟨_, h.of_accounted (LinkDstListener.listenAddressChange_accounted hOut s.others) hKernel
    hFit hFinished⟩

theorem Booked.read {ready : Fd} {ra : Option ReplyAddress} (h : Booked s fs)
    (hStep : s.step (.readAddressChange ready ra) = some t) : ∃ fs', Booked t fs' := by
  obtain ⟨live, hKernel, hNext⟩ := Option.map_eq_some_iff.mp hStep
  cases hNext
  refine ⟨_, h.of_accounted (s.listener.readAddressChange_accounted ready ra s.others) hKernel
    (Call.allFit_releaseAll _ fs) ?_⟩
  intro i hi
  rcases List.mem_append.mp hi with hOld | hNew
  · obtain ⟨ac, hEntry, hFinished⟩ := h.finished i hOld
    have hKept := LinkDstListener.readAddressChange_keeps ra
      (LinkDstListener.findIdx?_ne_finished ready hEntry hFinished)
    exact ⟨ac, hKept.trans hEntry, hFinished⟩
  · split at hNew
    next hResult =>
      obtain ⟨j, ac, reply, hFound, hEntry, _, _, hChange⟩ :=
        LinkDstListener.readAddressChange_changed hResult
      rw [hFound] at hNew
      cases List.mem_singleton.mp hNew
      obtain ⟨hBound, _⟩ := List.getElem?_eq_some_iff.mp hEntry
      rw [hChange]
      exact ⟨ac.closeAll, List.getElem?_set_self hBound, ac.finished_closeAll⟩
    · cases hNew

/-- Every step that finds room keeps the accounts. -/
theorem Booked.step {call : SubscriptionCall Fd} (h : Booked s fs) (hStep : s.step call = some t)
    (hRoom : s.Room call) : ∃ fs', Booked t fs' := by
  cases call with
  | listenAddressChange connect rp sip sport oip oport => exact h.listen hStep hRoom
  | readAddressChange ready ra => exact h.read hStep
  | other c => exact h.stepOther hStep hRoom

/-- Every other step writes past the array. -/
theorem Booked.room {call : SubscriptionCall Fd} (h : Booked s fs) (hStep : s.step call = some t)
    (hArray : t.array.isSome) : s.Room call := by
  cases call with
  | listenAddressChange connect rp sip sport oip oport =>
      obtain ⟨out, hOut, hRest⟩ := Option.bind_eq_some_iff.mp hStep
      obtain ⟨live, hKernel, hNext⟩ := Option.map_eq_some_iff.mp hRest
      cases hNext
      dsimp only at hArray
      rw [h.array, Option.bind_some, Call.isSome_selectsWithin] at hArray
      exact (h.allFit_listen hOut hKernel).mp hArray
  | readAddressChange ready ra => trivial
  | other c =>
      cases c with
      | opened fd => trivial
      | unregister fd => trivial
      | close fd => trivial
      | register fd? =>
          cases fd? with
          | none => cases hStep
          | some fd =>
              simp only [Subscriptions.step, Subscriptions.stepOther] at hStep
              split at hStep
              next hHeld =>
                cases hStep
                dsimp only at hArray
                rw [h.array, Option.bind_some] at hArray
                obtain ⟨fs', hSome⟩ := Option.isSome_iff_exists.mp hArray
                exact (h.fits_register hHeld).mp (Call.fits_of_selectWithin hSome)
              · cases hStep

theorem Booked.readsOwn (h : Booked s fs) (ready : Fd) (ra : Option ReplyAddress) :
    s.ReadsOwn ready ra := by
  constructor
  · intro i hi
    obtain ⟨ac, hEntry, hFinished⟩ := h.finished i hi
    exact LinkDstListener.findIdx?_ne_finished ready hEntry hFinished
  · intro hForeign
    exact LinkDstListener.readAddressChange_foreign hForeign
  · intro hResult
    obtain ⟨i, ac, reply, _, hEntry, hReply, hNew, hChange⟩ :=
      LinkDstListener.readAddressChange_changed hResult
    exact ⟨ac, List.mem_of_getElem? hEntry, reply, hReply, hNew, by rw [hChange]⟩

theorem Booked.reads (h : Booked s fs) (call : SubscriptionCall Fd) : s.Reads call := by
  cases call with
  | listenAddressChange connect rp sip sport oip oport => trivial
  | readAddressChange ready ra => exact h.readsOwn ready ra
  | other c => trivial

/-- From accounts that are kept, the subscriptions own their sockets exactly as
long as the array has room. -/
theorem owns_iff (h : Booked s fs) (calls : List (SubscriptionCall Fd)) :
    (Transition.Throughout step OwnsSockets s calls ∧ Transition.Along step Reads s calls) ↔
      Transition.Along step Room s calls := by
  apply Transition.throughout_iff_along (I := fun u : Subscriptions Fd => ∃ fs, Booked u fs)
  · exact fun u ⟨_, hInv⟩ => hInv.ownsSockets
  · exact fun u call v ⟨_, hInv⟩ hStep hRoom => ⟨hInv.reads call, hInv.step hStep hRoom⟩
  · rintro u call v ⟨_, hInv⟩ hStep _ hOwns
    obtain ⟨fs', hArray, _⟩ := hOwns.registered
    exact hInv.room hStep (by rw [hArray]; rfl)
  · exact ⟨fs, h⟩

end Invariant

/-- In every run, whatever the connections and the replies, the subscriptions
own their sockets, and reads concern only these, exactly if what is registered
always finds an entry of the array left. -/
theorem subscriptions_own_sockets (calls : List (SubscriptionCall Fd)) :
    (Transition.Throughout step OwnsSockets init calls ∧ Transition.Along step Reads init calls) ↔
      Transition.Along step Room init calls :=
  owns_iff booked_init calls

section ManyLinks

/-- The call for a failed link whose three proposers are connected. The kernel
hands out the descriptors in their order. -/
def failedLinkCall (k : Nat) : SubscriptionCall Nat :=
  .listenAddressChange (fun i => some (3 * k + i)) ⟨noName, List.replicate MAX_PROPOSERS localhost⟩
    localhost 0 localhost 0

def failedLinkRecord (k : Nat) : AddressChange Nat where
  name := noName
  livingcount := 3
  slots := [(localhost, some (3 * k)), (localhost, some (3 * k + 1)), (localhost, some (3 * k + 2))]
  srcip := localhost
  srcport := 0
  oldip := localhost
  oldport := 0

/-- After some failed links nothing else is open. -/
structure Grown (k : Nat) (s : Subscriptions Nat) : Prop where
  live : ∀ fd ∈ s.live, fd < 3 * k
  sockets : s.listener.sockets.length = 3 * k

theorem Grown.kernel {k : Nat} {s : Subscriptions Nat} (h : Grown k s) :
    Call.openedAfter ([3 * k, 3 * k + 1, 3 * k + 2].flatMap fun fd =>
      [Call.opened fd, Call.register (some fd)]) s.live =
        some ([3 * k + 2, 3 * k + 1, 3 * k] ++ s.live) := by
  have hNew : ∀ i, 3 * k + i ∉ s.live := by
    intro i hMem
    have hLt := h.live _ hMem
    omega
  have hFirst : 3 * k ∉ s.live := hNew 0
  have hSecond := hNew 1
  have hThird := hNew 2
  simp [Call.openedAfter, hFirst, hSecond, hThird]

/-- The next failed link is called for, and its three sockets are added. -/
theorem Grown.step {k : Nat} {s : Subscriptions Nat} (h : Grown k s) :
    ∃ t, s.step (failedLinkCall k) = some t ∧ Grown (k + 1) t := by
  have hCall : s.listener.listenAddressChange (fun i => some (3 * k + i))
      ⟨noName, List.replicate MAX_PROPOSERS localhost⟩ localhost 0 localhost 0 =
        some (⟨s.listener.listening ++ [failedLinkRecord k]⟩, [3 * k, 3 * k + 1, 3 * k + 2], 0) :=
    rfl
  have hStep : s.step (failedLinkCall k) = some
      { s with
        listener := ⟨s.listener.listening ++ [failedLinkRecord k]⟩
        array := s.array.bind (Call.selectsWithin ([3 * k, 3 * k + 1, 3 * k + 2].flatMap fun fd =>
          [.opened fd, .register (some fd)]))
        live := [3 * k + 2, 3 * k + 1, 3 * k] ++ s.live } := by
    rw [failedLinkCall, Subscriptions.step, hCall, Option.bind_some]
    dsimp only
    rw [h.kernel, Option.map_some]
  refine ⟨_, hStep, ?_, ?_⟩
  · intro fd hfd
    rcases List.mem_append.mp hfd with hNew | hOld
    · simp only [List.mem_cons, List.not_mem_nil, or_false] at hNew
      omega
    · have hLt := h.live fd hOld
      omega
  · have hLength := h.sockets
    unfold LinkDstListener.sockets at hLength ⊢
    rw [List.flatMap_append, List.length_append, hLength]
    show 3 * k + 3 = _
    omega

/-- The array has room for no more of them than it has entries. -/
theorem Grown.room {n k : Nat} {s : Subscriptions Nat} (h : Grown k s)
    (hInside : 3 * k ≤ SELECTOR_SIZE)
    (hRoom : Transition.Along Subscriptions.step Room s ((List.range' k n).map failedLinkCall)) :
    3 * (k + n) ≤ SELECTOR_SIZE := by
  induction n generalizing k s with
  | zero => exact hInside
  | succ n ih =>
      obtain ⟨t, hStep, hNext⟩ := h.step
      obtain ⟨hFirst, hRest⟩ := hRoom t hStep
      have hEntries : s.registered + 3 ≤ SELECTOR_SIZE := hFirst
      have hSockets : 3 * k ≤ s.registered := by
        rw [← h.sockets]
        exact Nat.le_add_right _ _
      have hBound := ih hNext (by omega) hRest
      omega

/-- With 134 failed links a registration leaves the array. -/
theorem not_owns_manyLinks :
    ¬ ∀ calls : List (SubscriptionCall Nat),
      Transition.Throughout step OwnsSockets init calls ∧
        Transition.Along step Reads init calls := by
  intro h
  have hGrown : Grown 0 (init : Subscriptions Nat) :=
    ⟨fun fd hfd => absurd hfd List.not_mem_nil, rfl⟩
  have hRoom := (owns_iff booked_init _).mp (h ((List.range' 0 134).map failedLinkCall))
  exact absurd (hGrown.room (Nat.zero_le _) hRoom) (by decide)

end ManyLinks

end Subscriptions

end QpidRecovery.Proposer
