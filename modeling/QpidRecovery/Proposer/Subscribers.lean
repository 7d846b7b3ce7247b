import QpidRecovery.Library.Trace
import QpidRecovery.Proposer.Refinement

/-! Who is told the new address of a recovered service. A subscriber is only
remembered by the record of its service, so it is told as long as no request
replaces a record that has subscribers. -/
namespace QpidRecovery.Proposer

open Trace

variable {Fd : Type}

/-- After a subscription, every recovery committed while no write to the socket
has failed is followed by a write of the new address to it. -/
def InformedSince (name : ServiceName) (sfd : Fd) (after : List (Output Fd)) : Prop :=
  ∀ between rp r stored rest, after = between ++ .committed name rp r stored :: rest →
    (∀ a, .inform sfd a false ∉ between) →
      ∃ written, .inform sfd ⟨name, rp.backupip, rp.backupport⟩ written ∈ rest

/-- No subscriber is lost. In a state between two iterations, what follows a
commit in the trace begins with the rest of its own iteration. -/
def SubscribersInformed (t : List (Output Fd)) : Prop :=
  AfterEach (fun a after => ∀ name sfd, a = .subscribed name sfd → InformedSince name sfd after) t

/-- No request replaces a record that has subscribers. -/
def unsubscribedReplaced : Condition Fd where
  replaced := fun mon => mon.informlist = []

/-- The record of the service still has the socket. -/
def Remembers (monitor : List (Monitored Fd)) (name : ServiceName) (sfd : Fd) : Prop :=
  ∃ mon ∈ monitor, mon.name = name ∧ sfd ∈ mon.informlist

/-- What holds after a subscription: it was served so far, and its socket is
remembered unless a write to it failed. -/
structure Served (monitor : List (Monitored Fd)) (name : ServiceName) (sfd : Fd)
    (after : List (Output Fd)) : Prop where
  informed : InformedSince name sfd after
  remembered : (∀ a, .inform sfd a false ∉ after) → Remembers monitor name sfd

def AllServed (l : Ledger Fd) : Prop :=
  AfterEach (fun a after => ∀ name sfd, a = .subscribed name sfd →
    Served l.monitor name sfd after) l.trace

section Informs
variable {written : Fd → Bool} {r : ReplyAddress} {sockets : List Fd} {sfd : Fd}

/-- Every socket of the list is written to. -/
theorem mem_informs (written : Fd → Bool) (r : ReplyAddress) (h : sfd ∈ sockets) :
    .inform sfd r (written sfd) ∈ informs written r sockets :=
  List.mem_flatMap.mpr ⟨sfd, h, List.mem_cons_self⟩

/-- A socket whose write did not fail stays in the list. -/
theorem mem_filter_of_informs {new : List (Output Fd)} (h : sfd ∈ sockets)
    (hSub : informs written r sockets ⊆ new) (hNone : ∀ a, .inform sfd a false ∉ new) :
    sfd ∈ sockets.filter written := by
  refine List.mem_filter.mpr ⟨h, ?_⟩
  by_contra hFailed
  have hMem := mem_informs written r h
  rw [Bool.not_eq_true] at hFailed
  rw [hFailed] at hMem
  exact hNone r (hSub hMem)

end Informs

theorem informedSince_nil (name : ServiceName) (sfd : Fd) : InformedSince name sfd [] := by
  intro between rp r stored rest hSplit
  simp at hSplit

/-- A block without commits adds nothing to serve. -/
theorem InformedSince.append {name : ServiceName} {sfd : Fd} {after new : List (Output Fd)}
    (h : InformedSince name sfd after)
    (hNew : ∀ between rp r stored rest, new = between ++ .committed name rp r stored :: rest →
      (∀ a, .inform sfd a false ∉ after) →
        ∃ written, .inform sfd ⟨name, rp.backupip, rp.backupport⟩ written ∈ rest) :
    InformedSince name sfd (after ++ new) := by
  intro between rp r stored rest hSplit hNone
  rcases split_append hSplit with ⟨rest', hOld, rfl⟩ | ⟨between', rfl, hBlock⟩
  · obtain ⟨written, hMem⟩ := h between rp r stored rest' hOld hNone
    exact ⟨written, List.mem_append_left new hMem⟩
  · exact hNew between' rp r stored rest hBlock
      fun a hMem => hNone a (List.mem_append_left between' hMem)

theorem ne_of_quiet {new before rest : List (Output Fd)} {e : Output Fd}
    (hQuiet : ∀ e ∈ new, ¬ e.Marks) (hMark : e.Marks) : new ≠ before ++ e :: rest := by
  rintro rfl
  exact hQuiet e (by simp) hMark

/-- The only marking entry of a block is its first. -/
theorem eq_of_quiet_tail {new before rest : List (Output Fd)} {e e' : Output Fd}
    (h : e :: new = before ++ e' :: rest) (hQuiet : ∀ e ∈ new, ¬ e.Marks) (hMark : e'.Marks) :
    e = e' ∧ new = rest := by
  cases before with
  | nil => exact List.cons.inj h
  | cons _ before => exact absurd (List.cons.inj h).2 (ne_of_quiet hQuiet hMark)

section Changes
variable {Id : Type} [DecidableEq Id] {ok : Condition Fd} {mon mon' : Monitored Fd}
  {new : List (Output Fd)}

/-- A socket leaves the record only when a write to it fails. -/
theorem Change.keeps (h : Change Id ok mon mon' new) {sfd : Fd} (hMem : sfd ∈ mon.informlist)
    (hNone : ∀ a, .inform sfd a false ∉ new) : sfd ∈ mon'.informlist := by
  cases h with
  | inform written => exact mem_filter_of_informs hMem (List.Subset.refl _) hNone
  | subscribe newsfd => exact List.mem_append_left _ hMem
  | commitSelf _ rp =>
      refine mem_filter_of_informs (r := ⟨mon.name, rp.backupip, rp.backupport⟩) hMem ?_ hNone
      exact List.subset_cons_of_subset _ (List.subset_append_right _ _)
  | commitOther rp =>
      refine mem_filter_of_informs (r := ⟨mon.name, rp.backupip, rp.backupport⟩) hMem ?_ hNone
      exact List.subset_cons_of_subset _ (List.Subset.refl _)
  | _ => exact hMem

theorem commit_quiet (calls : List RecoveryCall) (effects : List (Effect Fd))
    (written : Fd → Bool) (r : ReplyAddress) (sockets : List Fd) :
    ∀ e ∈ calls.map .recovery ++ effects.map .effect ++ informs written r sockets,
      ¬ e.Marks := by
  intro e he
  rcases List.mem_append.mp he with hFirst | hInform
  · rcases List.mem_append.mp hFirst with hCall | hEffect
    · exact calls_quiet calls e hCall
    · exact effects_quiet effects e hEffect
  · exact informs_quiet written r sockets e hInform

/-- A recovery commit belongs to the record's service, and every socket of the
record is written to after it. -/
theorem Change.serves (h : Change Id ok mon mon' new) {between rest : List (Output Fd)}
    {name : ServiceName} {rp : RecoveryProposal} {r : PaxosResult} {stored : List Operation}
    (hSplit : new = between ++ .committed name rp r stored :: rest) :
    name = mon.name ∧ ∀ sfd ∈ mon.informlist,
      ∃ written, .inform sfd ⟨name, rp.backupip, rp.backupport⟩ written ∈ rest := by
  cases h with
  | beat => simp at hSplit
  | timeout => simp at hSplit
  | message => exact absurd hSplit (ne_of_quiet (effects_quiet _) trivial)
  | inform => exact absurd hSplit (ne_of_quiet (informs_quiet _ _ _) trivial)
  | subscribe newsfd =>
      have hMem : Output.committed name rp r stored ∈
          [Output.inform newsfd mon.address true, .subscribed mon.name newsfd] := by
        rw [hSplit]
        simp
      simp at hMem
  | propose => exact absurd hSplit (ne_of_quiet (effects_quiet _) trivial)
  | commitSelf now rp' rm reply calls returned written =>
      obtain ⟨hMark, rfl⟩ := eq_of_quiet_tail hSplit (commit_quiet _ _ _ _ _) trivial
      cases hMark
      exact ⟨rfl, fun sfd hMem => ⟨written sfd, List.mem_append_right _ (mem_informs written _ hMem)⟩⟩
  | commitOther rp' stored' written =>
      obtain ⟨hMark, rfl⟩ := eq_of_quiet_tail hSplit (informs_quiet _ _ _) trivial
      cases hMark
      exact ⟨rfl, fun sfd hMem => ⟨written sfd, mem_informs written _ hMem⟩⟩
  | commitAcceptors =>
      cases (eq_of_quiet_tail hSplit (effects_quiet _) trivial).1

/-- A subscription ends its block, and the record has the socket. -/
theorem Change.subscribes (h : Change Id ok mon mon' new) {before after : List (Output Fd)}
    {name : ServiceName} {sfd : Fd} (hSplit : new = before ++ .subscribed name sfd :: after) :
    after = [] ∧ name = mon'.name ∧ sfd ∈ mon'.informlist := by
  cases h with
  | beat => simp at hSplit
  | timeout => simp at hSplit
  | message => exact absurd hSplit (ne_of_quiet (effects_quiet _) trivial)
  | inform => exact absurd hSplit (ne_of_quiet (informs_quiet _ _ _) trivial)
  | subscribe newsfd =>
      cases before with
      | nil => cases (List.cons.inj hSplit).1
      | cons _ before =>
          have hQuiet : ∀ e ∈ ([] : List (Output Fd)), ¬ e.Marks := by simp
          obtain ⟨hMark, rfl⟩ := eq_of_quiet_tail (List.cons.inj hSplit).2 hQuiet trivial
          cases hMark
          exact ⟨rfl, rfl, List.mem_append_right _ (List.mem_singleton_self _)⟩
  | propose => exact absurd hSplit (ne_of_quiet (effects_quiet _) trivial)
  | commitSelf =>
      cases (eq_of_quiet_tail hSplit (commit_quiet _ _ _ _ _) trivial).1
  | commitOther =>
      cases (eq_of_quiet_tail hSplit (informs_quiet _ _ _) trivial).1
  | commitAcceptors =>
      cases (eq_of_quiet_tail hSplit (effects_quiet _) trivial).1

end Changes

section Moves
variable {Id : Type} [DecidableEq Id]

/-- Another record takes the place of one whose sockets it keeps. -/
theorem Remembers.set {monitor : List (Monitored Fd)} {j : Nat} {mon mon' : Monitored Fd}
    {name : ServiceName} {sfd : Fd} (h : Remembers monitor name sfd)
    (hMon : monitor[j]? = some mon) (hName : mon'.name = mon.name)
    (hKeeps : sfd ∈ mon.informlist → sfd ∈ mon'.informlist) :
    Remembers (monitor.set j mon') name sfd := by
  obtain ⟨found, hFound, hOwn, hMem⟩ := h
  obtain ⟨k, hk⟩ := List.mem_iff_getElem?.mp hFound
  by_cases hSame : k = j
  · subst hSame
    rw [hMon] at hk
    cases hk
    have hBound := (List.getElem?_eq_some_iff.mp hMon).1
    exact ⟨mon', List.mem_set hBound mon', hName.trans hOwn, hKeeps hMem⟩
  · refine ⟨found, List.mem_of_getElem? (i := k) ?_, hOwn, hMem⟩
    rw [List.getElem?_set_ne (Ne.symm hSame), hk]

theorem Served.change {l : Ledger Fd} (hNames : WellNamed l) {j : Nat} {mon mon' : Monitored Fd}
    {new after : List (Output Fd)} {name : ServiceName} {sfd : Fd}
    (h : Served l.monitor name sfd after) (hMon : l.monitor[j]? = some mon)
    (hChange : Change Id unsubscribedReplaced mon mon' new) :
    Served (l.monitor.set j mon') name sfd (after ++ new) where
  informed := by
    refine h.informed.append ?_
    intro between rp r stored rest hSplit hNone
    obtain ⟨hName, hServes⟩ := hChange.serves hSplit
    obtain ⟨found, hFound, hOwn, hMem⟩ := h.remembered hNone
    have hSame : found = mon :=
      hNames.eq hFound (List.mem_of_getElem? hMon) (hOwn.trans hName)
    exact hServes sfd (hSame ▸ hMem)
  remembered := by
    intro hNone
    have hOld := h.remembered fun a hMem => hNone a (List.mem_append_left new hMem)
    exact hOld.set hMon hChange.name fun hMem =>
      hChange.keeps hMem fun a hFailed => hNone a (List.mem_append_right after hFailed)

/-- A block without commits and subscriptions. -/
theorem Served.quiet {monitor monitor' : List (Monitored Fd)} {new after : List (Output Fd)}
    {name : ServiceName} {sfd : Fd} (h : Served monitor name sfd after)
    (hQuiet : ∀ e ∈ new, ¬ e.Marks)
    (hKeeps : Remembers monitor name sfd → Remembers monitor' name sfd) :
    Served monitor' name sfd (after ++ new) where
  informed := h.informed.append fun _ _ _ _ _ hSplit _ =>
    absurd hSplit (ne_of_quiet hQuiet trivial)
  remembered := fun hNone =>
    hKeeps (h.remembered fun a hMem => hNone a (List.mem_append_left new hMem))

theorem afterEach_quiet {monitor : List (Monitored Fd)} {new : List (Output Fd)}
    (hQuiet : ∀ e ∈ new, ¬ e.Marks) :
    AfterEach (fun a after => ∀ name sfd, a = .subscribed name sfd →
      Served monitor name sfd after) new := by
  apply afterEach_of_forall
  intro a ha _ name sfd hSubscribed
  subst hSubscribed
  exact absurd trivial (hQuiet _ ha)

theorem AllServed.move {l l' : Ledger Fd} (hNames : WellNamed l) (h : AllServed l)
    (hMove : Move Id unsubscribedReplaced l l') : AllServed l' := by
  cases hMove with
  | quiet new hSilent =>
      have hQuiet : ∀ e ∈ new, ¬ e.Marks := fun e he => (hSilent e he).1
      refine AfterEach.append h ?_ (afterEach_quiet hQuiet)
      intro a after _ hServed name sfd hSubscribed
      exact (hServed name sfd hSubscribed).quiet hQuiet id
  | @change j mon mon' new hMon hChange =>
      refine AfterEach.append h ?_ ?_
      · intro a after _ hServed name sfd hSubscribed
        exact (hServed name sfd hSubscribed).change hNames hMon hChange
      · intro before a after hSplit name sfd hSubscribed
        subst hSubscribed
        obtain ⟨rfl, hName, hMem⟩ := hChange.subscribes hSplit
        have hBound := (List.getElem?_eq_some_iff.mp hMon).1
        exact ⟨informedSince_nil name sfd,
          fun _ => ⟨mon', List.mem_set hBound mon', hName.symm, hMem⟩⟩
  | replace mon' new _ hOk _ _ _ hSilent =>
      have hQuiet : ∀ e ∈ new, ¬ e.Marks := fun e he => (hSilent e he).1
      refine AfterEach.append h ?_ (afterEach_quiet hQuiet)
      intro a after _ hServed name sfd hSubscribed
      refine (hServed name sfd hSubscribed).quiet hQuiet ?_
      rintro ⟨mon, hMon, hName, hMem⟩
      have hOther : mon.name ≠ mon'.name := by
        intro hSame
        rw [show mon.informlist = [] from hOk mon hMon hSame] at hMem
        cases hMem
      refine ⟨mon, List.mem_append_left _ ?_, hName, hMem⟩
      exact (List.mem_eraseP_of_neg (by simpa using hOther)).mpr hMon

variable [DecidableEq Fd]

/-- Every subscriber is informed in every run in which no request replaces a
record that has subscribers. -/
theorem subscribers_informed (start : Time) (recoveryfd requestsfd querysfd : Option Fd)
    (backupbrokers : List Text) (s : State Fd Id)
    (run : Transition.Run step (Permits unsubscribedReplaced)
      (State.init start recoveryfd requestsfd querysfd backupbrokers) s) :
    SubscribersInformed s.trace := by
  have hBoth : WellNamed s.ledger ∧ AllServed s.ledger :=
    run_invariant (P := fun l => WellNamed l ∧ AllServed l) run
      ⟨⟨List.nodup_nil, by simp [State.init, State.ledger]⟩, AfterEach.nil⟩
      fun _ _ h hMove => ⟨h.1.move hMove, AllServed.move h.1 h.2 hMove⟩
  exact hBoth.2.mono fun _ _ hServed name sfd hSubscribed => (hServed name sfd hSubscribed).informed

end Moves

section OneBroker

/-- A subscriber is accepted, the requestor changes its acceptors, and the
broker is lost after that. -/
def replaceRecord : List (Action Nat Nat) :=
  [watchBroker 1, .query 20 brokerService (allConnected 1), watchBroker 2,
    .ready 10 .failed (allConnected 1),
    .ready 11 (.received ⟨3, brokerService, .phase1Ack⟩) (allConnected 1),
    .ready 11 (.received ⟨3, brokerService, .phase2Ack⟩) (allConnected 1)]

theorem subscriber_not_informed :
    ¬ ∀ s : State Nat Nat, Transition.Run step (fun _ _ => True) oneBackup s →
      SubscribersInformed s.trace := by
  intro h
  have hExec : (Transition.exec step oneBackup replaceRecord).map (fun s => s.trace.drop 2) =
      some (.subscribed brokerService 20 ::
        ([.effect (.unregisterFD 11), .effect (.close 11), .effect (.registerFD 11),
          .effect (.send 11
            ⟨3, brokerService, .phase1Proposal (.recoveryProposal (moveToBackup 3))⟩),
          .effect (.send 11
            ⟨3, brokerService, .phase2Request (.recoveryProposal (moveToBackup 3))⟩)] ++
        .committed brokerService (moveToBackup 3) .committingSelf [] ::
        [.recovery (.contact (IPPortToUrl localhost 5673) 1),
          .effect (.send 11
            ⟨3, brokerService, .phase3Commit (.recoveryProposal (moveToBackup 3))⟩),
          .effect (.unregisterFD 11), .effect (.close 11)])) := by
    decide
  obtain ⟨s, hs, hTrace⟩ := Option.map_eq_some_iff.mp hExec
  have hInformed := h s (Transition.Run.of_exec (fun _ _ _ => trivial) hs)
  have hSplit := (List.take_append_drop 2 s.trace).symm
  rw [hTrace] at hSplit
  obtain ⟨written, hMem⟩ :=
    hInformed _ _ _ hSplit brokerService 20 rfl _ _ _ _ _ rfl (by simp)
  simp at hMem

/-- The subscriber asks only after the last request for its service. -/
theorem subscribers_informed_oneBackup :
    ∃ s : State Nat Nat, .inform 20 ⟨brokerService, localhost, 5673⟩ true ∈ s.trace ∧
      SubscribersInformed s.trace := by
  have hExec : (Transition.exec step oneBackup
      [watchBroker 1, .query 20 brokerService (allConnected 1),
        .ready 10 .failed (allConnected 1),
        .ready 11 (.received ⟨2, brokerService, .phase1Ack⟩) (allConnected 1),
        .ready 11 (.received ⟨2, brokerService, .phase2Ack⟩) (allConnected 1)]).map
      (fun s => decide (.inform 20 ⟨brokerService, localhost, 5673⟩ true ∈ s.trace)) =
      some true := by
    decide
  obtain ⟨s, hs, hMem⟩ := Option.map_eq_some_iff.mp hExec
  obtain ⟨u, hFirst, hRest⟩ := Option.bind_eq_some_iff.mp hs
  have hWatch : Permits unsubscribedReplaced oneBackup (watchBroker 1) := by
    refine ⟨trivial, ?_⟩
    intro mon hMon
    cases hMon
  refine ⟨s, of_decide_eq_true hMem, subscribers_informed 0 (some 0) (some 1) (some 2) _ s
    (((Transition.Run.refl _).tail hWatch hFirst).trans (Transition.Run.of_exec ?_ hRest))⟩
  intro v action hAction
  simp only [List.mem_cons, List.not_mem_nil, or_false] at hAction
  rcases hAction with rfl | rfl | rfl | rfl
  · trivial
  · exact ⟨trivial, fun _ _ => ⟨trivial, fun _ _ => trivial⟩⟩
  · exact ⟨trivial, fun _ _ => ⟨trivial, fun _ _ => trivial⟩⟩
  · exact ⟨trivial, fun _ _ => ⟨trivial, fun _ _ => trivial⟩⟩

end OneBroker

end QpidRecovery.Proposer
