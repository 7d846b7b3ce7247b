import QpidRecovery.Library.Trace
import QpidRecovery.Proposer.Frame

/-! What a recovery copies. The stored objects do not change while the main loop
serves anything but an event, so every commit of an iteration sees those that
were there at its start. -/
namespace QpidRecovery.Proposer

open Trace

variable {Fd Id : Type} [DecidableEq Id]

/-- What is noted and copied at the commits of a block comes from one manager's
objects. -/
def Copies (rm : RecoveryManager Id) (new : List (Output Fd)) : Prop :=
  AfterEach (fun a after => ∀ name rp r stored, a = .committed name rp r stored →
    stored = rm.storedCreations (IPPortToUrl rp.failip rp.failport) ∧
      (r = .committingSelf → ∃ reply calls returned rest,
        rm.copyObjects rp.failip rp.failport rp.backupip rp.backupport reply =
          some (calls, returned) ∧
        after = calls.map .recovery ++ rest)) new

section Copies
variable {rm : RecoveryManager Id} {new new' : List (Output Fd)}

/-- Two traces of recoveries from one store. -/
theorem Copies.append (h : Copies rm new) (hNew : Copies rm new') : Copies rm (new ++ new') := by
  refine AfterEach.append h ?_ hNew
  intro a after _ hAfter name rp r stored hCommitted
  obtain ⟨hStored, hCopied⟩ := hAfter name rp r stored hCommitted
  refine ⟨hStored, fun hSelf => ?_⟩
  obtain ⟨reply, calls, returned, rest, hCopy, rfl⟩ := hCopied hSelf
  exact ⟨reply, calls, returned, rest ++ new', hCopy, List.append_assoc _ _ _⟩

/-- Nothing is recovered where nothing is committed. -/
theorem copies_of_quiet (hQuiet : ∀ name rp r stored, Output.committed name rp r stored ∉ new) :
    Copies rm new := by
  apply afterEach_of_forall
  intro a ha _ name rp r stored hCommitted
  subst hCommitted
  exact absurd ha (hQuiet name rp r stored)

/-- Nor where nothing is marked. -/
theorem copies_of_unmarked (hQuiet : ∀ e ∈ new, ¬ e.Marks) : Copies rm new :=
  copies_of_quiet fun _ _ _ _ hMem => hQuiet _ hMem trivial

end Copies

/-- `RecoveryManager::handleEvent`: the object that an event reports is stored. -/
def ListenerEvent.apply (le : ListenerEvent Id) (rm : RecoveryManager Id) : RecoveryManager Id :=
  match le with
  | .objectProperty objinfo => (rm.addObjectInfo objinfo).1
  | .brokerDisconnection _ _ | .linkDown _ _ _ _ => rm

/-- The manager has these objects, whatever brokers it knows. -/
def Holds (rm : RecoveryManager Id) (s : State Fd Id) : Prop :=
  s.recovery = { rm with bavec := s.recovery.bavec }

/-- Whatever was committed in between was copied from these objects. -/
structure Copied (rm : RecoveryManager Id) (s t : State Fd Id) : Prop where
  kept : t.recovery = { s.recovery with bavec := t.recovery.bavec }
  copies : Holds rm s → ∃ new, t.trace = s.trace ++ new ∧ Copies rm new

section Parts
variable {rm : RecoveryManager Id} {s t u : State Fd Id} {mon mon' : Monitored Fd}

/-- What is stored stays stored. -/
theorem Copied.holds (h : Copied rm s t) (hHolds : Holds rm s) : Holds rm t := by
  unfold Holds at hHolds ⊢
  rw [h.kept, hHolds]

theorem Copied.trans (left : Copied rm s t) (right : Copied rm t u) : Copied rm s u where
  kept := by
    rw [right.kept, left.kept]
  copies := by
    intro hHolds
    obtain ⟨new, hTrace, hCopies⟩ := left.copies hHolds
    obtain ⟨new', hTrace', hCopies'⟩ := right.copies (left.holds hHolds)
    refine ⟨new ++ new', ?_, hCopies.append hCopies'⟩
    rw [hTrace', hTrace, List.append_assoc]

/-- Nothing was committed. -/
theorem Copied.of_unmarked (new : List (Output Fd))
    (hKept : t.recovery = { s.recovery with bavec := t.recovery.bavec })
    (hTrace : t.trace = s.trace ++ new) (hQuiet : ∀ e ∈ new, ¬ e.Marks) : Copied rm s t :=
  ⟨hKept, fun _ => ⟨new, hTrace, copies_of_unmarked hQuiet⟩⟩

theorem Copied.of_same (hRecovery : t.recovery = s.recovery) (hTrace : t.trace = s.trace) :
    Copied rm s t := by
  refine .of_unmarked [] ?_ ?_ (fun _ hNone => by cases hNone)
  · rw [hRecovery]
  · rw [hTrace, List.append_nil]

/-- Only the records, the descriptors and the like may differ from there. -/
theorem Copied.congr (h : Copied rm s t) (hRecovery : u.recovery = t.recovery)
    (hTrace : u.trace = t.trace) : Copied rm s u :=
  h.trans (.of_same hRecovery hTrace)

/-- Informing the subscribers recovers nothing. -/
theorem informAll_copied (written : Fd → Bool) (mon : Monitored Fd) (s : State Fd Id) :
    Copied rm s (informAll written mon s).2 :=
  .of_unmarked _ rfl rfl (informs_quiet _ _ _)

/-- Nor does a query. -/
theorem handleQuery_copied (o : Outcomes Fd) (newsfd : Fd) (name : ServiceName) (s : State Fd Id) :
    Copied rm s (handleQuery o newsfd name s) := by
  unfold handleQuery
  split
  · exact .of_unmarked [.effect (.close newsfd)] rfl rfl (effects_quiet [.close newsfd])
  · split
    · exact .of_same rfl rfl
    next mon _ =>
      unfold addInformList
      dsimp only
      have hInformed : Copied rm s (s.log (informs o.written mon.address [newsfd])) :=
        .of_unmarked _ rfl rfl (informs_quiet _ _ _)
      split
      · have hSubscribed : Copied rm (s.log (informs o.written mon.address [newsfd]))
            ((s.log (informs o.written mon.address [newsfd])).log
              [.subscribed mon.name newsfd]) := by
          refine ⟨rfl, fun _ => ⟨_, rfl, copies_of_quiet ?_⟩⟩
          intro name rp r stored hMem
          cases List.mem_singleton.mp hMem
        exact (hInformed.trans hSubscribed).congr rfl rfl
      · exact hInformed.congr rfl rfl

variable [DecidableEq Fd]

theorem perform_copied (effects : List (Effect Fd)) (s : State Fd Id) :
    Copied rm s (s.perform effects) :=
  .of_unmarked _ rfl rfl (effects_quiet _)

/-- Nor does a request. -/
theorem handleRequest_copied (o : Outcomes Fd) (fromip : IPString) (r : ParticipateRequest)
    (s : State Fd Id) : Copied rm s (handleRequest o fromip r s) := by
  have hErase : Copied rm s (eraseMonitored r.name s) := by
    unfold eraseMonitored
    split
    · exact .of_same rfl rfl
    · split
      · exact .of_same rfl rfl
      · exact (perform_copied _ s).congr rfl rfl
  have hKept := (handleRequest_kept o fromip r s).objects
  refine ⟨hKept, fun hHolds => ?_⟩
  obtain ⟨new, hTrace, hCopies⟩ := hErase.copies hHolds
  refine ⟨new ++ (ProposerStateMachine.new (eraseMonitored r.name s).now o.paxos r.name
    r.votingversion ⟨r.committedversion, r.acceptor⟩).2.map .effect, ?_,
    hCopies.append (copies_of_unmarked (effects_quiet _))⟩
  rw [← List.append_assoc, ← hTrace]
  rfl

/-- A committed recovery copies what is stored. -/
theorem commitRecovery_copied {o : Outcomes Fd} {r : PaxosResult} {rp : RecoveryProposal}
    (h : commitRecovery o r rp mon s = some (mon', t)) : Copied rm s t := by
  unfold commitRecovery at h
  dsimp only at h
  split at h
  next hSelf =>
    obtain ⟨⟨calls, returned⟩, hCopy, hOut⟩ := Option.map_eq_some_iff.mp h
    cases hOut
    refine ⟨rfl, fun hHolds => ?_⟩
    obtain ⟨bavec, hObjects⟩ : ∃ bavec, s.recovery = { rm with bavec := bavec } := ⟨_, hHolds⟩
    have hCopied : s.recovery.copyObjects rp.failip rp.failport rp.backupip rp.backupport o.backup =
        some (calls, returned) := hCopy
    rw [hObjects] at hCopied
    have hBlock : Copies rm (.committed mon.name rp r
        (s.recovery.storedCreations (IPPortToUrl rp.failip rp.failport)) ::
          (calls.map .recovery : List (Output Fd))) := by
      refine AfterEach.cons ?_ (copies_of_unmarked (calls_quiet calls))
      intro name' rp' r' stored' hCommitted
      cases hCommitted
      rw [hObjects]
      exact ⟨rfl, fun _ => ⟨o.backup, calls, returned, [], hCopied, (List.append_nil _).symm⟩⟩
    refine ⟨_, ?_, (hBlock.append (copies_of_unmarked (effects_quiet
      (mon.psm.sendCommitment s.now).2))).append (copies_of_unmarked (informs_quiet o.written
        ⟨mon.name, rp.backupip, rp.backupport⟩ mon.informlist))⟩
    simp only [State.log, State.perform, Monitored.address, List.append_assoc,
      List.cons_append, List.nil_append]
  next hOther =>
    cases h
    refine ⟨rfl, fun hHolds => ?_⟩
    obtain ⟨bavec, hObjects⟩ : ∃ bavec, s.recovery = { rm with bavec := bavec } := ⟨_, hHolds⟩
    have hBlock : Copies rm [(.committed mon.name rp r
        (s.recovery.storedCreations (IPPortToUrl rp.failip rp.failport)) : Output Fd)] := by
      refine AfterEach.cons ?_ AfterEach.nil
      intro name' rp' r' stored' hCommitted
      cases hCommitted
      rw [hObjects]
      exact ⟨rfl, fun hSelf => absurd hSelf hOther⟩
    refine ⟨_, ?_, hBlock.append (copies_of_unmarked (informs_quiet o.written
      ⟨mon.name, rp.backupip, rp.backupport⟩ mon.informlist))⟩
    simp only [State.log, Monitored.address, List.append_assoc]

/-- So a commit recovers from the store, if at all. -/
theorem handleCommit_copied {o : Outcomes Fd} {r : PaxosResult} {returned : Int}
    (h : handleCommit o r mon s = some ((mon', t), returned)) : Copied rm s t := by
  cases handleCommit_commit h with
  | nothing | empty => exact .of_same rfl rfl
  | recovered rp _ _ hCommit => exact commitRecovery_copied hCommit
  | changed ap =>
      have hChanged : Copied rm s (s.log [.changed mon.name ap r]) := by
        refine ⟨rfl, fun _ => ⟨_, rfl, copies_of_quiet ?_⟩⟩
        intro name rp r stored hMem
        cases List.mem_singleton.mp hMem
      exact (hChanged.trans (perform_copied _ _)).trans (perform_copied _ _)

/-- So does a message, which may commit. -/
theorem handlePaxosMessage_copied {o : Outcomes Fd} {ready : Fd} {m : PaxosMessage} {n i : Nat}
    (h : handlePaxosMessage o ready m n i s = some t) : Copied rm s t := by
  rcases handlePaxosMessage_cases h with ⟨rfl, _⟩ | ⟨j, mon, r, _, _, hRest⟩
  · exact .of_same rfl rfl
  · have hMessage : Copied rm s ((s.perform r.effects).put j { mon with psm := r.machine }) :=
      (perform_copied r.effects s).congr rfl rfl
    rcases hRest with ⟨_, rfl⟩ | ⟨_, mon', s', hCommit, rfl⟩
    · exact hMessage
    · exact (hMessage.trans (handleCommit_copied hCommit)).congr rfl rfl

/-- So does a lost heartbeat, which may commit at once. -/
theorem startRecovery_copied {o : Outcomes Fd} (h : startRecovery o mon s = some (mon', t)) :
    Copied rm s t := by
  obtain ⟨hbc, _, rest, _, _, r, _, _, _, _, _, hCommit⟩ := startRecovery_cases h
  have hDeleted : Copied rm s { s with
      fs := s.fs.unregisterFD hbc.sfd
      recovery := s.recovery.deleteBroker mon.ip mon.port
      backupbrokers := rest } :=
    .of_unmarked [] rfl (List.append_nil _).symm (fun _ hNone => by cases hNone)
  exact (hDeleted.trans (perform_copied _ _)).trans (handleCommit_copied hCommit)

/-- So does a look at a record. -/
theorem checkMonitored_copied {o : Nat → Outcomes Fd} {i : Nat}
    (h : checkMonitored o i s = some t) : Copied rm s t := by
  cases hMon : s.monitor[i]? with
  | none =>
      rw [checkMonitored, hMon] at h
      cases h
      exact .of_same rfl rfl
  | some mon =>
      obtain ⟨out, hOut, hEnd⟩ := checkMonitored_result hMon h
      have hInform : Copied rm s out.2 := by
        rcases hOut with rfl | rfl
        · exact .of_same rfl rfl
        · exact informAll_copied _ _ _
      rcases hEnd with rfl | ⟨started, hStart, rfl⟩
      · exact hInform.congr rfl rfl
      · exact (hInform.trans (startRecovery_copied hStart)).congr rfl rfl

/-- So does the timeout branch. -/
theorem checkAll_copied {o : Nat → Outcomes Fd} {n : Nat} (h : checkAll o n s = some t) :
    Copied rm s t := by
  induction n generalizing t with
  | zero =>
      cases h
      exact .of_same rfl rfl
  | succ n ih =>
      obtain ⟨u, hFirst, hLast⟩ := Option.bind_eq_some_iff.mp h
      exact (ih hFirst).trans (checkMonitored_copied hLast)

omit [DecidableEq Fd] in
/-- The objects of a rerouted link stay stored. -/
theorem startRerouting_copied {o : Outcomes Fd} {link : AddressChange Fd} {newip : IPString}
    {newport : UInt32} (h : startRerouting o link newip newport s = some t) : Copied rm s t := by
  rcases startRerouting_cases h with ⟨_, rfl⟩ | ⟨_, rm', calls, _, hReroute, rfl⟩
  · exact .of_same rfl rfl
  · have hAdd : ∀ (ip : IPString) (port : UInt32), s.recovery.addBroker ip port =
        { s.recovery with bavec := (s.recovery.addBroker ip port).bavec } := by
      intro ip port
      unfold RecoveryManager.addBroker
      split
      · rfl
      · rfl
    refine .of_unmarked _ ?_ rfl (List.forall_mem_cons.mpr ⟨id, calls_quiet calls⟩)
    unfold RecoveryManager.reroute at hReroute
    dsimp only at hReroute ⊢
    split at hReroute
    · cases hReroute
      exact hAdd _ _
    · split at hReroute
      · cases hReroute
        exact hAdd _ _
      · split at hReroute
        · cases hReroute
        · cases hReroute
          exact hAdd _ _

/-- So does a ready descriptor. -/
theorem handleReady_copied {o : Outcomes Fd} {ready : Fd} {input : Input}
    (h : handleReady o ready input s = some t) : Copied rm s t := by
  cases handleReady_step h with
  | beat i mon hReceiver hMon hRead hNext =>
      rw [hNext]
      exact .of_same rfl rfl
  | lost i mon out hReceiver hMon hRead hStart hNext =>
      rw [hNext]
      exact (startRecovery_copied hStart).congr rfl rfl
  | changed link newip newport hReceiver hLink hNext =>
      have hChange : Copied rm s (s.afterChange ready input) := .of_same rfl rfl
      exact hChange.trans (startRerouting_copied hNext)
  | answered hReceiver hLink hResult hNext =>
      rw [hNext]
      exact .of_same rfl rfl
  | listed i hReceiver hResult hFound hNext =>
      rw [hNext]
      unfold readProposerList
      split
      · exact .of_same rfl rfl
      · exact .of_same rfl rfl
      · exact .of_same rfl rfl
  | message m hReceiver hResult hFound hMessage hNext => exact handlePaxosMessage_copied hNext
  | unread hReceiver hResult hFound hMessage hNext =>
      rw [hNext]
      exact .of_same rfl rfl

/-- An event is applied, and nothing is committed. -/
theorem handleEvent_applied {o : Outcomes Fd} {le : ListenerEvent Id}
    (h : handleEvent o le s = some t) :
    (∃ new, t.trace = s.trace ++ new ∧ ∀ e ∈ new, ¬ e.Marks) ∧
      t.recovery = { le.apply s.recovery with bavec := t.recovery.bavec } := by
  have hQuiet : ∀ {t : State Fd Id}, t.trace = s.trace →
      ∃ new, t.trace = s.trace ++ new ∧ ∀ e ∈ new, ¬ e.Marks := fun hTrace =>
    ⟨[], by rw [hTrace, List.append_nil], fun _ hNone => by cases hNone⟩
  cases le with
  | brokerDisconnection brokerip brokerport =>
      obtain ⟨ip, _, rfl⟩ := Option.map_eq_some_iff.mp h
      exact ⟨hQuiet rfl, rfl⟩
  | linkDown srcip srcport dstip dstport =>
      unfold handleEvent linkDown at h
      dsimp only at h
      split at h
      · cases h
        exact ⟨hQuiet rfl, rfl⟩
      · split at h
        · cases h
          exact ⟨hQuiet rfl, rfl⟩
        next p _ =>
          split at h
          · obtain ⟨⟨l, opened, returned⟩, _, rfl⟩ := Option.map_eq_some_iff.mp h
            refine ⟨⟨opened.map fun fd => .query fd p.plist.name, rfl, ?_⟩, rfl⟩
            intro e he
            obtain ⟨fd, _, rfl⟩ := List.mem_map.mp he
            exact id
          · cases h
  | objectProperty objinfo =>
      cases objinfo with
      | link info =>
          obtain ⟨dst, _, rfl⟩ := Option.map_eq_some_iff.mp h
          unfold listenProposerList
          cases o.connect 0 with
          | none => exact ⟨hQuiet rfl, rfl⟩
          | some sfd => exact ⟨hQuiet rfl, rfl⟩
      | exchange _ | queue _ | binding _ | broker _ | bridge _ =>
          cases h
          exact ⟨hQuiet rfl, rfl⟩

/-- Every commit of an iteration that serves no event is taken from the objects
that were stored at its start. -/
theorem step_copied {action : Action Fd Id} (hOther : ∀ le o, action ≠ .event le o)
    (h : step s action = some t) : Copied rm s t := by
  cases action with
  | wait d =>
      cases h
      exact .of_same rfl rfl
  | request fromip r o =>
      cases h
      exact handleRequest_copied o fromip r s
  | query newsfd name o =>
      cases h
      exact handleQuery_copied o newsfd name s
  | event le o => exact absurd rfl (hOther le o)
  | ready sfd input o => exact handleReady_copied h
  | timeout o =>
      have hStart : Copied rm s { s with totaltime := nextTotaltime s.totaltime } :=
        .of_same rfl rfl
      exact hStart.trans (checkAll_copied h)

end Parts

end QpidRecovery.Proposer
