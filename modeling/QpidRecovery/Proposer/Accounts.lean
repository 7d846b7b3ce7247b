import QpidRecovery.Proposer.Subscriptions

/-! The accounts of the proposer's main loop: what the calls of a branch open,
close and register is what the records and subscriptions hold after it. -/
namespace QpidRecovery.Proposer

variable {Fd Id : Type}

section Branches
variable [DecidableEq Fd] {may : Option Fd → Prop} {calls : List (Call Fd)} {s t u : State Fd Id}
  {mon mon' : Monitored Fd}

/-- Two calls on one record, one after the other. -/
theorem Handles.trans {first second : List (Call Fd)} {mon'' : Monitored Fd}
    (left : Handles may first mon s mon' t) (right : Handles may second mon' t mon'' u) :
    Handles may (first ++ second) mon s mon'' u where
  monitor := right.monitor.trans left.monitor
  dstlistener := right.dstlistener.trans left.dstlistener
  dstproposers := right.dstproposers.trans left.dstproposers
  fs := by
    rw [right.fs, left.fs, Call.selects_append]
  accounted := fun l => (left.accounted l).trans (right.accounted l)

/-- Two calls of the process, one after the other. -/
theorem Books.trans {first second : List (Call Fd)} (left : Books may first s t)
    (right : Books may second t u) : Books may (first ++ second) s u where
  fs := by
    rw [right.fs, left.fs, Call.selects_append]
  accounted := left.accounted.trans right.accounted

/-- The record is stored after the function. -/
theorem Handles.put (h : Handles may calls mon s mon' t) {i : Nat}
    (hMon : s.monitor[i]? = some mon) : Books may calls s (t.put i mon') := by
  obtain ⟨r, hBefore, _, hAfter⟩ := holding_set (f := Monitored.holding) hMon
  constructor
  · exact h.fs
  · have hAccounted := (h.accounted r).frame
      ((s.dstlistener.listening.map AddressChange.holding).sum +
        (s.dstproposers.map ProposerList.holding).sum)
    apply hAccounted.of_eq
    · rw [State.holding, hBefore]
    · unfold State.holding State.put
      dsimp only
      rw [h.monitor, h.dstlistener, h.dstproposers, hAfter]

/-- The calls of a state machine. -/
theorem perform_handles (mon : Monitored Fd) {effects : List (Effect Fd)}
    {psm : ProposerStateMachine Fd}
    (h : ∀ l : Holding Fd, Accounted may (effects.flatMap Effect.calls)
      (l + ((↑mon.psm.connections : Multiset Fd), 0)) (l + ((↑psm.connections : Multiset Fd), 0)))
    (s : State Fd Id) :
    Handles may (effects.flatMap Effect.calls) mon s { mon with psm := psm } (s.perform effects) where
  monitor := rfl
  dstlistener := rfl
  dstproposers := rfl
  fs := FileSelector.perform_eq effects s.fs
  accounted := mon.accounted_psm h

/-- Informing the subscribers closes those that cannot be written to. -/
theorem informAll_handles (written : Fd → Bool) (mon : Monitored Fd) (s : State Fd Id) :
    Handles may (informCalls written mon.informlist) mon s (informAll written mon s).1
      (informAll written mon s).2 where
  monitor := rfl
  dstlistener := rfl
  dstproposers := rfl
  fs := (Call.selects_close _ _).symm
  accounted := mon.accounted_inform written

/-- A record that is replaced closes what it holds. -/
theorem eraseMonitored_books (hNone : may none) (name : ServiceName) (s : State Fd Id) :
    Books may (eraseMonitoredCalls name s) s (eraseMonitored name s) := by
  unfold eraseMonitoredCalls eraseMonitored
  cases s.monitor.findIdx? fun i => strcmp i.name.bytes name.bytes = 0 with
  | none => exact ⟨rfl, .nil _⟩
  | some i =>
      dsimp only
      cases hMon : s.monitor[i]? with
      | none => exact ⟨rfl, .nil _⟩
      | some mon =>
          obtain ⟨r, hBefore, hErased, _⟩ := holding_set (f := Monitored.holding) hMon
          constructor
          · dsimp only [State.perform]
            rw [Call.selects_append, ← FileSelector.perform_eq]
            cases mon.hbc with
            | none => rfl
            | some hbc =>
                dsimp only
                cases hbc.sfd with
                | none => rfl
                | some sfd => rfl
          · have hErase := (mon.accounted_erase hNone r).frame
              ((s.dstlistener.listening.map AddressChange.holding).sum +
                (s.dstproposers.map ProposerList.holding).sum)
            apply hErase.of_eq
            · rw [State.holding, hBefore]
            · unfold State.holding State.perform
              dsimp only
              rw [hErased]

/-- A new record takes the place of the erased one. -/
theorem createProposer_books (hNone : may none) (o : Outcomes Fd) (r : ParticipateRequest)
    (fromip : IPString) (s : State Fd Id) :
    Books may (createProposerCalls o r s) s (createProposer o r fromip s) := by
  unfold createProposerCalls createProposer
  have hErase := eraseMonitored_books hNone r.name s
  generalize eraseMonitored r.name s = erased at hErase ⊢
  rw [List.append_assoc]
  apply hErase.trans
  constructor
  · dsimp only [State.perform]
    rw [Call.selects_append, ← FileSelector.perform_eq]
    unfold HeartbeatClient.new
    dsimp only
    cases o.heartbeat with
    | none => rfl
    | some sfd => rfl
  · have hConnected : Accounted may _ _ _ := .connected o.heartbeat erased.holding
    have hNew : Accounted may _ _ _ := ProposerStateMachine.new_accounted
      (l := erased.holding + ((↑o.heartbeat.toList : Multiset Fd), 0)) erased.now o.paxos r.name
      r.votingversion ⟨r.committedversion, r.acceptor⟩
    apply (hConnected.trans hNew).of_eq rfl
    unfold State.holding State.perform HeartbeatClient.new
    dsimp only
    rw [List.map_append, List.sum_append, List.map_singleton, List.sum_singleton]
    unfold Monitored.holding
    dsimp only
    have hEmpty : ((0 : Multiset Fd), (↑([] : List Fd) : Multiset Fd)) = 0 := rfl
    rw [Option.bind_some, hEmpty]
    abel

section Commits
variable [DecidableEq Id]

/-- A committed recovery informs, and its commitment closes the connections. -/
theorem commitRecovery_handles {o : Outcomes Fd} {r : PaxosResult} {rp : RecoveryProposal}
    (h : commitRecovery o r rp mon s = some (mon', t)) :
    Handles may (commitRecoveryCalls o r mon s) mon s mon' t := by
  unfold commitRecovery at h
  unfold commitRecoveryCalls
  dsimp only at h
  split at h
  next hSelf =>
    obtain ⟨copied, _, hOut⟩ := Option.map_eq_some_iff.mp h
    cases hOut
    rw [if_pos hSelf]
    have hSent : Handles may _ _ s _ _ :=
      perform_handles { mon with ip := rp.backupip, port := rp.backupport }
        (fun _ => mon.psm.sendCommitment_accounted s.now) s
    have hInform : Handles may _ _ _ _ _ := informAll_handles o.written
      { mon with
        ip := rp.backupip
        port := rp.backupport
        psm := (mon.psm.sendCommitment s.now).1 } (s.perform (mon.psm.sendCommitment s.now).2)
    have hBoth := hSent.trans hInform
    exact ⟨rfl, rfl, rfl, hBoth.fs, hBoth.accounted⟩
  next hOther =>
    cases h
    rw [if_neg hOther, List.nil_append]
    have hInform : Handles may _ _ _ _ _ := informAll_handles o.written
      { mon with ip := rp.backupip, port := rp.backupport } s
    exact ⟨rfl, rfl, rfl, hInform.fs, hInform.accounted⟩

omit [DecidableEq Id] in
/-- A committed change of acceptors replaces the machine with its
connections. -/
theorem commitAcceptors_handles (o : Outcomes Fd) (r : PaxosResult) (ap : AcceptorChangeProposal)
    (mon : Monitored Fd) (s : State Fd Id) :
    Handles may (commitAcceptorsCalls o ap mon s) mon s (commitAcceptors o r ap mon s).1
      (commitAcceptors o r ap mon s).2 := by
  unfold commitAcceptorsCalls
  refine ⟨rfl, rfl, rfl, ?_, ?_⟩
  · unfold commitAcceptors State.perform
    dsimp only [State.log]
    rw [FileSelector.perform_eq, FileSelector.perform_eq, Call.selects_append]
  · apply mon.accounted_psm
    intro l
    have hNew : Accounted may _ _ _ := ProposerStateMachine.new_accounted (l := l +
      ((↑mon.psm.connections : Multiset Fd), 0)) s.now o.paxos mon.name (ap.newversion + 1)
      ⟨ap.newversion, ap.acceptor⟩
    rw [add_right_comm] at hNew
    exact hNew.trans (mon.psm.disconnectAcceptors_accounted _)

/-- The descriptors of a commit. -/
theorem handleCommit_handles {o : Outcomes Fd} {r : PaxosResult} {returned : Int}
    (h : handleCommit o r mon s = some ((mon', t), returned)) :
    Handles may (handleCommitCalls o r mon s) mon s mon' t := by
  have hNothing : Handles may [] mon s mon s := ⟨rfl, rfl, rfl, rfl, fun l => .nil _⟩
  have hCommits : r = .committingSelf ∨ r = .committingOther →
      ¬ (r ≠ .committingSelf ∧ r ≠ .committingOther) := by
    intro hResult hNone
    exact not_or.mpr hNone hResult
  unfold handleCommitCalls
  cases handleCommit_commit h with
  | nothing hNone =>
      rw [if_pos hNone]
      exact hNothing
  | recovered rp hResult hProposal hCommit =>
      rw [if_neg (hCommits hResult), hProposal]
      exact commitRecovery_handles hCommit
  | changed ap hResult hProposal =>
      rw [if_neg (hCommits hResult), hProposal]
      exact commitAcceptors_handles o r ap mon s
  | empty hResult hProposal =>
      rw [if_neg (hCommits hResult), hProposal]
      exact hNothing

/-- The descriptors of a message. -/
theorem handlePaxosMessage_books {o : Outcomes Fd} {ready : Fd} {m : PaxosMessage} {n i : Nat}
    (h : handlePaxosMessage o ready m n i s = some t) :
    Books may (handlePaxosMessageCalls o ready m n i s) s t := by
  induction n generalizing i s with
  | zero =>
      cases h
      exact ⟨rfl, .nil _⟩
  | succ n ih =>
      rw [handlePaxosMessage] at h
      rw [handlePaxosMessageCalls]
      cases hMon : s.monitor[i]? with
      | none =>
          rw [hMon] at h
          cases h
          exact ⟨rfl, .nil _⟩
      | some mon =>
          rw [hMon] at h
          dsimp only at h ⊢
          have hMessage : Books may ((mon.psm.handleMessage s.now ready m).effects.flatMap Effect.calls)
              s ((s.perform (mon.psm.handleMessage s.now ready m).effects).put i
                { mon with psm := (mon.psm.handleMessage s.now ready m).machine }) :=
            (perform_handles mon (fun _ => mon.psm.handleMessage_accounted s.now ready m) s).put hMon
          split at h
          next hIgnored =>
            rw [if_pos hIgnored]
            exact hMessage.trans (ih h)
          next hUsed =>
            rw [if_neg hUsed]
            split at h
            next hHandled =>
              cases h
              rw [if_pos hHandled, List.append_nil]
              exact hMessage
            next hCommits =>
              rw [if_neg hCommits]
              have hPut : ((s.perform (mon.psm.handleMessage s.now ready m).effects).put i
                  { mon with psm := (mon.psm.handleMessage s.now ready m).machine }).monitor[i]? =
                  some { mon with psm := (mon.psm.handleMessage s.now ready m).machine } := by
                have hBound := (List.getElem?_eq_some_iff.mp hMon).1
                exact List.getElem?_set_self hBound
              generalize (s.perform (mon.psm.handleMessage s.now ready m).effects).put i
                { mon with psm := (mon.psm.handleMessage s.now ready m).machine } = stored
                at h hMessage hPut ⊢
              cases hCommit : handleCommit o (mon.psm.handleMessage s.now ready m).result
                { mon with psm := (mon.psm.handleMessage s.now ready m).machine } stored with
              | none =>
                  rw [hCommit] at h
                  cases h
              | some out =>
                  obtain ⟨⟨mon', s'⟩, returned⟩ := out
                  rw [hCommit] at h
                  have hHandled : Handles may _ _ _ _ _ := handleCommit_handles hCommit
                  have hCommitted := hHandled.put hPut
                  dsimp only at h ⊢
                  split at h
                  next hZero =>
                    cases h
                    rw [if_pos hZero, List.append_nil]
                    exact hMessage.trans hCommitted
                  next hNonzero =>
                    rw [if_neg hNonzero]
                    exact hMessage.trans (hCommitted.trans (ih h))

/-- A recovery begins with the end of the heartbeat connection. -/
theorem startRecovery_handles (hNone : may none) {o : Outcomes Fd}
    (h : startRecovery o mon s = some (mon', t)) :
    Handles may (startRecoveryCalls o mon s) mon s mon' t := by
  obtain ⟨hbc, backupurl, rest, backupip, backupport, r, returned, hClient, hBackups, hUrl, rfl,
    hCommit⟩ := startRecovery_cases h
  unfold startRecoveryCalls recoveryProposal
  rw [hClient, hBackups]
  dsimp only
  rw [hUrl]
  dsimp only [Option.map_some]
  have hDelete : Handles may (Call.deleted hbc.sfd) mon s { mon with hbc := none }
      { s with
        fs := s.fs.unregisterFD hbc.sfd
        recovery := s.recovery.deleteBroker mon.ip mon.port
        backupbrokers := rest } := by
    refine ⟨rfl, rfl, rfl, ?_, mon.accounted_hbc hNone hClient⟩
    cases hbc.sfd with
    | none => rfl
    | some sfd => rfl
  have hProposed : Handles may _ _ _ _ _ := perform_handles { mon with hbc := none }
    (fun _ => mon.psm.newProposal_accounted s.now
      (.recoveryProposal ⟨mon.psm.version, mon.ip, mon.port, backupip, backupport, 100⟩))
    { s with
      fs := s.fs.unregisterFD hbc.sfd
      recovery := s.recovery.deleteBroker mon.ip mon.port
      backupbrokers := rest }
  exact (hDelete.trans hProposed).trans (handleCommit_handles hCommit)

/-- The descriptors of one look at a record. -/
theorem checkMonitored_books (hNone : may none) {o : Nat → Outcomes Fd} {i : Nat}
    (h : checkMonitored o i s = some t) : Books may (checkMonitoredCalls o i s) s t := by
  unfold checkMonitored at h
  unfold checkMonitoredCalls
  cases hMon : s.monitor[i]? with
  | none =>
      rw [hMon] at h
      cases h
      exact ⟨rfl, .nil _⟩
  | some mon =>
      rw [hMon] at h
      dsimp only at h ⊢
      have hTimeout : Handles may [] mon s
          { mon with psm := (mon.psm.checkTimeout s.now (seconds 4)).1 } s := by
        refine ⟨rfl, rfl, rfl, rfl, mon.accounted_psm fun l => ?_⟩
        rw [ProposerStateMachine.checkTimeout_connections]
        exact .nil _
      have hList : { mon with psm := (mon.psm.checkTimeout s.now (seconds 4)).1 }.informlist =
          mon.informlist := rfl
      generalize { mon with psm := (mon.psm.checkTimeout s.now (seconds 4)).1 } = checked
        at h hTimeout hList ⊢
      rw [← hList]
      have hInform : Handles may
          (if s.totaltime = 0 then informCalls (o i).checked checked.informlist else []) checked s
          (if s.totaltime = 0 then informAll (o i).checked checked s else (checked, s)).1
          (if s.totaltime = 0 then informAll (o i).checked checked s else (checked, s)).2 := by
        split
        · exact informAll_handles _ _ _
        · exact ⟨rfl, rfl, rfl, rfl, fun l => .nil _⟩
      generalize (if s.totaltime = 0 then informAll (o i).checked checked s else (checked, s)) = out
        at h hInform ⊢
      have hBoth := hTimeout.trans hInform
      rw [List.nil_append] at hBoth
      cases hClient : out.1.hbc with
      | none =>
          rw [hClient] at h
          cases h
          rw [List.append_nil]
          exact hBoth.put hMon
      | some hbc =>
          rw [hClient] at h
          dsimp only at h ⊢
          split at h
          next hExpired =>
            obtain ⟨started, hStart, rfl⟩ := Option.map_eq_some_iff.mp h
            rw [if_pos hExpired]
            exact (hBoth.trans (startRecovery_handles hNone hStart)).put hMon
          next hBeats =>
            cases h
            rw [if_neg hBeats, List.append_nil]
            exact hBoth.put hMon

/-- The descriptors of the timeout branch. -/
theorem checkAll_books (hNone : may none) {o : Nat → Outcomes Fd} {n : Nat}
    (h : checkAll o n s = some t) : Books may (checkAllCalls o n s) s t := by
  induction n generalizing t with
  | zero =>
      cases h
      exact ⟨rfl, .nil _⟩
  | succ n ih =>
      obtain ⟨u, hFirst, hLast⟩ := Option.bind_eq_some_iff.mp h
      rw [checkAllCalls, hFirst]
      exact (ih hFirst).trans (checkMonitored_books hNone hLast)

end Commits

section Subscriptions

/-- Only the subscriptions for links are concerned. -/
theorem Books.of_listening (hFs : t.fs = Call.selects calls s.fs) (hMonitor : t.monitor = s.monitor)
    (hTable : t.dstproposers = s.dstproposers)
    (h : ∀ l : Holding Fd, Accounted may calls
      (l + (s.dstlistener.listening.map AddressChange.holding).sum)
      (l + (t.dstlistener.listening.map AddressChange.holding).sum)) : Books may calls s t := by
  have hListening := h ((s.monitor.map Monitored.holding).sum +
    (s.dstproposers.map ProposerList.holding).sum)
  refine ⟨hFs, hListening.of_eq ?_ ?_⟩
  · unfold State.holding
    abel
  · unfold State.holding
    rw [hMonitor, hTable]
    abel

/-- Only the subscriptions to proposer lists are concerned. -/
theorem Books.of_table (hFs : t.fs = Call.selects calls s.fs) (hMonitor : t.monitor = s.monitor)
    (hListening : t.dstlistener = s.dstlistener)
    (h : ∀ l : Holding Fd, Accounted may calls
      (l + (s.dstproposers.map ProposerList.holding).sum)
      (l + (t.dstproposers.map ProposerList.holding).sum)) : Books may calls s t := by
  have hTable := h ((s.monitor.map Monitored.holding).sum +
    (s.dstlistener.listening.map AddressChange.holding).sum)
  refine ⟨hFs, hTable.of_eq ?_ ?_⟩
  · unfold State.holding
    abel
  · unfold State.holding
    rw [hMonitor, hListening]
    abel

/-- The descriptors of a lost link. -/
theorem linkDown_books [DecidableEq Id] {o : Outcomes Fd} {srcip dstip : CString 32}
    {srcport dstport : UInt32} (h : linkDown o srcip srcport dstip dstport s = some t) :
    Books may (linkDownCalls o srcip srcport dstip dstport s) s t := by
  unfold linkDown at h
  split at h
  next hReachable =>
    cases h
    unfold linkDownCalls
    rw [if_pos hReachable]
    exact ⟨rfl, .nil _⟩
  next hUnreachable =>
    split at h
    next hUnknown =>
      cases h
      unfold linkDownCalls
      rw [if_neg hUnreachable, hUnknown]
      exact ⟨rfl, .nil _⟩
    next p hFound =>
      split at h
      next src dst hSrc hDst =>
        obtain ⟨l, hListen, rfl⟩ := Option.map_eq_some_iff.mp h
        unfold linkDownCalls
        rw [if_neg hUnreachable, hFound]
        dsimp only
        rw [hSrc, hDst]
        dsimp only
        rw [hListen]
        dsimp only
        apply Books.of_listening
        · exact (Call.selects_acquireAll _ _).symm
        · rfl
        · rfl
        · exact fun r => LinkDstListener.listenAddressChange_accounted hListen r
      · cases h

/-- The descriptors of an event. -/
theorem handleEvent_books [DecidableEq Id] {o : Outcomes Fd} {le : ListenerEvent Id}
    (h : handleEvent o le s = some t) : Books may (handleEventCalls o le s) s t := by
  cases le with
  | brokerDisconnection brokerip brokerport =>
      obtain ⟨ip, _, rfl⟩ := Option.map_eq_some_iff.mp h
      exact ⟨rfl, .nil _⟩
  | linkDown srcip srcport dstip dstport => exact linkDown_books h
  | objectProperty objinfo =>
      cases objinfo with
      | link info =>
          obtain ⟨dst, _, rfl⟩ := Option.map_eq_some_iff.mp h
          unfold listenProposerList handleEventCalls
          cases hConnect : o.connect 0 with
          | none => exact ⟨rfl, .nil _⟩
          | some sfd =>
              apply Books.of_table
              · rfl
              · rfl
              · rfl
              · intro l
                dsimp only
                rw [List.map_append, List.sum_append, List.map_singleton, List.sum_singleton,
                  ← add_assoc]
                exact Accounted.connected (some sfd) _
      | exchange _ | queue _ | binding _ | broker _ | bridge _ =>
          cases h
          exact ⟨rfl, .nil _⟩

/-- Whatever sockets an address change gives up are unregistered and closed. -/
theorem afterChange_books (ready : Fd) (input : Input) (s : State Fd Id) :
    Books may ((s.dstlistener.readAddressChange ready input.address).closed.flatMap
      fun fd => [.unregister (some fd), .close fd]) s (s.afterChange ready input) := by
  apply Books.of_listening
  · exact (Call.selects_releaseAll _ _).symm
  · rfl
  · rfl
  · exact fun l => s.dstlistener.readAddressChange_accounted ready input.address l

/-- A list that was not read in full ends its subscription. -/
theorem readProposerList_books {ready : Fd} {i : Nat} {read : ListRead}
    (hFound : (s.dstproposers.findIdx? fun p => p.sfd = some ready) = some i) :
    Books may (match read with
      | .reply _ => []
      | .short _ | .failed => [.unregister (some ready), .close ready]) s
      (readProposerList ready read i s) := by
  obtain ⟨hBound, hReady, _⟩ := List.findIdx?_eq_some_iff_getElem.mp hFound
  have hEntry : s.dstproposers[i]? = some s.dstproposers[i] := List.getElem?_eq_getElem hBound
  have hSfd : s.dstproposers[i].sfd = some ready := of_decide_eq_true hReady
  obtain ⟨r, hBefore, _, hAfter⟩ := holding_set (f := ProposerList.holding) hEntry
  have hModify : ∀ f : ProposerList Fd → ProposerList Fd,
      ((s.dstproposers.modify i f).map ProposerList.holding).sum =
        r + (f s.dstproposers[i]).holding := by
    intro f
    rw [List.modify_eq_set_getElem?, hEntry]
    exact hAfter _
  have hClosed : ∀ (plist : ReplyProposer → ReplyProposer) (l : Holding Fd),
      Accounted may [.unregister (some ready), .close ready]
        (l + (s.dstproposers.map ProposerList.holding).sum)
        (l + (((s.dstproposers.modify i fun p => { p with plist := plist p.plist }).modify i
          fun p => { p with sfd := none }).map ProposerList.holding).sum) := by
    intro plist l
    rw [List.modify_modify_eq, hModify, hBefore, ← add_assoc, ← add_assoc]
    have hOpen : s.dstproposers[i].holding = (({ready} : Multiset Fd), 0) := by
      rw [ProposerList.holding, hSfd]
      rfl
    rw [hOpen]
    exact (Accounted.release ready (l + r)).of_eq rfl (add_zero _)
  cases read with
  | reply plist =>
      apply Books.of_table
      · rfl
      · rfl
      · rfl
      · intro l
        unfold readProposerList
        dsimp only
        rw [hModify, hBefore]
        exact .nil _
  | short overlay => exact .of_table rfl rfl rfl (hClosed _)
  | failed => exact .of_table rfl rfl rfl (hClosed _)

end Subscriptions

section Steps
variable [DecidableEq Id]

/-- The descriptors of a ready descriptor's branch. -/
theorem handleReady_books (hNone : may none) {o : Outcomes Fd} {ready : Fd} {input : Input}
    (hReady : may (some ready)) (h : handleReady o ready input s = some t) :
    Books may (handleReadyCalls o ready input s) s t := by
  have hQuiet : (s.dstlistener.readAddressChange ready input.address).result = 0 →
      (s.dstlistener.readAddressChange ready input.address).closed = [] := by
    intro hResult
    have hListening := LinkDstListener.readAddressChange_result hResult
    simp only [LinkDstListener.readAddressChange, hListening]
  unfold handleReadyCalls
  cases handleReady_step h with
  | beat i mon hReceiver hMon hRead hNext =>
      rw [hReceiver, hNext]
      dsimp only
      rw [hMon]
      dsimp only
      rw [if_pos hRead]
      have hBeat : Handles may [] mon s
          { mon with hbc := mon.hbc.map (HeartbeatClient.readMessage s.now) } s := by
        refine ⟨rfl, rfl, rfl, rfl, fun l => ?_⟩
        have hSame : { mon with
            hbc := mon.hbc.map (HeartbeatClient.readMessage s.now) }.holding = mon.holding := by
          unfold Monitored.holding
          cases mon.hbc with
          | none => rfl
          | some hbc => rfl
        rw [hSame]
        exact .nil _
      exact hBeat.put hMon
  | lost i mon out hReceiver hMon hRead hStart hNext =>
      rw [hReceiver, hNext]
      dsimp only
      rw [hMon]
      dsimp only
      rw [hRead]
      exact (startRecovery_handles hNone hStart).put hMon
  | changed link newip newport hReceiver hLink hNext =>
      rw [hReceiver]
      dsimp only
      rw [hLink, Option.isSome_some, if_pos (.inl rfl), List.append_nil]
      have hChange : Books may _ _ _ := afterChange_books ready input s
      rcases startRerouting_cases hNext with ⟨_, rfl⟩ | ⟨_, rm, calls, _, _, rfl⟩
      · exact hChange
      · exact ⟨hChange.fs, hChange.accounted⟩
  | answered hReceiver hLink hResult hNext =>
      rw [hReceiver, hNext]
      dsimp only
      rw [if_pos (.inr hResult), List.append_nil]
      exact afterChange_books ready input s
  | listed i hReceiver hResult hFound hNext =>
      rw [hReceiver, hNext]
      dsimp only
      rw [(afterChange_of_result hResult).1, hResult, hQuiet hResult, hFound]
      exact readProposerList_books hFound
  | message m hReceiver hResult hFound hMessage hNext =>
      rw [hReceiver]
      dsimp only
      rw [(afterChange_of_result hResult).1, hResult, hQuiet hResult, hFound]
      dsimp only
      rw [hMessage]
      exact handlePaxosMessage_books hNext
  | unread hReceiver hResult hFound hMessage hNext =>
      rw [hReceiver, hNext]
      dsimp only
      rw [(afterChange_of_result hResult).1, hResult, hQuiet hResult, hFound]
      dsimp only
      rw [hMessage]
      exact ⟨rfl, .forget _ _ hReady⟩

omit [DecidableEq Id] in
/-- The descriptors of a query. -/
theorem handleQuery_books (o : Outcomes Fd) (newsfd : Fd) (name : ServiceName) (s : State Fd Id) :
    Books may (handleQueryCalls o newsfd name s) s (handleQuery o newsfd name s) := by
  unfold handleQueryCalls handleQuery
  cases hFound : searchServiceByName name s.monitor with
  | none => exact ⟨rfl, (Accounted.hold newsfd _).trans (.drop newsfd _)⟩
  | some i =>
      obtain ⟨hBound, _⟩ := List.findIdx?_eq_some_iff_getElem.mp hFound
      have hMon := List.getElem?_eq_getElem hBound
      dsimp only
      rw [hMon]
      generalize s.monitor[i] = mon at hMon
      have hAdd : Handles may (.opened newsfd :: if o.written newsfd then [] else [.close newsfd])
          mon s (addInformList o.written newsfd mon s).1 (addInformList o.written newsfd mon s).2 := by
        unfold addInformList
        cases o.written newsfd with
        | true =>
            refine ⟨rfl, rfl, rfl, rfl, fun l => ?_⟩
            apply (Accounted.hold newsfd (l + mon.holding)).of_eq rfl
            have hList : ((0 : Multiset Fd), (↑(mon.informlist ++ [newsfd]) : Multiset Fd)) =
                (0, (↑mon.informlist : Multiset Fd)) + (0, {newsfd}) := by
              rw [← Multiset.coe_add, Prod.mk_add_mk, add_zero, Multiset.coe_singleton]
            show l + Monitored.holding { mon with informlist := mon.informlist ++ [newsfd] } = _
            unfold Monitored.holding
            rw [hList]
            abel
        | false =>
            refine ⟨rfl, rfl, rfl, rfl, fun l => ?_⟩
            exact (Accounted.hold newsfd _).trans (.drop newsfd _)
      exact hAdd.put hMon

/-- Every iteration of the main loop keeps its accounts. -/
theorem step_books (hNone : may none) {action : Action Fd Id}
    (hReady : ∀ sfd input o, action = .ready sfd input o → may (some sfd))
    (h : step s action = some t) : Books may (Proposer.calls s action) s t := by
  cases action with
  | wait d =>
      cases h
      exact ⟨rfl, .nil _⟩
  | request fromip r o =>
      cases h
      have hCreate := createProposer_books hNone o r
        (if r.brokerip.bytes = [] then fromip else r.brokerip) s
      exact ⟨hCreate.fs, hCreate.accounted⟩
  | query newsfd name o =>
      cases h
      exact handleQuery_books o newsfd name s
  | event le o => exact handleEvent_books h
  | ready sfd input o => exact handleReady_books hNone (hReady sfd input o rfl) h
  | timeout o =>
      have hChecked := checkAll_books hNone h
      exact ⟨hChecked.fs, hChecked.accounted⟩

end Steps

/-- The pipe and the server sockets are registered and open. -/
theorem init_consistent (start : Time) {recoveryfd requestsfd querysfd : Fd}
    (backupbrokers : List Text) {before live : List Fd} (hBefore : before.Nodup)
    (hKernel : Call.openedAfter ([recoveryfd, requestsfd, querysfd].map .opened) before =
      some live) :
    Consistent (owned recoveryfd (some requestsfd) (some querysfd)
        (.init start (some recoveryfd) (some requestsfd) (some querysfd) backupbrokers : State Fd Id))
      live
      (.init start (some recoveryfd) (some requestsfd) (some querysfd) backupbrokers :
        State Fd Id).fs := by
  have hStart := consistent_start _ hBefore hKernel
  exact hStart

end Branches

end QpidRecovery.Proposer
