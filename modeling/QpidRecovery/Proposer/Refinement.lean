import QpidRecovery.Proposer.Ledger

/-! The main loop makes nothing but the single changes of the ledger. -/
namespace QpidRecovery.Proposer

open Transition

variable {Fd Id : Type} [DecidableEq Id] {ok : Condition Fd}

/-- A function that works on one record beside the state changed that record
and extended the trace. -/
structure Acts (ok : Condition Fd) (mon : Monitored Fd) (s : State Fd Id) (mon' : Monitored Fd)
    (s' : State Fd Id) : Prop where
  monitor : s'.monitor = s.monitor
  now : s'.now = s.now
  changes : ∃ new, s'.trace = s.trace ++ new ∧ Changes Id ok mon mon' new

/-- A function that made exactly one change. -/
structure ActsOnce (ok : Condition Fd) (mon : Monitored Fd) (s : State Fd Id)
    (mon' : Monitored Fd) (s' : State Fd Id) : Prop where
  monitor : s'.monitor = s.monitor
  now : s'.now = s.now
  change : ∃ new, s'.trace = s.trace ++ new ∧ Change Id ok mon mon' new

/-- A single act. -/
theorem ActsOnce.acts {mon mon' : Monitored Fd} {s s' : State Fd Id}
    (h : ActsOnce ok mon s mon' s') : Acts ok mon s mon' s' := by
  obtain ⟨new, hTrace, hChange⟩ := h.change
  exact ⟨h.monitor, h.now, new, hTrace, hChange.single⟩

theorem Acts.refl (mon : Monitored Fd) (s : State Fd Id) : Acts ok mon s mon s :=
  ⟨rfl, rfl, [], (List.append_nil _).symm, .nil⟩

/-- Acts follow each other. -/
theorem Acts.trans {mon mon' mon'' : Monitored Fd} {s s' s'' : State Fd Id}
    (first : Acts ok mon s mon' s') (second : Acts ok mon' s' mon'' s'') :
    Acts ok mon s mon'' s'' := by
  obtain ⟨new, hTrace, hChanges⟩ := first.changes
  obtain ⟨new', hTrace', hChanges'⟩ := second.changes
  refine ⟨second.monitor.trans first.monitor, second.now.trans first.now, new ++ new', ?_, ?_⟩
  · rw [hTrace', hTrace, List.append_assoc]
  · exact hChanges.trans hChanges'

/-- A record that is written back after a function worked on it. -/
theorem Acts.moves {mon mon' : Monitored Fd} {s s' : State Fd Id} {j : Nat}
    (hMon : s.monitor[j]? = some mon) (h : Acts ok mon s mon' s') :
    Moves Id ok s.ledger (s'.put j mon').ledger := by
  obtain ⟨new, hTrace, hChanges⟩ := h.changes
  have hMoves := Changes.moves (l := s.ledger) hMon hChanges
  have hLedger : (s'.put j mon').ledger = ⟨s.monitor.set j mon', s.trace ++ new⟩ := by
    simp only [State.ledger, State.put, h.monitor, hTrace]
  rwa [hLedger]

/-- Informing the subscribers is an act of the record. -/
theorem informAll_acts (written : Fd → Bool) (mon : Monitored Fd) (s : State Fd Id) :
    Acts ok mon s (informAll written mon s).1 (informAll written mon s).2 :=
  ⟨rfl, rfl, _, rfl, (Change.inform written).single⟩

/-- An iteration that leaves the records alone. -/
theorem Moves.of_quiet {s t : State Fd Id} (new : List (Output Fd)) (hMonitor : t.monitor = s.monitor)
    (hTrace : t.trace = s.trace ++ new) (hSilent : ∀ e ∈ new, e.Silent) :
    Moves Id ok s.ledger t.ledger := by
  have hMove : Move Id ok s.ledger _ := .quiet s.ledger new hSilent
  have hLedger : t.ledger = ⟨s.monitor, s.trace ++ new⟩ := by
    simp only [State.ledger, hMonitor, hTrace]
  rw [hLedger]
  exact .single hMove

/-- Nothing happens to the records. -/
theorem Moves.of_same {s t : State Fd Id} (hMonitor : t.monitor = s.monitor)
    (hTrace : t.trace = s.trace) : Moves Id ok s.ledger t.ledger :=
  .of_quiet [] hMonitor (by rw [hTrace, List.append_nil]) (by simp)

variable [DecidableEq Fd]

/-- A committed machine is ready, or has learned the commit. -/
structure Committed (r : PaxosResult) (psm : ProposerStateMachine Fd) : Prop where
  self : r = .committingSelf → psm.isReadyToCommit = true
  other : r = .committingOther → psm.state = .phase3

/-- A recovery that was committed is carried out and announced. -/
theorem commitRecovery_acts {o : Outcomes Fd} {r : PaxosResult} {rp : RecoveryProposal}
    {mon mon' : Monitored Fd} {s s' : State Fd Id} (hOk : ok.answered o.backup)
    (hResult : r = .committingSelf ∨ r = .committingOther) (hCommitted : Committed r mon.psm)
    (hProposal : mon.psm.getCommittingProposal = some (.recoveryProposal rp))
    (h : commitRecovery o r rp mon s = some (mon', s')) : ActsOnce ok mon s mon' s' := by
  unfold commitRecovery at h
  rcases hResult with rfl | rfl
  · rw [if_pos rfl] at h
    obtain ⟨⟨calls, returned⟩, hCopied, hOut⟩ := Option.map_eq_some_iff.mp h
    have hReady := hCommitted.self rfl
    rw [ProposerStateMachine.getCommittingProposal, if_pos hReady] at hProposal
    have hChange : Change Id ok mon _ _ := .commitSelf s.now rp s.recovery o.backup calls returned
      o.written hOk hReady (Option.some.inj hProposal) hCopied
    cases hOut
    refine ⟨rfl, rfl, _, ?_, hChange⟩
    simp only [State.log, State.perform, Monitored.address, List.append_assoc,
      List.cons_append, List.nil_append]
  · rw [if_neg (by decide)] at h
    cases h
    have hChange : Change Id ok mon _ _ := .commitOther rp
      (s.recovery.storedCreations (IPPortToUrl rp.failip rp.failport)) o.written
      (hCommitted.other rfl) hProposal
    refine ⟨rfl, rfl, _, ?_, hChange⟩
    simp only [State.log, Monitored.address, List.append_assoc, List.cons_append,
      List.nil_append]

/-- A change of acceptors that was committed makes a new machine. -/
theorem commitAcceptors_acts (o : Outcomes Fd) {r : PaxosResult} {ap : AcceptorChangeProposal}
    {mon : Monitored Fd} (s : State Fd Id) (hDialled : ok.dialled mon.psm.name o.paxos)
    (hCommitted : Committed r mon.psm)
    (hProposal : mon.psm.getCommittingProposal = some (.acceptorChangeProposal ap)) :
    ActsOnce ok mon s (commitAcceptors o r ap mon s).1 (commitAcceptors o r ap mon s).2 := by
  have hChange : Change Id ok mon _ _ := .commitAcceptors s.now r o.paxos ap
    ((ProposerStateMachine.new s.now o.paxos mon.name (ap.newversion + 1)
      ⟨ap.newversion, ap.acceptor⟩).2 ++ mon.psm.disconnectAcceptors.2) hDialled hProposal
    hCommitted.self (by simp)
  refine ⟨rfl, rfl, _, ?_, hChange⟩
  simp [commitAcceptors, State.perform, State.log]

/-- A commit is one change, unless there is nothing to commit. -/
theorem handleCommit_change {o : Outcomes Fd} {r : PaxosResult} {mon mon' : Monitored Fd}
    {s s' : State Fd Id} {returned : Int} (hOk : ok.answered o.backup)
    (hDialled : ∀ ap, mon.psm.getCommittingProposal = some (.acceptorChangeProposal ap) →
      ok.dialled mon.psm.name o.paxos)
    (hCommitted : Committed r mon.psm)
    (h : handleCommit o r mon s = some ((mon', s'), returned)) :
    (mon', s') = (mon, s) ∨ ActsOnce ok mon s mon' s' := by
  cases handleCommit_commit h with
  | nothing | empty => exact .inl rfl
  | recovered rp hResult hProposal hCommit =>
      exact .inr (commitRecovery_acts hOk hResult hCommitted hProposal hCommit)
  | changed ap hResult hProposal =>
      exact .inr (commitAcceptors_acts o s (hDialled ap hProposal) hCommitted hProposal)

/-- A commit does one of the two. -/
theorem handleCommit_acts {o : Outcomes Fd} {r : PaxosResult} {mon mon' : Monitored Fd}
    {s s' : State Fd Id} {returned : Int} (hOk : ok.answered o.backup)
    (hDialled : ∀ ap, mon.psm.getCommittingProposal = some (.acceptorChangeProposal ap) →
      ok.dialled mon.psm.name o.paxos)
    (hCommitted : Committed r mon.psm)
    (h : handleCommit o r mon s = some ((mon', s'), returned)) : Acts ok mon s mon' s' := by
  rcases handleCommit_change hOk hDialled hCommitted h with hSame | hOnce
  · cases hSame
    exact .refl mon s
  · exact hOnce.acts

omit [DecidableEq Fd] in
/-- A message reports a commit together with its proposal. -/
theorem handleMessage_committed (now : Time) (replysfd : Fd) (m : PaxosMessage)
    (psm : ProposerStateMachine Fd) :
    Committed (psm.handleMessage now replysfd m).result
      (psm.handleMessage now replysfd m).machine where
  self := ProposerStateMachine.handleMessage_committingSelf
  other := ProposerStateMachine.handleMessage_committingOther

omit [DecidableEq Fd] in
/-- So does a proposal that nobody need be asked about. -/
theorem newProposal_committed (now : Time) (p : Proposal) (psm : ProposerStateMachine Fd) :
    Committed (psm.newProposal now p).result (psm.newProposal now p).machine := by
  rcases psm.newProposal_cases now p with ⟨_, hEq⟩ | ⟨hSize, hEq⟩
  · rw [hEq]
    exact ⟨by simp, by simp⟩
  · rw [hEq]
    exact ⟨by simp [ProposerStateMachine.isReadyToCommit, hSize], by simp⟩

/-- A lost heartbeat becomes a proposal. -/
theorem startRecovery_acts {o : Outcomes Fd} {mon mon' : Monitored Fd} {s s' : State Fd Id}
    (hOk : ok.answered o.backup) (h : startRecovery o mon s = some (mon', s')) :
    Acts ok mon s mon' s' := by
  obtain ⟨hbc, _, rest, backupip, backupport, r, _, hClient, _, _, hReaction, hCommit⟩ :=
    startRecovery_cases h
  have hPropose : Change Id ok mon _ _ := .propose s.now hbc backupip backupport r hClient hReaction
  have hProposed : Acts ok mon s { mon with hbc := none, psm := r.machine }
      (State.perform r.effects { s with
        fs := s.fs.unregisterFD hbc.sfd
        recovery := s.recovery.deleteBroker mon.ip mon.port
        backupbrokers := rest }) :=
    ⟨rfl, rfl, _, rfl, hPropose.single⟩
  apply hProposed.trans
  apply handleCommit_acts hOk _ _ hCommit
  · intro ap hProposal
    rw [hReaction, ProposerStateMachine.newProposal_getCommittingProposal] at hProposal
    split at hProposal <;> cases hProposal
  · rw [hReaction]
    exact newProposal_committed s.now _ mon.psm

/-- A message moves the record that it is for. -/
theorem handlePaxosMessage_moves {o : Outcomes Fd} {ready : Fd} {m : PaxosMessage} {n i : Nat}
    {s t : State Fd Id} (hOk : ok.answered o.backup) (hDialled : ok.dialled m.name o.paxos)
    (hGiven : ∀ mon ∈ s.monitor, ok.given mon ready m)
    (hReceivable : receivable m = true) (h : handlePaxosMessage o ready m n i s = some t) :
    Moves Id ok s.ledger t.ledger := by
  rcases handlePaxosMessage_cases h with ⟨rfl, _⟩ | ⟨j, mon, r, hMon, hReaction, hRest⟩
  · exact .refl
  · have hMem := List.mem_of_getElem? hMon
    have hMessage : Change Id ok mon _ _ := .message s.now ready m (hGiven mon hMem) hReceivable
    rw [← hReaction] at hMessage
    have hHandled : Acts ok mon s { mon with psm := r.machine } (s.perform r.effects) :=
      ⟨rfl, rfl, _, rfl, hMessage.single⟩
    have hMoves := hHandled.moves hMon
    rcases hRest with ⟨_, rfl⟩ | ⟨hResult, mon', s', hCommit, rfl⟩
    · exact hMoves
    · refine .trans hMoves (Acts.moves ?_ (handleCommit_acts hOk ?_ ?_ hCommit))
      · exact List.getElem?_set_self (List.getElem?_eq_some_iff.mp hMon).1
      · intro ap _
        have hNotIgnored : (mon.psm.handleMessage s.now ready m).result ≠ .ignored := by
          rw [← hReaction]
          rcases hResult with hSelf | hOther
          · rw [hSelf]
            decide
          · rw [hOther]
            decide
        have hName : r.machine.name = m.name := by
          rw [hReaction, (mon.psm.handleMessage_keeps _ _ _).name,
            ProposerStateMachine.handleMessage_recipient hNotIgnored]
        change ok.dialled r.machine.name o.paxos
        rwa [hName]
      · rw [hReaction]
        exact handleMessage_committed s.now ready m mon.psm

/-- What one pass of the timeout loop does to its record. -/
theorem checkMonitored_acts {o : Nat → Outcomes Fd} {i : Nat} {mon : Monitored Fd}
    {s t : State Fd Id} (hMon : s.monitor[i]? = some mon) (hChecked : ok.checked s.now mon)
    (hOk : ok.answered (o i).backup) (h : checkMonitored o i s = some t) :
    ∃ mon' s', Acts ok mon s mon' s' ∧ t = s'.put i mon' := by
  have hTimeout : Acts ok mon s
      { mon with psm := (mon.psm.checkTimeout s.now (seconds 4)).1 } s :=
    ⟨rfl, rfl, [], (List.append_nil _).symm, (Change.timeout s.now hChecked).single⟩
  obtain ⟨out, hOut, hEnd⟩ := checkMonitored_result hMon h
  have hInform : Acts ok mon s out.1 out.2 := by
    rcases hOut with rfl | rfl
    · exact hTimeout
    · exact hTimeout.trans (informAll_acts _ _ _)
  rcases hEnd with rfl | ⟨⟨mon', s'⟩, hStart, rfl⟩
  · exact ⟨out.1, out.2, hInform, rfl⟩
  · exact ⟨mon', s', hInform.trans (startRecovery_acts hOk hStart), rfl⟩

/-- The loop has passed the first `n` records and left the others alone. -/
theorem checkAll_moves {o : Nat → Outcomes Fd} {n : Nat} {s t : State Fd Id}
    (hChecked : ∀ mon ∈ s.monitor, ok.checked s.now mon) (hOk : ∀ i, ok.answered (o i).backup)
    (h : checkAll o n s = some t) :
    Moves Id ok s.ledger t.ledger ∧ t.now = s.now ∧ ∀ j, n ≤ j → t.monitor[j]? = s.monitor[j]? := by
  induction n generalizing t with
  | zero =>
      cases h
      exact ⟨.refl, rfl, fun _ _ => rfl⟩
  | succ n ih =>
      obtain ⟨u, hFirst, hLast⟩ := Option.bind_eq_some_iff.mp h
      obtain ⟨hMoves, hNow, hLater⟩ := ih hFirst
      cases hMon : u.monitor[n]? with
      | none =>
          simp only [checkMonitored, hMon] at hLast
          cases hLast
          exact ⟨hMoves, hNow, fun j hj => hLater j (by omega)⟩
      | some mon =>
          have hMem : mon ∈ s.monitor := by
            rw [hLater n (Nat.le_refl n)] at hMon
            exact List.mem_of_getElem? hMon
          obtain ⟨mon', s', hActs, rfl⟩ :=
            checkMonitored_acts hMon (hNow ▸ hChecked mon hMem) (hOk n) hLast
          refine ⟨hMoves.trans (hActs.moves hMon), hActs.now.trans hNow, ?_⟩
          intro j hj
          rw [State.put, List.getElem?_set_ne (by omega), hActs.monitor]
          exact hLater j (by omega)

/-- The message that is handed to the state machines, when no other owner of
the descriptor reads it. -/
def paxosMessage (ready : Fd) (input : Input) (s : State Fd Id) : Option PaxosMessage :=
  if receiver ready s.monitor = none ∧
      s.dstlistener.listening.findIdx? (AddressChange.listensOn ready) = none ∧
      s.dstproposers.findIdx? (fun p => p.sfd = some ready) = none then
    input.message.filter receivable
  else none

omit [DecidableEq Id] in
/-- What is handed on was received. -/
theorem paxosMessage_receivable {ready : Fd} {input : Input} {s : State Fd Id} {m : PaxosMessage}
    (h : paxosMessage ready input s = some m) : receivable m = true := by
  unfold paxosMessage at h
  split at h
  · exact (Option.filter_eq_some_iff.mp h).2
  · cases h

/-- The branch for messages of Paxos. -/
theorem handleReady_paxosMessage {o : Outcomes Fd} {ready : Fd} {input : Input} {s : State Fd Id}
    {m : PaxosMessage} (h : paxosMessage ready input s = some m) :
    handleReady o ready input s = handlePaxosMessage o ready m s.monitor.length 0 s := by
  unfold paxosMessage at h
  split at h
  next hOwner =>
    obtain ⟨hReceiver, hListening, hProposers⟩ := hOwner
    have hChange : s.dstlistener.readAddressChange ready input.address =
        ⟨s.dstlistener, [], 0, none⟩ := by
      simp only [LinkDstListener.readAddressChange, hListening]
    simp only [handleReady, hReceiver, hChange, hProposers, h, List.foldl_nil]
    rfl
  · cases h

/-- A ready descriptor moves the records as a message does. -/
theorem handleReady_moves {o : Outcomes Fd} {ready : Fd} {input : Input} {s t : State Fd Id}
    (hOk : ok.answered o.backup)
    (hMessages : ∀ m, paxosMessage ready input s = some m →
      ok.dialled m.name o.paxos ∧ ∀ mon ∈ s.monitor, ok.given mon ready m)
    (h : handleReady o ready input s = some t) : Moves Id ok s.ledger t.ledger := by
  cases hMessage : paxosMessage ready input s with
  | some m =>
      rw [handleReady_paxosMessage hMessage] at h
      obtain ⟨hDialled, hGiven⟩ := hMessages m hMessage
      exact handlePaxosMessage_moves hOk hDialled hGiven (paxosMessage_receivable hMessage) h
  | none =>
      cases handleReady_step h with
      | beat i mon _ hMon _ hNext =>
          have hBeat : Acts ok mon s
              { mon with hbc := mon.hbc.map (HeartbeatClient.readMessage s.now) } s := by
            cases hClient : mon.hbc with
            | none =>
                have hSame : { mon with hbc := none } = mon := by rw [← hClient]
                rw [Option.map_none, hSame]
                exact .refl mon s
            | some hbc =>
                exact ⟨rfl, rfl, [], (List.append_nil _).symm, (Change.beat hbc _ hClient).single⟩
          rw [hNext]
          exact hBeat.moves hMon
      | lost i mon out _ hMon _ hStart hNext =>
          rw [hNext]
          exact (startRecovery_acts hOk hStart).moves hMon
      | changed link newip newport _ _ hNext =>
          rcases startRerouting_cases hNext with ⟨_, rfl⟩ | ⟨_, rm, calls, _, _, rfl⟩
          · exact .of_same rfl rfl
          · refine .of_quiet _ rfl rfl (List.forall_mem_cons.mpr ⟨⟨id, ?_⟩, silent_calls calls⟩)
            intro fd m hSend
            cases hSend
      | answered _ _ _ hNext =>
          rw [hNext]
          exact .of_same rfl rfl
      | listed i _ _ _ hNext =>
          rw [hNext]
          unfold readProposerList
          split
          · exact .of_same rfl rfl
          · exact .of_same rfl rfl
          · exact .of_same rfl rfl
      | message m hReceiver hResult hFound hFilter _ =>
          have hListening := LinkDstListener.readAddressChange_result hResult
          rw [paxosMessage, if_pos ⟨hReceiver, hListening, hFound⟩, hFilter] at hMessage
          cases hMessage
      | unread _ _ _ _ hNext =>
          rw [hNext]
          exact .of_same rfl rfl

/-- An event moves no record. -/
theorem handleEvent_moves {o : Outcomes Fd} {le : ListenerEvent Id} {s t : State Fd Id}
    (h : handleEvent o le s = some t) : Moves Id ok s.ledger t.ledger := by
  cases le with
  | brokerDisconnection brokerip brokerport =>
      obtain ⟨ip, _, rfl⟩ := Option.map_eq_some_iff.mp h
      exact .of_same rfl rfl
  | linkDown srcip srcport dstip dstport =>
      unfold handleEvent linkDown at h
      dsimp only at h
      split at h
      · cases h
        exact .refl
      · split at h
        · cases h
          exact .refl
        next p _ =>
          split at h
          · obtain ⟨⟨l, opened, returned⟩, _, rfl⟩ := Option.map_eq_some_iff.mp h
            refine .of_quiet (opened.map fun fd => .query fd p.plist.name) rfl rfl ?_
            intro e he
            obtain ⟨fd, _, rfl⟩ := List.mem_map.mp he
            exact ⟨id, by simp⟩
          · cases h
  | objectProperty objinfo =>
      unfold handleEvent at h
      dsimp only at h
      split at h
      · obtain ⟨dst, _, rfl⟩ := Option.map_eq_some_iff.mp h
        unfold listenProposerList
        split <;> exact .of_same rfl rfl
      · cases h
        exact .of_same rfl rfl

omit [DecidableEq Id] in
/-- The record that is dropped is the first of that name. -/
theorem eraseMonitored_ledger (name : ServiceName) (s : State Fd Id) :
    (eraseMonitored name s).monitor = s.monitor.eraseP (fun mon => mon.name = name) ∧
      ∃ effects : List (Effect Fd), sends effects = [] ∧
        (eraseMonitored name s).trace = s.trace ++ effects.map .effect := by
  have hName : (fun mon : Monitored Fd => decide (strcmp mon.name.bytes name.bytes = 0)) =
      fun mon => decide (mon.name = name) := by
    funext mon
    exact decide_eq_decide.mpr (strcmp_bytes_iff _ _)
  unfold eraseMonitored
  rw [hName, List.eraseP_eq_eraseIdx]
  split
  next hNone => exact ⟨by rw [hNone], [], rfl, (List.append_nil _).symm⟩
  next i hFound =>
    obtain ⟨hBound, _⟩ := List.findIdx?_eq_some_iff_getElem.mp hFound
    simp only [hFound, List.getElem?_eq_getElem hBound]
    exact ⟨rfl, _, ProposerStateMachine.sends_disconnectAcceptors _, rfl⟩

omit [DecidableEq Id] in
/-- The new record takes the place of the one with that name. -/
theorem handleRequest_ledger (o : Outcomes Fd) (fromip : IPString) (r : ParticipateRequest)
    (s : State Fd Id) :
    ∃ now mon', ∃ effects : List (Effect Fd),
      mon'.psm = (ProposerStateMachine.new now o.paxos r.name r.votingversion
        ⟨r.committedversion, r.acceptor⟩).1 ∧
      mon'.hbc.isSome ∧ mon'.name = r.name ∧
      mon'.ip = (if r.brokerip.bytes = [] then fromip else r.brokerip) ∧
      mon'.port = r.brokerport ∧ mon'.informlist = [] ∧ sends effects = [] ∧
      (handleRequest o fromip r s).ledger =
        ⟨(s.monitor.eraseP fun mon => mon.name = r.name) ++ [mon'],
          s.trace ++ effects.map .effect⟩ := by
  obtain ⟨hMonitor, effects, hSends, hTrace⟩ := eraseMonitored_ledger r.name s
  generalize hIP : (if r.brokerip.bytes = [] then fromip else r.brokerip) = bip
  let psm := ProposerStateMachine.new (eraseMonitored r.name s).now o.paxos r.name r.votingversion
    ⟨r.committedversion, r.acceptor⟩
  refine ⟨(eraseMonitored r.name s).now,
    { psm := psm.1
      hbc := some (HeartbeatClient.new (eraseMonitored r.name s).now o.heartbeat bip)
      name := r.name
      ip := bip
      port := r.brokerport
      informlist := [] }, effects ++ psm.2, rfl, rfl, rfl, rfl, rfl, rfl,
    by simp [hSends, psm], ?_⟩
  simp only [handleRequest, hIP, createProposer, State.ledger, State.perform, hMonitor, hTrace,
    List.map_append, List.append_assoc]
  rfl

/-- A request replaces a record. -/
theorem handleRequest_moves {o : Outcomes Fd} {fromip : IPString} {r : ParticipateRequest}
    {s : State Fd Id} (hCreated : ok.created r.name)
    (hReplaced : ∀ mon ∈ s.monitor, mon.name = r.name → ok.replaced mon) :
    Moves Id ok s.ledger (handleRequest o fromip r s).ledger := by
  obtain ⟨now, mon', effects, hMachine, hClient, hName, _, _, hList, hSends, hLedger⟩ :=
    handleRequest_ledger o fromip r s
  rw [hLedger]
  rw [← hName] at hCreated hReplaced ⊢
  refine .single (.replace s.ledger mon' (effects.map .effect) hCreated hReplaced hClient ?_ hList
    (silent_effects hSends))
  rw [hMachine, hName]
  rfl

omit [DecidableEq Fd] in
/-- A query adds a subscriber. -/
theorem handleQuery_moves {o : Outcomes Fd} {newsfd : Fd} {name : ServiceName} {s : State Fd Id} :
    Moves Id ok s.ledger (handleQuery o newsfd name s).ledger := by
  unfold handleQuery
  split
  · exact .of_quiet [.effect (.close newsfd)] rfl rfl (by simp [Output.Silent, Output.Marks])
  · split
    · exact .refl
    next mon hMon =>
      cases hWritten : o.written newsfd with
      | true =>
          have hSubscribe : Acts ok mon s (addInformList o.written newsfd mon s).1
              (addInformList o.written newsfd mon s).2 := by
            simp only [addInformList, hWritten, if_true]
            refine ⟨rfl, rfl, _, ?_, (Change.subscribe newsfd).single⟩
            simp [State.log, informs, hWritten]
          exact hSubscribe.moves hMon
      | false =>
          refine .of_quiet (informs o.written mon.address [newsfd]) ?_ ?_ (silent_informs _ _ _)
          · simp only [addInformList, hWritten, State.put, State.log]
            exact set_getElem? hMon
          · simp only [addInformList, hWritten]
            rfl

/-- The inputs of one iteration meet the condition. -/
def Permits (ok : Condition Fd) (s : State Fd Id) : Action Fd Id → Prop
  | .request _ r _ =>
      ok.created r.name ∧ ∀ mon ∈ s.monitor, mon.name = r.name → ok.replaced mon
  | .ready sfd input o =>
      ok.answered o.backup ∧ ∀ m, paxosMessage sfd input s = some m →
        ok.dialled m.name o.paxos ∧ ∀ mon ∈ s.monitor, ok.given mon sfd m
  | .timeout o => (∀ i, ok.answered (o i).backup) ∧ ∀ mon ∈ s.monitor, ok.checked s.now mon
  | _ => True

/-- Every iteration of the main loop is a sequence of changes. -/
theorem step_moves {s t : State Fd Id} {action : Action Fd Id} (hOk : Permits ok s action)
    (hStep : step s action = some t) : Moves Id ok s.ledger t.ledger := by
  cases action with
  | wait d =>
      cases hStep
      exact .of_same rfl rfl
  | request fromip r o =>
      cases hStep
      exact handleRequest_moves hOk.1 hOk.2
  | query newsfd name o =>
      cases hStep
      exact handleQuery_moves
  | event le o => exact handleEvent_moves hStep
  | ready sfd input o => exact handleReady_moves hOk.1 hOk.2 hStep
  | timeout o =>
      exact (checkAll_moves (s := { s with totaltime := nextTotaltime s.totaltime }) hOk.2 hOk.1
        hStep).1

/-- An invariant of single moves holds in every state that the main loop
reaches under the condition. -/
theorem run_invariant {P : Ledger Fd → Prop} {s t : State Fd Id} (run : Run step (Permits ok) s t)
    (hStart : P s.ledger) (hMove : ∀ u v, P u → Move Id ok u v → P v) : P t.ledger :=
  run.invariant (P := fun s => P s.ledger) hStart fun _ _ _ h hOk hStep =>
    (step_moves hOk hStep).invariant h hMove

end QpidRecovery.Proposer
