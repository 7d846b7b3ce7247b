import QpidRecovery.Proposer.Process

/-! The branches of the proposer's main loop. The functions that the loop calls
for a commit, a message and a ready descriptor are taken apart here. -/
namespace QpidRecovery.Proposer

variable {Fd Id : Type}

theorem set_getElem? {α : Type} {v : List α} {j : Nat} {a : α} (h : v[j]? = some a) :
    v.set j a = v := by
  obtain ⟨hBound, rfl⟩ := List.getElem?_eq_some_iff.mp h
  exact List.set_getElem_self hBound

section Ready
variable [DecidableEq Fd] {s t : State Fd Id}

/-- The subscriptions and the registered descriptors after a descriptor was
offered to them. -/
def State.afterChange (ready : Fd) (input : Input) (s : State Fd Id) : State Fd Id :=
  let change := s.dstlistener.readAddressChange ready input.address
  { s with
    dstlistener := change.listener
    fs := change.closed.foldl (fun fs fd => fs.unregisterFD (some fd)) s.fs }

/-- Who reads a ready descriptor, and what follows. -/
inductive ReadyStep [DecidableEq Id] (o : Outcomes Fd) (ready : Fd) (input : Input)
    (s t : State Fd Id) : Prop where
  | beat (i : Nat) (mon : Monitored Fd) (hReceiver : receiver ready s.monitor = some i)
      (hMon : s.monitor[i]? = some mon) (hRead : input.heartbeat = true)
      (hNext : t = s.put i { mon with hbc := mon.hbc.map (HeartbeatClient.readMessage s.now) })
  | lost (i : Nat) (mon : Monitored Fd) (out : Monitored Fd × State Fd Id)
      (hReceiver : receiver ready s.monitor = some i) (hMon : s.monitor[i]? = some mon)
      (hRead : input.heartbeat = false) (hStart : startRecovery o mon s = some out)
      (hNext : t = out.2.put i out.1)
  | changed (link : AddressChange Fd) (newip : IPString) (newport : UInt32)
      (hReceiver : receiver ready s.monitor = none)
      (hLink : (s.dstlistener.readAddressChange ready input.address).link =
        some (link, newip, newport))
      (hNext : startRerouting o link newip newport (s.afterChange ready input) = some t)
  | answered (hReceiver : receiver ready s.monitor = none)
      (hLink : (s.dstlistener.readAddressChange ready input.address).link = none)
      (hResult : (s.dstlistener.readAddressChange ready input.address).result ≠ 0)
      (hNext : t = s.afterChange ready input)
  | listed (i : Nat) (hReceiver : receiver ready s.monitor = none)
      (hResult : (s.dstlistener.readAddressChange ready input.address).result = 0)
      (hFound : (s.dstproposers.findIdx? fun p => p.sfd = some ready) = some i)
      (hNext : t = readProposerList ready input.proposers i s)
  | message (m : PaxosMessage) (hReceiver : receiver ready s.monitor = none)
      (hResult : (s.dstlistener.readAddressChange ready input.address).result = 0)
      (hFound : (s.dstproposers.findIdx? fun p => p.sfd = some ready) = none)
      (hMessage : input.message.filter receivable = some m)
      (hNext : handlePaxosMessage o ready m s.monitor.length 0 s = some t)
  | unread (hReceiver : receiver ready s.monitor = none)
      (hResult : (s.dstlistener.readAddressChange ready input.address).result = 0)
      (hFound : (s.dstproposers.findIdx? fun p => p.sfd = some ready) = none)
      (hMessage : input.message.filter receivable = none)
      (hNext : t = { s with fs := s.fs.unregisterFD (some ready) })

theorem afterChange_of_result {ready : Fd} {input : Input}
    (hResult : (s.dstlistener.readAddressChange ready input.address).result = 0) :
    (s.dstlistener.readAddressChange ready input.address).link = none ∧
      s.afterChange ready input = s := by
  have hListening := LinkDstListener.readAddressChange_result hResult
  have hChange : s.dstlistener.readAddressChange ready input.address =
      ⟨s.dstlistener, [], 0, none⟩ := by
    simp only [LinkDstListener.readAddressChange, hListening]
  rw [State.afterChange, hChange]
  exact ⟨rfl, rfl⟩

theorem handleReady_step [DecidableEq Id] {o : Outcomes Fd} {ready : Fd} {input : Input}
    (h : handleReady o ready input s = some t) : ReadyStep o ready input s t := by
  unfold handleReady at h
  split at h
  next i hReceiver =>
    split at h
    · cases h
    next mon hMon =>
      split at h
      next hRead =>
        cases h
        exact .beat i mon hReceiver hMon hRead rfl
      next hRead =>
        obtain ⟨out, hStart, rfl⟩ := Option.map_eq_some_iff.mp h
        exact .lost i mon out hReceiver hMon (Bool.eq_false_of_not_eq_true hRead) hStart rfl
  next hReceiver =>
    dsimp only at h
    split at h
    next link newip newport hLink => exact .changed link newip newport hReceiver hLink h
    next hLink =>
      split at h
      next hResult =>
        cases h
        exact .answered hReceiver hLink hResult rfl
      next hResult =>
        have hZero := not_not.mp hResult
        have hSame : s.afterChange ready input = s := (afterChange_of_result hZero).2
        have hRest := hSame
        unfold State.afterChange at hRest
        dsimp only at hRest
        rw [hRest] at h
        split at h
        next i hFound =>
          cases h
          exact .listed i hReceiver hZero hFound rfl
        next hFound =>
          split at h
          next m hMessage => exact .message m hReceiver hZero hFound hMessage h
          next hMessage =>
            cases h
            apply ReadyStep.unread hReceiver hZero hFound hMessage
            exact congrArg (fun u => { u with fs := u.fs.unregisterFD (some ready) }) hSame

omit [DecidableEq Fd] in
/-- A link is rerouted unless its source is down. -/
theorem startRerouting_cases [DecidableEq Id] {o : Outcomes Fd} {link : AddressChange Fd}
    {newip : IPString} {newport : UInt32} (h : startRerouting o link newip newport s = some t) :
    (o.broker.unreachable link.srcip.bytes = true ∧ t = s) ∨
      (o.broker.unreachable link.srcip.bytes = false ∧ ∃ rm calls returned,
        s.recovery.reroute link.srcip link.srcport link.oldip link.oldport newip newport o.broker =
          some (rm, calls, returned) ∧
        t = { s with
          recovery := rm
          trace := s.trace ++
            .reroute link.name link.srcip link.srcport link.oldip link.oldport newip newport ::
              calls.map .recovery }) := by
  unfold startRerouting at h
  split at h
  next hDown =>
    cases h
    exact .inl ⟨hDown, rfl⟩
  next hUp =>
    obtain ⟨⟨rm, calls, returned⟩, hReroute, rfl⟩ := Option.map_eq_some_iff.mp h
    refine .inr ⟨Bool.eq_false_of_not_eq_true hUp, rm, calls, returned, hReroute, ?_⟩
    simp only [State.log, List.append_assoc, List.singleton_append]

end Ready

section Commits
variable [DecidableEq Fd] [DecidableEq Id]

/-- A call of `handleCommit` with the record and the state after it, and the
result. -/
inductive Commit (o : Outcomes Fd) (mon : Monitored Fd) (s : State Fd Id) :
    PaxosResult → Monitored Fd × State Fd Id → Int → Prop where
  | nothing {r : PaxosResult} (hNone : r ≠ .committingSelf ∧ r ≠ .committingOther) :
      Commit o mon s r (mon, s) (-1)
  | recovered {r : PaxosResult} {out : Monitored Fd × State Fd Id} (rp : RecoveryProposal)
      (hResult : r = .committingSelf ∨ r = .committingOther)
      (hProposal : mon.psm.getCommittingProposal = some (.recoveryProposal rp))
      (hCommit : commitRecovery o r rp mon s = some out) : Commit o mon s r out 0
  | changed {r : PaxosResult} (ap : AcceptorChangeProposal)
      (hResult : r = .committingSelf ∨ r = .committingOther)
      (hProposal : mon.psm.getCommittingProposal = some (.acceptorChangeProposal ap)) :
      Commit o mon s r (commitAcceptors o r ap mon s) 0
  | empty {r : PaxosResult} (hResult : r = .committingSelf ∨ r = .committingOther)
      (hProposal : mon.psm.getCommittingProposal = some .noProposal) : Commit o mon s r (mon, s) 0

theorem handleCommit_commit {o : Outcomes Fd} {r : PaxosResult} {mon : Monitored Fd}
    {s : State Fd Id} {out : Monitored Fd × State Fd Id} {returned : Int}
    (h : handleCommit o r mon s = some (out, returned)) : Commit o mon s r out returned := by
  unfold handleCommit at h
  split at h
  next hNone =>
    cases h
    exact .nothing hNone
  next hCommits =>
    have hResult : r = .committingSelf ∨ r = .committingOther := by
      by_contra hNone
      exact hCommits (not_or.mp hNone)
    split at h
    · cases h
    next rp hProposal =>
      obtain ⟨_, hCommit, hOut⟩ := Option.map_eq_some_iff.mp h
      cases hOut
      exact .recovered rp hResult hProposal hCommit
    next ap hProposal =>
      cases h
      exact .changed ap hResult hProposal
    next hProposal =>
      cases h
      exact .empty hResult hProposal

/-- Both results that commit something return 0. -/
theorem handleCommit_returned {o : Outcomes Fd} {r : PaxosResult} {mon : Monitored Fd}
    {s : State Fd Id} {out : Monitored Fd × State Fd Id} {returned : Int}
    (hResult : r = .committingSelf ∨ r = .committingOther)
    (h : handleCommit o r mon s = some (out, returned)) : returned = 0 := by
  cases handleCommit_commit h with
  | nothing hNone => exact absurd hResult (not_or.mpr hNone)
  | recovered | changed | empty => rfl

/-- A backup is read, and the machine's reaction to its proposal is handled. -/
theorem startRecovery_cases {o : Outcomes Fd} {mon mon' : Monitored Fd} {s t : State Fd Id}
    (h : startRecovery o mon s = some (mon', t)) :
    ∃ hbc backupurl rest backupip backupport r returned,
      mon.hbc = some hbc ∧ s.backupbrokers = backupurl :: rest ∧
      urlToIPPort IP_LENGTH backupurl = some (backupip, backupport) ∧
      r = mon.psm.newProposal s.now
        (.recoveryProposal ⟨mon.psm.version, mon.ip, mon.port, backupip, backupport, 100⟩) ∧
      handleCommit o r.result { mon with hbc := none, psm := r.machine }
        (State.perform r.effects { s with
          fs := s.fs.unregisterFD hbc.sfd
          recovery := s.recovery.deleteBroker mon.ip mon.port
          backupbrokers := rest }) = some ((mon', t), returned) := by
  unfold startRecovery at h
  split at h
  next hbc backupurl rest hClient hBackups =>
    split at h
    · cases h
    next rp hProposal =>
      obtain ⟨⟨backupip, backupport⟩, hUrl, rfl⟩ := Option.map_eq_some_iff.mp hProposal
      obtain ⟨⟨⟨_, _⟩, returned⟩, hCommit, hOut⟩ := Option.map_eq_some_iff.mp h
      cases hOut
      exact ⟨hbc, backupurl, rest, backupip, backupport, _, returned, hClient, hBackups, hUrl, rfl,
        hCommit⟩
  · cases h

/-- A message is handled by the first record that does not ignore it, and the
others stay as they are. -/
theorem handlePaxosMessage_cases {o : Outcomes Fd} {ready : Fd} {m : PaxosMessage} {n i : Nat}
    {s t : State Fd Id} (h : handlePaxosMessage o ready m n i s = some t) :
    (t = s ∧ ∀ j mon, i ≤ j → j < i + n → s.monitor[j]? = some mon →
        (mon.psm.handleMessage s.now ready m).result = .ignored) ∨
      ∃ j mon r, s.monitor[j]? = some mon ∧ r = mon.psm.handleMessage s.now ready m ∧
        ((r.result = .handled ∧ t = (s.perform r.effects).put j { mon with psm := r.machine }) ∨
          ((r.result = .committingSelf ∨ r.result = .committingOther) ∧
            ∃ mon' s', handleCommit o r.result { mon with psm := r.machine }
                ((s.perform r.effects).put j { mon with psm := r.machine }) =
                  some ((mon', s'), 0) ∧
              t = s'.put j mon')) := by
  induction n generalizing i with
  | zero =>
      cases h
      exact .inl ⟨rfl, fun j _ _ _ _ => by omega⟩
  | succ n ih =>
      rw [handlePaxosMessage] at h
      split at h
      next hNone =>
        cases h
        refine .inl ⟨rfl, ?_⟩
        intro j mon hFrom _ hMon
        have hBound := (List.getElem?_eq_some_iff.mp hMon).1
        have hEnd := List.getElem?_eq_none_iff.mp hNone
        omega
      next mon hMon =>
        dsimp only at h
        split at h
        next hIgnored =>
          have hSame : (s.perform []).put i { mon with psm := mon.psm } = s := by
            simp only [State.perform, State.put, FileSelector.perform, List.foldl_nil,
              List.map_nil, List.append_nil]
            rw [set_getElem? hMon]
          rw [ProposerStateMachine.handleMessage_ignored hIgnored] at h
          dsimp only at h
          rw [hSame] at h
          rcases ih h with ⟨hEq, hRest⟩ | hHandled
          · refine .inl ⟨hEq, ?_⟩
            intro j mon' hFrom hTo hMon'
            rcases Nat.eq_or_lt_of_le hFrom with rfl | hLater
            · rw [hMon] at hMon'
              cases hMon'
              exact hIgnored
            · exact hRest j mon' hLater (by omega) hMon'
          · exact .inr hHandled
        next hNotIgnored =>
          split at h
          next hHandled =>
            cases h
            exact .inr ⟨i, mon, _, hMon, rfl, .inl ⟨hHandled, rfl⟩⟩
          next hNotHandled =>
            have hResult : (mon.psm.handleMessage s.now ready m).result = .committingSelf ∨
                (mon.psm.handleMessage s.now ready m).result = .committingOther := by
              cases hCase : (mon.psm.handleMessage s.now ready m).result <;> simp_all
            split at h
            · cases h
            next mon' s' returned hCommit =>
              have hZero := handleCommit_returned hResult hCommit
              subst hZero
              rw [if_pos rfl] at h
              cases h
              exact .inr ⟨i, mon, _, hMon, rfl, .inr ⟨hResult, mon', s', hCommit, rfl⟩⟩

/-- The machine is timed and, once in a while, the subscribers are informed
before the heartbeat client is looked at. -/
theorem checkMonitored_result {o : Nat → Outcomes Fd} {i : Nat} {mon : Monitored Fd}
    {s t : State Fd Id} (hMon : s.monitor[i]? = some mon) (h : checkMonitored o i s = some t) :
    ∃ out,
      (out = ({ mon with psm := (mon.psm.checkTimeout s.now (seconds 4)).1 }, s) ∨
        out = informAll (o i).checked
          { mon with psm := (mon.psm.checkTimeout s.now (seconds 4)).1 } s) ∧
      (t = out.2.put i out.1 ∨
        ∃ started, startRecovery (o i) out.1 out.2 = some started ∧ t = started.2.put i started.1) := by
  simp only [checkMonitored, hMon] at h
  generalize hOut : (if s.totaltime = 0 then informAll (o i).checked
    { mon with psm := (mon.psm.checkTimeout s.now (seconds 4)).1 } s
    else ({ mon with psm := (mon.psm.checkTimeout s.now (seconds 4)).1 }, s)) = out at h
  refine ⟨out, ?_, ?_⟩
  · split at hOut
    · exact .inr hOut.symm
    · exact .inl hOut.symm
  · split at h
    · cases h
      exact .inl rfl
    · split at h
      · obtain ⟨started, hStart, rfl⟩ := Option.map_eq_some_iff.mp h
        exact .inr ⟨started, hStart, rfl⟩
      · cases h
        exact .inl rfl

end Commits

end QpidRecovery.Proposer
