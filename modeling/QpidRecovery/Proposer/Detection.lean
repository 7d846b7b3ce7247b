import QpidRecovery.Proposer.Refinement

/-! What becomes of a broker whose heartbeat was lost. The client that noticed
the loss is gone, so only the state machine's proposal keeps it in mind, and a
timeout or an acceptor change takes that away. -/
namespace QpidRecovery.Proposer

variable {Fd : Type}

/-- A backup is proposed for the record's broker, or a recovery was committed. -/
def Monitored.Recovering (mon : Monitored Fd) : Prop :=
  ((mon.psm.state = .phase1 ∨ mon.psm.state = .phase2) ∧
    ∃ rp, mon.psm.proposal = .recoveryProposal rp ∧ rp.failip = mon.ip ∧ rp.failport = mon.port) ∨
  (mon.psm.state = .phase3 ∧ ∃ rp, mon.psm.lastcommit = .recoveryProposal rp)

/-- Every record whose heartbeat client was dropped is still recovering. -/
def FailuresRemembered (monitor : List (Monitored Fd)) : Prop :=
  ∀ mon ∈ monitor, mon.hbc = none → mon.Recovering

/-- `checkTimeout` takes the machine back to `INITIAL`. -/
def TimesOut (now : Time) (psm : ProposerStateMachine Fd) : Prop :=
  (psm.state = .phase1 ∨ psm.state = .phase2) ∧ ¬ now - psm.timestamp ≤ seconds 4

/-- The machine learns that another proposer committed an acceptor change. -/
def LearnsAcceptors (psm : ProposerStateMachine Fd) (m : PaxosMessage) : Prop :=
  m.name = psm.name ∧ m.version = psm.version ∧ psm.state ≠ .phase3 ∧
    ∃ ap, m.body = .phase3Commit (.acceptorChangeProposal ap)

/-- No record without a heartbeat client times out or learns an acceptor
change. -/
def recoveryUndisturbed : Condition Fd where
  given := fun mon _ m => mon.hbc = none → ¬ LearnsAcceptors mon.psm m
  checked := fun now mon => mon.hbc = none → ¬ TimesOut now mon.psm

/-- In time nothing is given up. -/
theorem checkTimeout_of_not_timesOut {now : Time} {psm : ProposerStateMachine Fd}
    (h : ¬ TimesOut now psm) : (psm.checkTimeout now (seconds 4)).1 = psm := by
  unfold ProposerStateMachine.checkTimeout
  split
  · rfl
  next hLate =>
    cases hState : psm.state with
    | initial => rfl
    | phase3 => rfl
    | phase1 => exact absurd ⟨.inl hState, hLate⟩ h
    | phase2 => exact absurd ⟨.inr hState, hLate⟩ h

/-- A machine that times out starts over. -/
theorem checkTimeout_of_timesOut {now : Time} {psm : ProposerStateMachine Fd}
    (h : TimesOut now psm) : (psm.checkTimeout now (seconds 4)).1 = psm.initialState now := by
  obtain ⟨hState, hLate⟩ := h
  unfold ProposerStateMachine.checkTimeout
  rw [if_neg hLate]
  rcases hState with hState | hState <;> rw [hState]

/-- A message ends no recovery but by a commit. -/
theorem Monitored.Recovering.message {mon : Monitored Fd} (h : mon.Recovering) (now : Time)
    (ready : Fd) {m : PaxosMessage} (hOk : ¬ LearnsAcceptors mon.psm m)
    (hReceivable : receivable m = true) :
    ({ mon with psm := (mon.psm.handleMessage now ready m).machine } :
      Monitored Fd).Recovering := by
  have hOutcome := mon.psm.handleMessage_outcome now ready m
  generalize mon.psm.handleMessage now ready m = r at hOutcome
  have hProposing (hActive : mon.psm.state ≠ .phase3) :
      ∃ rp, mon.psm.proposal = .recoveryProposal rp ∧ rp.failip = mon.ip ∧
        rp.failport = mon.port := by
    rcases h with ⟨_, hProposal⟩ | ⟨hDone, _⟩
    · exact hProposal
    · exact absurd hDone hActive
  cases hOutcome with
  | ignored => exact h
  | dropped => exact h
  | recalled => exact h
  | counted ack nack hName hVersion hState =>
      exact .inl ⟨.inl hState, hProposing (by rw [hState]; decide)⟩
  | opened ack nack hName hVersion hState =>
      exact .inl ⟨.inr rfl, hProposing (by rw [hState]; decide)⟩
  | acknowledged hName hVersion hState =>
      exact .inl ⟨.inr hState, hProposing (by rw [hState]; decide)⟩
  | refused hName hVersion hState =>
      exact .inl ⟨.inr hState, hProposing (by rw [hState]; decide)⟩
  | learned p hName hVersion hState hBody =>
      cases p with
      | noProposal => simp [receivable, hBody] at hReceivable
      | recoveryProposal rp => exact .inr ⟨rfl, rp, rfl⟩
      | acceptorChangeProposal ap =>
          exact absurd ⟨hName, hVersion.symm, hState, ap, hBody⟩ hOk

/-- The proposal of a recovering record is a recovery. -/
theorem Monitored.Recovering.committing {mon : Monitored Fd} (h : mon.Recovering) {p : Proposal}
    (hProposal : mon.psm.getCommittingProposal = some p) : ∃ rp, p = .recoveryProposal rp := by
  unfold ProposerStateMachine.getCommittingProposal at hProposal
  rcases h with ⟨hState, rp, hProposed, _⟩ | ⟨hState, rp, hCommitted⟩
  · split at hProposal
    · exact ⟨rp, (Option.some.inj hProposal).symm.trans hProposed⟩
    · rcases hState with hState | hState <;> simp [hState] at hProposal
  · have hReady : mon.psm.isReadyToCommit = false := by
      simp [ProposerStateMachine.isReadyToCommit, hState]
    rw [hReady, if_neg Bool.false_ne_true, if_pos hState] at hProposal
    exact ⟨rp, (Option.some.inj hProposal).symm.trans hCommitted⟩

section Changes
variable {Id : Type} [DecidableEq Id]

/-- A change of a record goes on with its recovery. -/
theorem Change.recovering {mon mon' : Monitored Fd} {new : List (Output Fd)}
    (h : mon.hbc = none → mon.Recovering) (hChange : Change Id recoveryUndisturbed mon mon' new) :
    mon'.hbc = none → mon'.Recovering := by
  cases hChange with
  | beat => simp
  | timeout now hOk =>
      intro hClient
      rw [checkTimeout_of_not_timesOut (hOk hClient)]
      exact h hClient
  | message now ready m hOk hReceivable =>
      intro hClient
      exact (h hClient).message now ready (hOk hClient) hReceivable
  | inform => exact h
  | subscribe => exact h
  | propose now hbc backupip backupport r hClient hProposal =>
      intro _
      subst hProposal
      rcases mon.psm.newProposal_cases now (.recoveryProposal ⟨mon.psm.version, mon.ip, mon.port,
        backupip, backupport, 100⟩) with ⟨_, hEq⟩ | ⟨_, hEq⟩
      · rw [hEq]
        exact .inl ⟨.inl rfl, _, rfl, rfl, rfl⟩
      · rw [hEq]
        exact .inl ⟨.inr rfl, _, rfl, rfl, rfl⟩
  | commitSelf now rp rm reply calls returned written hOk hReady hProposal =>
      intro _
      refine .inr ?_
      simp only [ProposerStateMachine.sendCommitment, hReady]
      exact ⟨rfl, rp, hProposal⟩
  | commitOther rp stored written hState hProposal =>
      intro _
      have hReady : mon.psm.isReadyToCommit = false := by
        simp [ProposerStateMachine.isReadyToCommit, hState]
      unfold ProposerStateMachine.getCommittingProposal at hProposal
      rw [hReady, if_neg Bool.false_ne_true, if_pos hState] at hProposal
      exact .inr ⟨hState, rp, Option.some.inj hProposal⟩
  | commitAcceptors now r connect ap effects hOk hProposal =>
      intro hClient
      obtain ⟨rp, hEq⟩ := (h hClient).committing hProposal
      cases hEq

/-- A move of the process forgets no failure. -/
theorem Move.remembered {l l' : Ledger Fd} (h : FailuresRemembered l.monitor)
    (hMove : Move Id recoveryUndisturbed l l') : FailuresRemembered l'.monitor := by
  cases hMove with
  | quiet => exact h
  | change j hMon hChange =>
      intro mon hMem
      rcases List.mem_or_eq_of_mem_set hMem with hOld | rfl
      · exact h mon hOld
      · exact hChange.recovering (h _ (List.mem_of_getElem? hMon))
  | replace mon' new _ _ hClient =>
      intro mon hMem hNone
      rcases List.mem_append.mp hMem with hOld | hNew
      · exact h mon (List.mem_of_mem_eraseP hOld) hNone
      · rw [List.mem_singleton.mp hNew] at hNone
        rw [hNone] at hClient
        cases hClient

variable [DecidableEq Fd]

/-- A record without a client waits for its machine. -/
theorem checkMonitored_dropped {o : Nat → Outcomes Fd} {i : Nat} {s t : State Fd Id}
    {mon : Monitored Fd} (hMon : s.monitor[i]? = some mon) (hClient : mon.hbc = none)
    (h : checkMonitored o i s = some t) :
    ∃ mon', t.monitor[i]? = some mon' ∧ mon'.hbc = none ∧
      mon'.psm = (mon.psm.checkTimeout s.now (seconds 4)).1 := by
  have hBound := (List.getElem?_eq_some_iff.mp hMon).1
  simp only [checkMonitored, hMon] at h
  by_cases hInform : s.totaltime = 0
  · simp only [if_pos hInform, informAll, hClient] at h
    cases h
    exact ⟨_, List.getElem?_set_self hBound, rfl, rfl⟩
  · simp only [if_neg hInform, hClient] at h
    cases h
    exact ⟨_, List.getElem?_set_self hBound, rfl, rfl⟩

/-- The loop takes a record without a client through `checkTimeout` and
changes nothing else in its machine. -/
theorem checkAll_dropped {o : Nat → Outcomes Fd} {n j : Nat} {s t : State Fd Id}
    {mon : Monitored Fd} (hMon : s.monitor[j]? = some mon) (hClient : mon.hbc = none) (hj : j < n)
    (h : checkAll o n s = some t) :
    ∃ mon', t.monitor[j]? = some mon' ∧ mon'.hbc = none ∧
      mon'.psm = (mon.psm.checkTimeout s.now (seconds 4)).1 := by
  induction n generalizing t with
  | zero => cases hj
  | succ n ih =>
      obtain ⟨u, hFirst, hLast⟩ := Option.bind_eq_some_iff.mp h
      obtain ⟨_, hNow, hLater⟩ :=
        checkAll_moves (fun _ _ => trivial) (show ∀ i, anyInput.answered (o i).backup from
          fun _ => trivial) hFirst
      rcases Nat.lt_succ_iff_lt_or_eq.mp hj with hBefore | rfl
      · obtain ⟨mon', hFound, hRest⟩ := ih hBefore hFirst
        refine ⟨mon', ?_, hRest⟩
        cases hNext : u.monitor[n]? with
        | none =>
            simp only [checkMonitored, hNext] at hLast
            cases hLast
            exact hFound
        | some other =>
            obtain ⟨other', s', hActs, rfl⟩ :=
              checkMonitored_acts hNext trivial (show anyInput.answered (o n).backup from trivial)
                hLast
            rw [State.put, List.getElem?_set_ne (by omega), hActs.monitor]
            exact hFound
      · have hSame : u.monitor[j]? = some mon := (hLater j (Nat.le_refl j)).trans hMon
        rw [← hNow]
        exact checkMonitored_dropped hSame hClient hLast

/-- A record that learned an acceptor change starts over with a new machine. -/
theorem handlePaxosMessage_learned {o : Outcomes Fd} {ready : Fd} {m : PaxosMessage}
    {s t : State Fd Id} {mon : Monitored Fd} (hNames : WellNamed s.ledger) (hMem : mon ∈ s.monitor)
    (hLearns : LearnsAcceptors mon.psm m)
    (h : handlePaxosMessage o ready m s.monitor.length 0 s = some t) :
    ∃ mon' ∈ t.monitor, mon'.hbc = mon.hbc ∧ mon'.psm.state = .initial := by
  obtain ⟨hName, hVersion, hState, ap, hBody⟩ := hLearns
  have hLearned := mon.psm.handleMessage_learned s.now ready hName hVersion hState hBody
  rcases handlePaxosMessage_cases h with ⟨_, hIgnored⟩ | ⟨j, other, r, hMon, hReaction, hRest⟩
  · obtain ⟨j, hj⟩ := List.mem_iff_getElem?.mp hMem
    have hResult := hIgnored j mon (Nat.zero_le j)
      (by simpa using (List.getElem?_eq_some_iff.mp hj).1) hj
    rw [hLearned] at hResult
    cases hResult
  · have hMem' := List.mem_of_getElem? hMon
    have hSame : other = mon := by
      refine hNames.eq hMem' hMem ?_
      have hNotIgnored : (other.psm.handleMessage s.now ready m).result ≠ .ignored := by
        rw [← hReaction]
        rcases hRest with ⟨hHandled, _⟩ | ⟨hSelf | hOther, _⟩ <;> simp_all
      rw [← hNames.own other hMem', ← hNames.own mon hMem, ← hName,
        ProposerStateMachine.handleMessage_recipient hNotIgnored]
    subst hSame
    rw [hLearned] at hReaction
    subst hReaction
    rcases hRest with ⟨hHandled, _⟩ | ⟨_, mon', s', hCommit, rfl⟩
    · cases hHandled
    · have hActs := handleCommit_acts (show anyInput.answered o.backup from trivial)
        (fun _ _ => trivial) ⟨by simp, fun _ => rfl⟩ hCommit
      have hBound := (List.getElem?_eq_some_iff.mp hMon).1
      have hOut : s'.monitor.length = s.monitor.length := by
        rw [hActs.monitor]
        exact List.length_set
      refine ⟨mon', List.mem_set (hOut ▸ hBound) mon', ?_⟩
      simp only [handleCommit, ProposerStateMachine.getCommittingProposal,
        ProposerStateMachine.isReadyToCommit, ProposerStateMachine.commit_fst, commitAcceptors,
        ne_eq, reduceCtorEq, not_false_eq_true, not_true_eq_false, and_false, false_and,
        decide_false, Bool.false_eq_true, if_true, if_false, Option.some.injEq,
        Prod.mk.injEq] at hCommit
      obtain ⟨⟨rfl, _⟩, _⟩ := hCommit
      exact ⟨rfl, rfl⟩

/-- A detected failure is remembered in every run in which no record without a
heartbeat client times out or learns an acceptor change, and forgotten by every
iteration in which one does. -/
theorem failures_remembered (start : Time) (recoveryfd requestsfd querysfd : Option Fd)
    (backupbrokers : List Text) (s : State Fd Id)
    (run : Transition.Run step (Permits recoveryUndisturbed)
      (State.init start recoveryfd requestsfd querysfd backupbrokers) s) :
    FailuresRemembered s.monitor ∧
      ∀ action t, step s action = some t →
        (FailuresRemembered t.monitor ↔ Permits recoveryUndisturbed s action) := by
  have hBoth : WellNamed s.ledger ∧ FailuresRemembered s.ledger.monitor :=
    run_invariant (P := fun l => WellNamed l ∧ FailuresRemembered l.monitor) run
      ⟨⟨List.nodup_nil, by simp [State.init, State.ledger]⟩, by simp [State.init, State.ledger,
        FailuresRemembered]⟩
      fun _ _ h hMove => ⟨h.1.move hMove, Move.remembered h.2 hMove⟩
  obtain ⟨hNames, hRemembered⟩ := hBoth
  refine ⟨hRemembered, ?_⟩
  intro action t hStep
  constructor
  · intro hAfter
    cases action with
    | wait d => trivial
    | request fromip r o => exact ⟨trivial, fun _ _ _ => trivial⟩
    | query newsfd name o => trivial
    | event le o => trivial
    | ready sfd input o =>
        refine ⟨trivial, ?_⟩
        intro m hMessage
        refine ⟨trivial, ?_⟩
        intro mon hMem hClient hLearns
        have hHandled : handleReady o sfd input s = some t := hStep
        rw [handleReady_paxosMessage hMessage] at hHandled
        obtain ⟨mon', hMem', hClient', hState⟩ :=
          handlePaxosMessage_learned hNames hMem hLearns hHandled
        rcases hAfter mon' hMem' (hClient'.trans hClient) with ⟨hActive, _⟩ | ⟨hDone, _⟩
        · simp [hState] at hActive
        · simp [hState] at hDone
    | timeout o =>
        refine ⟨fun _ => trivial, ?_⟩
        intro mon hMem hClient hLate
        obtain ⟨j, hj⟩ := List.mem_iff_getElem?.mp hMem
        obtain ⟨mon', hMon', hClient', hMachine⟩ :=
          checkAll_dropped (s := { s with totaltime := nextTotaltime s.totaltime }) hj hClient
            (List.getElem?_eq_some_iff.mp hj).1 hStep
        have hState : mon'.psm.state = .initial := by
          rw [hMachine, checkTimeout_of_timesOut hLate]
          rfl
        rcases hAfter mon' (List.mem_of_getElem? hMon') hClient' with ⟨hActive, _⟩ | ⟨hDone, _⟩
        · simp [hState] at hActive
        · simp [hState] at hDone
  · intro hOk
    exact (step_moves hOk hStep).invariant (P := fun l => FailuresRemembered l.monitor) hRemembered
      fun _ _ h hMove => Move.remembered h hMove

end Changes

section OneBroker

/-- The heartbeat is lost and a backup is proposed. -/
def proposeBackup : List (Action Nat Nat) :=
  [watchBroker 1, .ready 10 .failed (allConnected 1)]

/-- The acceptor does not answer for more than four seconds. -/
theorem failure_forgotten :
    ¬ ∀ s : State Nat Nat, Transition.Run step (fun _ _ => True) oneBackup s →
      FailuresRemembered s.monitor := by
  intro h
  have hExec : (Transition.exec step oneBackup
      (proposeBackup ++ [.wait 4000001, .timeout fun _ => allConnected 1])).map
      (fun s => s.monitor.map fun mon => (mon.hbc, mon.psm.state)) = some [(none, .initial)] := by
    decide
  obtain ⟨s, hs, hMonitor⟩ := Option.map_eq_some_iff.mp hExec
  have hRemembered := h s (Transition.Run.of_exec (fun _ _ _ => trivial) hs)
  obtain ⟨mon, hMem, hForgotten⟩ := List.mem_map.mp (hMonitor ▸ List.mem_singleton_self _)
  obtain ⟨hClient, hState⟩ := Prod.mk.inj hForgotten
  rcases hRemembered mon hMem hClient with ⟨hActive, _⟩ | ⟨hDone, _⟩
  · simp [hState] at hActive
  · simp [hState] at hDone

theorem failures_remembered_oneBackup :
    ∃ s : State Nat Nat, (s.monitor.map Monitored.hbc) = [none] ∧ FailuresRemembered s.monitor := by
  have hExec : (Transition.exec step oneBackup proposeBackup).map
      (fun s => s.monitor.map Monitored.hbc) = some [none] := by
    decide
  obtain ⟨s, hs, hMonitor⟩ := Option.map_eq_some_iff.mp hExec
  refine ⟨s, hMonitor, (failures_remembered 0 (some 0) (some 1) (some 2) _ s
    (Transition.Run.of_exec ?_ hs)).1⟩
  intro u action hAction
  simp only [proposeBackup, List.mem_cons, List.not_mem_nil, or_false] at hAction
  rcases hAction with rfl | rfl
  · exact ⟨trivial, fun _ _ _ => trivial⟩
  · refine ⟨trivial, ?_⟩
    intro m hMessage
    simp [paxosMessage, Input.failed] at hMessage

end OneBroker

end QpidRecovery.Proposer
