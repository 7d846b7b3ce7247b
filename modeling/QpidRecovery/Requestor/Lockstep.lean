import QpidRecovery.Requestor.Iterations

/-! The voting version of the requestor's machine stays one ahead of the
version it committed last, unless it adopts the version of a commit of another
proposer. -/
namespace QpidRecovery.Requestor

open Transition

variable {Fd : Type} [DecidableEq Fd] {cfg : Config}

/-- What holds whenever the main loop starts over. -/
def Lockstep (s : State Fd) : Prop := s.psm.version = s.currentversion + 1

/-- A call of `handleCommit` that returns `-1` leaves these as they were. -/
def FailsUnchanged (cfg : Config) (s : State Fd) (action : Action Fd) : Prop :=
  ∀ o r s' t, CommitCall cfg s action o r s' → handleCommit cfg o r s' = some (t, -1) →
    t.currentversion = s'.currentversion ∧ t.psm.version = s'.psm.version ∧
      t.acceptors = s'.acceptors ∧ t.ischangingacceptor = s'.ischangingacceptor

/-- A commit learned from another proposer carries the current version. -/
def LearnsCurrent (s : State Fd) (action : Action Fd) : Prop :=
  ∀ p, LearnsFrom s p action → p.getVersion = s.currentversion

structure LockstepInv (s : State Fd) : Prop where
  lockstep : Lockstep s
  proposes : Proposes (fun _ => True) s.psm

/-- The machine starts one version ahead. -/
theorem lockstepInv_init (start : Time) (querysfd : Fd) (landmark : Option (IPString × Fd))
    (acceptorIPs proposerIPs : List IPString) :
    LockstepInv (State.init cfg start querysfd landmark acceptorIPs proposerIPs) where
  lockstep := rfl
  proposes := by
    rintro (h | h)
    · cases h
    · cases h

/-- Before `handleCommit` is called, neither of the two versions moves. -/
theorem CommitCall.version {s s' : State Fd} {action : Action Fd} {o : Outcomes Fd}
    {r : PaxosResult} (h : CommitCall cfg s action o r s') :
    s'.currentversion = s.currentversion ∧ s'.psm.version = s.psm.version := by
  cases h with
  | proposed => exact ⟨rfl, (s.psm.newProposal_keeps s.now _).version⟩
  | received sfd _ m => exact ⟨rfl, (s.psm.handleMessage_keeps s.now sfd m).version⟩

/-- A commit that fails changes nothing, if what is learned is current. -/
theorem LockstepInv.failsUnchanged {s : State Fd} {action : Action Fd} (hInv : LockstepInv s)
    (hOk : LearnsCurrent s action) : FailsUnchanged cfg s action := by
  intro o r s' t hCall hCommit
  rcases commitCall_cases hInv.proposes (fun _ _ _ => trivial) hCall hCommit with
    ⟨rfl, _, _⟩ | ⟨p, hLearns, _, hAdopted⟩ | ⟨ap, _, _, hReturned⟩
  · exact ⟨rfl, rfl, rfl, rfl⟩
  · have hVersion : t.currentversion = s'.currentversion := by
      rw [hAdopted.version, hOk p hLearns, hCall.version.1]
    exact ⟨hVersion, by rw [hAdopted.psm], hAdopted.acceptors, hAdopted.changing⟩
  · cases hReturned

/-- Every iteration keeps the two versions in step. -/
theorem LockstepInv.step {s t : State Fd} {action : Action Fd} (hInv : LockstepInv s)
    (hOk : LearnsCurrent s action) (hStep : step cfg s action = some t) : LockstepInv t := by
  have hKept (hPsm : t.psm = s.psm) (hVersion : t.currentversion = s.currentversion) :
      LockstepInv t := by
    refine ⟨?_, by rw [hPsm]; exact hInv.proposes⟩
    rw [Lockstep, hPsm, hVersion]
    exact hInv.lockstep
  cases step_iteration hStep with
  | idle hSame => exact hKept hSame.psm hSame.version
  | lost i sfd message o hProposers hAcceptor hErased hNeed hPsm hVersion =>
      exact hKept hPsm hVersion
  | expired hIdle hErased hNeed hPsm hVersion => exact hKept hPsm hVersion
  | called hCall hCommit =>
      obtain ⟨hCurrent, hVoting⟩ := hCall.version
      rcases commitCall_cases hInv.proposes (fun _ _ _ => trivial) hCall hCommit with
        ⟨rfl, _, hProposes⟩ | ⟨p, hLearns, hDone, hAdopted⟩ | ⟨ap, _, hInstalled, _⟩
      · refine ⟨?_, hProposes⟩
        rw [Lockstep, hVoting, hCurrent]
        exact hInv.lockstep
      · constructor
        · rw [Lockstep, hAdopted.psm, hVoting, hAdopted.version, hOk p hLearns]
          exact hInv.lockstep
        · rw [hAdopted.psm]
          intro hPhase
          simp [hDone] at hPhase
      · constructor
        · rw [Lockstep, hInstalled.psm, hInstalled.version]
          rfl
        · rw [hInstalled.psm]
          rintro (hPhase | hPhase)
          · cases hPhase
          · cases hPhase

/-- Along every sequence of iterations the lockstep holds, and a failed
`handleCommit` changes nothing, exactly if no commit of another version is
learned. -/
theorem lockstep_iff (start : Time) (querysfd : Fd) (landmark : Option (IPString × Fd))
    (acceptorIPs proposerIPs : List IPString) (actions : List (Action Fd)) :
    (Throughout (step cfg) Lockstep
        (State.init cfg start querysfd landmark acceptorIPs proposerIPs) actions ∧
      Along (step cfg) (FailsUnchanged cfg)
        (State.init cfg start querysfd landmark acceptorIPs proposerIPs) actions) ↔
      Along (step cfg) LearnsCurrent
        (State.init cfg start querysfd landmark acceptorIPs proposerIPs) actions := by
  apply throughout_iff_along (I := LockstepInv)
  · exact fun s hInv => hInv.lockstep
  · intro s action t hInv hStep hOk
    exact ⟨hInv.failsUnchanged hOk, hInv.step hOk hStep⟩
  · intro s action t hInv hStep _ hNext p hLearns
    obtain ⟨hVersion, hVoting⟩ := step_learnsFrom hLearns hStep
    have hBefore := hInv.lockstep
    unfold Lockstep at hBefore hNext
    omega
  · exact lockstepInv_init start querysfd landmark acceptorIPs proposerIPs

section OneAcceptor

/-- The acceptor's heartbeat is lost and its replacement is proposed to it, but
it has voted for a recovery in the meantime and answers with that commit. -/
def learnRecovery : List (Action Nat) :=
  [.addAcceptors (connected 10), .addProposer (connected 20), .ready 10 false none (connected 30),
    .addAcceptors (connected 30),
    .ready 11 false (some ⟨2, brokerService, .phase3Commit
      (.recoveryProposal ⟨2, localhost, 5672, localhost, 5672, 0⟩)⟩) (connected 40)]

/-- A commit of another version breaks the lockstep. -/
theorem lockstep_broken :
    ¬ ∀ actions, Throughout (step oneAndOne) Lockstep start actions ∧
      Along (step oneAndOne) (FailsUnchanged oneAndOne) start actions := by
  intro h
  have hExec : (exec (step oneAndOne) start learnRecovery).map
      (fun s => (s.currentversion, s.psm.version)) = some (2, 2) := by
    decide
  obtain ⟨s, hs, hVersions⟩ := Option.map_eq_some_iff.mp hExec
  have hLast := (h learnRecovery).1.last hs
  obtain ⟨hCurrent, hVoting⟩ := Prod.mk.inj hVersions
  rw [Lockstep, hCurrent, hVoting] at hLast
  cases hLast

end OneAcceptor

end QpidRecovery.Requestor
