import QpidRecovery.Requestor.Configuration

/-! What one iteration of the requestor does to its version, its machine, its
acceptors and the two flags of an acceptor change. -/
namespace QpidRecovery.Requestor

variable {Fd : Type} [DecidableEq Fd]

/-- The call of `handleCommit` that an iteration makes, with the result it is
given and the state it is called in. -/
inductive CommitCall (cfg : Config) (s : State Fd) :
    Action Fd → Outcomes Fd → PaxosResult → State Fd → Prop where
  | proposed {o : Outcomes Fd} (acc rest : List IPString) (hDue : s.mustChange = true)
      (hList : newAcceptors cfg s = some (acc, rest)) :
      CommitCall cfg s (.addAcceptors o) o
        (s.psm.newProposal s.now (.acceptorChangeProposal ⟨s.currentversion + 1, acc⟩)).result
        ({ s with
          needchangeacceptor := false
          ischangingacceptor := true
          acceptorIPs := rest }.react
            (s.psm.newProposal s.now (.acceptorChangeProposal ⟨s.currentversion + 1, acc⟩)))
  | received (sfd : Fd) (heartbeat : Bool) (m : PaxosMessage) {o : Outcomes Fd}
      (hProposers : receiver sfd s.proposers = none) (hAcceptors : receiver sfd s.acceptors = none) :
      CommitCall cfg s (.ready sfd heartbeat (some m) o) o
        (s.psm.handleMessage s.now sfd m).result (s.react (s.psm.handleMessage s.now sfd m))

/-- Nothing that concerns the acceptors has changed. -/
structure Same (s t : State Fd) : Prop where
  psm : t.psm = s.psm
  version : t.currentversion = s.currentversion
  acceptors : copyIPArray t.acceptors = copyIPArray s.acceptors
  need : t.needchangeacceptor = s.needchangeacceptor
  changing : t.ischangingacceptor = s.ischangingacceptor
  addresses : t.acceptorIPs = s.acceptorIPs

/-- Everything one iteration can do. -/
inductive Iteration (cfg : Config) (s : State Fd) : Action Fd → State Fd → Prop where
  | idle {action : Action Fd} {t : State Fd} (hSame : Same s t)
      (hLoss : ∀ sfd message o, action = .ready sfd false message o →
        receiver sfd s.proposers = none → receiver sfd s.acceptors = none)
      (hTimeout : action ≠ .timeout) : Iteration cfg s action t
  | lost (i : Nat) (sfd : Fd) (message : Option PaxosMessage) (o : Outcomes Fd) {t : State Fd}
      (hProposers : receiver sfd s.proposers = none)
      (hAcceptor : receiver sfd s.acceptors = some i)
      (hErased : t.acceptors = s.acceptors.eraseIdx i) (hNeed : t.needchangeacceptor = true)
      (hPsm : t.psm = s.psm) (hVersion : t.currentversion = s.currentversion)
      (hChanging : t.ischangingacceptor = s.ischangingacceptor)
      (hAddresses : t.acceptorIPs = s.acceptorIPs) :
      Iteration cfg s (.ready sfd false message o) t
  | expired {t : State Fd} (hIdle : s.mustChange = false)
      (hErased : t.acceptors =
        s.acceptors.filter fun hbc => !hbc.isExpired s.now (HEARTBEAT_PERIOD * 2))
      (hNeed : t.needchangeacceptor = s.needchangeacceptor)
      (hPsm : t.psm = s.psm) (hVersion : t.currentversion = s.currentversion)
      (hChanging : t.ischangingacceptor = s.ischangingacceptor)
      (hAddresses : t.acceptorIPs = s.acceptorIPs) : Iteration cfg s .timeout t
  | called {action : Action Fd} {o : Outcomes Fd} {r : PaxosResult} {s' t : State Fd}
      {returned : Int} (hCall : CommitCall cfg s action o r s')
      (hCommit : handleCommit cfg o r s' = some (t, returned)) : Iteration cfg s action t

variable {cfg : Config} {s t : State Fd} {action : Action Fd}

section Step

theorem step_iteration (h : step cfg s action = some t) : Iteration cfg s action t := by
  cases step_branch h with
  | proposed acc rest hDue hList hCommit => exact .called (.proposed acc rest hDue hList) hCommit
  | expired hIdle => exact .expired hIdle rfl rfl rfl rfl rfl rfl
  | proposerLost i hProposer =>
      refine .idle ⟨rfl, rfl, rfl, rfl, rfl, rfl⟩ ?_ (by simp)
      rintro _ _ _ ⟨⟩ hNone
      rw [hProposer] at hNone
      cases hNone
  | acceptorBeat i hProposers hAcceptor =>
      exact .idle ⟨rfl, rfl, copyIPArray_readMessage _ _ _, rfl, rfl, rfl⟩ (by simp) (by simp)
  | acceptorLost i hProposers hAcceptor =>
      exact .lost i _ _ _ hProposers hAcceptor rfl rfl rfl rfl rfl rfl
  | received hProposers hAcceptors hCommit =>
      exact .called (.received _ _ _ hProposers hAcceptors) hCommit
  | unread hProposers hAcceptors =>
      refine .idle ⟨rfl, rfl, rfl, rfl, rfl, rfl⟩ ?_ (by simp)
      rintro _ _ _ ⟨⟩ _
      exact hAcceptors
  | wait | recruited | unreached | unaccepted | accepted | proposerBeat =>
      exact .idle ⟨rfl, rfl, rfl, rfl, rfl, rfl⟩ (by simp) (by simp)

end Step

section Commit

/-- The action brings a commit of another proposer that the machine takes over. -/
def LearnsFrom (s : State Fd) (p : Proposal) : Action Fd → Prop
  | .ready sfd _ (some m) _ =>
      receiver sfd s.proposers = none ∧ receiver sfd s.acceptors = none ∧ Learns s m ∧
        m.body = .phase3Commit p
  | _ => False

/-- A proposal under way is an acceptor change whose list has a property. -/
def Proposes (Q : List IPString → Prop) (psm : ProposerStateMachine Fd) : Prop :=
  psm.state = .phase1 ∨ psm.state = .phase2 →
    ∃ v l, psm.proposal = .acceptorChangeProposal ⟨v, l⟩ ∧ Q l

/-- A commit that only sets the current version. -/
structure Adopted (p : Proposal) (s t : State Fd) : Prop where
  psm : t.psm = s.psm
  version : t.currentversion = p.getVersion
  acceptors : t.acceptors = s.acceptors
  need : t.needchangeacceptor = s.needchangeacceptor
  changing : t.ischangingacceptor = s.ischangingacceptor
  addresses : t.acceptorIPs = s.acceptorIPs

/-- A commit that installs its list. -/
structure Installed (cfg : Config) (o : Outcomes Fd) (ap : AcceptorChangeProposal)
    (s t : State Fd) : Prop where
  psm : t.psm = (ProposerStateMachine.new s.now o.paxos cfg.servicename (ap.newversion + 1)
    ⟨ap.newversion, ap.acceptor⟩).1
  version : t.currentversion = ap.newversion
  acceptors : copyIPArray t.acceptors = ap.acceptor
  need : t.needchangeacceptor = s.needchangeacceptor
  changing : t.ischangingacceptor = false
  addresses : t.acceptorIPs = s.acceptorIPs

theorem handleCommit_other {o : Outcomes Fd} {returned : Int} {p : Proposal}
    (hProposal : s.psm.getCommittingProposal = some p)
    (h : handleCommit cfg o .committingOther s = some (t, returned)) : Adopted p s t := by
  cases handleCommit_commit h with
  | nothing _ hOther => exact absurd rfl hOther
  | adopted ap hCommitting =>
      cases hProposal.symm.trans hCommitting
      exact ⟨rfl, rfl, rfl, rfl, rfl, rfl⟩
  | noted p' _ _ hCommitting =>
      cases hProposal.symm.trans hCommitting
      exact ⟨rfl, rfl, rfl, rfl, rfl, rfl⟩

theorem handleCommit_self {o : Outcomes Fd} {returned : Int} (ap : AcceptorChangeProposal)
    (hProposal : s.psm.getCommittingProposal = some (.acceptorChangeProposal ap))
    (h : handleCommit cfg o .committingSelf s = some (t, returned)) :
    Installed cfg o ap s t ∧ returned = 0 := by
  cases handleCommit_commit h with
  | nothing hSelf => exact absurd rfl hSelf
  | installed ap' hCommitting =>
      cases hProposal.symm.trans hCommitting
      exact ⟨⟨rfl, rfl, copyIPArray_new _ _ _, rfl, rfl, rfl⟩, rfl⟩
  | noted p _ _ hCommitting hOther =>
      cases hProposal.symm.trans hCommitting
      exact absurd rfl (hOther ap)

/-- Its own proposal is committed at once or is under way. -/
theorem proposed_cases {Q : List IPString → Prop} {o : Outcomes Fd} {v : Nat}
    {acc : List IPString} {s' : State Fd} {returned : Int} (hQ : Q acc)
    (hCommit : handleCommit cfg o
      (s.psm.newProposal s.now (.acceptorChangeProposal ⟨v, acc⟩)).result
      (s'.react (s.psm.newProposal s.now (.acceptorChangeProposal ⟨v, acc⟩))) =
        some (t, returned)) :
    (t = s'.react (s.psm.newProposal s.now (.acceptorChangeProposal ⟨v, acc⟩)) ∧ returned = -1 ∧
        Proposes Q t.psm) ∨
      ∃ ap, Q ap.acceptor ∧ Installed cfg o ap
        (s'.react (s.psm.newProposal s.now (.acceptorChangeProposal ⟨v, acc⟩))) t ∧
        returned = 0 := by
  rcases s.psm.newProposal_cases s.now (.acceptorChangeProposal ⟨v, acc⟩) with
    ⟨hSize, hEq⟩ | ⟨hSize, hEq⟩
  · rw [hEq, handleCommit_handled o (by simp) (by simp)] at hCommit
    cases hCommit
    exact .inl ⟨by rw [hEq], rfl, fun _ => ⟨_, acc, rfl, hQ⟩⟩
  · rw [hEq] at hCommit ⊢
    obtain ⟨hInstalled, hReturned⟩ := handleCommit_self ⟨v, acc⟩
      (by simp [State.react, ProposerStateMachine.getCommittingProposal,
        ProposerStateMachine.isReadyToCommit, hSize]) hCommit
    exact .inr ⟨_, hQ, hInstalled, hReturned⟩

omit [DecidableEq Fd] in
/-- A message that completes a majority commits the proposal under way. -/
theorem handleMessage_commits {sfd : Fd} {m : PaxosMessage}
    (hResult : (s.psm.handleMessage s.now sfd m).result = .committingSelf) :
    (s.psm.state = .phase1 ∨ s.psm.state = .phase2) ∧
      (s.psm.handleMessage s.now sfd m).machine.getCommittingProposal = some s.psm.proposal := by
  have hReady := s.psm.handleMessage_committingSelf hResult
  have hState : (s.psm.handleMessage s.now sfd m).machine.state = .phase2 := by
    simp only [ProposerStateMachine.isReadyToCommit, decide_eq_true_eq] at hReady
    exact hReady.1
  obtain ⟨hBefore, hSame⟩ := s.psm.handleMessage_active s.now sfd m (.inr hState)
  exact ⟨hBefore, by rw [← hSame]; exact if_pos hReady⟩

/-- A message leaves the process alone, brings a commit of another proposer
that is adopted, or commits the list under way. -/
theorem received_cases {Q : List IPString → Prop} {o : Outcomes Fd} {sfd : Fd} {m : PaxosMessage}
    {returned : Int} (hProposes : Proposes Q s.psm)
    (hCommit : handleCommit cfg o (s.psm.handleMessage s.now sfd m).result
      (s.react (s.psm.handleMessage s.now sfd m)) = some (t, returned)) :
    (t = s.react (s.psm.handleMessage s.now sfd m) ∧ returned = -1 ∧ Proposes Q t.psm) ∨
      (∃ p, Learns s m ∧ m.body = .phase3Commit p ∧
        (s.psm.handleMessage s.now sfd m).machine.state = .phase3 ∧
        Adopted p (s.react (s.psm.handleMessage s.now sfd m)) t) ∨
      ∃ ap, (s.psm.handleMessage s.now sfd m).result = .committingSelf ∧ Q ap.acceptor ∧
        Installed cfg o ap (s.react (s.psm.handleMessage s.now sfd m)) t ∧ returned = 0 := by
  cases hResult : (s.psm.handleMessage s.now sfd m).result with
  | committingSelf =>
      obtain ⟨hBefore, hCommitting⟩ := handleMessage_commits hResult
      obtain ⟨v, l, hProposal, hQ⟩ := hProposes hBefore
      rw [hResult] at hCommit
      obtain ⟨hInstalled, hReturned⟩ := handleCommit_self ⟨v, l⟩ (hProposal ▸ hCommitting) hCommit
      exact .inr (.inr ⟨_, rfl, hQ, hInstalled, hReturned⟩)
  | committingOther =>
      obtain ⟨hName, hVersion, hState, p, hBody, hTaken⟩ := s.psm.handleMessage_takes hResult
      rw [hResult] at hCommit
      exact .inr (.inl ⟨p, ⟨hName, hVersion, hState, p, hBody⟩, hBody,
        s.psm.handleMessage_committingOther hResult, handleCommit_other hTaken hCommit⟩)
  | _ =>
      rw [hResult, handleCommit_handled o (by simp) (by simp)] at hCommit
      cases hCommit
      refine .inl ⟨rfl, rfl, fun hPhase => ?_⟩
      obtain ⟨hBefore, hSame⟩ := s.psm.handleMessage_active s.now sfd m hPhase
      obtain ⟨v, l, hProposal, hQ⟩ := hProposes hBefore
      exact ⟨v, l, hSame.trans hProposal, hQ⟩

/-- What comes of a call of `handleCommit`: nothing, a commit of another
proposer that is adopted, or the installation of its own list. -/
theorem commitCall_cases {Q : List IPString → Prop} {o : Outcomes Fd} {r : PaxosResult}
    {s' : State Fd} {returned : Int} (hProposes : Proposes Q s.psm)
    (hNew : ∀ acc rest, newAcceptors cfg s = some (acc, rest) → Q acc)
    (hCall : CommitCall cfg s action o r s')
    (hCommit : handleCommit cfg o r s' = some (t, returned)) :
    (t = s' ∧ returned = -1 ∧ Proposes Q t.psm) ∨
      (∃ p, LearnsFrom s p action ∧ s'.psm.state = .phase3 ∧ Adopted p s' t) ∨
      ∃ ap, Q ap.acceptor ∧ Installed cfg o ap s' t ∧ returned = 0 := by
  cases hCall with
  | proposed acc rest hDue hList =>
      exact (proposed_cases (hNew acc rest hList) hCommit).imp id .inr
  | received sfd heartbeat m hProposers hAcceptors =>
      rcases received_cases hProposes hCommit with h | ⟨p, hLearns, hBody, h⟩ | ⟨ap, _, h⟩
      · exact .inl h
      · exact .inr (.inl ⟨p, ⟨hProposers, hAcceptors, hLearns, hBody⟩, h⟩)
      · exact .inr (.inr ⟨ap, h⟩)

theorem step_learnsFrom {p : Proposal} (h : LearnsFrom s p action)
    (hStep : step cfg s action = some t) :
    t.currentversion = p.getVersion ∧ t.psm.version = s.psm.version := by
  cases action with
  | ready sfd heartbeat message o =>
      cases message with
      | none => cases h
      | some m =>
          obtain ⟨hProposers, hAcceptors, ⟨hName, hVersion, hState, _⟩, hBody⟩ := h
          have hLearned := ProposerStateMachine.handleMessage_learned s.now sfd s.psm hName hVersion
            hState hBody
          obtain ⟨returned, hCommit⟩ := step_received hStep hProposers hAcceptors
          rw [hLearned] at hCommit
          have hAdopted := handleCommit_other (p := p)
            (by simp [State.react, ProposerStateMachine.getCommittingProposal,
              ProposerStateMachine.isReadyToCommit]) hCommit
          exact ⟨hAdopted.version, (congrArg ProposerStateMachine.version hAdopted.psm).trans
            (s.psm.commit_keeps s.now p).version⟩
  | _ => cases h

end Commit

end QpidRecovery.Requestor
