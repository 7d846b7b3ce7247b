import QpidRecovery.Requestor.Process

/-! The branches of the requestor's main loop. What is proved about an iteration
goes through the cases that are listed here, and only here is the loop's body
taken apart. -/
namespace QpidRecovery.Requestor

variable {Fd : Type} [DecidableEq Fd] {cfg : Config} {s t : State Fd}

/-- Anything but a commit leaves the process as the call left it. -/
theorem handleCommit_handled (o : Outcomes Fd) {r : PaxosResult} (h : r ≠ .committingSelf)
    (h' : r ≠ .committingOther) : handleCommit cfg o r s = some (s, -1) := by
  rw [handleCommit, if_pos ⟨h, h'⟩]

/-- A message is handled by the machine, and what the machine returns is
committed. -/
theorem handlePaxosMessage_commits {o : Outcomes Fd} {ready : Fd} {m : PaxosMessage}
    (h : handlePaxosMessage cfg o ready m s = some t) :
    ∃ returned, handleCommit cfg o (s.psm.handleMessage s.now ready m).result
      (s.react (s.psm.handleMessage s.now ready m)) = some (t, returned) := by
  unfold handlePaxosMessage at h
  dsimp only at h
  split at h
  next hQuiet =>
    cases h
    refine ⟨-1, handleCommit_handled o ?_ ?_⟩
    · rcases hQuiet with hResult | hResult <;> simp [hResult]
    · rcases hQuiet with hResult | hResult <;> simp [hResult]
  · obtain ⟨⟨_, returned⟩, hCommit, rfl⟩ := Option.map_eq_some_iff.mp h
    exact ⟨returned, hCommit⟩

/-- A call of `handleCommit` with the state after it and the result. -/
inductive Commit (cfg : Config) (o : Outcomes Fd) (s : State Fd) :
    PaxosResult → State Fd → Int → Prop where
  | nothing {r : PaxosResult} (hSelf : r ≠ .committingSelf) (hOther : r ≠ .committingOther) :
      Commit cfg o s r s (-1)
  | adopted (ap : AcceptorChangeProposal)
      (hProposal : s.psm.getCommittingProposal = some (.acceptorChangeProposal ap)) :
      Commit cfg o s .committingOther
        { s with
          currentversion := ap.newversion
          trace := s.trace ++ [.committed (.acceptorChangeProposal ap) .committingOther]
          committed := (ap.newversion, ap.acceptor) :: s.committed } (-1)
  | installed (ap : AcceptorChangeProposal)
      (hProposal : s.psm.getCommittingProposal = some (.acceptorChangeProposal ap)) :
      Commit cfg o s .committingSelf
        (commitAcceptors cfg o ap { s with
          currentversion := ap.newversion
          trace := s.trace ++ [.committed (.acceptorChangeProposal ap) .committingSelf]
          committed := (ap.newversion, ap.acceptor) :: s.committed }) 0
  | noted {r : PaxosResult} (p : Proposal) (returned : Int)
      (hResult : r = .committingSelf ∨ r = .committingOther)
      (hProposal : s.psm.getCommittingProposal = some p)
      (hOther : ∀ ap, p ≠ .acceptorChangeProposal ap) :
      Commit cfg o s r
        { s with currentversion := p.getVersion, trace := s.trace ++ [.committed p r] } returned

theorem handleCommit_commit {o : Outcomes Fd} {r : PaxosResult} {returned : Int}
    (h : handleCommit cfg o r s = some (t, returned)) : Commit cfg o s r t returned := by
  unfold handleCommit at h
  split at h
  next hNone =>
    cases h
    exact .nothing hNone.1 hNone.2
  next hCommits =>
    have hResult : r = .committingSelf ∨ r = .committingOther := by
      by_contra hNone
      exact hCommits (not_or.mp hNone)
    split at h
    · cases h
    next p hProposal =>
      cases p with
      | acceptorChangeProposal ap =>
          dsimp only at h
          rcases hResult with rfl | rfl
          · rw [if_neg (by simp)] at h
            cases h
            exact .installed ap hProposal
          · rw [if_pos (by simp)] at h
            cases h
            exact .adopted ap hProposal
      | recoveryProposal rp =>
          cases h
          exact .noted _ _ hResult hProposal (by simp)
      | noProposal =>
          cases h
          exact .noted _ _ hResult hProposal (by simp)

/-- An iteration with its guard and the state after it. -/
inductive Branch (cfg : Config) (s : State Fd) : Action Fd → State Fd → Prop where
  | wait (d : Nat) : Branch cfg s (.wait d) { s with now := s.now + d }
  | proposed {o : Outcomes Fd} {t : State Fd} {returned : Int} (acc rest : List IPString)
      (hDue : s.mustChange = true) (hList : newAcceptors cfg s = some (acc, rest))
      (hCommit : handleCommit cfg o
        (s.psm.newProposal s.now (.acceptorChangeProposal ⟨s.currentversion + 1, acc⟩)).result
        ({ s with
          needchangeacceptor := false
          ischangingacceptor := true
          acceptorIPs := rest }.react
            (s.psm.newProposal s.now (.acceptorChangeProposal ⟨s.currentversion + 1, acc⟩))) =
          some (t, returned)) : Branch cfg s (.addAcceptors o) t
  | recruited {o : Outcomes Fd} (newip : IPString) (rest : List IPString)
      (hDue : s.mustRecruit cfg = true) (hList : s.proposerIPs = newip :: rest)
      (hRequest : o.request 0 = true) :
      Branch cfg s (.addProposer o)
        { s with
          proposerIPs := rest
          sent := s.sent ++
            [⟨newip, .requestProposer, participateRequest cfg s.currentversion s.acceptors⟩]
          fs := if (o.heartbeat 0).isSome then s.fs.registerFD (o.heartbeat 0) else s.fs
          proposers := s.proposers ++ [HeartbeatClient.new s.now (o.heartbeat 0) newip]
          replysfd := s.replysfd.filter o.reply }
  | unreached {o : Outcomes Fd} (newip : IPString) (rest : List IPString)
      (hList : s.proposerIPs = newip :: rest) (hRequest : ¬ o.request 0 = true) :
      Branch cfg s (.addProposer o) { s with proposerIPs := rest }
  | expired (hIdle : s.mustChange = false) :
      Branch cfg s .timeout
        { s with
          proposers := (deleteExpired s.now s.proposers s.fs).1
          acceptors :=
            (deleteExpired s.now s.acceptors (deleteExpired s.now s.proposers s.fs).2).1
          fs := (deleteExpired s.now s.acceptors (deleteExpired s.now s.proposers s.fs).2).2 }
  | unaccepted (replied : Bool) : Branch cfg s (.query none replied) s
  | accepted (newsfd : Fd) (replied : Bool) (hFull : s.mustRecruit cfg = false) :
      Branch cfg s (.query (some newsfd) replied)
        { s with replysfd := if replied then s.replysfd ++ [newsfd] else s.replysfd }
  | proposerBeat {sfd : Fd} {message : Option PaxosMessage} {o : Outcomes Fd} (i : Nat)
      (hProposer : receiver sfd s.proposers = some i) :
      Branch cfg s (.ready sfd true message o)
        { s with proposers := s.proposers.modify i (HeartbeatClient.readMessage s.now) }
  | proposerLost {sfd : Fd} {message : Option PaxosMessage} {o : Outcomes Fd} (i : Nat)
      (hProposer : receiver sfd s.proposers = some i) :
      Branch cfg s (.ready sfd false message o)
        { s with
          proposers := (deleteHBC i s.proposers s.fs).1
          fs := (deleteHBC i s.proposers s.fs).2 }
  | acceptorBeat {sfd : Fd} {message : Option PaxosMessage} {o : Outcomes Fd} (i : Nat)
      (hProposers : receiver sfd s.proposers = none)
      (hAcceptor : receiver sfd s.acceptors = some i) :
      Branch cfg s (.ready sfd true message o)
        { s with acceptors := s.acceptors.modify i (HeartbeatClient.readMessage s.now) }
  | acceptorLost {sfd : Fd} {message : Option PaxosMessage} {o : Outcomes Fd} (i : Nat)
      (hProposers : receiver sfd s.proposers = none)
      (hAcceptor : receiver sfd s.acceptors = some i) :
      Branch cfg s (.ready sfd false message o)
        { s with
          acceptors := (deleteHBC i s.acceptors s.fs).1
          fs := (deleteHBC i s.acceptors s.fs).2
          needchangeacceptor := true }
  | received {sfd : Fd} {heartbeat : Bool} {m : PaxosMessage} {o : Outcomes Fd} {t : State Fd}
      {returned : Int} (hProposers : receiver sfd s.proposers = none)
      (hAcceptors : receiver sfd s.acceptors = none)
      (hCommit : handleCommit cfg o (s.psm.handleMessage s.now sfd m).result
        (s.react (s.psm.handleMessage s.now sfd m)) = some (t, returned)) :
      Branch cfg s (.ready sfd heartbeat (some m) o) t
  | unread {sfd : Fd} {heartbeat : Bool} {o : Outcomes Fd}
      (hProposers : receiver sfd s.proposers = none)
      (hAcceptors : receiver sfd s.acceptors = none) :
      Branch cfg s (.ready sfd heartbeat none o) { s with fs := s.fs.unregisterFD (some sfd) }

theorem handleReady_branch {sfd : Fd} {heartbeat : Bool} {message : Option PaxosMessage}
    {o : Outcomes Fd} (h : handleReady cfg sfd heartbeat message o s = some t) :
    Branch cfg s (.ready sfd heartbeat message o) t := by
  unfold handleReady at h
  split at h
  next i hProposer =>
    cases heartbeat with
    | true =>
        cases h
        exact .proposerBeat i hProposer
    | false =>
        cases h
        exact .proposerLost i hProposer
  next hProposers =>
    split at h
    next i hAcceptor =>
      cases heartbeat with
      | true =>
          cases h
          exact .acceptorBeat i hProposers hAcceptor
      | false =>
          cases h
          exact .acceptorLost i hProposers hAcceptor
    next hAcceptors =>
      cases message with
      | some m =>
          obtain ⟨returned, hCommit⟩ := handlePaxosMessage_commits h
          exact .received hProposers hAcceptors hCommit
      | none =>
          cases h
          exact .unread hProposers hAcceptors

/-- Every iteration takes one of the branches. -/
theorem step_branch {action : Action Fd} (h : step cfg s action = some t) :
    Branch cfg s action t := by
  cases action with
  | wait d =>
      cases h
      exact .wait d
  | addAcceptors o =>
      simp only [step] at h
      split at h
      next hDue =>
        unfold addAcceptors at h
        split at h
        · cases h
        next acc rest hList =>
          obtain ⟨⟨_, returned⟩, hCommit, rfl⟩ := Option.map_eq_some_iff.mp h
          exact .proposed acc rest hDue hList hCommit
      · cases h
  | addProposer o =>
      simp only [step] at h
      split at h
      next hDue =>
        unfold addProposer at h
        split at h
        · cases h
        next newip rest hList =>
          split at h
          next hRequest =>
            cases h
            exact .recruited newip rest (Bool.and_eq_true_iff.mp hDue).2 hList hRequest
          next hRequest =>
            cases h
            exact .unreached newip rest hList hRequest
      · cases h
  | timeout =>
      simp only [step] at h
      split at h
      next hIdle =>
        cases h
        exact .expired (by simpa using (Bool.and_eq_true_iff.mp hIdle).1)
      · cases h
  | query newsfd replied =>
      simp only [step] at h
      split at h
      next hIdle =>
        cases newsfd with
        | none =>
            cases h
            exact .unaccepted replied
        | some newsfd =>
            cases h
            exact .accepted newsfd replied (by simpa using (Bool.and_eq_true_iff.mp hIdle).2)
      · cases h
  | ready sfd heartbeat message o =>
      simp only [step] at h
      split at h
      · exact handleReady_branch h
      · cases h

/-- A message for no client is handled by the machine. -/
theorem step_received {sfd : Fd} {heartbeat : Bool} {m : PaxosMessage} {o : Outcomes Fd}
    (h : step cfg s (.ready sfd heartbeat (some m) o) = some t)
    (hProposers : receiver sfd s.proposers = none) (hAcceptors : receiver sfd s.acceptors = none) :
    ∃ returned, handleCommit cfg o (s.psm.handleMessage s.now sfd m).result
      (s.react (s.psm.handleMessage s.now sfd m)) = some (t, returned) := by
  cases step_branch h with
  | proposerBeat i hFound | proposerLost i hFound =>
      rw [hProposers] at hFound
      cases hFound
  | acceptorBeat i _ hFound | acceptorLost i _ hFound =>
      rw [hAcceptors] at hFound
      cases hFound
  | received _ _ hCommit => exact ⟨_, hCommit⟩

end QpidRecovery.Requestor
