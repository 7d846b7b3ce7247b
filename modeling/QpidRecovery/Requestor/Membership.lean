import QpidRecovery.Requestor.Iterations

/-! While acceptors are missing an acceptor change is wanted or under way,
unless one of them expired when none was. -/
namespace QpidRecovery.Requestor

open Transition

variable {Fd : Type} [DecidableEq Fd] {cfg : Config} {s t : State Fd} {action : Action Fd}

/-- There are no more acceptors than expected, and while there are fewer a
change is wanted or under way. -/
structure Supplied (cfg : Config) (s : State Fd) : Prop where
  atMost : s.acceptors.length ≤ cfg.expectedAcceptors
  pending : s.acceptors.length < cfg.expectedAcceptors →
    s.needchangeacceptor = true ∨ s.ischangingacceptor = true

/-- A timeout that finds no acceptor change under way finds no expired acceptor. -/
def NoneExpires (s : State Fd) (action : Action Fd) : Prop :=
  action = .timeout → s.ischangingacceptor = false →
    ∀ hbc ∈ s.acceptors, hbc.isExpired s.now (HEARTBEAT_PERIOD * 2) = false

/-- A list under way has the expected number of acceptors. -/
structure SuppliedInv (cfg : Config) (s : State Fd) : Prop where
  supplied : Supplied cfg s
  proposes : Proposes (fun l => l.length = cfg.expectedAcceptors) s.psm

omit [DecidableEq Fd] in
/-- A new list of acceptors is full. -/
theorem newAcceptors_length {acc rest : List IPString}
    (h : newAcceptors cfg s = some (acc, rest)) : acc.length = cfg.expectedAcceptors := by
  unfold newAcceptors at h
  dsimp only at h
  split at h
  next hEnough =>
    cases h
    rw [List.length_append, copyIPArray, List.length_map, List.length_take]
    omega
  · cases h

omit [DecidableEq Fd] in
theorem length_of_copyIPArray (h : copyIPArray t.acceptors = copyIPArray s.acceptors) :
    t.acceptors.length = s.acceptors.length := by
  simpa [copyIPArray] using congrArg List.length h

/-- The invariant before the main loop. -/
theorem suppliedInv_init (start : Time) (querysfd : Fd) (landmark : Option (IPString × Fd))
    (acceptorIPs proposerIPs : List IPString) :
    SuppliedInv cfg (State.init cfg start querysfd landmark acceptorIPs proposerIPs) where
  supplied := by
    refine ⟨Nat.zero_le _, fun hMissing => .inl ?_⟩
    exact decide_eq_true (Nat.ne_of_gt hMissing)
  proposes := by
    rintro (h | h)
    · cases h
    · cases h

section Kept
omit [DecidableEq Fd]

/-- At a timeout with no change wanted or under way all acceptors are there. -/
theorem Supplied.full (h : Supplied cfg s) (hIdle : s.mustChange = false)
    (hChanging : s.ischangingacceptor = false) : s.acceptors.length = cfg.expectedAcceptors := by
  have hNeed : s.needchangeacceptor = false := by
    simpa [State.mustChange, hChanging] using hIdle
  by_contra hMissing
  rcases h.pending (Nat.lt_of_le_of_ne h.atMost hMissing) with hFlag | hFlag
  · rw [hNeed] at hFlag
    cases hFlag
  · rw [hChanging] at hFlag
    cases hFlag

/-- The acceptors keep their number, and no flag that was set is cleared. -/
theorem Supplied.kept (h : Supplied cfg s) (hAcceptors : t.acceptors.length = s.acceptors.length)
    (hNeed : s.needchangeacceptor = true → t.needchangeacceptor = true ∨
      t.ischangingacceptor = true)
    (hChanging : s.ischangingacceptor = true → t.ischangingacceptor = true) : Supplied cfg t where
  atMost := by
    rw [hAcceptors]
    exact h.atMost
  pending := by
    rw [hAcceptors]
    intro hMissing
    exact (h.pending hMissing).elim hNeed fun hFlag => .inr (hChanging hFlag)

/-- Acceptors that expire are only missed when no change is under way. -/
theorem Supplied.expired (h : Supplied cfg s) (hOk : NoneExpires s .timeout)
    (hErased : t.acceptors =
      s.acceptors.filter fun hbc => !hbc.isExpired s.now (HEARTBEAT_PERIOD * 2))
    (hNeed : t.needchangeacceptor = s.needchangeacceptor)
    (hChanging : t.ischangingacceptor = s.ischangingacceptor) : Supplied cfg t := by
  cases hFlag : s.ischangingacceptor with
  | true =>
      refine ⟨?_, fun _ => .inr (hChanging.trans hFlag)⟩
      rw [hErased]
      exact Nat.le_trans (List.length_filter_le _ _) h.atMost
  | false =>
      have hAll : t.acceptors = s.acceptors := by
        rw [hErased, List.filter_eq_self]
        intro hbc hMem
        rw [hOk rfl hFlag hbc hMem, Bool.not_false]
      exact h.kept (by rw [hAll]) (fun hNeeded => .inl (hNeed.trans hNeeded)) hChanging.trans

end Kept

/-- A commit that an iteration makes meets a supplied state. -/
theorem CommitCall.supplied {s' : State Fd} {o : Outcomes Fd} {r : PaxosResult}
    (hCall : CommitCall cfg s action o r s') (h : Supplied cfg s) : Supplied cfg s' := by
  cases hCall with
  | proposed => exact h.kept rfl (fun _ => .inr rfl) fun _ => rfl
  | received => exact h.kept rfl .inl id

/-- An iteration in which nothing expires keeps the invariant. -/
theorem SuppliedInv.step (hInv : SuppliedInv cfg s) (hOk : NoneExpires s action)
    (hStep : step cfg s action = some t) : SuppliedInv cfg t := by
  obtain ⟨hSupplied, hProposes⟩ := hInv
  cases step_iteration hStep with
  | idle hSame =>
      exact ⟨hSupplied.kept (length_of_copyIPArray hSame.acceptors)
        (fun h => .inl (hSame.need.trans h)) hSame.changing.trans, by rwa [hSame.psm]⟩
  | lost i sfd message o hProposers hAcceptor hErased hNeed hPsm =>
      refine ⟨⟨?_, fun _ => .inl hNeed⟩, by rwa [hPsm]⟩
      rw [hErased]
      exact Nat.le_trans (List.length_eraseIdx_le _ _) hSupplied.atMost
  | expired hIdle hErased hNeed hPsm hVersion hChanging =>
      exact ⟨hSupplied.expired hOk hErased hNeed hChanging, by rwa [hPsm]⟩
  | called hCall hCommit =>
      have hBefore := hCall.supplied hSupplied
      rcases commitCall_cases hProposes (fun _ _ => newAcceptors_length) hCall hCommit with
        ⟨rfl, _, hNext⟩ | ⟨p, _, hDone, hAdopted⟩ | ⟨ap, hLength, hInstalled, _⟩
      · exact ⟨hBefore, hNext⟩
      · constructor
        · exact hBefore.kept (by rw [hAdopted.acceptors]) (fun h => .inl (hAdopted.need.trans h))
            hAdopted.changing.trans
        · rw [hAdopted.psm]
          intro hPhase
          simp [hDone] at hPhase
      · have hFull : t.acceptors.length = cfg.expectedAcceptors := by
          rw [← hLength, ← hInstalled.acceptors, copyIPArray, List.length_map]
        refine ⟨⟨Nat.le_of_eq hFull, fun hMissing => absurd hFull (Nat.ne_of_lt hMissing)⟩, ?_⟩
        rw [hInstalled.psm]
        rintro (hPhase | hPhase)
        · cases hPhase
        · cases hPhase

/-- An acceptor that expires when no change is under way is missed. -/
theorem SuppliedInv.noneExpires (hInv : SuppliedInv cfg s)
    (hStep : Requestor.step cfg s action = some t) (hNext : Supplied cfg t) : NoneExpires s action := by
  rintro rfl hFlag hbc hMem
  cases step_iteration hStep with
  | idle _ _ hTimeout => exact absurd rfl hTimeout
  | called hCall => cases hCall
  | expired hIdle hErased hNeed hPsm hVersion hChanging =>
      have hFull := hInv.supplied.full hIdle hFlag
      have hSame : t.mustChange = false := by
        rw [State.mustChange, hNeed, hChanging]
        exact hIdle
      have hAll : t.acceptors = s.acceptors := by
        have hSub : t.acceptors.Sublist s.acceptors := by
          rw [hErased]
          exact List.filter_sublist
        exact hSub.eq_of_length ((hNext.full hSame (hChanging.trans hFlag)).trans hFull.symm)
      rw [hErased, List.filter_eq_self] at hAll
      simpa using hAll hbc hMem

/-- Along every sequence of iterations missing acceptors have a change wanted
or under way, exactly if none expires when none is under way. -/
theorem supplied_iff (start : Time) (querysfd : Fd) (landmark : Option (IPString × Fd))
    (acceptorIPs proposerIPs : List IPString) (actions : List (Action Fd)) :
    Throughout (step cfg) (Supplied cfg)
        (State.init cfg start querysfd landmark acceptorIPs proposerIPs) actions ↔
      Along (step cfg) NoneExpires
        (State.init cfg start querysfd landmark acceptorIPs proposerIPs) actions := by
  apply throughout_iff (I := SuppliedInv cfg)
  · exact fun s hInv => hInv.supplied
  · exact fun s action t hInv hStep hOk => hInv.step hOk hStep
  · exact fun s action t hInv hStep hNext => hInv.noneExpires hStep hNext
  · exact suppliedInv_init start querysfd landmark acceptorIPs proposerIPs

section OneAcceptor

/-- The acceptor is installed, and its next heartbeat never comes. -/
def expireAcceptor : List (Action Nat) :=
  [.addAcceptors (connected 10), .addProposer (connected 20), .wait 6000000, .timeout,
    .addProposer (connected 30)]

theorem supplied_broken :
    ¬ ∀ actions, Throughout (step oneAndOne) (Supplied oneAndOne) start actions := by
  intro h
  have hExec : (exec (step oneAndOne) start expireAcceptor).map (fun s =>
      (s.acceptors.length, s.needchangeacceptor, s.ischangingacceptor)) =
      some (0, false, false) := by
    decide
  obtain ⟨s, hs, hState⟩ := Option.map_eq_some_iff.mp hExec
  simp only [Prod.mk.injEq] at hState
  have hLast := ((h expireAcceptor).last hs).pending (by rw [hState.1]; decide)
  rw [hState.2.1, hState.2.2] at hLast
  simp at hLast

end OneAcceptor

end QpidRecovery.Requestor
