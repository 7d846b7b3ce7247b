import QpidRecovery.Instance.Election

/-! Safety of one service name and voting version. -/
namespace QpidRecovery.Instance

open Transition

variable {ι : Type} [DecidableEq ι] {cfg : Config ι} {s t : State ι}

/-- At most one proposer ever returns `COMMITTING_SELF`, for the proposal it
was given. -/
theorem decided_unique (hNonempty : cfg.last.acceptor ≠ [])
    (run : Run (step cfg) (KeepsAcceptance cfg) (init cfg) s) {j k : ι} {p q : Proposal}
    (hj : (j, p) ∈ s.decided) (hk : (k, q) ∈ s.decided) : j = k ∧ p = q := by
  obtain ⟨hInv, b, hReach, h⟩ := run_refines hNonempty run
  have hEq := hReach.elected_unique (h.declared j p hj) (h.declared k q hk)
  subst hEq
  have hGiven := (hInv.own j p hj).symm.trans (hInv.own j q hk)
  exact ⟨rfl, Option.some.inj hGiven⟩

omit [DecidableEq ι] in
theorem noTimeout_keepsAcceptance {u : State ι} {action : Action ι}
    (h : NoTimeout cfg u action) : KeepsAcceptance cfg u action := by
  cases action with
  | acceptorTimeout a => exact fun _ => h
  | _ => trivial

/-- Agreement survives every interleaving, proposer timeouts and forgotten
promises, as long as no acceptor forgets an acknowledged phase 2 request. -/
theorem agreement_of_keepsAcceptance (cfg : Config ι) (hNonempty : cfg.last.acceptor ≠ [])
    (s : State ι) (run : Run (step cfg) (KeepsAcceptance cfg) (init cfg) s) : Agreement s := by
  intro j p k q hj hk
  rw [(decided_unique hNonempty run hj hk).2]
  exact q.compare_self

section OneAcceptor

/-- A single acceptor, which every proposer reaches. -/
def oneAcceptor : Config Nat where
  name := brokerService
  version := 2
  last := ⟨1, [localhost]⟩
  connected := fun _ _ => true
  timeout := seconds 4
  start := 0

def recoverTo (port : UInt32) : Proposal :=
  .recoveryProposal ⟨2, localhost, 5672, localhost, port, 100⟩

/-- Proposer `j` has its proposal acknowledged twice. -/
def proposeAlone (j : Nat) (p : Proposal) : List (Action Nat) :=
  let message (body : PaxosBody) : PaxosMessage := ⟨2, oneAcceptor.name, body⟩
  [.newProposal j p,
    .deliver (.toAcceptor j localhost (message (.phase1Proposal p))),
    .deliver (.toProposer localhost j (message .phase1Ack)),
    .deliver (.toAcceptor j localhost (message (.phase2Request p))),
    .deliver (.toProposer localhost j (message .phase2Ack))]

theorem proposeAlone_noTimeout (j : Nat) (p : Proposal) (u : State Nat) :
    ∀ action ∈ proposeAlone j p, NoTimeout oneAcceptor u action := by
  intro action hMem
  simp only [proposeAlone, List.mem_cons, List.not_mem_nil, or_false] at hMem
  rcases hMem with rfl | rfl | rfl | rfl | rfl <;> trivial

theorem agreement_oneAcceptor :
    ∃ s : State Nat, (0, recoverTo 5673) ∈ s.decided ∧ Agreement s := by
  have hExec : (exec (step oneAcceptor) (init oneAcceptor)
      (proposeAlone 0 (recoverTo 5673))).map State.decided = some [(0, recoverTo 5673)] := by
    decide
  obtain ⟨s, hs, hDecided⟩ := Option.map_eq_some_iff.mp hExec
  have hRun : Run (step oneAcceptor) (KeepsAcceptance oneAcceptor) (init oneAcceptor) s :=
    Run.of_exec (fun u a ha => noTimeout_keepsAcceptance (proposeAlone_noTimeout _ _ u a ha)) hs
  exact ⟨s, by simp [hDecided], agreement_of_keepsAcceptance oneAcceptor (by decide) s hRun⟩

/-- The acceptor acknowledges one proposer, forgets it after its timeout, and
acknowledges another one before the first proposer's commit reaches it. -/
theorem agreement_fails_after_acceptor_timeout :
    ¬ ∀ (cfg : Config Nat) (s : State Nat), cfg.last.acceptor ≠ [] →
      Run (step cfg) (fun _ _ => True) (init cfg) s → Agreement s := by
  intro h
  have hExec : (exec (step oneAcceptor) (init oneAcceptor)
      (proposeAlone 0 (recoverTo 5673) ++ [.wait 5000000, .acceptorTimeout localhost] ++
        proposeAlone 1 (recoverTo 5674))).map State.decided =
      some [(1, recoverTo 5674), (0, recoverTo 5673)] := by decide
  obtain ⟨s, hs, hDecided⟩ := Option.map_eq_some_iff.mp hExec
  have hAgree := h oneAcceptor s (by decide) (Run.of_exec (fun _ _ _ => trivial) hs)
    1 (recoverTo 5674) 0 (recoverTo 5673) (by simp [hDecided]) (by simp [hDecided])
  revert hAgree
  decide

end OneAcceptor

/-- Decisions are never withdrawn. -/
theorem step_decided_subset {action : Action ι} (hStep : step cfg s action = some t) :
    s.decided ⊆ t.decided := by
  cases action with
  | wait d =>
      cases hStep
      exact List.Subset.refl _
  | newProposal j p =>
      simp only [step] at hStep
      split at hStep
      · cases hStep
        exact decided_subset _ _ _
      · cases hStep
  | deliver packet =>
      simp only [step] at hStep
      split at hStep
      · cases packet <;> cases hStep
        · exact List.Subset.refl _
        · exact decided_subset _ _ _
      · cases hStep
  | sendCommitment j =>
      cases hStep
      exact List.Subset.refl _
  | proposerTimeout j =>
      cases hStep
      exact decided_subset s.decided j (.quiet ((s.proposers j).checkTimeout s.now cfg.timeout))
  | acceptorTimeout a =>
      cases hStep
      exact List.Subset.refl _

/-- A step leaves a proposer's last commit alone unless the proposer is in
`PHASE3` afterwards. -/
theorem step_lastcommit {action : Action ι} (hStep : step cfg s action = some t) (j : ι) :
    (t.proposers j).lastcommit = (s.proposers j).lastcommit ∨
      (t.proposers j).state = .phase3 := by
  have hReact (u : State ι) (k : ι) (r : Reaction (ProposerStateMachine IPString) IPString)
      (hSame : u.proposers = s.proposers)
      (hr : r.machine.lastcommit = (s.proposers k).lastcommit ∨ r.machine.state = .phase3) :
      ((u.react k r).proposers j).lastcommit = (s.proposers j).lastcommit ∨
        ((u.react k r).proposers j).state = .phase3 := by
    by_cases hk : j = k
    · subst hk
      simpa [State.react] using hr
    · exact .inl (by simp [State.react, hk, hSame])
  cases action with
  | wait d =>
      cases hStep
      exact .inl rfl
  | newProposal k p =>
      simp only [step] at hStep
      split at hStep
      · cases hStep
        exact hReact _ k _ rfl (.inl (ProposerStateMachine.newProposal_lastcommit _ _ _))
      · cases hStep
  | deliver packet =>
      simp only [step] at hStep
      split at hStep
      · cases packet <;> cases hStep
        · exact .inl rfl
        · exact hReact _ _ _ rfl
            ((ProposerStateMachine.handleMessage_lastcommit _ _ _ _).imp_right And.left)
      · cases hStep
  | sendCommitment k =>
      cases hStep
      exact hReact _ k _ rfl (ProposerStateMachine.sendCommitment_lastcommit _ _)
  | proposerTimeout k =>
      cases hStep
      exact hReact _ k _ rfl (.inl (ProposerStateMachine.checkTimeout_lastcommit _ _ _))
  | acceptorTimeout a =>
      cases hStep
      exact .inl rfl

/-- An acceptor in `PHASE3` stays as it is. -/
theorem step_acceptor_phase3 {action : Action ι} (hStep : step cfg s action = some t)
    {a : IPString} (h : (s.acceptors a).state = .phase3) : t.acceptors a = s.acceptors a := by
  have hAnswer (u : State ι) (c : IPString) (r : Reaction AcceptorStateMachine ι)
      (hSame : u.acceptors = s.acceptors) (hr : c = a → r.machine = s.acceptors a) :
      (u.answer c r).acceptors a = s.acceptors a := by
    by_cases hc : a = c
    · subst hc
      simpa [State.answer] using hr rfl
    · simp [State.answer, hc, hSame]
  cases action with
  | wait d =>
      cases hStep
      rfl
  | newProposal k p =>
      simp only [step] at hStep
      split at hStep
      · cases hStep
        rfl
      · cases hStep
  | deliver packet =>
      simp only [step] at hStep
      split at hStep
      · cases packet <;> cases hStep
        · refine hAnswer _ _ _ rfl ?_
          rintro rfl
          exact AcceptorStateMachine.handleMessage_phase3 _ _ _ h
        · rfl
      · cases hStep
  | sendCommitment k =>
      cases hStep
      rfl
  | proposerTimeout k =>
      cases hStep
      rfl
  | acceptorTimeout c =>
      cases hStep
      refine hAnswer _ _ _ rfl ?_
      rintro rfl
      exact AcceptorStateMachine.checkTimeout_phase3 _ _ h

/-- A learned commit of a proposer survives the rest of the run. -/
theorem run_lastcommit (hNonempty : cfg.last.acceptor ≠ [])
    (run : Run (step cfg) (NoTimeout cfg) (init cfg) s)
    (later : Run (step cfg) (NoTimeout cfg) s t) {j : ι} (hState : (s.proposers j).state = .phase3) :
    (t.proposers j).lastcommit = (s.proposers j).lastcommit := by
  have hChosen : Chosen t.decided (s.proposers j).lastcommit ∧
      (t.proposers j).lastcommit = (s.proposers j).lastcommit := by
    induction later with
    | refl =>
        have hInv := (run_refines hNonempty (run.mono fun _ _ => noTimeout_keepsAcceptance)).1
        exact ⟨(hInv.proposer j).learned hState, rfl⟩
    | @tail u v prior last ih =>
        obtain ⟨action, hOk, hStep⟩ := last
        obtain ⟨hChosen, hSame⟩ := ih
        have hRun : Run (step cfg) (KeepsAcceptance cfg) (init cfg) v :=
          ((run.trans prior).tail hOk hStep).mono fun _ _ => noTimeout_keepsAcceptance
        have hKept := hChosen.mono (step_decided_subset hStep)
        refine ⟨hKept, ?_⟩
        rcases step_lastcommit hStep j with hEq | hLearned
        · exact hEq.trans hSame
        · obtain ⟨k, hk⟩ := ((run_refines hNonempty hRun).1.proposer j).learned hLearned
          obtain ⟨l, hl⟩ := hKept
          exact (decided_unique hNonempty hRun hk hl).2
  exact hChosen.2

/-- The machine that returned `COMMITTING_SELF`, with the proposal it was given. -/
def Executor (s : State ι) (j : ι) (p : Proposal) : Prop :=
  (j, p) ∈ s.decided ∧ s.given j = some p

/-- Without acceptor timeouts one instance has at most one executor. Every
machine in `PHASE3` has learned exactly the executor's proposal, and in no
later state of the run is that commit another one. -/
theorem executor_unique_and_learned (cfg : Config ι) (hNonempty : cfg.last.acceptor ≠ [])
    (s : State ι) (run : Run (step cfg) (NoTimeout cfg) (init cfg) s) :
    (∀ j p k q, (j, p) ∈ s.decided → (k, q) ∈ s.decided → j = k) ∧
      (∀ a, (s.acceptors a).state = .phase3 →
        (∃ j, Executor s j (s.acceptors a).lastcommit) ∧
          ∀ t, Run (step cfg) (NoTimeout cfg) s t →
            (t.acceptors a).lastcommit = (s.acceptors a).lastcommit) ∧
      ∀ k, (s.proposers k).state = .phase3 →
        (∃ j, Executor s j (s.proposers k).lastcommit) ∧
          ∀ t, Run (step cfg) (NoTimeout cfg) s t →
            (t.proposers k).lastcommit = (s.proposers k).lastcommit := by
  have hRun := run.mono fun _ _ => noTimeout_keepsAcceptance
  have hInv := (run_refines hNonempty hRun).1
  have hExecutor {p : Proposal} (h : Chosen s.decided p) : ∃ j, Executor s j p := by
    obtain ⟨j, hj⟩ := h
    exact ⟨j, hj, hInv.own j p hj⟩
  refine ⟨fun j p k q hj hk => (decided_unique hNonempty hRun hj hk).1, ?_, ?_⟩
  · intro a hState
    refine ⟨hExecutor ((hInv.acceptor a).learned hState), ?_⟩
    intro t later
    have hKept : t.acceptors a = s.acceptors a := by
      refine Run.invariant (P := fun u => u.acceptors a = s.acceptors a) later rfl ?_
      intro u action v hu _ hStep
      rw [step_acceptor_phase3 hStep (hu ▸ hState), hu]
    rw [hKept]
  · intro k hState
    exact ⟨hExecutor ((hInv.proposer k).learned hState),
      fun t later => run_lastcommit hNonempty run later hState⟩

/-- The executor commits, and its acceptor has learned the commit. -/
theorem executor_oneAcceptor :
    ∃ s : State Nat, (s.acceptors localhost).state = .phase3 ∧
      (∃ j, Executor s j (s.acceptors localhost).lastcommit) ∧
      ∀ j p k q, (j, p) ∈ s.decided → (k, q) ∈ s.decided → j = k := by
  let actions : List (Action Nat) := proposeAlone 0 (recoverTo 5673) ++ [.sendCommitment 0,
    .deliver (.toAcceptor 0 localhost ⟨2, oneAcceptor.name, .phase3Commit (recoverTo 5673)⟩)]
  have hExec : (exec (step oneAcceptor) (init oneAcceptor) actions).map
      (fun s => (s.acceptors localhost).state) = some .phase3 := by decide
  obtain ⟨s, hs, hState⟩ := Option.map_eq_some_iff.mp hExec
  have hOk (u : State Nat) : ∀ action ∈ actions, NoTimeout oneAcceptor u action := by
    intro action hMem
    rcases List.mem_append.mp hMem with hMem | hMem
    · exact proposeAlone_noTimeout _ _ u action hMem
    · simp only [List.mem_cons, List.not_mem_nil, or_false] at hMem
      rcases hMem with rfl | rfl <;> trivial
  have hSafe := executor_unique_and_learned oneAcceptor (by decide) s (Run.of_exec hOk hs)
  exact ⟨s, hState, (hSafe.2.1 localhost hState).1, hSafe.1⟩

end QpidRecovery.Instance
