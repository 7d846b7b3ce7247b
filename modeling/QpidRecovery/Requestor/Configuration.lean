import QpidRecovery.Requestor.Branches
import Mathlib.Data.List.Basic

/-! Which acceptor list goes out with which version. A list is committed once
for each version, and a request is right when it carries the list committed at
the version before its own. -/
namespace QpidRecovery.Requestor

open Transition

variable {Fd : Type}

/-- Every request carries exactly the acceptor list committed at the version
before its voting version, so requests for one version carry one list. -/
structure ConfigurationAgreement (s : State Fd) : Prop where
  carried : ∀ q ∈ s.sent, ∃ v, q.request.votingversion = v + 1 ∧
    (v, q.request.acceptor) ∈ s.committed ∧
    ∀ l, (v, l) ∈ s.committed → q.request.acceptor = l
  same : ∀ q ∈ s.sent, ∀ q' ∈ s.sent,
    q.request.votingversion = q'.request.votingversion → q.request.acceptor = q'.request.acceptor

/-- The machine takes over a proposal that another proposer committed. -/
def Learns (s : State Fd) (m : PaxosMessage) : Prop :=
  m.name = s.psm.name ∧ m.version = s.psm.version ∧ s.psm.state ≠ .phase3 ∧
    ∃ p, m.body = .phase3Commit p

/-- No proposer is recruited while an acceptor of the committed list has been
dropped, and no commit of another proposer is learned. -/
def Undisturbed (s : State Fd) : Action Fd → Prop
  | .addProposer _ => s.acceptors.length = s.psm.nacceptor
  | .ready _ _ (some m) _ => ¬ Learns s m
  | _ => True

structure Inv (s : State Fd) : Prop where
  lockstep : s.psm.version = s.currentversion + 1
  /-- The heartbeat clients left are those of some acceptors of the list last
  committed, in its order. -/
  current : ∃ l, (s.currentversion, l) ∈ s.committed ∧ s.psm.nacceptor = l.length ∧
    (copyIPArray s.acceptors).Sublist l
  once : ∀ v l l', (v, l) ∈ s.committed → (v, l') ∈ s.committed → l = l'
  bounded : ∀ v l, (v, l) ∈ s.committed → v ≤ s.currentversion
  working : s.psm.state ≠ .phase3
  proposing : s.psm.state = .phase1 ∨ s.psm.state = .phase2 →
    ∃ l, s.psm.proposal = .acceptorChangeProposal ⟨s.currentversion + 1, l⟩
  carried : ∀ q ∈ s.sent, ∃ v, q.request.votingversion = v + 1 ∧
    (v, q.request.acceptor) ∈ s.committed

/-- The invariant says what was to be shown. -/
theorem Inv.agreement {s : State Fd} (h : Inv s) : ConfigurationAgreement s where
  carried := by
    intro q hq
    obtain ⟨v, hVersion, hCommitted⟩ := h.carried q hq
    exact ⟨v, hVersion, hCommitted, fun l hl => h.once v _ _ hCommitted hl⟩
  same := by
    intro q hq q' hq' hSame
    obtain ⟨v, hVersion, hCommitted⟩ := h.carried q hq
    obtain ⟨v', hVersion', hCommitted'⟩ := h.carried q' hq'
    have hEq : v = v' := by omega
    subst hEq
    exact h.once v _ _ hCommitted hCommitted'

section Lists

/-- The addresses of new clients. -/
theorem copyIPArray_new (now : Time) (f : Nat → Option Fd) (acc : List IPString) :
    copyIPArray (acc.mapIdx fun i ip => HeartbeatClient.new now (f i) ip) = acc := by
  apply List.ext_getElem
  · simp [copyIPArray]
  · intro i _ _
    simp [copyIPArray, HeartbeatClient.new]

/-- A heartbeat changes no address. -/
theorem copyIPArray_readMessage (now : Time) (i : Nat) (v : List (HeartbeatClient Fd)) :
    copyIPArray (v.modify i (HeartbeatClient.readMessage now)) = copyIPArray v := by
  apply List.ext_getElem
  · simp [copyIPArray]
  · intro j _ _
    simp only [copyIPArray, List.getElem_map, List.getElem_modify]
    split <;> rfl

/-- All acceptors and proposers get the same request. -/
theorem mem_sendRequests {o : Outcomes Fd} {port : Port} {r : ParticipateRequest} {first : Nat}
    {ips : List IPString} {q : SentRequest} (h : q ∈ sendRequests o port r first ips) :
    q.request = r := by
  induction ips generalizing first with
  | nil => cases h
  | cons ip rest ih =>
      rcases List.mem_append.mp h with hHead | hTail
      · split at hHead
        · rw [List.mem_singleton.mp hHead]
        · cases hHead
      · exact ih hTail

end Lists

section Steps
variable [DecidableEq Fd] {cfg : Config} {s t : State Fd}

/-- A call on the machine that leaves its version and its number of acceptors
alone. -/
theorem Inv.react (h : Inv s) {r : Reaction (ProposerStateMachine Fd) Fd}
    (hVersion : r.machine.version = s.psm.version)
    (hSize : r.machine.nacceptor = s.psm.nacceptor) (hWorking : r.machine.state ≠ .phase3)
    (hProposing : r.machine.state = .phase1 ∨ r.machine.state = .phase2 →
      ∃ l, r.machine.proposal = .acceptorChangeProposal ⟨s.currentversion + 1, l⟩) :
    Inv (s.react r) where
  lockstep := hVersion.trans h.lockstep
  current := by
    obtain ⟨l, hCommitted, hLength, hList⟩ := h.current
    exact ⟨l, hCommitted, hSize.trans hLength, hList⟩
  once := h.once
  bounded := h.bounded
  working := hWorking
  proposing := hProposing
  carried := h.carried

/-- Committing its own proposal takes the requestor to the next version. -/
theorem Inv.handleCommit (h : Inv s) (o : Outcomes Fd) (hReady : s.psm.isReadyToCommit = true) :
    ∃ t, handleCommit cfg o .committingSelf s = some (t, 0) ∧ Inv t := by
  have hState : s.psm.state = .phase2 := by
    simp only [ProposerStateMachine.isReadyToCommit, decide_eq_true_eq] at hReady
    exact hReady.1
  obtain ⟨l, hProposal⟩ := h.proposing (.inr hState)
  have hCommitting : s.psm.getCommittingProposal =
      some (.acceptorChangeProposal ⟨s.currentversion + 1, l⟩) := by
    rw [ProposerStateMachine.getCommittingProposal, if_pos hReady, hProposal]
  have hRequest (q : SentRequest)
      (hq : q.request = participateRequest cfg (s.currentversion + 1)
        (l.mapIdx fun i ip => HeartbeatClient.new s.now (o.heartbeat i) ip)) :
      ∃ v, q.request.votingversion = v + 1 ∧
        (v, q.request.acceptor) ∈ (s.currentversion + 1, l) :: s.committed := by
    refine ⟨s.currentversion + 1, by rw [hq]; rfl, ?_⟩
    rw [hq, participateRequest, copyIPArray_new]
    exact List.mem_cons_self
  refine ⟨commitAcceptors cfg o ⟨s.currentversion + 1, l⟩
    { s with
      currentversion := s.currentversion + 1
      committed := (s.currentversion + 1, l) :: s.committed
      trace := s.trace ++ [.committed (.acceptorChangeProposal ⟨s.currentversion + 1, l⟩)
        .committingSelf] }, ?_, ?_⟩
  · simp [Requestor.handleCommit, hCommitting, Proposal.getVersion]
  · exact {
      lockstep := rfl
      current := by
        refine ⟨l, List.mem_cons_self, rfl, ?_⟩
        change (copyIPArray (l.mapIdx _)).Sublist l
        rw [copyIPArray_new]
      once := by
        intro v k k' hk hk'
        rcases List.mem_cons.mp hk with hNew | hOld <;>
          rcases List.mem_cons.mp hk' with hNew' | hOld'
        · exact (Prod.mk.inj hNew).2.trans (Prod.mk.inj hNew').2.symm
        · have hBound := h.bounded v k' hOld'
          have hVersion := (Prod.mk.inj hNew).1
          omega
        · have hBound := h.bounded v k hOld
          have hVersion := (Prod.mk.inj hNew').1
          omega
        · exact h.once v k k' hOld hOld'
      bounded := by
        intro v k hk
        rcases List.mem_cons.mp hk with hNew | hOld
        · exact Nat.le_of_eq (Prod.mk.inj hNew).1
        · exact Nat.le_succ_of_le (h.bounded v k hOld)
      working := by
        change PaxosState.initial ≠ PaxosState.phase3
        decide
      proposing := by
        intro hActive
        rcases hActive with hActive | hActive <;> cases hActive
      carried := by
        intro q hq
        rcases List.mem_append.mp hq with hq | hProposer
        · rcases List.mem_append.mp hq with hOld | hAcceptor
          · obtain ⟨v, hVersion, hCommitted⟩ := h.carried q hOld
            exact ⟨v, hVersion, List.mem_cons_of_mem _ hCommitted⟩
          · exact hRequest q (mem_sendRequests hAcceptor)
        · exact hRequest q (mem_sendRequests hProposer) }

/-- What follows a call on the machine that learned no commit. -/
theorem Inv.afterCall (h : Inv s) {o : Outcomes Fd} {r : PaxosResult} {n : Int}
    (hSelf : r = .committingSelf → s.psm.isReadyToCommit = true) (hOther : r ≠ .committingOther)
    (hStep : Requestor.handleCommit cfg o r s = some (t, n)) : Inv t := by
  by_cases hr : r = .committingSelf
  · subst hr
    obtain ⟨u, hCommit, hInv⟩ := h.handleCommit o (hSelf rfl)
    rw [hCommit] at hStep
    cases hStep
    exact hInv
  · rw [handleCommit_handled o hr hOther] at hStep
    cases hStep
    exact h

/-- A commit of the requestor's own proposal keeps the invariant. -/
theorem proposed_inv (h : Inv s) {o : Outcomes Fd} {acc rest : List IPString} {n : Int}
    (hCommit : handleCommit cfg o
      (s.psm.newProposal s.now (.acceptorChangeProposal ⟨s.currentversion + 1, acc⟩)).result
      ({ s with
        needchangeacceptor := false
        ischangingacceptor := true
        acceptorIPs := rest }.react
          (s.psm.newProposal s.now (.acceptorChangeProposal ⟨s.currentversion + 1, acc⟩))) =
        some (t, n)) : Inv t := by
  have hStart : Inv { s with
      needchangeacceptor := false
      ischangingacceptor := true
      acceptorIPs := rest } :=
    ⟨h.lockstep, h.current, h.once, h.bounded, h.working, h.proposing, h.carried⟩
  rcases s.psm.newProposal_cases s.now (.acceptorChangeProposal ⟨s.currentversion + 1, acc⟩) with
    ⟨hSize, hEq⟩ | ⟨hSize, hEq⟩
  · rw [hEq] at hCommit
    refine Inv.afterCall ?_ (by simp) (by simp) hCommit
    exact hStart.react rfl rfl (by simp) (fun _ => ⟨acc, rfl⟩)
  · rw [hEq] at hCommit
    refine Inv.afterCall ?_ (fun _ => ?_) (by simp) hCommit
    · exact hStart.react rfl rfl (by simp) (fun _ => ⟨acc, rfl⟩)
    · simp [State.react, ProposerStateMachine.isReadyToCommit, hSize]

/-- So does a commit that was not learned from others. -/
theorem received_inv (h : Inv s) {o : Outcomes Fd} {ready : Fd} {m : PaxosMessage} {n : Int}
    (hOk : ¬ Learns s m)
    (hCommit : handleCommit cfg o (s.psm.handleMessage s.now ready m).result
      (s.react (s.psm.handleMessage s.now ready m)) = some (t, n)) : Inv t := by
  generalize hReaction : s.psm.handleMessage s.now ready m = r at hCommit
  have hOutcome := s.psm.handleMessage_outcome s.now ready m
  rw [hReaction] at hOutcome
  have hDone (hInv : Inv (s.react r)) (hSelf : r.result = .committingSelf →
      (s.react r).psm.isReadyToCommit = true) (hOther : r.result ≠ .committingOther) : Inv t :=
    hInv.afterCall hSelf hOther hCommit
  have hSame (effects : List (Effect Fd)) (result : PaxosResult) :
      Inv (s.react ⟨s.psm, effects, result⟩) :=
    h.react rfl rfl h.working h.proposing
  cases hOutcome with
  | ignored => exact hDone (hSame _ _) (by simp) (by simp)
  | dropped => exact hDone (hSame _ _) (by simp) (by simp)
  | recalled => exact hDone (hSame _ _) (by simp) (by simp)
  | counted ack nack hName hVersion hState =>
      exact hDone (h.react rfl rfl h.working h.proposing) (by simp) (by simp)
  | opened ack nack hName hVersion hState =>
      exact hDone (h.react rfl rfl (by simp) fun _ => h.proposing (.inl hState)) (by simp) (by simp)
  | acknowledged hName hVersion hState =>
      refine hDone (h.react rfl rfl h.working h.proposing) ?_ ?_
      · simp [ProposerStateMachine.checkPhase2, State.react]
      · simp only [ProposerStateMachine.checkPhase2]
        split <;> simp
  | refused hName hVersion hState =>
      refine hDone (h.react rfl rfl h.working h.proposing) ?_ ?_
      · simp [ProposerStateMachine.checkPhase2, State.react]
      · simp only [ProposerStateMachine.checkPhase2]
        split <;> simp
  | learned p hName hVersion hState hBody =>
      exact absurd ⟨hName, hVersion.symm, hState, p, hBody⟩ hOk

omit [DecidableEq Fd] in
/-- Dropping heartbeat clients of acceptors. -/
theorem Inv.drop (h : Inv s) (hDrop : (copyIPArray t.acceptors).Sublist (copyIPArray s.acceptors))
    (hVersion : t.currentversion = s.currentversion) (hMachine : t.psm = s.psm)
    (hSent : t.sent = s.sent) (hCommitted : t.committed = s.committed) : Inv t where
  lockstep := by rw [hMachine, hVersion, h.lockstep]
  current := by
    obtain ⟨l, hList, hLength, hSub⟩ := h.current
    exact ⟨l, by rwa [hCommitted, hVersion], by rwa [hMachine], hDrop.trans hSub⟩
  once := by rw [hCommitted]; exact h.once
  bounded := by rw [hCommitted, hVersion]; exact h.bounded
  working := by rw [hMachine]; exact h.working
  proposing := by rw [hMachine, hVersion]; exact h.proposing
  carried := by rw [hSent, hCommitted]; exact h.carried

omit [DecidableEq Fd] in
/-- With all acceptors of the committed list still there, a request carries it. -/
theorem Inv.request (h : Inv s) (hOk : s.acceptors.length = s.psm.nacceptor) :
    (s.currentversion, (participateRequest cfg s.currentversion s.acceptors).acceptor) ∈
      s.committed := by
  obtain ⟨l, hCommitted, hLength, hSub⟩ := h.current
  have hFull : copyIPArray s.acceptors = l := by
    apply hSub.eq_of_length
    rw [copyIPArray, List.length_map, hOk, hLength]
  rw [participateRequest, hFull]
  exact hCommitted

omit [DecidableEq Fd] in
/-- Who loses clients loses their addresses. -/
theorem copyIPArray_sublist {v w : List (HeartbeatClient Fd)} (h : v.Sublist w) :
    (copyIPArray v).Sublist (copyIPArray w) :=
  h.map _

/-- Every iteration keeps the invariant. -/
theorem step_inv (h : Inv s) {action : Action Fd} (hOk : Undisturbed s action)
    (hStep : step cfg s action = some t) : Inv t := by
  cases step_branch hStep with
  | proposed acc rest hDue hList hCommit => exact proposed_inv h hCommit
  | recruited newip rest hDue hList hRequest =>
      refine ⟨h.lockstep, h.current, h.once, h.bounded, h.working, h.proposing, ?_⟩
      intro q hq
      rcases List.mem_append.mp hq with hOld | hNew
      · exact h.carried q hOld
      · rw [List.mem_singleton.mp hNew]
        exact ⟨s.currentversion, rfl, h.request hOk⟩
  | expired hIdle =>
      exact h.drop (copyIPArray_sublist List.filter_sublist) rfl rfl rfl rfl
  | acceptorBeat i hProposers hAcceptor =>
      refine h.drop ?_ rfl rfl rfl rfl
      rw [copyIPArray_readMessage]
  | acceptorLost i hProposers hAcceptor =>
      exact h.drop (copyIPArray_sublist (List.eraseIdx_sublist _ _)) rfl rfl rfl rfl
  | received hProposers hAcceptors hCommit => exact received_inv h hOk hCommit
  | wait | unreached | unaccepted | accepted | proposerBeat | proposerLost | unread =>
      exact h.drop (List.Sublist.refl _) rfl rfl rfl rfl

/-- The invariant before the first iteration. -/
theorem init_inv (cfg : Config) (start : Time) (querysfd : Fd) (landmark : Option (IPString × Fd))
    (acceptorIPs proposerIPs : List IPString) :
    Inv (State.init cfg start querysfd landmark acceptorIPs proposerIPs) where
  lockstep := rfl
  current := ⟨[], List.mem_cons_self, rfl, List.Sublist.refl _⟩
  once := by
    intro v l l' hl hl'
    have hEq := Prod.mk.inj (List.mem_singleton.mp hl)
    have hEq' := Prod.mk.inj (List.mem_singleton.mp hl')
    exact hEq.2.trans hEq'.2.symm
  bounded := fun v l hl => Nat.le_of_eq (Prod.mk.inj (List.mem_singleton.mp hl)).1
  working := by simp [State.init, ProposerStateMachine.new]
  proposing := by simp [State.init, ProposerStateMachine.new]
  carried := by simp [State.init]

/-- A run in which no proposer is recruited while acceptors are missing and no
foreign commit is learned keeps to the committed lists. Recruiting a proposer
while acceptors are missing never does. -/
theorem requests_carry_committed (cfg : Config) (start : Time) (querysfd : Fd)
    (landmark : Option (IPString × Fd)) (acceptorIPs proposerIPs : List IPString) (s : State Fd)
    (run : Run (step cfg) Undisturbed
      (State.init cfg start querysfd landmark acceptorIPs proposerIPs) s) :
    ConfigurationAgreement s ∧
      ∀ o t, step cfg s (.addProposer o) = some t → o.request 0 = true →
        (ConfigurationAgreement t ↔ s.acceptors.length = s.psm.nacceptor) := by
  have hInv : Inv s := run.invariant (init_inv cfg start querysfd landmark acceptorIPs proposerIPs)
    fun _ _ _ h hOk hStep => step_inv h hOk hStep
  refine ⟨hInv.agreement, ?_⟩
  intro o t hStep hWritten
  constructor
  · intro hAgreement
    obtain ⟨l, hCommitted, hLength, hSub⟩ := hInv.current
    cases step_branch hStep with
    | recruited newip rest hDue hList hRequest =>
        obtain ⟨v, hVersion, _, hCarried⟩ := hAgreement.carried _
          (List.mem_append_right _ (List.mem_singleton_self _))
        have hv : s.currentversion = v := Nat.succ.inj hVersion
        have hSame : copyIPArray s.acceptors = l := hCarried l (hv ▸ hCommitted)
        rw [hLength, ← hSame, copyIPArray, List.length_map]
    | unreached newip rest hList hRequest => exact absurd hWritten hRequest
  · intro hOk
    exact (step_inv hInv (show Undisturbed s (.addProposer o) from hOk) hStep).agreement

end Steps

section OneAcceptor

/-- A requestor that wants one proposer and one acceptor. -/
def oneAndOne : Config where
  servicename := brokerService
  brokerport := 5672
  expectedProposers := 1
  expectedAcceptors := 1
  proposersFit := by decide
  acceptorsFit := by decide

def start : State Nat := .init oneAndOne 0 0 none [localhost, localhost] [localhost, localhost]

/-- Every connection succeeds, and the new heartbeat client gets `fd`. -/
def connected (fd : Nat) : Outcomes Nat where
  heartbeat := fun _ => some fd
  request := fun _ => true
  paxos := fun _ _ => some (fd + 1)
  reply := fun _ => true

/-- The acceptor is lost. While its replacement waits for acknowledgements the
proposer is lost as well, and the new one is sent an empty list. -/
def recruitWithoutAcceptor : List (Action Nat) :=
  [.addAcceptors (connected 10), .addProposer (connected 20),
    .ready 10 false none (connected 30), .addAcceptors (connected 30),
    .ready 20 false none (connected 40), .addProposer (connected 40)]

theorem request_carries_empty_list :
    ¬ ∀ s, Run (step oneAndOne) (fun _ _ => True) start s → ConfigurationAgreement s := by
  intro h
  have hExec : (exec (step oneAndOne) start recruitWithoutAcceptor).map
      (fun s => (s.sent.map fun q => (q.port, q.request.votingversion, q.request.acceptor))) =
      some [(.requestAcceptor, 2, [localhost]), (.requestProposer, 2, [localhost]),
        (.requestProposer, 2, [])] := by
    decide
  obtain ⟨s, hs, hSent⟩ := Option.map_eq_some_iff.mp hExec
  have hAgreement := h s (Run.of_exec (fun _ _ _ => trivial) hs)
  obtain ⟨q, hq, hFirst⟩ := List.mem_map.mp (hSent ▸ List.mem_cons_self)
  obtain ⟨q', hq', hLast⟩ := List.mem_map.mp
    (hSent ▸ List.mem_cons_of_mem _ (List.mem_cons_of_mem _ List.mem_cons_self))
  simp only [Prod.mk.injEq] at hFirst hLast
  have hSame := hAgreement.same q hq q' hq' (hFirst.2.1.trans hLast.2.1.symm)
  rw [hFirst.2.2, hLast.2.2] at hSame
  cases hSame

theorem requests_carry_committed_oneAndOne :
    ∃ s : State Nat, s.sent.length = 2 ∧ ConfigurationAgreement s := by
  have hFirst : (exec (step oneAndOne) start [.addAcceptors (connected 10)]).map
      (fun s => (s.acceptors.length, s.psm.nacceptor)) = some (1, 1) := by
    decide
  obtain ⟨u, hu, hState⟩ := Option.map_eq_some_iff.mp hFirst
  obtain ⟨hAcceptors, hSize⟩ := Prod.mk.inj hState
  have hBoth : (exec (step oneAndOne) start
      ([.addAcceptors (connected 10)] ++ [.addProposer (connected 20)])).map
      (fun s => s.sent.length) = some 2 := by
    decide
  obtain ⟨s, hs, hLength⟩ := Option.map_eq_some_iff.mp hBoth
  rw [exec_append hu] at hs
  have hRun : Run (step oneAndOne) Undisturbed start u := by
    refine Run.of_exec ?_ hu
    rintro v action hMem
    rw [List.mem_singleton.mp hMem]
    trivial
  have hNext : step oneAndOne u (.addProposer (connected 20)) = some s := by
    simpa [exec] using hs
  exact ⟨s, hLength, (requests_carry_committed oneAndOne 0 0 none _ _ s
    (hRun.tail (a := .addProposer (connected 20)) (hAcceptors.trans hSize.symm) hNext)).1⟩

end OneAcceptor

end QpidRecovery.Requestor
