import QpidRecovery.Cluster.Refinement

/-! Safe hand-over between the acceptor sets of a service. -/
namespace QpidRecovery.Cluster

open Requestor (Config oneAndOne)
open Transition

variable {Id : Type} {cfg : Config}

/-- The machines of a cluster that has not started. -/
def Machines.initial (psm : ProposerStateMachine Conn) : Machines where
  proposer := fun x => match x with
    | none => some ⟨0, psm⟩
    | some _ => none
  acceptor := fun _ => none
  requests := []
  network := []
  decided := []
  next := 1

/-- The first requestor before anything was decided. -/
theorem Inv.initial (cfg : Config) (start : Time) :
    Inv cfg.servicename (.initial (ProposerStateMachine.new start (fun _ _ => none) cfg.servicename 1
      ⟨0, []⟩).1) Succession.empty where
  succession := Succession.Reachable.inv .refl
  nonempty := by simp [Succession.empty]
  decided := rfl
  candidates := by simp [Succession.empty]
  numbers := by
    intro x k psm hMachine
    cases x with
    | none =>
        cases hMachine
        exact Nat.one_pos
    | some ip => cases hMachine
  distinct := by
    intro x y k psm psm' hMachine hMachine'
    cases x with
    | none =>
        cases y with
        | none => rfl
        | some ip => cases hMachine'
    | some ip => cases hMachine
  machine := by
    intro x k psm hMachine
    cases x with
    | none =>
        cases hMachine
        refine ⟨rfl, ?_, .inr ⟨rfl, rfl, rfl, ?_⟩, ?_, ?_⟩
        · simp [ProposerStateMachine.new, ProposerStateMachine.connectAcceptors,
            AcceptorChangeProposal.getAcceptors]
        · simp [ProposerStateMachine.new, ProposerStateMachine.connectAcceptors,
            AcceptorChangeProposal.getAcceptors]
        · simp [ProposerStateMachine.new]
        · simp [Succession.empty]
    | some ip => cases hMachine
  backed := by
    intro x k psm _ l hElectorate
    cases hElectorate
  acceptor := by simp [Machines.initial]
  packet := by simp [Machines.initial]
  request := by simp [Machines.initial]
  apart := List.Pairwise.nil

/-- The first requestor sees an empty succession. -/
theorem View.initial {s : State Id} (h : Initial cfg s) :
    ∃ start, View cfg (.initial (ProposerStateMachine.new start (fun _ _ => none) cfg.servicename 1
      ⟨0, []⟩).1) s := by
  obtain ⟨start, querysfd, landmark, acceptorIPs, proposerIPs, hRequestor⟩ := h.requestor
  refine ⟨start, ?_⟩
  constructor
  · exact ⟨0, by rw [hRequestor]; rfl⟩
  · rw [hRequestor]
    exact .inl rfl
  · intro ip
    obtain ⟨_, _, _, _, _, hProposer⟩ := h.proposers ip
    rw [hProposer]
    rfl
  · intro ip
    obtain ⟨_, _, _, _, _, hProposer⟩ := h.proposers ip
    rw [hProposer]
    exact ⟨List.nodup_nil, by simp [Proposer.State.ledger, Proposer.State.init]⟩
  · intro ip
    obtain ⟨_, hAcceptor⟩ := h.acceptors ip
    rw [hAcceptor]
    rfl
  · intro ip
    obtain ⟨_, hAcceptor⟩ := h.acceptors ip
    rw [hAcceptor]
    exact ⟨by simp [Acceptor.State.init], List.nodup_nil⟩
  · exact h.requests.symm
  · exact h.network.symm
  · exact h.decided.symm
  · exact h.opened.symm.le

/-- The machines of a run, and the succession that they carried out. -/
theorem refines_succession [DecidableEq Id] {s₀ s : State Id} (hInit : Initial cfg s₀)
    (run : Run (step cfg) (Allowed cfg) s₀ s) :
    ∃ t b, Succession.Reachable b ∧ Inv cfg.servicename t b ∧ View cfg t s := by
  refine run.invariant
    (P := fun s => ∃ t b, Succession.Reachable b ∧ Inv cfg.servicename t b ∧ View cfg t s) ?_ ?_
  · obtain ⟨start, hView⟩ := View.initial hInit
    exact ⟨_, _, .refl, Inv.initial cfg start, hView⟩
  · rintro u action v ⟨t, b, hReachable, hInv, hView⟩ hOk hStep
    have hMatched : ∃ t', Reaches cfg.servicename t t' ∧ View cfg t' v := by
      cases action with
      | requestor action => exact hView.requestor_step hInv hOk hStep
      | proposer ip action => exact hView.proposer_step hInv hStep
      | acceptor ip event => exact hView.acceptor_step hOk hStep
    obtain ⟨t', hReaches, hNext⟩ := hMatched
    obtain ⟨b', hSteps, hInv'⟩ := hInv.reaches hReaches
    exact ⟨t', b', hReachable.trans hSteps, hInv', hNext⟩

/-- The decisions of one kind. -/
def State.decidedOf (s : State Id) (type : ProposalType) : List (Owner × Proposal) :=
  s.decided.filter fun d => d.2.getType = type

/-- A recovery appoints nobody. -/
theorem Decision.recovery_election {d : Decision}
    (h : d.entry.2.getType = .recoveryProposal) : d.election.successor = none := by
  obtain ⟨machine, owner, proposal⟩ := d
  cases proposal with
  | recoveryProposal rp => rfl
  | _ => cases h

theorem Decision.acceptorChange_election {d : Decision}
    (h : d.entry.2.getType = .acceptorChangeProposal) : d.election.successor ≠ none := by
  obtain ⟨machine, owner, proposal⟩ := d
  cases proposal with
  | acceptorChangeProposal ap => simp [Decision.election]
  | _ => cases h

/-- At most one recovery is committed for the service over all versions, and no
acceptor change at its version. -/
theorem handOver_safe [DecidableEq Id] {s₀ s : State Id} (hInit : Initial cfg s₀)
    (run : Run (step cfg) (Allowed cfg) s₀ s) :
    (s.decidedOf .recoveryProposal).length ≤ 1 ∧
      ∀ d ∈ s.decidedOf .recoveryProposal, ∀ e ∈ s.decidedOf .acceptorChangeProposal,
        d.2.getVersion ≠ e.2.getVersion := by
  obtain ⟨t, b, _, hInv, hView⟩ := refines_succession hInit run
  have hElected : ∀ d ∈ s.decided, ∃ d' ∈ t.decided, d'.entry = d ∧ d'.election ∈ b.elected := by
    intro d hd
    rw [← hView.decided] at hd
    obtain ⟨d', hMem, rfl⟩ := List.mem_map.mp hd
    exact ⟨d', hMem, rfl, hInv.decided ▸ List.mem_map_of_mem hMem⟩
  constructor
  · have hCount := hInv.succession.last_length
    rw [← List.countP_eq_length_filter, hInv.decided, List.countP_map] at hCount
    rw [State.decidedOf, ← List.countP_eq_length_filter, ← hView.decided, List.countP_map]
    refine Nat.le_trans (List.countP_mono_left ?_) hCount
    intro d _ hRecovery
    exact Option.isNone_iff_eq_none.mpr (Decision.recovery_election (of_decide_eq_true hRecovery))
  · intro d hd e he hSame
    obtain ⟨hd, hRecovery⟩ := List.mem_filter.mp hd
    obtain ⟨he, hChange⟩ := List.mem_filter.mp he
    obtain ⟨d', _, rfl, hd'⟩ := hElected d hd
    obtain ⟨e', _, rfl, he'⟩ := hElected e he
    have hEq := hInv.succession.unique hd' he' hSame
    have hLast := Decision.recovery_election (of_decide_eq_true hRecovery)
    rw [hEq] at hLast
    exact Decision.acceptorChange_election (of_decide_eq_true hChange) hLast

section OneAndOne

/-- A connection that no machine made. -/
def client (fd : Nat) : Conn := ⟨0, fd, localhost⟩

/-- The processes before their main loops. The name list has the acceptor
twice, as if it came back under its address. -/
def beginning : State Nat where
  requestor := .init oneAndOne 0 (client 0) none [localhost, localhost] [localhost]
  proposers := fun _ => .init 0 none none none [localhost.bytes ++ [58, 53, 54, 55, 51]]
  acceptors := fun _ => .init 0
  requests := []
  network := []
  opened := 1
  decided := []

/-- Every call of the requestor succeeds, and the new heartbeat client gets `fd`. -/
def requestorOutcomes (fd : Nat) : Requestor.Outcomes Conn where
  heartbeat := fun _ => some (client fd)
  request := fun _ => true
  paxos := fun _ _ => some (client 0)
  reply := fun _ => true

/-- Every call of the proposer succeeds, and its heartbeat client gets 10. -/
def proposerOutcomes : Proposer.Outcomes Conn where
  heartbeat := some (client 10)
  paxos := fun _ _ => some (client 0)
  connect := fun _ => none
  written := fun _ => true
  checked := fun _ => true
  backup := ⟨1, [], fun _ => false⟩
  broker := ⟨1, [], fun _ => false⟩

/-- The list committed at version `v`, as a request. -/
def listOf (v : Nat) : ParticipateRequest := ⟨brokerService, noAddress, 5672, v + 1, v, [localhost]⟩

/-- The four messages by which machine `k` of version `v` gets the acceptor's
vote for `p`. -/
def ballot (k v : Nat) (p : Proposal) (read : Conn → PaxosMessage → Action Nat) :
    List (Action Nat) :=
  [.acceptor localhost (.message ⟨k, 0, localhost⟩ ⟨v, brokerService, .phase1Proposal p⟩),
    read ⟨k, 0, localhost⟩ ⟨v, brokerService, .phase1Ack⟩,
    .acceptor localhost (.message ⟨k, 0, localhost⟩ ⟨v, brokerService, .phase2Request p⟩),
    read ⟨k, 0, localhost⟩ ⟨v, brokerService, .phase2Ack⟩]

/-- The requestor commits version 1 by itself, recruits the proposer and commits
version 2 with its acceptor, and the proposer recovers the broker at version 3. -/
def handOver : List (Action Nat) :=
  [.requestor (.addAcceptors (requestorOutcomes 1)),
    .requestor (.addProposer (requestorOutcomes 2)),
    .proposer localhost (.request localhost (listOf 1) proposerOutcomes),
    .acceptor localhost (.request (listOf 1)),
    .acceptor localhost (.connection ⟨1, 0, localhost⟩),
    .requestor (.ready (client 1) false none (requestorOutcomes 1)),
    .requestor (.addAcceptors (requestorOutcomes 1))] ++
  ballot 1 2 (.acceptorChangeProposal ⟨2, [localhost]⟩)
    (fun c m => .requestor (.ready c false (some m) (requestorOutcomes 3))) ++
  [.proposer localhost (.request localhost (listOf 2) proposerOutcomes),
    .acceptor localhost (.request (listOf 2)),
    .acceptor localhost (.connection ⟨12, 0, localhost⟩),
    .proposer localhost (.ready (client 10) .failed proposerOutcomes)] ++
  ballot 12 3 (.recoveryProposal ⟨3, localhost, 5672, localhost, 5673, 100⟩)
    (fun c m => .proposer localhost (.ready c (.received m) proposerOutcomes))

/-- The side condition, checked. -/
def allowed (s : State Nat) : Action Nat → Bool
  | .requestor (.addAcceptors _) =>
      (Requestor.newAcceptors oneAndOne s.requestor).all fun acc => acc.1 ≠ [] ∧ acc.1.Nodup
  | .acceptor _ .timeout => false
  | _ => true

/-- What is allowed can be decided on an execution. -/
theorem allowed_sound (s : State Nat) (action : Action Nat) (h : allowed s action = true) :
    Allowed oneAndOne s action := by
  unfold allowed at h
  split at h
  next o =>
    intro acc rest hList
    rw [hList] at h
    exact of_decide_eq_true h
  · cases h
  next hAcceptors hTimeout =>
    cases action with
    | requestor action =>
        cases action with
        | addAcceptors o => exact absurd rfl (hAcceptors o)
        | _ => trivial
    | proposer => trivial
    | acceptor ip event =>
        cases event with
        | timeout => exact absurd rfl (hTimeout ip)
        | _ => trivial

theorem handOver_safe_oneAndOne :
    ∃ s : State Nat, s.decided.length = 3 ∧ (s.decidedOf .recoveryProposal).length = 1 ∧
      ∀ d ∈ s.decidedOf .recoveryProposal, ∀ e ∈ s.decidedOf .acceptorChangeProposal,
        d.2.getVersion ≠ e.2.getVersion := by
  have hExec : (exec (guarded (step oneAndOne) allowed) beginning handOver).map
      (fun s => (s.decided.length, (s.decidedOf .recoveryProposal).length)) = some (3, 1) := by
    decide
  obtain ⟨s, hs, hDecided⟩ := Option.map_eq_some_iff.mp hExec
  obtain ⟨hLength, hRecovery⟩ := Prod.mk.inj hDecided
  have hInit : Initial oneAndOne beginning :=
    ⟨⟨_, _, _, _, _, rfl⟩, fun _ => ⟨_, _, _, _, _, rfl⟩, fun _ => ⟨_, rfl⟩, rfl, rfl, rfl, rfl⟩
  exact ⟨s, hLength, hRecovery, (handOver_safe hInit (Run.of_guarded allowed_sound hs)).2⟩

end OneAndOne

end QpidRecovery.Cluster
