import QpidRecovery.Library.Transition
import QpidRecovery.Paxos.Acceptor
import QpidRecovery.Paxos.Proposer
import Mathlib.Logic.Function.Basic

/-! One service name and voting version: an acceptor machine at every address
of the list, any number of proposer machines built with that list, and the
messages in flight between them. A connection is named by its two ends, so a
proposer's descriptor is the address it is connected to and an acceptor's
descriptor is the proposer that opened it. -/
namespace QpidRecovery.Instance

open Transition

structure Config (ι : Type) where
  name : ServiceName
  version : Nat
  /-- The committed list that every machine is built with. -/
  last : AcceptorChangeProposal
  /-- Whether the proposer's `tcpconnect` for a slot succeeded. -/
  connected : ι → Nat → Bool
  timeout : Time
  start : Time

inductive Packet (ι : Type) where
  | toAcceptor (source : ι) (target : IPString) (m : PaxosMessage)
  | toProposer (source : IPString) (target : ι) (m : PaxosMessage)
deriving DecidableEq

structure State (ι : Type) where
  now : Time
  acceptors : IPString → AcceptorStateMachine
  proposers : ι → ProposerStateMachine IPString
  network : List (Packet ι)
  /-- The argument of each machine's one call of `newProposal`. -/
  given : ι → Option Proposal
  /-- Every `COMMITTING_SELF` returned so far, with the proposal it was for. -/
  decided : List (ι × Proposal)

inductive Action (ι : Type) where
  | wait (d : Nat)
  | newProposal (j : ι) (p : Proposal)
  | deliver (packet : Packet ι)
  | sendCommitment (j : ι)
  | proposerTimeout (j : ι)
  | acceptorTimeout (a : IPString)

variable {ι : Type}

/-- The decisions after a call on the machine of `j`. -/
def decidedAfter (decided : List (ι × Proposal)) (j : ι)
    (r : Reaction (ProposerStateMachine IPString) IPString) : List (ι × Proposal) :=
  if r.result = .committingSelf then (j, r.machine.proposal) :: decided else decided

def connect (cfg : Config ι) (j : ι) (slot : Nat) (ip : IPString) : Option IPString :=
  if cfg.connected j slot then some ip else none

def init (cfg : Config ι) : State ι where
  now := cfg.start
  acceptors := fun _ =>
    .new cfg.start cfg.name cfg.version (.acceptorChangeProposal cfg.last)
  proposers := fun j =>
    (ProposerStateMachine.new cfg.start (connect cfg j) cfg.name cfg.version cfg.last).1
  network := []
  given := fun _ => none
  decided := []

section Step
variable [DecidableEq ι]

/-- Store a proposer's machine after a call, put what it sent on the network
and record a `COMMITTING_SELF`. -/
def State.react (s : State ι) (j : ι) (r : Reaction (ProposerStateMachine IPString) IPString) :
    State ι :=
  { s with
    proposers := Function.update s.proposers j r.machine
    network := s.network ++ (sends r.effects).map fun out => .toAcceptor j out.1 out.2
    decided := decidedAfter s.decided j r }

/-- Store an acceptor's machine and put its answers on the network. -/
def State.answer (s : State ι) (a : IPString) (r : Reaction AcceptorStateMachine ι) : State ι :=
  { s with
    acceptors := Function.update s.acceptors a r.machine
    network := s.network ++ (sends r.effects).map fun out => .toProposer a out.1 out.2 }

/-- Messages are delivered at most once and in any order; one that stays in
flight is delayed or lost. The calls between `COMMITTING_SELF` and
`sendCommitment` are not restricted, so the runs of the processes, which are
blocked in `handleCommit` meanwhile, are among these. -/
def step (cfg : Config ι) (s : State ι) : Action ι → Option (State ι)
  | .wait d => some { s with now := s.now + d }
  | .newProposal j p =>
      if s.given j = none ∧ p ≠ .noProposal then
        some ({ s with given := Function.update s.given j (some p) }.react j
          ((s.proposers j).newProposal s.now p))
      else none
  | .deliver packet =>
      if packet ∈ s.network then
        let s := { s with network := s.network.erase packet }
        match packet with
        | .toAcceptor j a m => some (s.answer a ((s.acceptors a).handleMessage s.now j m))
        | .toProposer a j m => some (s.react j ((s.proposers j).handleMessage s.now a m))
      else none
  | .sendCommitment j => some (s.react j (.void ((s.proposers j).sendCommitment s.now)))
  | .proposerTimeout j =>
      some (s.react j (.quiet ((s.proposers j).checkTimeout s.now cfg.timeout)))
  | .acceptorTimeout a =>
      some (s.answer a (.quiet ((s.acceptors a).checkTimeout s.now cfg.timeout)))

end Step

/-- The acceptor's `checkTimeout` changes its state when called now. -/
def Fires (cfg : Config ι) (s : State ι) (a : IPString) : Prop :=
  ((s.acceptors a).checkTimeout s.now cfg.timeout).2 = .handled

/-- No acceptor timeout fires. -/
def NoTimeout (cfg : Config ι) (s : State ι) : Action ι → Prop
  | .acceptorTimeout a => ¬ Fires cfg s a
  | _ => True

/-- No acceptor timeout fires after the acceptor acknowledged a phase 2
request; one that has only promised may still forget its promise. -/
def KeepsAcceptance (cfg : Config ι) (s : State ι) : Action ι → Prop
  | .acceptorTimeout a => (s.acceptors a).state = .phase2 → ¬ Fires cfg s a
  | _ => True

/-- No two proposers return `COMMITTING_SELF` for unequal proposals. -/
def Agreement (s : State ι) : Prop :=
  ∀ j p k q, (j, p) ∈ s.decided → (k, q) ∈ s.decided → p.compare q = 0

end QpidRecovery.Instance
