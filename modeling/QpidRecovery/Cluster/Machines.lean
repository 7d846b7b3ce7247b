import QpidRecovery.Paxos.Acceptor
import QpidRecovery.Requestor.Process
import Mathlib.Logic.Function.Basic
import Mathlib.Logic.Relation

/-! One service seen through its state machines alone. Every proposer machine
has a number, which its connections carry, so that an acceptor's answer finds
the machine that asked and no later one in its place. -/
namespace QpidRecovery.Cluster

open Requestor (SentRequest)

/-- A connection of one machine to the address it dialled for a slot. -/
structure Conn where
  machine : Nat
  slot : Nat
  peer : IPString
deriving DecidableEq, Repr

inductive Packet where
  | toAcceptor (c : Conn) (m : PaxosMessage)
  | toProposer (c : Conn) (m : PaxosMessage)
deriving DecidableEq, Repr

/-- A process with a proposer machine: the requestor is `none`, and a proposer
is known by its address. -/
abbrev Owner := Option IPString

structure Numbered where
  number : Nat
  psm : ProposerStateMachine Conn

/-- A `COMMITTING_SELF`, with the machine that returned it. -/
structure Decision where
  machine : Nat
  owner : Owner
  proposal : Proposal

def Decision.entry (d : Decision) : Owner × Proposal := (d.owner, d.proposal)

structure Machines where
  proposer : Owner → Option Numbered
  acceptor : IPString → Option AcceptorStateMachine
  /-- The requests that were written and not yet read. -/
  requests : List SentRequest
  network : List Packet
  decided : List Decision
  /-- No machine has this number or a later one. -/
  next : Nat

/-- Every connection is made by the machine of that number. -/
def Dials (number : Nat) (connect : Nat → IPString → Option Conn) : Prop :=
  ∀ i ip c, connect i ip = some c → c.machine = number

/-- What a process may propose on its machine. The requestor proposes lists
without repetition, on its machine's version unless that machine is retired. -/
def Proper (psm : ProposerStateMachine Conn) (p : Proposal) : Owner → Prop
  | some _ => ∃ rp, p = .recoveryProposal rp ∧ rp.newversion = psm.version
  | none => ∃ ap, p = .acceptorChangeProposal ap ∧ ap.acceptor ≠ [] ∧ ap.acceptor.Nodup ∧
      (ap.newversion = psm.version ∨ psm.Retired)

/-- A request that carries a committed list. -/
def Carries (name : ServiceName) (ap : AcceptorChangeProposal) (q : SentRequest) : Prop :=
  q.request.name = name ∧ q.request.votingversion = ap.newversion + 1 ∧
    q.request.committedversion = ap.newversion ∧ q.request.acceptor = ap.acceptor

/-- The requests that tell about a committed list: they carry it, and go to
every acceptor of it at most once. -/
structure Recruits (name : ServiceName) (ap : AcceptorChangeProposal)
    (requests : List SentRequest) : Prop where
  carried : ∀ q ∈ requests, Carries name ap q
  member : ∀ q ∈ requests, q.port = .requestAcceptor → q.ip ∈ ap.acceptor
  once : requests.Pairwise fun q q' =>
    q.port = .requestAcceptor → q'.port = .requestAcceptor → q.ip ≠ q'.ip

namespace Machines

/-- Store a proposer machine after a call and put what it sent on the network. -/
def react (s : Machines) (x : Owner) (number : Nat)
    (r : Reaction (ProposerStateMachine Conn) Conn) : Machines :=
  { s with
    proposer := Function.update s.proposer x (some ⟨number, r.machine⟩)
    network := s.network ++ (sends r.effects).map fun out => .toAcceptor out.1 out.2 }

/-- Store an acceptor machine. -/
def register (s : Machines) (ip : IPString) (a : AcceptorStateMachine) : Machines :=
  { s with acceptor := Function.update s.acceptor ip (some a) }

/-- Store an acceptor machine and put its answers on the network. -/
def answer (s : Machines) (ip : IPString) (r : Reaction AcceptorStateMachine Conn) : Machines :=
  { s.register ip r.machine with
    network := s.network ++ (sends r.effects).map fun out => .toProposer out.1 out.2 }

/-- A new machine takes the place of the process's old one. -/
def start (s : Machines) (x : Owner) (number : Nat) (psm : ProposerStateMachine Conn) :
    Machines :=
  { s with
    proposer := Function.update s.proposer x (some ⟨number, psm⟩)
    next := number + 1 }

def decide (s : Machines) (d : Decision) : Machines := { s with decided := s.decided ++ [d] }

def consume (s : Machines) (packet : Packet) : Machines :=
  { s with network := s.network.erase packet }

def read (s : Machines) (q : SentRequest) : Machines :=
  { s with requests := s.requests.erase q }

end Machines

/-- Everything that happens to the machines of the service `name`. Messages
and requests arrive at most once and in any order, and may be lost. A machine
answers only on connections that it still has. No acceptor forgets. -/
inductive Step (name : ServiceName) : Machines → Machines → Prop where
  | message {s : Machines} {x : Owner} {k : Nat} {psm : ProposerStateMachine Conn} {c : Conn}
      {m : PaxosMessage} (now : Time) (hMachine : s.proposer x = some ⟨k, psm⟩)
      (hOpen : some c ∈ psm.accsfd) (hPacket : .toProposer c m ∈ s.network) :
      Step name s ((s.consume (.toProposer c m)).react x k (psm.handleMessage now c m))
  | propose {s : Machines} {x : Owner} {k : Nat} {psm : ProposerStateMachine Conn} {p : Proposal}
      (now : Time) (hMachine : s.proposer x = some ⟨k, psm⟩) (hProper : Proper psm p x) :
      Step name s (s.react x k (psm.newProposal now p))
  | timeout {s : Machines} {x : Owner} {k : Nat} {psm : ProposerStateMachine Conn}
      (now timeout : Time) (hMachine : s.proposer x = some ⟨k, psm⟩) :
      Step name s (s.react x k (.quiet (psm.checkTimeout now timeout)))
  | commitRecovery {s : Machines} {ip : IPString} {k : Nat} {psm : ProposerStateMachine Conn}
      {rp : RecoveryProposal} (now : Time) (hMachine : s.proposer (some ip) = some ⟨k, psm⟩)
      (hReady : psm.isReadyToCommit = true) (hProposal : psm.proposal = .recoveryProposal rp) :
      Step name s ((s.decide ⟨k, some ip, .recoveryProposal rp⟩).react (some ip) k
        (.void (psm.sendCommitment now)))
  | commitAcceptors {s : Machines} {k : Nat} {psm : ProposerStateMachine Conn}
      {ap : AcceptorChangeProposal} (now : Time) {requests : List SentRequest} {number : Nat}
      {connect : Nat → IPString → Option Conn} (hMachine : s.proposer none = some ⟨k, psm⟩)
      (hReady : psm.isReadyToCommit = true) (hProposal : psm.proposal = .acceptorChangeProposal ap)
      (hRequests : Recruits name ap requests) (hNumber : s.next ≤ number)
      (hDials : Dials number connect) :
      Step name s
        (({ s.decide ⟨k, none, .acceptorChangeProposal ap⟩ with
              requests := s.requests ++ requests }.react none k
            (.void (psm.sendCommitment now))).start none number
          (ProposerStateMachine.new now connect name (ap.newversion + 1)
            ⟨ap.newversion, ap.acceptor⟩).1)
  | addProposer {s : Machines} {requests : List SentRequest}
      (hRequests : ∀ q ∈ requests, q.port = .requestProposer ∧
        ∃ d ∈ s.decided, ∃ ap, d.proposal = .acceptorChangeProposal ap ∧ Carries name ap q) :
      Step name s { s with requests := s.requests ++ requests }
  | adopt {s : Machines} {ip : IPString} {k : Nat} {psm : ProposerStateMachine Conn}
      {ap : AcceptorChangeProposal} (now : Time) {number : Nat}
      {connect : Nat → IPString → Option Conn} (hMachine : s.proposer (some ip) = some ⟨k, psm⟩)
      (hProposal : psm.getCommittingProposal = some (.acceptorChangeProposal ap))
      (hNumber : s.next ≤ number) (hDials : Dials number connect) :
      Step name s (s.start (some ip) number
        (ProposerStateMachine.new now connect name (ap.newversion + 1)
          ⟨ap.newversion, ap.acceptor⟩).1)
  | recruit {s : Machines} {q : SentRequest} (now : Time) {number : Nat}
      {connect : Nat → IPString → Option Conn} (hRequest : q ∈ s.requests)
      (hPort : q.port = .requestProposer) (hNumber : s.next ≤ number) (hDials : Dials number connect) :
      Step name s ((s.read q).start (some q.ip) number
        (ProposerStateMachine.new now connect q.request.name q.request.votingversion
          ⟨q.request.committedversion, q.request.acceptor⟩).1)
  | create {s : Machines} {q : SentRequest} (now : Time) (hRequest : q ∈ s.requests)
      (hPort : q.port = .requestAcceptor) :
      Step name s ((s.read q).register q.ip
        (AcceptorStateMachine.new now q.request.name q.request.votingversion
          (.acceptorChangeProposal ⟨q.request.committedversion, q.request.acceptor⟩)))
  | answer {s : Machines} {ip : IPString} {a : AcceptorStateMachine} {c : Conn}
      {m : PaxosMessage} (now : Time) (hMachine : s.acceptor ip = some a) (hPeer : c.peer = ip)
      (hPacket : .toAcceptor c m ∈ s.network) :
      Step name s ((s.consume (.toAcceptor c m)).answer ip (a.handleMessage now c m))
  | lose {s : Machines} (packet : Packet) : Step name s (s.consume packet)

/-- Steps of the machines. -/
def Reaches (name : ServiceName) : Machines → Machines → Prop := Relation.ReflTransGen (Step name)

end QpidRecovery.Cluster
