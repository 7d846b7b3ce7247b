import QpidRecovery.Cluster.Machines
import QpidRecovery.Acceptor.Process
import QpidRecovery.Proposer.Process

/-! The processes that serve one requestor: the requestor itself, and a
proposer and an acceptor process at every address. What the processes tell each
other about its service goes over the network. Everything else that a process
reads, and whatever becomes of its calls, is free. -/
namespace QpidRecovery

/-- The message among the calls of the requestor. -/
def Requestor.Output.sent {Fd : Type} : Requestor.Output Fd → Option (Fd × PaxosMessage)
  | .effect (.send fd m) => some (fd, m)
  | _ => none

/-- The proposal of a `COMMITTING_SELF`. -/
def Requestor.Output.committedSelf {Fd : Type} : Requestor.Output Fd → Option Proposal
  | .committed p .committingSelf => some p
  | _ => none

def Proposer.Output.sent {Fd : Type} : Proposer.Output Fd → Option (Fd × PaxosMessage)
  | .effect (.send fd m) => some (fd, m)
  | _ => none

def Proposer.Output.committedSelf {Fd : Type} (service : ServiceName) :
    Proposer.Output Fd → Option Proposal
  | .committed name rp .committingSelf _ =>
      if name = service then some (.recoveryProposal rp) else none
  | .changed name ap .committingSelf =>
      if name = service then some (.acceptorChangeProposal ap) else none
  | _ => none

/-- The record of a service. -/
def Proposer.record {Fd : Type} (name : ServiceName) (monitor : List (Proposer.Monitored Fd)) :
    Option (Proposer.Monitored Fd) :=
  monitor.find? fun mon => mon.name = name

namespace Cluster

open Requestor (Config SentRequest)

structure State (Id : Type) where
  requestor : Requestor.State Conn
  proposers : IPString → Proposer.State Conn Id
  acceptors : IPString → Acceptor.State Conn
  /-- The requests that nobody has read. -/
  requests : List SentRequest
  /-- The messages of the service that nobody has read. -/
  network : List Packet
  /-- The number of the next machine. -/
  opened : Nat
  /-- Every `COMMITTING_SELF` of the service that was carried out, with the
  process that did. -/
  decided : List (Owner × Proposal)

inductive Action (Id : Type) where
  | requestor (action : Requestor.Action Conn)
  | proposer (ip : IPString) (action : Proposer.Action Conn Id)
  | acceptor (ip : IPString) (event : Acceptor.Event Conn)

/-- A connection that is made belongs to the machine that makes it. -/
def dial (number : Nat) (connect : Nat → IPString → Option Conn) : Nat → IPString → Option Conn :=
  fun i ip => (connect i ip).map fun _ => ⟨number, i, ip⟩

def dialRequestor (number : Nat) : Requestor.Action Conn → Requestor.Action Conn
  | .addAcceptors o => .addAcceptors { o with paxos := dial number o.paxos }
  | .ready sfd heartbeat message o =>
      .ready sfd heartbeat message { o with paxos := dial number o.paxos }
  | action => action

def dialProposer {Id : Type} (number : Nat) : Proposer.Action Conn Id → Proposer.Action Conn Id
  | .request fromip r o => .request fromip r { o with paxos := dial number o.paxos }
  | .ready sfd input o => .ready sfd input { o with paxos := dial number o.paxos }
  | action => action

/-- What an action reads, with the reader. -/
inductive Arrival where
  | request (q : SentRequest)
  | toOwner (x : Owner) (c : Conn) (m : PaxosMessage)
  | toAcceptor (ip : IPString) (c : Conn) (m : PaxosMessage)

/-- The service that it is about. -/
def Arrival.name : Arrival → ServiceName
  | .request q => q.request.name
  | .toOwner _ _ m | .toAcceptor _ _ m => m.name

def Action.arrival {Id : Type} : Action Id → Option Arrival
  | .requestor (.ready sfd _ message _) => message.map (.toOwner none sfd)
  | .proposer ip (.request _ r _) => some (.request ⟨ip, .requestProposer, r⟩)
  | .proposer ip (.ready sfd input _) => input.message.map (.toOwner (some ip) sfd)
  | .acceptor ip (.request r) => some (.request ⟨ip, .requestAcceptor, r⟩)
  | .acceptor ip (.message ready m) => some (.toAcceptor ip ready m)
  | _ => none

/-- The request carries a list that was committed. -/
def announces (decided : List (Owner × Proposal)) (q : SentRequest) : Bool :=
  decided.any fun d =>
    d.2 = .acceptorChangeProposal ⟨q.request.committedversion, q.request.acceptor⟩

/-- The requests that are delivered: all of `changeAcceptor`, and those that
recruit a proposer with the list that was committed. -/
def delivered (decided : List (Owner × Proposal)) (new : List SentRequest) :
    Requestor.Action Conn → List SentRequest
  | .addProposer _ => new.filter (announces decided)
  | _ => new

/-- The answers of an acceptor process. -/
def answers (s : Acceptor.State Conn) : Acceptor.Event Conn → List (Conn × PaxosMessage)
  | .message ready m => sends (Acceptor.handlePaxosMessage s.now ready m s.accname).effects
  | _ => []

/-- The messages of one service. -/
def ofService (name : ServiceName) (out : List (Conn × PaxosMessage)) :
    List (Conn × PaxosMessage) :=
  out.filter fun o => o.2.name = name

/-- Everything is for the one service. -/
theorem ofService_all {name : ServiceName} {out : List (Conn × PaxosMessage)}
    (h : ∀ o ∈ out, o.2.name = name) :
    ofService name out = out := by
  rw [ofService, List.filter_eq_self]
  exact fun o ho => decide_eq_true (h o ho)

/-- Nothing is for it. -/
theorem ofService_none {name : ServiceName} {out : List (Conn × PaxosMessage)}
    (h : ∀ o ∈ out, o.2.name ≠ name) :
    ofService name out = [] := by
  rw [ofService, List.filter_eq_nil_iff]
  exact fun o ho => by simpa using h o ho

section Step
variable {Id : Type} (cfg : Config)

/-- A process reads from the connections that its machine for the service
still has. -/
def State.holds (s : State Id) : Owner → Conn → Bool
  | none, c => some c ∈ s.requestor.psm.accsfd
  | some ip, c => (Proposer.record cfg.servicename (s.proposers ip).monitor).any
      fun mon => some c ∈ mon.psm.accsfd

/-- Take what is read off the network. -/
def State.read (s : State Id) : Arrival → Option (State Id)
  | .request q =>
      if q ∈ s.requests then some { s with requests := s.requests.erase q } else none
  | .toOwner x c m =>
      if .toProposer c m ∈ s.network ∧ s.holds cfg x c then
        some { s with network := s.network.erase (.toProposer c m) }
      else none
  | .toAcceptor ip c m =>
      if .toAcceptor c m ∈ s.network ∧ c.peer = ip then
        some { s with network := s.network.erase (.toAcceptor c m) }
      else none

/-- What is about another service comes from outside. -/
def State.arrive (s : State Id) (arrival : Option Arrival) : Option (State Id) :=
  match arrival with
  | none => some s
  | some a => if a.name = cfg.servicename then s.read cfg a else some s

/-- The requestor after an iteration, and what it put on the network. -/
def State.putRequestor (s : State Id) (action : Requestor.Action Conn)
    (r : Requestor.State Conn) : State Id :=
  let new := r.trace.drop s.requestor.trace.length
  { s with
    requestor := r
    requests := s.requests ++ delivered s.decided (r.sent.drop s.requestor.sent.length) action
    network := s.network ++
      (ofService cfg.servicename (new.filterMap Requestor.Output.sent)).map
        fun out => .toAcceptor out.1 out.2
    opened := s.opened + 1
    decided := s.decided ++ (new.filterMap Requestor.Output.committedSelf).map fun p => (none, p) }

def State.putProposer (s : State Id) (ip : IPString) (p : Proposer.State Conn Id) : State Id :=
  let new := p.trace.drop (s.proposers ip).trace.length
  { s with
    proposers := Function.update s.proposers ip p
    network := s.network ++
      (ofService cfg.servicename (new.filterMap Proposer.Output.sent)).map
        fun out => .toAcceptor out.1 out.2
    opened := s.opened + 1
    decided := s.decided ++
      (new.filterMap (Proposer.Output.committedSelf cfg.servicename)).map fun p => (some ip, p) }

def State.putAcceptor (s : State Id) (ip : IPString) (out : List (Conn × PaxosMessage))
    (a : Acceptor.State Conn) : State Id :=
  { s with
    acceptors := Function.update s.acceptors ip a
    network := s.network ++
      (ofService cfg.servicename out).map fun out => .toProposer out.1 out.2
    opened := s.opened + 1 }

variable [DecidableEq Id]

/-- One iteration of one process. -/
def State.iterate (s : State Id) : Action Id → Option (State Id)
  | .requestor action =>
      (Requestor.step cfg s.requestor (dialRequestor s.opened action)).map
        (s.putRequestor cfg action)
  | .proposer ip action =>
      (Proposer.step (s.proposers ip) (dialProposer s.opened action)).map (s.putProposer cfg ip)
  | .acceptor ip event =>
      (Acceptor.step (s.acceptors ip) event).map
        (s.putAcceptor cfg ip (answers (s.acceptors ip) event))

def step (s : State Id) (action : Action Id) : Option (State Id) :=
  (s.arrive cfg action.arrival).bind fun t => t.iterate cfg action

end Step

/-- No acceptor machine of the service runs into its timeout, and the requestor
proposes sets that are not empty. -/
def Allowed {Id : Type} (cfg : Config) (s : State Id) : Action Id → Prop
  | .requestor (.addAcceptors _) =>
      ∀ acc rest, Requestor.newAcceptors cfg s.requestor = some (acc, rest) → acc ≠ [] ∧ acc.Nodup
  | .acceptor ip .timeout =>
      ∀ a, Acceptor.registered (s.acceptors ip).accname cfg.servicename = some a →
        (a.checkTimeout (s.acceptors ip).now (seconds 4)).2 = .ignored
  | _ => True

/-- Every process is before its main loop. -/
structure Initial {Id : Type} (cfg : Config) (s : State Id) : Prop where
  requestor : ∃ start querysfd landmark acceptorIPs proposerIPs,
    s.requestor = .init cfg start querysfd landmark acceptorIPs proposerIPs
  proposers : ∀ ip, ∃ start recoveryfd requestsfd querysfd backupbrokers,
    s.proposers ip = .init start recoveryfd requestsfd querysfd backupbrokers
  acceptors : ∀ ip, ∃ start, s.acceptors ip = .init start
  requests : s.requests = []
  network : s.network = []
  /-- The requestor's first machine has number 0. -/
  opened : s.opened = 1
  decided : s.decided = []

end Cluster

end QpidRecovery
