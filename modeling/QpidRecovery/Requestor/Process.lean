import QpidRecovery.Library.Transition
import QpidRecovery.Common.FileSelector
import QpidRecovery.Common.HeartbeatClient
import QpidRecovery.Common.ParticipateRequest
import QpidRecovery.Paxos.Proposer

/-! The requestor process. It keeps a heartbeat connection to every proposer
and acceptor of its service, recruits replacements, and changes the acceptor
list by proposing the new one to the old acceptors. -/
namespace QpidRecovery.Requestor

structure Config where
  servicename : ServiceName
  brokerport : UInt32
  expectedProposers : Nat
  expectedAcceptors : Nat
  /-- `main` returns at once when more are expected. -/
  proposersFit : expectedProposers ≤ MAX_PROPOSERS
  acceptorsFit : expectedAcceptors ≤ MAX_ACCEPTORS

/-- The port a request was written to. -/
inductive Port where
  | requestProposer
  | requestAcceptor
deriving DecidableEq, Repr

structure SentRequest where
  ip : IPString
  port : Port
  request : ParticipateRequest
deriving DecidableEq, Repr

/-- The outcomes of the calls on sockets that one iteration makes, each kind
counted from zero: `tcpconnect` of a new heartbeat client, a whole
`sendRequest`, `tcpconnect` of a new state machine's slot, and the write of a
proposer list to a subscriber. -/
structure Outcomes (Fd : Type) where
  heartbeat : Nat → Option Fd
  request : Nat → Bool
  paxos : Nat → IPString → Option Fd
  reply : Fd → Bool

/-- A call on a descriptor, or a proposal that a state machine reported as
committed, with how it reported it. -/
inductive Output (Fd : Type) where
  | effect (e : Effect Fd)
  | committed (p : Proposal) (r : PaxosResult)
deriving DecidableEq, Repr

/-- `currentversion` goes up with every commit, and is not bounded as the
`unsigned` of the source is. -/
structure State (Fd : Type) where
  now : Time
  needchangeacceptor : Bool
  ischangingacceptor : Bool
  proposers : List (HeartbeatClient Fd)
  acceptors : List (HeartbeatClient Fd)
  currentversion : Nat
  psm : ProposerStateMachine Fd
  fs : FileSelector Fd
  replysfd : List Fd
  /-- What `getAcceptorIP` and `getProposerIP` have not yet handed out. -/
  acceptorIPs : List IPString
  proposerIPs : List IPString
  /-- Every request written so far. -/
  sent : List SentRequest
  /-- Every acceptor list committed so far, with the version of its proposal.
  Before the first one the list is empty. -/
  committed : List (Nat × List IPString)
  /-- What the state machines did and reported, in its order. -/
  trace : List (Output Fd)

variable {Fd : Type}

def copyIPArray (v : List (HeartbeatClient Fd)) : List IPString := v.map HeartbeatClient.ip

/-- The request that `sendRequest` fills in. The broker's address is left
empty, and the list is read from the heartbeat clients it is given. -/
def participateRequest (cfg : Config) (currentversion : Nat)
    (acceptors : List (HeartbeatClient Fd)) : ParticipateRequest where
  name := cfg.servicename
  brokerip := noAddress
  brokerport := cfg.brokerport
  votingversion := currentversion + 1
  committedversion := currentversion
  acceptor := copyIPArray acceptors

/-- The requests to a list of addresses, the first of which has number
`first`. Those that fail are reported and skipped. -/
def sendRequests (o : Outcomes Fd) (port : Port) (r : ParticipateRequest) :
    Nat → List IPString → List SentRequest
  | _, [] => []
  | first, ip :: rest =>
      (if o.request first then [⟨ip, port, r⟩] else []) ++
        sendRequests o port r (first + 1) rest

section Calls
variable [DecidableEq Fd]

/-- The state before the main loop. In centralized mode the landmark is the
first proposer. -/
def State.init (cfg : Config) (start : Time) (querysfd : Fd) (landmark : Option (IPString × Fd))
    (acceptorIPs proposerIPs : List IPString) : State Fd where
  now := start
  needchangeacceptor := cfg.expectedAcceptors ≠ 0
  ischangingacceptor := false
  proposers := landmark.toList.map fun l => .new start (some l.2) l.1
  acceptors := []
  currentversion := 0
  psm := (ProposerStateMachine.new start (fun _ _ => none) cfg.servicename 1 ⟨0, []⟩).1
  fs := (FileSelector.new.registerFD (some querysfd)).perform
    (landmark.toList.map fun l => .registerFD l.2)
  replysfd := []
  acceptorIPs := acceptorIPs
  proposerIPs := proposerIPs
  sent := []
  committed := [(0, [])]
  trace := []

/-- The calls of a state machine. -/
def State.perform (effects : List (Effect Fd)) (s : State Fd) : State Fd :=
  { s with fs := s.fs.perform effects, trace := s.trace ++ effects.map .effect }

/-- Store the state machine after a call. -/
def State.react (s : State Fd) (r : Reaction (ProposerStateMachine Fd) Fd) : State Fd :=
  { s.perform r.effects with psm := r.machine }

/-- Drop the heartbeat clients of the old list, open those of the new one, and
send both the new acceptors and the proposers the new list. -/
def changeAcceptor (cfg : Config) (o : Outcomes Fd) (acc : List IPString) (s : State Fd) :
    State Fd :=
  let acceptors := acc.mapIdx fun i ip => HeartbeatClient.new s.now (o.heartbeat i) ip
  let fs := s.acceptors.foldl (fun fs hbc => fs.unregisterFD hbc.sfd) s.fs
  let r := participateRequest cfg s.currentversion acceptors
  { s with
    acceptors := acceptors
    fs := acceptors.foldl (fun fs hbc => fs.registerFD hbc.sfd) fs
    sent := s.sent ++ sendRequests o .requestAcceptor r 0 acc ++
      sendRequests o .requestProposer r acc.length (copyIPArray s.proposers) }

/-- The part of `handleCommit` for its own acceptor change: recruit the new
list, announce the commit to the old one, and start the next machine. -/
def commitAcceptors (cfg : Config) (o : Outcomes Fd) (ap : AcceptorChangeProposal) (s : State Fd) :
    State Fd :=
  let s := changeAcceptor cfg o ap.acceptor s
  let s := s.react (.void (s.psm.sendCommitment s.now))
  let newpsm := ProposerStateMachine.new s.now o.paxos cfg.servicename (s.currentversion + 1)
    ⟨s.currentversion, ap.acceptor⟩
  { s.perform newpsm.2 with
    psm := newpsm.1
    ischangingacceptor := false }

/-- The committed version is taken from the proposal before its kind is
looked at. `none` is the use of a null proposal. -/
def handleCommit (cfg : Config) (o : Outcomes Fd) (r : PaxosResult) (s : State Fd) :
    Option (State Fd × Int) :=
  if r ≠ .committingSelf ∧ r ≠ .committingOther then some (s, -1)
  else match s.psm.getCommittingProposal with
    | none => none
    | some p =>
        let s := { s with currentversion := p.getVersion, trace := s.trace ++ [.committed p r] }
        match p with
        | .acceptorChangeProposal ap =>
            let s := { s with committed := (ap.newversion, ap.acceptor) :: s.committed }
            if r ≠ .committingSelf then some (s, -1) else some (commitAcceptors cfg o ap s, 0)
        | .recoveryProposal _ => some (s, -1)
        | .noProposal => some (s, 0)

def handlePaxosMessage (cfg : Config) (o : Outcomes Fd) (ready : Fd) (m : PaxosMessage)
    (s : State Fd) : Option (State Fd) :=
  let r := s.psm.handleMessage s.now ready m
  if r.result = .ignored ∨ r.result = .handled then some (s.react r)
  else (handleCommit cfg o r.result (s.react r)).map Prod.fst

/-- The list to propose: the acceptors still there and as many new addresses
as are missing, with the addresses that remain. `main` returns when the name
list runs out. -/
def newAcceptors (cfg : Config) (s : State Fd) : Option (List IPString × List IPString) :=
  let missing := cfg.expectedAcceptors - s.acceptors.length
  if s.acceptors.length ≤ cfg.expectedAcceptors ∧ missing ≤ s.acceptorIPs.length then
    some (copyIPArray s.acceptors ++ s.acceptorIPs.take missing, s.acceptorIPs.drop missing)
  else none

/-- The branch that proposes a new acceptor list. -/
def addAcceptors (cfg : Config) (o : Outcomes Fd) (s : State Fd) : Option (State Fd) :=
  match newAcceptors cfg s with
  | none => none
  | some (acc, rest) =>
      let s := { s with
        needchangeacceptor := false
        ischangingacceptor := true
        acceptorIPs := rest }
      let r := s.psm.newProposal s.now (.acceptorChangeProposal ⟨s.currentversion + 1, acc⟩)
      (handleCommit cfg o r.result (s.react r)).map Prod.fst

/-- The branch that recruits a proposer. The request carries the addresses of
the heartbeat clients that are left, whatever list was committed. -/
def addProposer (cfg : Config) (o : Outcomes Fd) (s : State Fd) : Option (State Fd) :=
  match s.proposerIPs with
  | [] => none
  | newip :: rest =>
      if o.request 0 then
        let r := participateRequest cfg s.currentversion s.acceptors
        let hbc := HeartbeatClient.new s.now (o.heartbeat 0) newip
        some { s with
          proposerIPs := rest
          sent := s.sent ++ [⟨newip, .requestProposer, r⟩]
          fs := if hbc.sfd.isSome then s.fs.registerFD hbc.sfd else s.fs
          proposers := s.proposers ++ [hbc]
          replysfd := s.replysfd.filter o.reply }
      else some { s with proposerIPs := rest }

/-- Erase one client. -/
def deleteHBC (i : Nat) (v : List (HeartbeatClient Fd)) (fs : FileSelector Fd) :
    List (HeartbeatClient Fd) × FileSelector Fd :=
  (v.eraseIdx i, match v[i]? with
    | some hbc => fs.unregisterFD hbc.sfd
    | none => fs)

/-- The loop `while((r = checkExpired(v)) >= 0) deleteHBC(r, v, fs)`. -/
def deleteExpired (now : Time) (v : List (HeartbeatClient Fd)) (fs : FileSelector Fd) :
    List (HeartbeatClient Fd) × FileSelector Fd :=
  let expired := v.filter (HeartbeatClient.isExpired now (HEARTBEAT_PERIOD * 2))
  (v.filter fun hbc => !hbc.isExpired now (HEARTBEAT_PERIOD * 2),
    expired.foldl (fun fs hbc => fs.unregisterFD hbc.sfd) fs)

/-- The client that reads from a descriptor. -/
def receiver (sfd : Fd) (v : List (HeartbeatClient Fd)) : Option Nat :=
  v.findIdx? fun hbc => hbc.sfd = some sfd

end Calls

/-- One iteration of the main loop, with what the sockets make of it. A ready
descriptor brings a heartbeat or a message, or fails. -/
inductive Action (Fd : Type) where
  | wait (d : Nat)
  | addAcceptors (o : Outcomes Fd)
  | addProposer (o : Outcomes Fd)
  | timeout
  | query (newsfd : Option Fd) (replied : Bool)
  | ready (sfd : Fd) (heartbeat : Bool) (message : Option PaxosMessage) (o : Outcomes Fd)

/-- The first branch of the loop is due. -/
def State.mustChange (s : State Fd) : Bool := !s.ischangingacceptor && s.needchangeacceptor

/-- The second branch is due. -/
def State.mustRecruit (cfg : Config) (s : State Fd) : Bool :=
  s.proposers.length < cfg.expectedProposers

section Step
variable [DecidableEq Fd]

def handleReady (cfg : Config) (sfd : Fd) (heartbeat : Bool) (message : Option PaxosMessage)
    (o : Outcomes Fd) (s : State Fd) : Option (State Fd) :=
  match receiver sfd s.proposers with
  | some i =>
      if heartbeat then
        some { s with proposers := s.proposers.modify i (HeartbeatClient.readMessage s.now) }
      else
        let d := deleteHBC i s.proposers s.fs
        some { s with proposers := d.1, fs := d.2 }
  | none =>
      match receiver sfd s.acceptors with
      | some i =>
          if heartbeat then
            some { s with acceptors := s.acceptors.modify i (HeartbeatClient.readMessage s.now) }
          else
            let d := deleteHBC i s.acceptors s.fs
            some { s with acceptors := d.1, fs := d.2, needchangeacceptor := true }
      | none =>
          match message with
          | some m => handlePaxosMessage cfg o sfd m s
          | none => some { s with fs := s.fs.unregisterFD (some sfd) }

/-- A `none` is an iteration that is not due, a return from `main` or a crash. -/
def step (cfg : Config) (s : State Fd) : Action Fd → Option (State Fd)
  | .wait d => some { s with now := s.now + d }
  | .addAcceptors o => if s.mustChange then addAcceptors cfg o s else none
  | .addProposer o =>
      if !s.mustChange && s.mustRecruit cfg then addProposer cfg o s else none
  | .timeout =>
      if !s.mustChange && !s.mustRecruit cfg then
        let p := deleteExpired s.now s.proposers s.fs
        let a := deleteExpired s.now s.acceptors p.2
        some { s with proposers := p.1, acceptors := a.1, fs := a.2 }
      else none
  | .query newsfd replied =>
      if !s.mustChange && !s.mustRecruit cfg then
        match newsfd with
        | some fd => some { s with replysfd := if replied then s.replysfd ++ [fd] else s.replysfd }
        | none => some s
      else none
  | .ready sfd heartbeat message o =>
      if !s.mustChange && !s.mustRecruit cfg then handleReady cfg sfd heartbeat message o s
      else none

end Step

end QpidRecovery.Requestor
