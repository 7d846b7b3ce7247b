import QpidRecovery.Library.Transition
import QpidRecovery.Common.HeartbeatClient
import QpidRecovery.Common.ParticipateRequest
import QpidRecovery.Paxos.Proposer
import QpidRecovery.Proposer.LinkDstListener
import QpidRecovery.Recovery.RecoveryManager

/-! The proposer process. It watches the heartbeat of every broker it was asked
to monitor, proposes a backup for one that is lost, copies the objects of the
lost broker when its proposal is committed, and tells the new address to the
subscribers of the service. -/
namespace QpidRecovery.Proposer

/-- `informlist` holds the sockets to inform when the address changes. -/
structure Monitored (Fd : Type) where
  psm : ProposerStateMachine Fd
  hbc : Option (HeartbeatClient Fd)
  name : ServiceName
  ip : IPString
  port : UInt32
  informlist : List Fd
deriving DecidableEq, Repr

/-- The first record of that name. -/
def searchServiceByName {Fd : Type} (searchname : ServiceName) (monitor : List (Monitored Fd)) :
    Option Nat :=
  monitor.findIdx? fun i => strcmp i.name.bytes searchname.bytes = 0

/-- The reply that `inform` fills in. -/
def Monitored.address {Fd : Type} (mon : Monitored Fd) : ReplyAddress :=
  ⟨mon.name, mon.ip, mon.port⟩

structure ProposerList (Fd : Type) where
  ip : IPString
  port : UInt32
  sfd : Option Fd
  plist : ReplyProposer
deriving DecidableEq, Repr

/-- The first entry for that address. -/
def searchProposerListByIPPort {Fd : Type} (searchip : CString 32) (searchport : UInt32)
    (dstproposers : List (ProposerList Fd)) : Option (ProposerList Fd) :=
  dstproposers.find? fun p => p.ip.bytes = searchip.bytes ∧ p.port = searchport

/-- What the process does, in its order. Three entries are no calls of their
own: a subscriber was accepted, a recovery proposal was committed, with what
was stored for the failed broker at that time, and an acceptor change was. A
call of `reroute` has the name of the service that answered with the address. -/
inductive Output (Fd : Type) where
  | effect (e : Effect Fd)
  | inform (sfd : Fd) (r : ReplyAddress) (written : Bool)
  | recovery (c : RecoveryCall)
  | query (sfd : Fd) (name : ServiceName)
  | subscribed (name : ServiceName) (sfd : Fd)
  | committed (name : ServiceName) (rp : RecoveryProposal) (r : PaxosResult)
      (stored : List Operation)
  | changed (name : ServiceName) (ap : AcceptorChangeProposal) (r : PaxosResult)
  | reroute (name : ServiceName) (srcip : IPString) (srcport : UInt32) (oldip : IPString)
      (oldport : UInt32) (newip : IPString) (newport : UInt32)
deriving DecidableEq, Repr

/-- The outcomes of the calls that one iteration makes: `tcpconnect` of a new
heartbeat client, of a new state machine's slots and of the other
subscriptions, the writes to subscribers after a commit and of the periodic
check, what the backup answers when objects are copied to it, and what the
other brokers and hosts answer. -/
structure Outcomes (Fd : Type) where
  heartbeat : Option Fd
  paxos : Nat → IPString → Option Fd
  connect : Nat → Option Fd
  written : Fd → Bool
  checked : Fd → Bool
  backup : BrokerReply
  broker : BrokerReply

structure State (Fd Id : Type) where
  now : Time
  monitor : List (Monitored Fd)
  dstproposers : List (ProposerList Fd)
  dstlistener : LinkDstListener Fd
  recovery : RecoveryManager Id
  /-- What `getBackupBrokerURL` has not yet handed out. -/
  backupbrokers : List Text
  fs : FileSelector Fd
  totaltime : Nat
  trace : List (Output Fd)

/-- An event of the recovery manager's pipe, with the addresses its
constructor copied out of the urls. -/
inductive ListenerEvent (Id : Type) where
  | brokerDisconnection (brokerip : CString 32) (brokerport : UInt32)
  | linkDown (srcip : CString 32) (srcport : UInt32) (dstip : CString 32) (dstport : UInt32)
  | objectProperty (objinfo : CollectedObject Id)

/-- What a read of a proposer list yields. A short one leaves its bytes at the
front of the list that was there. -/
inductive ListRead where
  | reply (plist : ReplyProposer)
  | short (overlay : ReplyProposer → ReplyProposer)
  | failed

/-- The list after the read. -/
def ListRead.into (read : ListRead) (plist : ReplyProposer) : ReplyProposer :=
  match read with
  | .reply received => received
  | .short overlay => overlay plist
  | .failed => plist

/-- What a ready descriptor yields to whichever of its possible owners reads
it. The other failed reads are `false` and `none`. -/
structure Input where
  heartbeat : Bool
  address : Option ReplyAddress
  proposers : ListRead
  message : Option PaxosMessage

def Input.failed : Input := ⟨false, none, .failed, none⟩

def Input.received (m : PaxosMessage) : Input := ⟨false, none, .failed, some m⟩

variable {Fd Id : Type}

/-- The state before the main loop. -/
def State.init (start : Time) (recoveryfd requestsfd querysfd : Option Fd)
    (backupbrokers : List Text) [DecidableEq Fd] : State Fd Id where
  now := start
  monitor := []
  dstproposers := []
  dstlistener := ⟨[]⟩
  recovery := .new
  backupbrokers := backupbrokers
  fs := ((FileSelector.new.registerFD recoveryfd).registerFD requestsfd).registerFD querysfd
  totaltime := 0
  trace := []

def State.log (new : List (Output Fd)) (s : State Fd Id) : State Fd Id :=
  { s with trace := s.trace ++ new }

/-- Store one record of the vector. -/
def State.put (i : Nat) (mon : Monitored Fd) (s : State Fd Id) : State Fd Id :=
  { s with monitor := s.monitor.set i mon }

/-- The attempts to inform a list of sockets. Those that fail are closed. -/
def informs (written : Fd → Bool) (r : ReplyAddress) (sockets : List Fd) : List (Output Fd) :=
  sockets.flatMap fun sfd =>
    .inform sfd r (written sfd) :: if written sfd then [] else [.effect (.close sfd)]

def addInformList (written : Fd → Bool) (newsfd : Fd) (mon : Monitored Fd) (s : State Fd Id) :
    Monitored Fd × State Fd Id :=
  let s := s.log (informs written mon.address [newsfd])
  if written newsfd then
    ({ mon with informlist := mon.informlist ++ [newsfd] },
      s.log [.subscribed mon.name newsfd])
  else (mon, s)

/-- The sockets that could not be written to leave the list. -/
def informAll (written : Fd → Bool) (mon : Monitored Fd) (s : State Fd Id) :
    Monitored Fd × State Fd Id :=
  ({ mon with informlist := mon.informlist.filter written },
    s.log (informs written mon.address mon.informlist))

section Calls
variable [DecidableEq Fd]

/-- The calls of a state machine. -/
def State.perform (effects : List (Effect Fd)) (s : State Fd Id) : State Fd Id :=
  { s with fs := s.fs.perform effects, trace := s.trace ++ effects.map .effect }

/-- Drop the first record of that name with its machine and its heartbeat
client. -/
def eraseMonitored (name : ServiceName) (s : State Fd Id) : State Fd Id :=
  match s.monitor.findIdx? fun i => strcmp i.name.bytes name.bytes = 0 with
  | none => s
  | some i =>
      match s.monitor[i]? with
      | none => s
      | some mon =>
          let s := s.perform mon.psm.disconnectAcceptors.2
          { s with
            monitor := s.monitor.eraseIdx i
            fs := match mon.hbc with
              | some hbc => s.fs.unregisterFD hbc.sfd
              | none => s.fs }

/-- A new record takes the place of the one with that name. Its list of
subscribers is empty. -/
def createProposer (o : Outcomes Fd) (r : ParticipateRequest) (fromip : IPString)
    (s : State Fd Id) : State Fd Id :=
  let s := eraseMonitored r.name s
  let hbc := HeartbeatClient.new s.now o.heartbeat fromip
  let s := { s with fs := if hbc.sfd.isSome then s.fs.registerFD hbc.sfd else s.fs }
  let psm := ProposerStateMachine.new s.now o.paxos r.name r.votingversion
    ⟨r.committedversion, r.acceptor⟩
  let s := s.perform psm.2
  { s with
    monitor := s.monitor ++
      [{ psm := psm.1
         hbc := some hbc
         name := r.name
         ip := fromip
         port := r.brokerport
         informlist := [] }] }

variable [DecidableEq Id]

/-- The address changes before the objects are copied, and the commitment is
sent after it whatever came of the copy. -/
def commitRecovery (o : Outcomes Fd) (r : PaxosResult) (rp : RecoveryProposal)
    (mon : Monitored Fd) (s : State Fd Id) : Option (Monitored Fd × State Fd Id) :=
  let stored := s.recovery.storedCreations (IPPortToUrl rp.failip rp.failport)
  let s := s.log [.committed mon.name rp r stored]
  let mon := { mon with ip := rp.backupip, port := rp.backupport }
  if r = .committingSelf then
    (s.recovery.copyObjects rp.failip rp.failport rp.backupip rp.backupport o.backup).map
      fun copied =>
        let s := s.log (copied.1.map .recovery)
        let sent := mon.psm.sendCommitment s.now
        informAll o.written { mon with psm := sent.1 } (s.perform sent.2)
  else some (informAll o.written mon s)

/-- The state machine is replaced by one that votes on the next version. -/
def commitAcceptors (o : Outcomes Fd) (r : PaxosResult) (ap : AcceptorChangeProposal)
    (mon : Monitored Fd) (s : State Fd Id) : Monitored Fd × State Fd Id :=
  let s := s.log [.changed mon.name ap r]
  let newpsm := ProposerStateMachine.new s.now o.paxos mon.name (ap.newversion + 1)
    ⟨ap.newversion, ap.acceptor⟩
  ({ mon with psm := newpsm.1 },
    (s.perform newpsm.2).perform mon.psm.disconnectAcceptors.2)

/-- `none` is the use of a null proposal. -/
def handleCommit (o : Outcomes Fd) (r : PaxosResult) (mon : Monitored Fd) (s : State Fd Id) :
    Option ((Monitored Fd × State Fd Id) × Int) :=
  if r ≠ .committingSelf ∧ r ≠ .committingOther then some ((mon, s), -1)
  else match mon.psm.getCommittingProposal with
    | none => none
    | some (.recoveryProposal rp) => (commitRecovery o r rp mon s).map fun out => (out, 0)
    | some (.acceptorChangeProposal ap) => some (commitAcceptors o r ap mon s, 0)
    | some .noProposal => some ((mon, s), 0)

/-- The loop over the records from number `i` on, of which `n` are left. It
stops at the first that handles the message. -/
def handlePaxosMessage (o : Outcomes Fd) (ready : Fd) (m : PaxosMessage) :
    Nat → Nat → State Fd Id → Option (State Fd Id)
  | 0, _, s => some s
  | n + 1, i, s =>
      match s.monitor[i]? with
      | none => some s
      | some mon =>
          let r := mon.psm.handleMessage s.now ready m
          let mon := { mon with psm := r.machine }
          let s := (s.perform r.effects).put i mon
          if r.result = .ignored then handlePaxosMessage o ready m n (i + 1) s
          else if r.result = .handled then some s
          else match handleCommit o r.result mon s with
            | none => none
            | some ((mon, s), returned) =>
                if returned = 0 then some (s.put i mon)
                else handlePaxosMessage o ready m n (i + 1) (s.put i mon)

/-- The proposal of a backup, whose url has to fit. -/
def recoveryProposal (mon : Monitored Fd) (backupurl : Text) : Option RecoveryProposal :=
  (urlToIPPort IP_LENGTH backupurl).map fun backup =>
    ⟨mon.psm.version, mon.ip, mon.port, backup.1, backup.2, 100⟩

/-- The heartbeat client is gone before anything is proposed. A missing client,
an exhausted list of backups and a backup url that does not fit crash. -/
def startRecovery (o : Outcomes Fd) (mon : Monitored Fd) (s : State Fd Id) :
    Option (Monitored Fd × State Fd Id) :=
  match mon.hbc, s.backupbrokers with
  | some hbc, backupurl :: rest =>
      match recoveryProposal mon backupurl with
      | none => none
      | some rp =>
          let s := { s with
            fs := s.fs.unregisterFD hbc.sfd
            recovery := s.recovery.deleteBroker mon.ip mon.port
            backupbrokers := rest }
          let r := mon.psm.newProposal s.now (.recoveryProposal rp)
          (handleCommit o r.result { mon with hbc := none, psm := r.machine }
            (s.perform r.effects)).map Prod.fst
  | _, _ => none

/-- The body of the timeout branch's loop. -/
def checkMonitored (o : Nat → Outcomes Fd) (i : Nat) (s : State Fd Id) : Option (State Fd Id) :=
  match s.monitor[i]? with
  | none => some s
  | some mon =>
      let mon := { mon with psm := (mon.psm.checkTimeout s.now (seconds 4)).1 }
      let out := if s.totaltime = 0 then informAll (o i).checked mon s else (mon, s)
      match out.1.hbc with
      | none => some (out.2.put i out.1)
      | some hbc =>
          if hbc.isExpired s.now (HEARTBEAT_PERIOD * 2) then
            (startRecovery (o i) out.1 out.2).map fun out => out.2.put i out.1
          else some (out.2.put i out.1)

/-- The loop over all records. -/
def checkAll (o : Nat → Outcomes Fd) : Nat → State Fd Id → Option (State Fd Id)
  | 0, s => some s
  | n + 1, s => (checkAll o n s).bind (checkMonitored o n)

/-- `static unsigned totaltime`. -/
def nextTotaltime (totaltime : Nat) : Nat :=
  if totaltime + 4 > 60 then 0 else totaltime + 4

def listenProposerList (o : Outcomes Fd) (dstip : IPString) (dstport : UInt32) (s : State Fd Id) :
    State Fd Id :=
  match o.connect 0 with
  | none => s
  | some sfd =>
      { s with
        fs := s.fs.registerFD (some sfd)
        dstproposers := s.dstproposers ++ [⟨dstip, dstport, some sfd, ReplyProposer.zeroed⟩] }

/-- The branch for a failed link. The addresses are copied into shorter arrays. -/
def linkDown (o : Outcomes Fd) (srcip : CString 32) (srcport : UInt32) (dstip : CString 32)
    (dstport : UInt32) (s : State Fd Id) : Option (State Fd Id) :=
  if o.broker.unreachable dstip.bytes = false then some s
  else match searchProposerListByIPPort dstip dstport s.dstproposers with
    | none => some s
    | some p =>
        match srcip.copyTo IP_LENGTH, dstip.copyTo IP_LENGTH with
        | some srcip, some dstip =>
            (s.dstlistener.listenAddressChange o.connect p.plist srcip srcport dstip dstport).map
              fun l => { s with
                dstlistener := l.1
                fs := l.2.1.foldl (fun fs fd => fs.registerFD (some fd)) s.fs
                trace := s.trace ++ l.2.1.map fun fd => .query fd p.plist.name }
        | _, _ => none

def handleEvent (o : Outcomes Fd) (le : ListenerEvent Id) (s : State Fd Id) :
    Option (State Fd Id) :=
  match le with
  | .brokerDisconnection brokerip brokerport =>
      (brokerip.copyTo IP_LENGTH).map fun ip =>
        { s with recovery := s.recovery.deleteBroker ip brokerport }
  | .linkDown srcip srcport dstip dstport => linkDown o srcip srcport dstip dstport s
  | .objectProperty objinfo =>
      let s := { s with recovery := (s.recovery.addObjectInfo objinfo).1 }
      match objinfo with
      | .link info =>
          (urlToIPPort IP_LENGTH info.getLinkDestUrl).map fun dst =>
            listenProposerList o dst.1 dst.2 s
      | _ => some s

/-- `reroute` with the addresses of a changed link, unless its source is down. -/
def startRerouting (o : Outcomes Fd) (link : AddressChange Fd) (newip : IPString)
    (newport : UInt32) (s : State Fd Id) : Option (State Fd Id) :=
  if o.broker.unreachable link.srcip.bytes then some s
  else
    let s := s.log [.reroute link.name link.srcip link.srcport link.oldip link.oldport newip newport]
    (s.recovery.reroute link.srcip link.srcport link.oldip link.oldport newip newport
      o.broker).map fun out => { s with
        recovery := out.1
        trace := s.trace ++ out.2.1.map .recovery }

/-- The record whose heartbeat client reads from a descriptor. -/
def receiver (sfd : Fd) (v : List (Monitored Fd)) : Option Nat :=
  v.findIdx? fun mon => mon.hbc.any fun hbc => hbc.sfd = some sfd

/-- The body of `readProposerList` for the entry that was found. It reads into
the entry's list. -/
def readProposerList (ready : Fd) (read : ListRead) (i : Nat) (s : State Fd Id) : State Fd Id :=
  let s := { s with
    dstproposers := s.dstproposers.modify i fun p => { p with plist := read.into p.plist } }
  match read with
  | .reply _ => s
  | .short _ | .failed =>
      { s with
        fs := s.fs.unregisterFD (some ready)
        dstproposers := s.dstproposers.modify i fun p => { p with sfd := none } }

/-- `receive` fails on a proposal without a content. -/
def receivable (m : PaxosMessage) : Bool :=
  match m.body with
  | .phase1Proposal .noProposal | .phase2Request .noProposal | .phase3Commit .noProposal => false
  | _ => true

def handleReady (o : Outcomes Fd) (ready : Fd) (input : Input) (s : State Fd Id) :
    Option (State Fd Id) :=
  match receiver ready s.monitor with
  | some i =>
      match s.monitor[i]? with
      | none => none
      | some mon =>
          if input.heartbeat then
            some (s.put i { mon with hbc := mon.hbc.map (HeartbeatClient.readMessage s.now) })
          else (startRecovery o mon s).map fun out => out.2.put i out.1
  | none =>
      let change := s.dstlistener.readAddressChange ready input.address
      let s := { s with
        dstlistener := change.listener
        fs := change.closed.foldl (fun fs fd => fs.unregisterFD (some fd)) s.fs }
      match change.link with
      | some (link, newip, newport) => startRerouting o link newip newport s
      | none =>
          if change.result ≠ 0 then some s
          else match s.dstproposers.findIdx? fun p => p.sfd = some ready with
            | some i => some (readProposerList ready input.proposers i s)
            | none =>
                match input.message.filter receivable with
                | some m => handlePaxosMessage o ready m s.monitor.length 0 s
                | none => some { s with fs := s.fs.unregisterFD (some ready) }

/-- One iteration of the main loop, with what it reads and the outcomes of its
calls. Failed reads of a request or a query change nothing and are left out. -/
inductive Action (Fd Id : Type) where
  | wait (d : Nat)
  | request (fromip : IPString) (r : ParticipateRequest) (o : Outcomes Fd)
  | query (newsfd : Fd) (name : ServiceName) (o : Outcomes Fd)
  | event (le : ListenerEvent Id) (o : Outcomes Fd)
  | ready (sfd : Fd) (input : Input) (o : Outcomes Fd)
  | timeout (o : Nat → Outcomes Fd)

/-- The branch for a `ParticipateRequest`. -/
def handleRequest (o : Outcomes Fd) (fromip : IPString) (r : ParticipateRequest)
    (s : State Fd Id) : State Fd Id :=
  let bip := if r.brokerip.bytes = [] then fromip else r.brokerip
  let s := createProposer o r bip s
  { s with recovery := s.recovery.addBroker bip r.brokerport }

/-- The branch for a `ReplyAddress` query. -/
def handleQuery (o : Outcomes Fd) (newsfd : Fd) (name : ServiceName) (s : State Fd Id) :
    State Fd Id :=
  match searchServiceByName name s.monitor with
  | none => s.log [.effect (.close newsfd)]
  | some i =>
      match s.monitor[i]? with
      | none => s
      | some mon =>
          let out := addInformList o.written newsfd mon s
          out.2.put i out.1

/-- A `none` is a crash. -/
def step (s : State Fd Id) : Action Fd Id → Option (State Fd Id)
  | .wait d => some { s with now := s.now + d }
  | .request fromip r o => some (handleRequest o fromip r s)
  | .query newsfd name o => some (handleQuery o newsfd name s)
  | .event le o => handleEvent o le s
  | .ready sfd input o => handleReady o sfd input s
  | .timeout o =>
      checkAll o s.monitor.length { s with totaltime := nextTotaltime s.totaltime }

end Calls

section OneBroker

/-- Every connection succeeds: the heartbeat client gets 10 and the acceptor
11. A backup that is contacted shows so many broker objects. -/
def allConnected (brokerobjects : Nat) : Outcomes Nat where
  heartbeat := some 10
  paxos := fun _ _ => some 11
  connect := fun _ => none
  written := fun _ => true
  checked := fun _ => true
  backup := ⟨brokerobjects, [], fun _ => false⟩
  broker := ⟨1, [], fun _ => false⟩

/-- A process with the backup `127.0.0.1:5673`. -/
def oneBackup : State Nat Nat :=
  .init 0 (some 0) (some 1) (some 2) [localhost.bytes ++ [58, 53, 54, 55, 51]]

/-- The request to monitor a broker with the one acceptor committed last. -/
def watchBroker (committedversion : Nat) : Action Nat Nat :=
  .request localhost
    { name := brokerService
      brokerip := noAddress
      brokerport := 5672
      votingversion := committedversion + 1
      committedversion := committedversion
      acceptor := [localhost] }
    (allConnected 1)

/-- The proposal of `127.0.0.1:5673` for `127.0.0.1:5672`. -/
def moveToBackup (votingversion : Nat) : RecoveryProposal :=
  ⟨votingversion, localhost, 5672, localhost, 5673, 100⟩

end OneBroker

end QpidRecovery.Proposer
