import Mathlib.Tactic.Abel
import QpidRecovery.Paxos.Connections
import QpidRecovery.Proposer.Frame

/-! The descriptors of the proposer. Every branch of the main loop makes its
calls on descriptors in a fixed order. A socket that is opened and closed again
before anything else is done with descriptors is left out. -/
namespace QpidRecovery.Proposer

variable {Fd Id : Type}

/-- The subscribers that cannot be written to are closed. -/
def informCalls (written : Fd → Bool) (informlist : List Fd) : List (Call Fd) :=
  (informlist.filter fun sfd => !written sfd).map .close

section Calls
variable [DecidableEq Fd]

def eraseMonitoredCalls (name : ServiceName) (s : State Fd Id) : List (Call Fd) :=
  match s.monitor.findIdx? fun i => strcmp i.name.bytes name.bytes = 0 with
  | none => []
  | some i =>
      match s.monitor[i]? with
      | none => []
      | some mon =>
          mon.psm.disconnectAcceptors.2.flatMap Effect.calls ++
            match mon.hbc with
            | some hbc => Call.deleted hbc.sfd
            | none => []

def createProposerCalls (o : Outcomes Fd) (r : ParticipateRequest) (s : State Fd Id) :
    List (Call Fd) :=
  eraseMonitoredCalls r.name s ++ Call.connected o.heartbeat ++
    (ProposerStateMachine.new (eraseMonitored r.name s).now o.paxos r.name r.votingversion
      ⟨r.committedversion, r.acceptor⟩).2.flatMap Effect.calls

def commitRecoveryCalls (o : Outcomes Fd) (r : PaxosResult) (mon : Monitored Fd)
    (s : State Fd Id) : List (Call Fd) :=
  (if r = .committingSelf then (mon.psm.sendCommitment s.now).2.flatMap Effect.calls else []) ++
    informCalls o.written mon.informlist

def commitAcceptorsCalls (o : Outcomes Fd) (ap : AcceptorChangeProposal) (mon : Monitored Fd)
    (s : State Fd Id) : List (Call Fd) :=
  (ProposerStateMachine.new s.now o.paxos mon.name (ap.newversion + 1)
      ⟨ap.newversion, ap.acceptor⟩).2.flatMap Effect.calls ++
    mon.psm.disconnectAcceptors.2.flatMap Effect.calls

def handleCommitCalls (o : Outcomes Fd) (r : PaxosResult) (mon : Monitored Fd)
    (s : State Fd Id) : List (Call Fd) :=
  if r ≠ .committingSelf ∧ r ≠ .committingOther then []
  else match mon.psm.getCommittingProposal with
    | some (.recoveryProposal _) => commitRecoveryCalls o r mon s
    | some (.acceptorChangeProposal ap) => commitAcceptorsCalls o ap mon s
    | some .noProposal | none => []

variable [DecidableEq Id]

def handlePaxosMessageCalls (o : Outcomes Fd) (ready : Fd) (m : PaxosMessage) :
    Nat → Nat → State Fd Id → List (Call Fd)
  | 0, _, _ => []
  | n + 1, i, s =>
      match s.monitor[i]? with
      | none => []
      | some mon =>
          let r := mon.psm.handleMessage s.now ready m
          let mon := { mon with psm := r.machine }
          let s := (s.perform r.effects).put i mon
          r.effects.flatMap Effect.calls ++
            if r.result = .ignored then handlePaxosMessageCalls o ready m n (i + 1) s
            else if r.result = .handled then []
            else handleCommitCalls o r.result mon s ++
              match handleCommit o r.result mon s with
              | none => []
              | some ((mon, s), returned) =>
                  if returned = 0 then []
                  else handlePaxosMessageCalls o ready m n (i + 1) (s.put i mon)

def startRecoveryCalls (o : Outcomes Fd) (mon : Monitored Fd) (s : State Fd Id) :
    List (Call Fd) :=
  match mon.hbc, s.backupbrokers with
  | some hbc, backupurl :: _ =>
      match recoveryProposal mon backupurl with
      | none => []
      | some rp =>
          let r := mon.psm.newProposal s.now (.recoveryProposal rp)
          Call.deleted hbc.sfd ++ r.effects.flatMap Effect.calls ++
            handleCommitCalls o r.result { mon with hbc := none, psm := r.machine } s
  | _, _ => []

def checkMonitoredCalls (o : Nat → Outcomes Fd) (i : Nat) (s : State Fd Id) : List (Call Fd) :=
  match s.monitor[i]? with
  | none => []
  | some mon =>
      let mon := { mon with psm := (mon.psm.checkTimeout s.now (seconds 4)).1 }
      let out := if s.totaltime = 0 then informAll (o i).checked mon s else (mon, s)
      (if s.totaltime = 0 then informCalls (o i).checked mon.informlist else []) ++
        match out.1.hbc with
        | none => []
        | some hbc =>
            if hbc.isExpired s.now (HEARTBEAT_PERIOD * 2) then
              startRecoveryCalls (o i) out.1 out.2
            else []

def checkAllCalls (o : Nat → Outcomes Fd) : Nat → State Fd Id → List (Call Fd)
  | 0, _ => []
  | n + 1, s => checkAllCalls o n s ++ (checkAll o n s).elim [] (checkMonitoredCalls o n)

def linkDownCalls (o : Outcomes Fd) (srcip : CString 32) (srcport : UInt32) (dstip : CString 32)
    (dstport : UInt32) (s : State Fd Id) : List (Call Fd) :=
  if o.broker.unreachable dstip.bytes = false then []
  else match searchProposerListByIPPort dstip dstport s.dstproposers with
    | none => []
    | some p =>
        match srcip.copyTo IP_LENGTH, dstip.copyTo IP_LENGTH with
        | some srcip, some dstip =>
            match s.dstlistener.listenAddressChange o.connect p.plist srcip srcport dstip
              dstport with
            | none => []
            | some l => l.2.1.flatMap fun fd => [.opened fd, .register (some fd)]
        | _, _ => []

def handleEventCalls (o : Outcomes Fd) (le : ListenerEvent Id) (s : State Fd Id) :
    List (Call Fd) :=
  match le with
  | .brokerDisconnection _ _ => []
  | .linkDown srcip srcport dstip dstport => linkDownCalls o srcip srcport dstip dstport s
  | .objectProperty (.link _) => Call.connected (o.connect 0)
  | .objectProperty _ => []

def handleReadyCalls (o : Outcomes Fd) (ready : Fd) (input : Input) (s : State Fd Id) :
    List (Call Fd) :=
  match receiver ready s.monitor with
  | some i =>
      match s.monitor[i]? with
      | none => []
      | some mon => if input.heartbeat then [] else startRecoveryCalls o mon s
  | none =>
      let change := s.dstlistener.readAddressChange ready input.address
      (change.closed.flatMap fun fd => [.unregister (some fd), .close fd]) ++
        if change.link.isSome ∨ change.result ≠ 0 then []
        else match s.dstproposers.findIdx? fun p => p.sfd = some ready with
          | some _ =>
              match input.proposers with
              | .reply _ => []
              | .short _ | .failed => [.unregister (some ready), .close ready]
          | none =>
              match input.message.filter receivable with
              | some m => handlePaxosMessageCalls o ready m s.monitor.length 0 s
              | none => [.unregister (some ready)]

def handleQueryCalls (o : Outcomes Fd) (newsfd : Fd) (name : ServiceName) (s : State Fd Id) :
    List (Call Fd) :=
  match searchServiceByName name s.monitor with
  | none => [.opened newsfd, .close newsfd]
  | some _ => .opened newsfd :: if o.written newsfd then [] else [.close newsfd]

/-- The calls of one iteration. -/
def calls (s : State Fd Id) : Action Fd Id → List (Call Fd)
  | .wait _ => []
  | .request _ r o => createProposerCalls o r s
  | .query newsfd name o => handleQueryCalls o newsfd name s
  | .event le o => handleEventCalls o le s
  | .ready sfd input o => handleReadyCalls o sfd input s
  | .timeout o =>
      checkAllCalls o s.monitor.length { s with totaltime := nextTotaltime s.totaltime }

end Calls

def Monitored.holding (mon : Monitored Fd) : Holding Fd :=
  ((↑(mon.hbc.bind HeartbeatClient.sfd).toList : Multiset Fd), 0) +
    ((↑mon.psm.connections : Multiset Fd), 0) + (0, (↑mon.informlist : Multiset Fd))

def AddressChange.holding (ac : AddressChange Fd) : Holding Fd :=
  ((↑(ac.slots.filterMap Prod.snd) : Multiset Fd), 0)

def ProposerList.holding (p : ProposerList Fd) : Holding Fd :=
  ((↑p.sfd.toList : Multiset Fd), 0)

/-- The descriptors of all objects of the process. -/
def State.holding (s : State Fd Id) : Holding Fd :=
  (s.monitor.map Monitored.holding).sum +
    ((s.dstlistener.listening.map AddressChange.holding).sum +
      (s.dstproposers.map ProposerList.holding).sum)

/-- With the event pipe and the server sockets that were made. -/
def owned (recoveryfd : Fd) (requestsfd querysfd : Option Fd) (s : State Fd Id) : Holding Fd :=
  ((↑(recoveryfd :: (requestsfd.toList ++ querysfd.toList)) : Multiset Fd), 0) + s.holding

section Records
variable {may : Option Fd → Prop}

/-- Only the state machine of a record is concerned. -/
theorem Monitored.accounted_psm (mon : Monitored Fd) {psm : ProposerStateMachine Fd}
    {calls : List (Call Fd)}
    (h : ∀ l : Holding Fd, Accounted may calls (l + ((↑mon.psm.connections : Multiset Fd), 0))
      (l + ((↑psm.connections : Multiset Fd), 0))) (l : Holding Fd) :
    Accounted may calls (l + mon.holding) (l + { mon with psm := psm }.holding) := by
  have hFrame := h (l + ((↑(mon.hbc.bind HeartbeatClient.sfd).toList : Multiset Fd), 0) +
    (0, (↑mon.informlist : Multiset Fd)))
  apply hFrame.of_eq
  · unfold holding
    abel
  · unfold holding
    abel

/-- Only its subscribers are concerned. -/
theorem Monitored.accounted_inform (mon : Monitored Fd) (written : Fd → Bool) (l : Holding Fd) :
    Accounted may (informCalls written mon.informlist) (l + mon.holding)
      (l + { mon with informlist := mon.informlist.filter written }.holding) := by
  have hSplit : (↑mon.informlist : Multiset Fd) =
      ↑(mon.informlist.filter written) + ↑(mon.informlist.filter fun sfd => !written sfd) := by
    rw [Multiset.coe_add]
    exact Multiset.coe_eq_coe.mpr (List.filter_append_perm written mon.informlist).symm
  have hPair : ((0 : Multiset Fd), (↑mon.informlist : Multiset Fd)) =
      (0, (↑(mon.informlist.filter written) : Multiset Fd)) +
        (0, (↑(mon.informlist.filter fun sfd => !written sfd) : Multiset Fd)) := by
    rw [hSplit, Prod.mk_add_mk, add_zero]
  have hDrop : Accounted may _ _ _ := .dropAll (mon.informlist.filter fun sfd => !written sfd)
    (l + { mon with informlist := mon.informlist.filter written }.holding)
  apply hDrop.of_eq
  · unfold holding
    rw [hPair]
    dsimp only
    abel
  · rfl

/-- The heartbeat client of a record is given up. -/
theorem Monitored.accounted_hbc (mon : Monitored Fd) (hNone : may none)
    {hbc : HeartbeatClient Fd} (hClient : mon.hbc = some hbc) (l : Holding Fd) :
    Accounted may (Call.deleted hbc.sfd) (l + mon.holding) (l + { mon with hbc := none }.holding) := by
  have hDelete := Accounted.deleted hNone hbc.sfd (l + { mon with hbc := none }.holding)
  apply hDelete.of_eq
  · have hEmpty : ((↑(Option.toList (none : Option Fd)) : Multiset Fd), (0 : Multiset Fd)) = 0 := rfl
    unfold holding
    rw [hClient, Option.bind_some]
    dsimp only
    rw [Option.bind_none, hEmpty]
    abel
  · rfl

/-- The record is erased. Its subscribers are neither informed nor closed. -/
theorem Monitored.accounted_erase (mon : Monitored Fd) (hNone : may none) (l : Holding Fd) :
    Accounted may (mon.psm.disconnectAcceptors.2.flatMap Effect.calls ++
      match mon.hbc with
      | some hbc => Call.deleted hbc.sfd
      | none => []) (l + mon.holding) l := by
  have hDisconnect : Accounted may _ _ _ := mon.psm.disconnectAcceptors_accounted
    (l + (0, (↑mon.informlist : Multiset Fd)) +
      ((↑(mon.hbc.bind HeartbeatClient.sfd).toList : Multiset Fd), 0))
  have hClient : Accounted may (match mon.hbc with
      | some hbc => Call.deleted hbc.sfd
      | none => [])
      (l + (0, (↑mon.informlist : Multiset Fd)) +
        ((↑(mon.hbc.bind HeartbeatClient.sfd).toList : Multiset Fd), 0))
      (l + (0, (↑mon.informlist : Multiset Fd))) := by
    cases mon.hbc with
    | none => exact Accounted.of_eq (.nil _) (add_zero _) rfl
    | some hbc => exact Accounted.deleted hNone hbc.sfd _
  have hLeft := hClient.trans (Accounted.leakAll mon.informlist l)
  rw [List.append_nil] at hLeft
  apply (hDisconnect.trans hLeft).of_eq
  · unfold holding
    abel
  · rfl

end Records

/-- A function that works on one record beside the state. -/
structure Handles (may : Option Fd → Prop) (calls : List (Call Fd)) (mon : Monitored Fd)
    (s : State Fd Id) (mon' : Monitored Fd) (t : State Fd Id) [DecidableEq Fd] : Prop where
  monitor : t.monitor = s.monitor
  dstlistener : t.dstlistener = s.dstlistener
  dstproposers : t.dstproposers = s.dstproposers
  fs : t.fs = Call.selects calls s.fs
  accounted : ∀ l, Accounted may calls (l + mon.holding) (l + mon'.holding)

/-- A branch that makes these calls. -/
structure Books (may : Option Fd → Prop) (calls : List (Call Fd)) (s t : State Fd Id)
    [DecidableEq Fd] : Prop where
  fs : t.fs = Call.selects calls s.fs
  accounted : Accounted may calls s.holding t.holding

end QpidRecovery.Proposer
