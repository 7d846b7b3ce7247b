import QpidRecovery.Common.CharArray
import QpidRecovery.Library.Channel

/-! Messages on a connection. A header is one object; a proposal is its type
and new version, followed by the fields of its class. Sending and receiving
the fields is one routine, which keeps a running total that turns negative at
the first short transfer. -/
namespace QpidRecovery.Wire

open Layout

inductive PaxosMessageType where
  | phase1Proposal
  | phase1Ack
  | phase1Nack
  | phase2Request
  | phase2Ack
  | phase2Nack
  | phase3Commit
deriving DecidableEq, Repr

def PaxosMessageType.code : PaxosMessageType → UInt32
  | phase1Proposal => 555
  | phase1Ack => 556
  | phase1Nack => 557
  | phase2Request => 558
  | phase2Ack => 559
  | phase2Nack => 560
  | phase3Commit => 561

structure PaxosHeader where
  type : UInt32
  version : UInt32
  name : CharArray SERVICE_NAME_LENGTH
deriving DecidableEq, Repr

instance : Layout PaxosHeader :=
  ofEquiv (α := UInt32 × UInt32 × CharArray SERVICE_NAME_LENGTH)
    (fun h => (h.type, h.version, h.name)) (fun p => ⟨p.1, p.2.1, p.2.2⟩)
    (fun _ => rfl) (fun _ => rfl)

structure RecoveryContent where
  failip : CharArray IP_LENGTH
  failport : UInt32
  backupip : CharArray IP_LENGTH
  backupport : UInt32
  score : UInt32
deriving DecidableEq, Repr

structure AcceptorChangeContent where
  nacceptor : UInt32
  acceptor : CArray (CharArray IP_LENGTH) MAX_ACCEPTORS
deriving DecidableEq, Repr

/-- The fields of a proposal's class. -/
inductive Content where
  | noProposal
  | recovery (r : RecoveryContent)
  | acceptorChange (a : AcceptorChangeContent)
deriving DecidableEq, Repr

/-- A proposal object: its type, its new version and its fields. -/
structure ProposalImage where
  newversion : UInt32
  content : Content
deriving DecidableEq, Repr

def NOPROPOSAL : UInt32 := 999
def RECOVERYPROPOSAL : UInt32 := 1000
def ACCEPTORCHANGEPROPOSAL : UInt32 := 1001

def Content.type : Content → UInt32
  | .noProposal => NOPROPOSAL
  | .recovery _ => RECOVERYPROPOSAL
  | .acceptorChange _ => ACCEPTORCHANGEPROPOSAL

structure PaxosMessageImage where
  header : PaxosHeader
  proposal : Option ProposalImage
deriving DecidableEq, Repr

inductive RW where
  | read
  | write
deriving DecidableEq, Repr

/-- An object after a transfer, the connection, and the running total. -/
structure Moved (α : Type) where
  value : α
  channel : Channel
  returnsum : Int

/-- After a short read the object is only good to be deleted, so its bytes are
left as they were. -/
def rwType {α : Type} [Layout α] (rw : RW) (buff : α) (c : Channel) (returnsum : Int) : Moved α :=
  if returnsum < 0 then ⟨buff, c, returnsum⟩
  else match rw with
    | .write =>
        let r := c.write (bytes buff)
        ⟨buff, r.2, if r.1 ≠ size α then -1 else returnsum + r.1⟩
    | .read =>
        let r := c.read (size α)
        if r.1.length ≠ size α then ⟨buff, r.2, -1⟩
        else ⟨ofBytes r.1, r.2, returnsum + r.1.length⟩

def RecoveryContent.sendReceiveContent (rw : RW) (p : RecoveryContent) (sfd : Channel) :
    Moved RecoveryContent :=
  let failip := rwType rw p.failip sfd 0
  let failport := rwType rw p.failport failip.channel failip.returnsum
  let backupip := rwType rw p.backupip failport.channel failport.returnsum
  let backupport := rwType rw p.backupport backupip.channel backupip.returnsum
  let score := rwType rw p.score backupport.channel backupport.returnsum
  ⟨⟨failip.value, failport.value, backupip.value, backupport.value, score.value⟩,
    score.channel, score.returnsum⟩

def AcceptorChangeContent.sendReceiveContent (rw : RW) (p : AcceptorChangeContent)
    (sfd : Channel) : Moved AcceptorChangeContent :=
  let nacceptor := rwType rw p.nacceptor sfd 0
  let acceptor := rwType rw p.acceptor nacceptor.channel nacceptor.returnsum
  ⟨⟨nacceptor.value, acceptor.value⟩, acceptor.channel, acceptor.returnsum⟩

/-- The virtual function. -/
def Content.sendReceiveContent (rw : RW) (sfd : Channel) : Content → Moved Content
  | .noProposal => ⟨.noProposal, sfd, 0⟩
  | .recovery r =>
      let m := r.sendReceiveContent rw sfd
      ⟨.recovery m.value, m.channel, m.returnsum⟩
  | .acceptorChange a =>
      let m := a.sendReceiveContent rw sfd
      ⟨.acceptorChange m.value, m.channel, m.returnsum⟩

/-- The number of bytes written or `-1`, and the connection. -/
def sendProposal (p : ProposalImage) (sfd : Channel) : Int × Channel :=
  let type := rwType .write p.content.type sfd 0
  let newversion := rwType .write p.newversion type.channel type.returnsum
  let rc := p.content.sendReceiveContent .write newversion.channel
  (if newversion.returnsum < 0 ∨ rc.returnsum < 0 then -1
    else newversion.returnsum + rc.returnsum, rc.channel)

/-- The fields of an object just allocated, all of which are then read. -/
def RecoveryContent.fresh : RecoveryContent where
  failip := ofBytes []
  failport := 0
  backupip := ofBytes []
  backupport := 0
  score := 0

def AcceptorChangeContent.fresh : AcceptorChangeContent where
  nacceptor := 0
  acceptor := ofBytes []

/-- `NULL` is `none`. -/
def receiveProposal (sfd : Channel) : Option (ProposalImage × Channel) :=
  let type := rwType .read (0 : UInt32) sfd 0
  let newversion := rwType .read (0 : UInt32) type.channel type.returnsum
  if newversion.returnsum < 0 then none
  else if type.value = NOPROPOSAL then none
  else if type.value = RECOVERYPROPOSAL then
    let rc := RecoveryContent.fresh.sendReceiveContent .read newversion.channel
    if rc.returnsum < 0 then none
    else some (⟨newversion.value, .recovery rc.value⟩, rc.channel)
  else if type.value = ACCEPTORCHANGEPROPOSAL then
    let rc := AcceptorChangeContent.fresh.sendReceiveContent .read newversion.channel
    if rc.returnsum < 0 then none
    else some (⟨newversion.value, .acceptorChange rc.value⟩, rc.channel)
  else none

/-- The header is built in the stack object `ph`, of which only the name's
bytes after its NUL are still seen by the receiver. -/
def sendPaxosHeader (ph : PaxosHeader) (t : PaxosMessageType) (v : UInt32) (m : ServiceName)
    (sfd : Channel) : Int × Channel :=
  let r := sfd.write (bytes { ph with type := t.code, version := v, name := ph.name.strcpy m })
  (if r.1 = size PaxosHeader then r.1 else -1, r.2)

def sendHeaderProposal (ph : PaxosHeader) (t : PaxosMessageType) (v : UInt32) (m : ServiceName)
    (p : ProposalImage) (sfd : Channel) : Int × Channel :=
  let rh := sendPaxosHeader ph t v m sfd
  if rh.1 < 0 then (-1, rh.2)
  else
    let rp := sendProposal p rh.2
    if rp.1 < 0 then (-1, rp.2) else (rh.1 + rp.1, rp.2)

def receivePaxosHeader (sfd : Channel) : Option (PaxosHeader × Channel) :=
  let r := sfd.read (size PaxosHeader)
  if r.1.length = size PaxosHeader then some (ofBytes r.1, r.2) else none

/-- The types whose header is followed by a proposal. -/
def hasProposal (type : UInt32) : Bool :=
  type = PaxosMessageType.phase1Proposal.code ∨ type = PaxosMessageType.phase2Request.code ∨
    type = PaxosMessageType.phase3Commit.code

/-- `PaxosMessage::receive`, where `none` is a negative result. -/
def receive (sfd : Channel) : Option (PaxosMessageImage × Channel) :=
  match receivePaxosHeader sfd with
  | none => none
  | some (header, sfd) =>
      if hasProposal header.type then
        match receiveProposal sfd with
        | none => none
        | some (proposal, sfd) => some (⟨header, some proposal⟩, sfd)
      else some (⟨header, none⟩, sfd)

end QpidRecovery.Wire
