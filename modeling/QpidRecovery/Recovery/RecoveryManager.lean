import QpidRecovery.Recovery.BrokerObject

/-! The recovery manager: the objects collected from all brokers, the brokers
it is connected to, and the copying of a failed broker's objects to another. -/
namespace QpidRecovery

/-- An object as a property event delivers it. -/
inductive CollectedObject (Id : Type) where
  | broker (info : BrokerInfo Id)
  | link (info : LinkInfo Id)
  | exchange (info : ExchangeInfo Id)
  | queue (info : QueueInfo Id)
  | binding (info : BindingInfo Id)
  | bridge (info : BridgeInfo Id)
deriving DecidableEq, Repr

structure RecoveryManager (Id : Type) where
  exchanges : List (ExchangeInfo Id)
  queues : List (QueueInfo Id)
  bindings : List (BindingInfo Id)
  brokers : List (BrokerInfo Id)
  links : List (LinkInfo Id)
  bridges : List (BridgeInfo Id)
  bavec : List BrokerAddress
deriving DecidableEq, Repr

/-- What the broker library and the network answer while objects are copied:
how many broker objects the new broker has, the link objects it lists, and
which hosts `checkFailure` finds unreachable. -/
structure BrokerReply where
  brokerobjects : Nat
  linkobjects : List LinkObject
  unreachable : Text → Bool

/-- What the manager does on brokers, in its order. -/
inductive RecoveryCall where
  /-- The broker objects were listed, and this many were found. -/
  | contact (broker : Text) (brokerobjects : Nat)
  | create (broker : Text) (o : Operation)
  | createBridge (link : LinkObject) (o : Operation)
  | sendLinkDownEvent (src dst : Text)
deriving DecidableEq, Repr

/-- The names starting with `qmf.`, `qmfc-`, `qpid.` or `amq.`. -/
def ignoredPatterns : List Text :=
  [[113, 109, 102, 46], [113, 109, 102, 99, 45], [113, 112, 105, 100, 46], [97, 109, 113, 46]]

def isIgnoredName (str : Text) : Bool :=
  str.length = 0 || 20 ≤ str.length || ignoredPatterns.any fun pattern => pattern.isPrefixOf str

section Store
variable {α Id : Type} [DecidableEq Id]

/-- The first object with the same id and url is replaced; a new one goes to
the end. -/
def putObject (key : α → ObjectInfo Id) (objinfo : α) : List α → List α
  | [] => [objinfo]
  | i :: vec => if key i = key objinfo then objinfo :: vec else i :: putObject key objinfo vec

end Store

namespace RecoveryManager

variable {Id : Type}

def new : RecoveryManager Id := ⟨[], [], [], [], [], [], []⟩

/-- The creation of every exchange and queue stored for a broker. -/
def storedCreations (url : Text) (rm : RecoveryManager Id) : List Operation :=
  (rm.exchanges.filter fun e => e.brokerurl = url).map ExchangeInfo.copyTo ++
    (rm.queues.filter fun q => q.brokerurl = url).map QueueInfo.copyTo

def addBroker (ip : IPString) (port : UInt32) (rm : RecoveryManager Id) : RecoveryManager Id :=
  if ⟨ip, port⟩ ∈ rm.bavec then rm else { rm with bavec := rm.bavec ++ [⟨ip, port⟩] }

def deleteBroker (ip : IPString) (port : UInt32) (rm : RecoveryManager Id) : RecoveryManager Id :=
  { rm with bavec := rm.bavec.erase ⟨ip, port⟩ }

section Objects
variable [DecidableEq Id]

/-- The result is 1 for an ignored object. -/
def addObjectInfo (objinfo : CollectedObject Id) (rm : RecoveryManager Id) :
    RecoveryManager Id × Int :=
  match objinfo with
  | .broker i => ({ rm with brokers := putObject BrokerInfo.toObjectInfo i rm.brokers }, 0)
  | .exchange i =>
      if isIgnoredName i.name then (rm, 1)
      else ({ rm with exchanges := putObject ExchangeInfo.toObjectInfo i rm.exchanges }, 0)
  | .binding i => ({ rm with bindings := putObject BindingInfo.toObjectInfo i rm.bindings }, 0)
  | .queue i =>
      if isIgnoredName i.name then (rm, 1)
      else ({ rm with queues := putObject QueueInfo.toObjectInfo i rm.queues }, 0)
  | .bridge i => ({ rm with bridges := putObject BridgeInfo.toObjectInfo i rm.bridges }, 0)
  | .link i => ({ rm with links := putObject LinkInfo.toObjectInfo i rm.links }, 0)

/-- The bridges from `oldsrc` go to the first link object from `newsrc` with
the same destination, or only those to `olddst` to one with `newdst`. -/
def copyBridges (links : List (LinkInfo Id)) (bridges : List (BridgeInfo Id))
    (linkobjlist : List LinkObject) (oldsrc newsrc : Text) (changedst : Option (Text × Text)) :
    List RecoveryCall :=
  bridges.flatMap fun i =>
    if i.brokerurl ≠ oldsrc then []
    else match links.find? fun l => l.objectid = i.linkid ∧ l.brokerurl = i.brokerurl with
      | none => []
      | some link =>
          let dst := link.getLinkDestUrl
          if changedst.any fun change => change.1 ≠ dst then []
          else match linkobjlist.find? fun j =>
              j.brokerurl = newsrc ∧ linkObjectDest j = (changedst.map Prod.snd).getD dst with
            | none => []
            | some j => [.createBridge j i.copyTo]

/-- `CopyObjectsArgs`: the objects of the failed broker. -/
def copyObjectsArgs (failurl : Text) (rm : RecoveryManager Id) : RecoveryManager Id where
  exchanges := rm.exchanges.filter fun i => i.brokerurl = failurl
  queues := rm.queues.filter fun i => i.brokerurl = failurl
  bindings := rm.bindings.filter fun i => i.brokerurl = failurl
  brokers := rm.brokers.filter fun i => i.brokerurl = failurl
  links := rm.links.filter fun i => i.brokerurl = failurl
  bridges := rm.bridges.filter fun i => i.brokerurl = failurl
  bavec := []

/-- The event reads both urls into a `char[32]` before it is sent. -/
def sendLinkDownEvent (srcurl dsturl : Text) : Option RecoveryCall :=
  (urlToIPPort 32 srcurl).bind fun _ =>
    (urlToIPPort 32 dsturl).map fun _ => .sendLinkDownEvent srcurl dsturl

/-- A link to a host that is down is reported, since no event will come. -/
def copyLink (newurl : Text) (reply : BrokerReply) (j : LinkInfo Id) :
    Option (List RecoveryCall) :=
  (urlToIPPort 64 j.getLinkDestUrl).bind fun dst =>
    if reply.unreachable dst.1.bytes then
      (sendLinkDownEvent newurl j.getLinkDestUrl).map fun event =>
        [event, .create newurl j.copyTo]
    else some [.create newurl j.copyTo]

/-- The calls for the links, up to the first whose host overruns a buffer, and
whether there is none. -/
def copyLinks (newurl : Text) (reply : BrokerReply) : List (LinkInfo Id) → List RecoveryCall × Bool
  | [] => ([], true)
  | j :: links =>
      match copyLink newurl reply j with
      | none => ([], false)
      | some calls =>
          let rest := copyLinks newurl reply links
          (calls ++ rest.1, rest.2)

/-- The calls of the thread and whether it returns. It does so early when the
backup does not show exactly one broker object. -/
def copyObjectsThread (oldurl newurl : Text) (reply : BrokerReply) (coarg : RecoveryManager Id) :
    List RecoveryCall × Bool :=
  if reply.brokerobjects ≠ 1 then ([.contact newurl reply.brokerobjects], true)
  else
    let exchanges := coarg.exchanges.filter fun j => j.brokerurl = oldurl
    let queues := coarg.queues.filter fun j => j.brokerurl = oldurl
    let bindings := coarg.bindings.filterMap fun j =>
      if j.brokerurl ≠ oldurl then none
      else
        let named := j.setBindingNames coarg.exchanges coarg.queues
        if named.2 then some named.1 else none
    let links := copyLinks newurl reply (coarg.links.filter fun j => j.brokerurl = oldurl)
    let calls := .contact newurl 1 ::
      (exchanges.map fun j => .create newurl j.copyTo) ++
      (queues.map fun j => .create newurl j.copyTo) ++
      (bindings.map fun j => .create newurl j.copyTo) ++
      links.1
    if links.2 then
      (calls ++ copyBridges coarg.links coarg.bridges reply.linkobjects oldurl newurl none, true)
    else (calls, false)

/-- The thread that `copyObjects` creates. -/
def copyObjectsCalls (failip : IPString) (failport : UInt32) (backupip : IPString)
    (backupport : UInt32) (reply : BrokerReply) (rm : RecoveryManager Id) :
    List RecoveryCall × Bool :=
  copyObjectsThread (BrokerAddress.getAddress ⟨failip, failport⟩)
    (BrokerAddress.getAddress ⟨backupip, backupport⟩) reply
    (rm.copyObjectsArgs (IPPortToUrl failip failport))

/-- The result is 0 whatever the thread met. -/
def copyObjects (failip : IPString) (failport : UInt32) (backupip : IPString) (backupport : UInt32)
    (reply : BrokerReply) (rm : RecoveryManager Id) : Option (List RecoveryCall × Int) :=
  let thread := rm.copyObjectsCalls failip failport backupip backupport reply
  if thread.2 then some (thread.1, 0) else none

/-- Create the link from `src` to the new destination and move its bridges. -/
def reroute (srcip : IPString) (srcport : UInt32) (oldip : IPString) (oldport : UInt32)
    (newip : IPString) (newport : UInt32) (reply : BrokerReply) (rm : RecoveryManager Id) :
    Option (RecoveryManager Id × List RecoveryCall × Int) :=
  let srcurl := IPPortToUrl srcip srcport
  let newurl := IPPortToUrl newip newport
  let oldurl := IPPortToUrl oldip oldport
  let rm := rm.addBroker srcip srcport
  match rm.links.find? fun l => l.brokerurl = srcurl ∧ l.getLinkDestUrl = oldurl with
  | none => some (rm, [], -1)
  | some link =>
      if ⟨srcip, srcport⟩ ∉ rm.bavec then some (rm, [], -1)
      else if reply.brokerobjects = 0 then none
      else some (rm,
        .contact srcurl reply.brokerobjects ::
          .create srcurl (link.copyToNewDest newip.bytes newport) ::
          copyBridges rm.links rm.bridges reply.linkobjects srcurl srcurl (some (oldurl, newurl)),
        0)

/-- The calls are those of the thread. -/
theorem copyObjects_eq_some {failip backupip : IPString} {failport backupport : UInt32}
    {reply : BrokerReply} {rm : RecoveryManager Id} {calls : List RecoveryCall} {r : Int} :
    rm.copyObjects failip failport backupip backupport reply = some (calls, r) ↔
      rm.copyObjectsCalls failip failport backupip backupport reply = (calls, true) ∧ r = 0 := by
  unfold copyObjects
  dsimp only
  split
  · next hReturned =>
      rw [Option.some.injEq, Prod.mk.injEq, Prod.ext_iff]
      simp [hReturned, eq_comm]
  · next hReturned => simp [Prod.ext_iff, hReturned]

/-- A backup that shows one broker object is told to create every stored
exchange and queue. -/
theorem copyObjects_creates {failip backupip : IPString} {failport backupport : UInt32}
    {reply : BrokerReply} {rm : RecoveryManager Id} {calls : List RecoveryCall} {r : Int}
    (hReply : reply.brokerobjects = 1)
    (h : rm.copyObjects failip failport backupip backupport reply = some (calls, r)) :
    .contact (IPPortToUrl backupip backupport) 1 ∈ calls ∧
      ∀ o ∈ rm.storedCreations (IPPortToUrl failip failport),
        .create (IPPortToUrl backupip backupport) o ∈ calls := by
  have hThread := (copyObjects_eq_some.mp h).1
  simp only [copyObjectsCalls, copyObjectsThread, hReply, ne_eq, not_true_eq_false, if_false]
    at hThread
  split at hThread
  · obtain rfl := (Prod.mk.inj hThread).1
    refine ⟨List.mem_cons_self, ?_⟩
    intro o ho
    rcases List.mem_append.mp ho with hEx | hQu
    · obtain ⟨e, he, rfl⟩ := List.mem_map.mp hEx
      have hKept : e ∈ (rm.copyObjectsArgs (IPPortToUrl failip failport)).exchanges := he
      have hUrl : e.brokerurl = BrokerAddress.getAddress ⟨failip, failport⟩ :=
        of_decide_eq_true (List.mem_filter.mp he).2
      simp only [List.append_assoc, List.cons_append, List.mem_cons, List.mem_append]
      exact .inr (.inl
        (List.mem_map.mpr ⟨e, List.mem_filter.mpr ⟨hKept, decide_eq_true hUrl⟩, rfl⟩))
    · obtain ⟨q, hq, rfl⟩ := List.mem_map.mp hQu
      have hKept : q ∈ (rm.copyObjectsArgs (IPPortToUrl failip failport)).queues := hq
      have hUrl : q.brokerurl = BrokerAddress.getAddress ⟨failip, failport⟩ :=
        of_decide_eq_true (List.mem_filter.mp hq).2
      simp only [List.append_assoc, List.cons_append, List.mem_cons, List.mem_append]
      exact .inr (.inr (.inl
        (List.mem_map.mpr ⟨q, List.mem_filter.mpr ⟨hKept, decide_eq_true hUrl⟩, rfl⟩)))
  · cases hThread

end Objects

end RecoveryManager

end QpidRecovery
