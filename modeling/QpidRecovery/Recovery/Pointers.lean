import QpidRecovery.Library.Heap
import QpidRecovery.Library.Transition
import QpidRecovery.Proposer.Process
import QpidRecovery.Recovery.Store

/-! The recovery manager on its heap. The listener's threads make an event for
what the console library reports and write a pointer to it to the pipe, and the
main loop reads the pointers and deletes the events. Reading a cell that was
deleted, deleting one twice and a cast to the wrong class are faults. -/
namespace QpidRecovery.Pointers

open Heap (Pointer)
open RecoveryManager (exchange? queue? binding? bridge? link?)

/-- A string literal of the source. -/
def literal (s : String) : Text := s.toList.map fun c => c.toNat.toUInt8

/-- An object of the console library. -/
structure Object (Id : Type) where
  className : Text
  objectid : Id
  brokerurl : Text
  attrString : Text → Text
  attrUint : Text → UInt32
  attrBool : Text → Bool
  attrRef : Text → Id

def typestring : List (ObjectType × Text) :=
  [(.broker, literal "broker"), (.link, literal "link"), (.exchange, literal "exchange"),
    (.queue, literal "queue"), (.binding, literal "binding"), (.bridge, literal "bridge")]

/-- No type is `OBJ_UNKNOWN`. -/
def objectStringToType (st : Text) : Option ObjectType :=
  (typestring.find? fun entry => entry.2 = st).map Prod.fst

inductive ListenerEventType where
  | brokerDisconnection
  | objectProperty
  | linkDown
deriving DecidableEq, Repr

/-- The fields of an event. -/
inductive ListenerEvent where
  | brokerDisconnection (brokerip : CString 32) (brokerport : UInt32)
  | linkDown (srcip : CString 32) (srcport : UInt32) (dstip : CString 32) (dstport : UInt32)
  | objectProperty (objtype : Option ObjectType) (objinfo : Option Pointer)
deriving DecidableEq, Repr

def ListenerEvent.getType : ListenerEvent → ListenerEventType
  | .brokerDisconnection .. => .brokerDisconnection
  | .linkDown .. => .linkDown
  | .objectProperty .. => .objectProperty

/-- Six vectors of pointers, one a type of object. -/
abbrev Vectors := ObjectType → List Pointer

structure CopyObjectsArgs where
  vecs : Vectors
  failip : IPString
  failport : UInt32
  backupip : IPString
  backupport : UInt32

/-- What `new` makes. The class of an object is its constructor. -/
inductive Cell (Id : Type) where
  | objectInfo (o : CollectedObject Id)
  | listenerEvent (le : ListenerEvent)
  | copyObjectsArgs (coarg : CopyObjectsArgs)

abbrev Memory (Id : Type) := Heap (Cell Id)

/-- Where the main loop is: it has an event to handle, or waits for the thread
that has these arguments. -/
inductive Main where
  | waiting
  | handling (le : Pointer)
  | copying (coarg : Pointer)
deriving DecidableEq, Repr

/-- What happens, in its order. -/
inductive Output (Id : Type) where
  | sent (le : Proposer.ListenerEvent Id)
  | received (le : Proposer.ListenerEvent Id)
  | addObjectInfo (objinfo : CollectedObject Id) (r : Int)
  | newLink (dstip : IPString) (dstport : UInt32)
  | deleted (type : ListenerEventType)
  | recovery (c : RecoveryCall)
  | rerouted (r : Int)
  /-- The thread returns early, with this many copies in its arguments. -/
  | abandoned (objects : Nat)

structure State (Id : Type) where
  heap : Memory Id
  vecs : Vectors
  eventpipe : List Pointer
  main : Main
  trace : List (Output Id)

variable {Id : Type}

def State.init : State Id where
  heap := .empty
  vecs := fun _ => []
  eventpipe := []
  main := .waiting
  trace := []

def State.log (new : List (Output Id)) (s : State Id) : State Id :=
  { s with trace := s.trace ++ new }

section Access

def objectAt (p : Pointer) (h : Memory Id) : Option (CollectedObject Id) :=
  match h.read p with
  | some (.objectInfo o) => some o
  | _ => none

def eventAt (p : Pointer) (h : Memory Id) : Option ListenerEvent :=
  match h.read p with
  | some (.listenerEvent le) => some le
  | _ => none

def argsAt (p : Pointer) (h : Memory Id) : Option CopyObjectsArgs :=
  match h.read p with
  | some (.copyObjectsArgs coarg) => some coarg
  | _ => none

/-- Read through a pointer that is cast to a class. -/
def castAt {α : Type} (cast : CollectedObject Id → Option α) (p : Pointer) (h : Memory Id) :
    Option α :=
  (objectAt p h).bind cast

end Access

section Listener

def Object.info (obj : Object Id) : ObjectInfo Id := ⟨obj.objectid, obj.brokerurl⟩

/-- The constructor of a type of object. -/
def Object.construct (obj : Object Id) : ObjectType → CollectedObject Id
  | .broker => .broker ⟨obj.info⟩
  | .link => .link
      { obj.info with
        host := obj.attrString (literal "host")
        port := obj.attrUint (literal "port") }
  | .exchange => .exchange
      { obj.info with
        name := obj.attrString (literal "name")
        extype := obj.attrString (literal "type") }
  | .queue => .queue { obj.info with name := obj.attrString (literal "name") }
  | .binding => .binding
      { obj.info with
        bindingkey := obj.attrString (literal "bindingKey")
        exid := obj.attrRef (literal "exchangeRef")
        quid := obj.attrRef (literal "queueRef")
        exname := []
        quname := [] }
  | .bridge => .bridge
      { obj.info with
        linkid := obj.attrRef (literal "linkRef")
        src := obj.attrString (literal "src")
        dest := obj.attrString (literal "dest")
        routingkey := obj.attrString (literal "key")
        isqueue := obj.attrBool (literal "srcIsQueue")
        isdynamic := obj.attrBool (literal "dynamic") }

def newObjectInfoByType (obj : Object Id) (t : Option ObjectType) (h : Memory Id) :
    Option Pointer × Memory Id :=
  match t with
  | some t =>
      let made := h.alloc (.objectInfo (obj.construct t))
      (some made.1, made.2)
  | none => (none, h)

/-- A new event and the write of its pointer. The read end stays open, so the
write does not fail. -/
def sendEventPtr (event : ListenerEvent) (le : Proposer.ListenerEvent Id) (s : State Id) :
    State Id :=
  let made := s.heap.alloc (.listenerEvent event)
  { s with heap := made.2, eventpipe := s.eventpipe ++ [made.1] }.log [.sent le]

/-- An object of an unknown class has no `objinfo`, and its event is deleted
at once. -/
def objectProps (object : Object Id) (s : State Id) : Option (State Id) :=
  let objtype := objectStringToType object.className
  let objinfo := newObjectInfoByType object objtype s.heap
  let s := { s with heap := objinfo.2 }
  match objtype, objinfo.1 with
  | some t, some p =>
      some (sendEventPtr (.objectProperty objtype (some p))
        (.objectProperty (object.construct t)) s)
  | _, _ =>
      let made := s.heap.alloc (.listenerEvent (.objectProperty objtype none))
      (made.2.free made.1).map fun h => { s with heap := h }

def brokerDisconnected (url : Text) (s : State Id) : Option (State Id) :=
  (urlToIPPort 32 url).map fun broker =>
    sendEventPtr (.brokerDisconnection broker.1 broker.2) (.brokerDisconnection broker.1 broker.2) s

def sendLinkDownEvent (srcurl dsturl : Text) (s : State Id) : Option (State Id) :=
  (urlToIPPort 32 srcurl).bind fun src =>
    (urlToIPPort 32 dsturl).map fun dst =>
      sendEventPtr (.linkDown src.1 src.2 dst.1 dst.2) (.linkDown src.1 src.2 dst.1 dst.2) s

/-- Of the events of a broker only a lost link is passed on. -/
def event (classname brokerurl rhost : Text) (s : State Id) : Option (State Id) :=
  if classname = literal "brokerLinkDown" then sendLinkDownEvent brokerurl rhost s else some s

end Listener

section Store
variable [DecidableEq Id]

/-- The loop over the vector that `addObjectInfo` selects. -/
def storeObject (objinfo : Pointer) : List Pointer → Memory Id →
    Option (List Pointer × Memory Id)
  | [], h => some ([objinfo], h)
  | i :: vec, h =>
      (objectAt i h).bind fun old =>
        (objectAt objinfo h).bind fun new =>
          if old.info = new.info then (h.free i).map fun h => (objinfo :: vec, h)
          else (storeObject objinfo vec h).map fun rest => (i :: rest.1, rest.2)

/-- Exchanges and queues are ignored by their names. -/
def ignored (objinfo : Pointer) (objtype : ObjectType) (h : Memory Id) : Option Bool :=
  match objtype with
  | .exchange => (castAt exchange? objinfo h).map fun e => isIgnoredName e.name
  | .queue => (castAt queue? objinfo h).map fun q => isIgnoredName q.name
  | _ => some false

/-- An object that is ignored is neither stored nor deleted. -/
def addObjectInfo (objinfo : Pointer) (objtype : Option ObjectType) (s : State Id) :
    Option (State Id × Int) :=
  match objtype with
  | none => some (s, 1)
  | some t =>
      (ignored objinfo t s.heap).bind fun skip =>
        if skip then some (s, 1)
        else (storeObject objinfo (s.vecs t) s.heap).map fun stored =>
          ({ s with heap := stored.2, vecs := Function.update s.vecs t stored.1 }, 0)

/-- The copy of the object is stored. The event keeps its own. -/
def handleEvent (s : State Id) : Option (State Id) :=
  match s.main, s.eventpipe with
  | .waiting, le :: rest =>
      let s := { s with eventpipe := rest, main := .handling le }
      (eventAt le s.heap).bind fun event =>
        match event with
        | .objectProperty objtype objinfo =>
            (objinfo.bind fun p => objectAt p s.heap).bind fun o =>
              let made := s.heap.alloc (.objectInfo o.duplicate)
              (addObjectInfo made.1 objtype { s with heap := made.2 }).map fun added =>
                added.1.log [.received (.objectProperty o), .addObjectInfo o added.2]
        | .brokerDisconnection brokerip brokerport =>
            some (s.log [.received (.brokerDisconnection brokerip brokerport)])
        | .linkDown srcip srcport dstip dstport =>
            some (s.log [.received (.linkDown srcip srcport dstip dstport)])
  | _, _ => none

/-- The event as the main loop uses it: `deleteBroker` copies the address of a
broker into a `BrokerAddress`, and the destination of a new link is read from its
object. -/
def useEvent (event : ListenerEvent) (s : State Id) : Option (State Id) :=
  match event with
  | .brokerDisconnection brokerip _ => (brokerip.copyTo IP_LENGTH).map fun _ => s
  | .objectProperty (some .link) objinfo =>
      (objinfo.bind fun p => castAt link? p s.heap).bind fun linkinfo =>
        (urlToIPPort IP_LENGTH linkinfo.getLinkDestUrl).map fun dst =>
          s.log [.newLink dst.1 dst.2]
  | _ => some s

/-- The event is deleted as a `ListenerEvent`. That class has no virtual
destructor, so the object of a property event is not deleted with it. -/
def deleteEvent (s : State Id) : Option (State Id) :=
  match s.main with
  | .handling le =>
      (eventAt le s.heap).bind fun event =>
        (useEvent event s).bind fun s =>
          (s.heap.free le).map fun h =>
            { s with heap := h, main := .waiting }.log [.deleted event.getType]
  | _ => none

end Store

/-- The order in which the vectors of the arguments are filled and deleted. -/
def vecOrder : List ObjectType := [.exchange, .queue, .binding, .broker, .link, .bridge]

section Search
variable [DecidableEq Id]

/-- The first object with an id and a url. -/
def search (url : Text) (oid : Id) (objs : List Pointer) (h : Memory Id) :
    Option (Option Pointer) :=
  objs.findM? fun p => (objectAt p h).map fun o => o.info.objectid = oid ∧ o.info.brokerurl = url

/-- The name behind an id, if the search found one. -/
def nameOf {α : Type} (cast : CollectedObject Id → Option α) (name : α → Text)
    (found : Option Pointer) (kept : Text) (h : Memory Id) : Option Text :=
  match found with
  | some p => (castAt cast p h).map name
  | none => some kept

/-- The names are written into the binding, one of them even if the other is
not found. -/
def setBindingNames (j : Pointer) (exvec quvec : List Pointer) (h : Memory Id) :
    Option (Bool × Memory Id) :=
  (castAt binding? j h).bind fun b =>
    (search b.brokerurl b.exid exvec h).bind fun ex =>
      (nameOf exchange? ExchangeInfo.name ex b.exname h).bind fun exname =>
        (search b.brokerurl b.quid quvec h).bind fun qu =>
          (nameOf queue? QueueInfo.name qu b.quname h).bind fun quname =>
            (h.write j (.objectInfo (.binding { b with exname := exname, quname := quname }))).map
              fun h => (ex.isSome && qu.isSome, h)

/-- The body of the loop over the bridges. -/
def copyBridge (links : List Pointer) (linkobjlist : List LinkObject) (oldsrc newsrc : Text)
    (changedst : Option (Text × Text)) (h : Memory Id) (i : Pointer) :
    Option (List RecoveryCall) :=
  (objectAt i h).bind fun o =>
    if o.info.brokerurl ≠ oldsrc then some []
    else
      (castAt bridge? i h).bind fun b =>
        (search b.brokerurl b.linkid links h).bind fun found =>
          match found with
          | none => some []
          | some j => (castAt link? j h).map fun link =>
              let dst := link.getLinkDestUrl
              if changedst.any fun change => change.1 ≠ dst then []
              else ((linkobjlist.find? fun j =>
                  j.brokerurl = newsrc ∧
                    linkObjectDest j = (changedst.map Prod.snd).getD dst).map fun j =>
                RecoveryCall.createBridge j b.copyTo).toList

def copyBridges (links bridges : List Pointer) (linkobjlist : List LinkObject)
    (oldsrc newsrc : Text) (changedst : Option (Text × Text)) (h : Memory Id) :
    Option (List RecoveryCall) :=
  (bridges.mapM (copyBridge links linkobjlist oldsrc newsrc changedst h)).map List.flatten

end Search

section CopyObjects

/-- `copyVec` of the arguments. -/
def copyVec (url : Text) : List Pointer → Memory Id → Option (List Pointer × Memory Id)
  | [], h => some ([], h)
  | i :: vec, h =>
      (objectAt i h).bind fun o =>
        if url ≠ o.info.brokerurl then copyVec url vec h
        else
          let made := h.alloc (.objectInfo o.duplicate)
          (copyVec url vec made.2).map fun rest => (made.1 :: rest.1, rest.2)

def copyVecs (url : Text) (vecs : Vectors) : List ObjectType → Memory Id →
    Option (Vectors × Memory Id)
  | [], h => some (fun _ => [], h)
  | t :: types, h =>
      (copyVec url (vecs t) h).bind fun copied =>
        (copyVecs url vecs types copied.2).map fun rest =>
          (Function.update rest.1 t copied.1, rest.2)

/-- The main loop makes the arguments and waits for the thread. -/
def copyObjects (failip : IPString) (failport : UInt32) (backupip : IPString) (backupport : UInt32)
    (s : State Id) : Option (State Id) :=
  match s.main with
  | .waiting =>
      (copyVecs (IPPortToUrl failip failport) s.vecs vecOrder s.heap).map fun copied =>
        let made := copied.2.alloc
          (.copyObjectsArgs ⟨copied.1, failip, failport, backupip, backupport⟩)
        { s with heap := made.2, main := .copying made.1 }
  | _ => none

/-- The destructor of the arguments and their own deletion. -/
def deleteArgs (coarg : Pointer) (h : Memory Id) : Option (Memory Id) :=
  (argsAt coarg h).bind fun args =>
    (h.freeAll (vecOrder.flatMap args.vecs)).bind fun h => h.free coarg

/-- The virtual `copyTo` with a broker object. That of a broker does nothing. -/
def copyTo (newurl : Text) : CollectedObject Id → List RecoveryCall
  | .broker _ => []
  | .link l => [.create newurl l.copyTo]
  | .exchange e => [.create newurl e.copyTo]
  | .queue q => [.create newurl q.copyTo]
  | .binding b => [.create newurl b.copyTo]
  | .bridge b => [.create newurl b.copyTo]

variable [DecidableEq Id]

/-- The body of the loop over the objects of a type. -/
def copyObject (args : CopyObjectsArgs) (newurl : Text) (reply : BrokerReply) (t : ObjectType)
    (j : Pointer) (s : State Id) : Option (State Id) :=
  match t with
  | .binding =>
      (setBindingNames j (args.vecs .exchange) (args.vecs .queue) s.heap).bind fun named =>
        let s := { s with heap := named.2 }
        if named.1 then (objectAt j s.heap).map fun o => s.log ((copyTo newurl o).map .recovery)
        else some s
  | .link =>
      (castAt link? j s.heap).bind fun l =>
        (urlToIPPort 64 l.getLinkDestUrl).bind fun dst =>
          let reported :=
            if reply.unreachable dst.1.bytes then
              (sendLinkDownEvent newurl l.getLinkDestUrl s).map fun s =>
                s.log [.recovery (.sendLinkDownEvent newurl l.getLinkDestUrl)]
            else some s
          reported.bind fun s =>
            (objectAt j s.heap).map fun o => s.log ((copyTo newurl o).map .recovery)
  | _ => (objectAt j s.heap).map fun o => s.log ((copyTo newurl o).map .recovery)

def copyEach (args : CopyObjectsArgs) (oldurl newurl : Text) (reply : BrokerReply)
    (t : ObjectType) : List Pointer → State Id → Option (State Id)
  | [], s => some s
  | j :: vec, s =>
      (objectAt j s.heap).bind fun o =>
        (if oldurl ≠ o.info.brokerurl then some s
          else copyObject args newurl reply t j s).bind fun s =>
            copyEach args oldurl newurl reply t vec s

/-- The types in the order in which the thread copies their objects. -/
def copyOrder : List ObjectType := [.exchange, .queue, .binding, .link]

/-- The thread deletes its arguments unless it returns early. -/
def copyObjectsThread (reply : BrokerReply) (s : State Id) : Option (State Id) :=
  match s.main with
  | .copying coarg =>
      (argsAt coarg s.heap).bind fun args =>
        let oldurl := BrokerAddress.getAddress ⟨args.failip, args.failport⟩
        let newurl := BrokerAddress.getAddress ⟨args.backupip, args.backupport⟩
        let s := s.log [.recovery (.contact newurl reply.brokerobjects)]
        if reply.brokerobjects ≠ 1 then
          some ({ s with main := .waiting }.log [.abandoned (vecOrder.flatMap args.vecs).length])
        else
          (copyOrder.foldlM (fun s t => copyEach args oldurl newurl reply t (args.vecs t) s) s).bind
            fun s =>
              (copyBridges (args.vecs .link) (args.vecs .bridge) reply.linkobjects oldurl newurl
                none s.heap).bind fun calls =>
                  (deleteArgs coarg s.heap).map fun h =>
                    { s with heap := h, main := .waiting }.log (calls.map .recovery)
  | _ => none

/-- The links of the source are read in their order. The new link is made
before the bridges are moved to it. -/
def reroute (srcip : IPString) (srcport : UInt32) (oldip : IPString) (oldport : UInt32)
    (newip : IPString) (newport : UInt32) (reply : BrokerReply) (s : State Id) :
    Option (State Id) :=
  match s.main with
  | .waiting =>
      let srcurl := IPPortToUrl srcip srcport
      let newurl := IPPortToUrl newip newport
      let oldurl := IPPortToUrl oldip oldport
      ((s.vecs .link).findM? fun p => (castAt link? p s.heap).map fun l =>
        l.brokerurl = srcurl ∧ l.getLinkDestUrl = oldurl).bind fun linkiter =>
          match linkiter with
          | none => some (s.log [.rerouted (-1)])
          | some p =>
              (castAt link? p s.heap).bind fun link =>
                if reply.brokerobjects = 0 then none
                else
                  (copyBridges (s.vecs .link) (s.vecs .bridge) reply.linkobjects srcurl srcurl
                    (some (oldurl, newurl)) s.heap).map fun calls =>
                      s.log ((RecoveryCall.contact srcurl reply.brokerobjects ::
                        .create srcurl (link.copyToNewDest newip.bytes newport) ::
                          calls).map .recovery ++ [.rerouted 0])
  | _ => none

end CopyObjects

/-- The steps of the listener's threads, of the main loop and of the thread it
waits for. -/
inductive Action (Id : Type) where
  | objectProps (object : Object Id)
  | brokerDisconnected (url : Text)
  | event (classname brokerurl rhost : Text)
  | handleEvent
  | deleteEvent
  | copyObjects (failip : IPString) (failport : UInt32) (backupip : IPString) (backupport : UInt32)
  | copyObjectsThread (reply : BrokerReply)
  | reroute (srcip : IPString) (srcport : UInt32) (oldip : IPString) (oldport : UInt32)
      (newip : IPString) (newport : UInt32) (reply : BrokerReply)

section Step
variable [DecidableEq Id]

/-- A fault yields no state. -/
def step (s : State Id) : Action Id → Option (State Id)
  | .objectProps object => objectProps object s
  | .brokerDisconnected url => brokerDisconnected url s
  | .event classname brokerurl rhost => event classname brokerurl rhost s
  | .handleEvent => handleEvent s
  | .deleteEvent => deleteEvent s
  | .copyObjects failip failport backupip backupport =>
      copyObjects failip failport backupip backupport s
  | .copyObjectsThread reply => copyObjectsThread reply s
  | .reroute srcip srcport oldip oldport newip newport reply =>
      reroute srcip srcport oldip oldport newip newport reply s

end Step

/-- The steps for which their thread is ready. The main loop waits for an event
to be written and for the thread to return. -/
def enabled (s : State Id) : Action Id → Prop
  | .objectProps _ | .brokerDisconnected _ | .event _ _ _ => True
  | .handleEvent => s.main = .waiting ∧ s.eventpipe ≠ []
  | .deleteEvent => ∃ le, s.main = .handling le
  | .copyObjects _ _ _ _ | .reroute _ _ _ _ _ _ _ => s.main = .waiting
  | .copyObjectsThread _ => ∃ coarg, s.main = .copying coarg

end QpidRecovery.Pointers
