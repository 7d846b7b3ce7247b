import QpidRecovery.Library.KeyedList
import QpidRecovery.Recovery.RecoveryManager

/-! The store of the recovery manager. Property events are applied to six
vectors, one a type of object. Each vector is a map in which the last event of
an id and a url stands. Ids are taken up to the `operator==` of the library. -/
namespace QpidRecovery

inductive ObjectType where
  | broker
  | link
  | exchange
  | queue
  | binding
  | bridge
deriving DecidableEq, Repr

namespace CollectedObject

variable {Id : Type}

/-- The copy constructors. -/
def duplicate : CollectedObject Id → CollectedObject Id
  | .broker i => .broker { objectid := i.objectid, brokerurl := i.brokerurl }
  | .link i => .link
      { objectid := i.objectid, brokerurl := i.brokerurl, host := i.host, port := i.port }
  | .exchange i => .exchange
      { objectid := i.objectid, brokerurl := i.brokerurl, name := i.name, extype := i.extype }
  | .queue i => .queue { objectid := i.objectid, brokerurl := i.brokerurl, name := i.name }
  | .binding i => .binding
      { objectid := i.objectid
        brokerurl := i.brokerurl
        bindingkey := i.bindingkey
        exid := i.exid
        quid := i.quid
        exname := i.exname
        quname := i.quname }
  | .bridge i => .bridge
      { objectid := i.objectid
        brokerurl := i.brokerurl
        linkid := i.linkid
        src := i.src
        dest := i.dest
        routingkey := i.routingkey
        isqueue := i.isqueue
        isdynamic := i.isdynamic }

@[simp] theorem duplicate_eq (o : CollectedObject Id) : o.duplicate = o := by
  cases o <;> rfl

def info : CollectedObject Id → ObjectInfo Id
  | .broker i => i.toObjectInfo
  | .link i => i.toObjectInfo
  | .exchange i => i.toObjectInfo
  | .queue i => i.toObjectInfo
  | .binding i => i.toObjectInfo
  | .bridge i => i.toObjectInfo

end CollectedObject

namespace RecoveryManager

open KeyedList

variable {Id : Type}

section Reports

def broker? : CollectedObject Id → Option (BrokerInfo Id)
  | .broker i => some i
  | _ => none

def exchange? : CollectedObject Id → Option (ExchangeInfo Id)
  | .exchange i => some i
  | _ => none

def queue? : CollectedObject Id → Option (QueueInfo Id)
  | .queue i => some i
  | _ => none

def binding? : CollectedObject Id → Option (BindingInfo Id)
  | .binding i => some i
  | _ => none

def bridge? : CollectedObject Id → Option (BridgeInfo Id)
  | .bridge i => some i
  | _ => none

def link? : CollectedObject Id → Option (LinkInfo Id)
  | .link i => some i
  | _ => none

/-- The exchanges and queues that are kept of those reported. -/
def keptExchange? (o : CollectedObject Id) : Option (ExchangeInfo Id) :=
  (exchange? o).filter fun i => !isIgnoredName i.name

def keptQueue? (o : CollectedObject Id) : Option (QueueInfo Id) :=
  (queue? o).filter fun i => !isIgnoredName i.name

theorem keptExchange?_exchange (e : ExchangeInfo Id) :
    keptExchange? (.exchange e) = if isIgnoredName e.name then none else some e := by
  by_cases hIgnored : isIgnoredName e.name = true
  · simp [keptExchange?, exchange?, hIgnored]
  · simp [keptExchange?, exchange?, hIgnored]

theorem keptQueue?_queue (q : QueueInfo Id) :
    keptQueue? (.queue q) = if isIgnoredName q.name then none else some q := by
  by_cases hIgnored : isIgnoredName q.name = true
  · simp [keptQueue?, queue?, hIgnored]
  · simp [keptQueue?, queue?, hIgnored]

end Reports

end RecoveryManager

namespace ObjectType

open RecoveryManager

variable {Id : Type}

/-- The objects of a type. -/
def Info (Id : Type) : ObjectType → Type
  | broker => BrokerInfo Id
  | link => LinkInfo Id
  | exchange => ExchangeInfo Id
  | queue => QueueInfo Id
  | binding => BindingInfo Id
  | bridge => BridgeInfo Id

/-- What `operator==` compares. -/
def key : (t : ObjectType) → t.Info Id → ObjectInfo Id
  | broker => BrokerInfo.toObjectInfo
  | link => LinkInfo.toObjectInfo
  | exchange => ExchangeInfo.toObjectInfo
  | queue => QueueInfo.toObjectInfo
  | binding => BindingInfo.toObjectInfo
  | bridge => BridgeInfo.toObjectInfo

/-- The vector of a type. -/
def vec : (t : ObjectType) → RecoveryManager Id → List (t.Info Id)
  | broker => brokers
  | link => links
  | exchange => exchanges
  | queue => queues
  | binding => bindings
  | bridge => bridges

/-- The object of an event of the type. -/
def reported : (t : ObjectType) → CollectedObject Id → Option (t.Info Id)
  | broker => broker?
  | link => link?
  | exchange => exchange?
  | queue => queue?
  | binding => binding?
  | bridge => bridge?

/-- The same, unless its name is ignored. -/
def kept : (t : ObjectType) → CollectedObject Id → Option (t.Info Id)
  | broker => broker?
  | link => link?
  | exchange => keptExchange?
  | queue => keptQueue?
  | binding => binding?
  | bridge => bridge?

/-- An object that is of another type is not kept. -/
theorem kept_eq_none {t : ObjectType} {o : CollectedObject Id} (h : t.reported o = none) :
    t.kept o = none := by
  cases t with
  | exchange => exact congrArg (Option.filter _) h
  | queue => exact congrArg (Option.filter _) h
  | broker | link | binding | bridge => exact h

/-- What is kept has the id and the url of its event. -/
theorem key_kept {t : ObjectType} {o : CollectedObject Id} {i : t.Info Id}
    (h : t.kept o = some i) : t.key i = o.info := by
  cases t with
  | exchange =>
      obtain ⟨hReported, _⟩ := Option.filter_eq_some_iff.mp (show keptExchange? o = some i from h)
      cases o <;> cases hReported
      rfl
  | queue =>
      obtain ⟨hReported, _⟩ := Option.filter_eq_some_iff.mp (show keptQueue? o = some i from h)
      cases o <;> cases hReported
      rfl
  | broker | link | binding | bridge =>
      cases o <;> cases h
      rfl

end ObjectType

namespace RecoveryManager

open KeyedList

variable {Id : Type} [DecidableEq Id]

/-- The event of an object. Its copy is stored. -/
def handleEvent (objinfo : CollectedObject Id) (rm : RecoveryManager Id) : RecoveryManager Id :=
  (rm.addObjectInfo objinfo.duplicate).1

def handleEvents (events : List (CollectedObject Id)) (rm : RecoveryManager Id) :
    RecoveryManager Id :=
  events.foldl (fun rm objinfo => rm.handleEvent objinfo) rm

/-- The manager after the events. -/
def collected (events : List (CollectedObject Id)) : RecoveryManager Id :=
  events.foldl (fun rm objinfo => (rm.addObjectInfo objinfo).1) new

/-- The store of a new manager is what the events report. -/
theorem handleEvents_new (events : List (CollectedObject Id)) :
    new.handleEvents events = collected events := by
  simp [handleEvents, handleEvent, collected]

/-- The loop of `addObjectInfo` puts a value under its key. -/
theorem putObject_eq {α : Type} (key : α → ObjectInfo Id) (objinfo : α) (vec : List α) :
    putObject key objinfo vec = KeyedList.put key objinfo vec := by
  induction vec with
  | nil => rfl
  | cons i vec ih => rw [putObject, KeyedList.put, ih]

section Event
variable (t : ObjectType) (rm : RecoveryManager Id)

/-- An event of an exchange changes at most the exchanges. -/
theorem addObjectInfo_exchange (e : ExchangeInfo Id) :
    (rm.addObjectInfo (.exchange e)).1 = { rm with
      exchanges := if isIgnoredName e.name then rm.exchanges
        else putObject ExchangeInfo.toObjectInfo e rm.exchanges } := by
  by_cases hIgnored : isIgnoredName e.name = true
  · simp [addObjectInfo, hIgnored]
  · simp [addObjectInfo, hIgnored]

theorem addObjectInfo_queue (q : QueueInfo Id) :
    (rm.addObjectInfo (.queue q)).1 = { rm with
      queues := if isIgnoredName q.name then rm.queues
        else putObject QueueInfo.toObjectInfo q rm.queues } := by
  by_cases hIgnored : isIgnoredName q.name = true
  · simp [addObjectInfo, hIgnored]
  · simp [addObjectInfo, hIgnored]

/-- An event is put into the vector that keeps it, and leaves all others. -/
theorem vec_addObjectInfo (o : CollectedObject Id) :
    t.vec (rm.addObjectInfo o).1 =
      (t.kept o).elim (t.vec rm) fun i => KeyedList.put t.key i (t.vec rm) := by
  cases o with
  | exchange e =>
      rw [addObjectInfo_exchange]
      cases t with
      | exchange =>
          show (if isIgnoredName e.name then rm.exchanges else putObject _ e rm.exchanges) =
            (keptExchange? (.exchange e)).elim _ _
          rw [keptExchange?_exchange, putObject_eq]
          split
          · rfl
          · rfl
      | broker | link | queue | binding | bridge => rfl
  | queue q =>
      rw [addObjectInfo_queue]
      cases t with
      | queue =>
          show (if isIgnoredName q.name then rm.queues else putObject _ q rm.queues) =
            (keptQueue? (.queue q)).elim _ _
          rw [keptQueue?_queue, putObject_eq]
          split
          · rfl
          · rfl
      | broker | link | exchange | binding | bridge => rfl
  | broker i | link i | binding i | bridge i =>
      cases t
      all_goals first | rfl | exact putObject_eq _ i _

end Event

/-- A vector holds what its events leave. -/
theorem vec_collected (t : ObjectType) (events : List (CollectedObject Id)) :
    t.vec (collected events) = collect t.key (events.filterMap t.kept) := by
  induction events using List.reverseRecOn with
  | nil => cases t <;> rfl
  | append_singleton events o ih =>
      have hLast : collected (events ++ [o]) = ((collected events).addObjectInfo o).1 := by
        rw [collected, List.foldl_append]
        rfl
      rw [hLast, vec_addObjectInfo, List.filterMap_append, ih]
      cases hKept : t.kept o with
      | none => simp [hKept]
      | some i => rw [Option.elim_some, List.filterMap_cons_some hKept, List.filterMap_nil,
          collect_append_singleton]

/-- A vector after the events has one entry for every id and url that was kept.
It is the last one, and stands where the first one was put. -/
structure LastWriterWins (t : ObjectType) (events : List (CollectedObject Id))
    (vec : List (t.Info Id)) : Prop where
  unique : Unique t.key vec
  latest : ∀ i, i ∈ vec ↔ LastOf t.key (events.filterMap t.kept) i
  order : vec.map t.key = ((events.filterMap t.kept).map t.key).eraseDups

/-- The entries of a broker. -/
def entriesOf (t : ObjectType) (url : Text) (rm : RecoveryManager Id) : List (t.Info Id) :=
  (t.vec rm).filter fun i => (t.key i).brokerurl = url

/-- Events of other types leave a vector, and events of other brokers leave the
entries of a broker. -/
structure Separate (t : ObjectType) (rm : RecoveryManager Id) (o : CollectedObject Id) : Prop where
  otherType : t.reported o = none → t.vec (rm.handleEvent o) = t.vec rm
  otherBroker : ∀ url, o.info.brokerurl ≠ url →
    entriesOf t url (rm.handleEvent o) = entriesOf t url rm

/-- Every event leaves the other vectors and brokers alone. -/
theorem separate (t : ObjectType) (rm : RecoveryManager Id) (o : CollectedObject Id) :
    Separate t rm o where
  otherType h := by
    rw [handleEvent, CollectedObject.duplicate_eq, vec_addObjectInfo, ObjectType.kept_eq_none h]
    rfl
  otherBroker url hOther := by
    rw [entriesOf, handleEvent, CollectedObject.duplicate_eq, vec_addObjectInfo]
    cases hKept : t.kept o with
    | none => rfl
    | some i =>
        have hUrl : decide ((t.key i).brokerurl = url) = false := by
          rw [ObjectType.key_kept hKept]
          exact decide_eq_false hOther
        exact filter_put (p := fun k : ObjectInfo Id => decide (k.brokerurl = url)) hUrl

/-- The store is a map in which the last writer wins, and what one type or
broker reports never changes the entries of another. -/
theorem store_lastWriterWins (events : List (CollectedObject Id)) (t : ObjectType) :
    LastWriterWins t events (t.vec (new.handleEvents events)) ∧
      ∀ (rm : RecoveryManager Id) (o : CollectedObject Id), Separate t rm o := by
  constructor
  · rw [handleEvents_new, vec_collected]
    exact {
      unique := unique_collect _
      latest := fun _ => mem_collect
      order := map_collect _ }
  · exact separate t

end RecoveryManager

end QpidRecovery
