import QpidRecovery.Library.KeyedList
import QpidRecovery.Library.Trace
import QpidRecovery.Recovery.RecoveryManager
import QpidRecovery.Recovery.Urls

/-! What `copyObjects` does on the backup's broker object: the failed broker's
exchanges, queues, bindings and links, in this order. -/
namespace QpidRecovery.RecoveryManager

open KeyedList Trace

variable {Id : Type}

/-- The operations issued on the broker object of a broker. -/
def operationsOn (broker : Text) (calls : List RecoveryCall) : List Operation :=
  calls.filterMap fun
    | .create b o => if b = broker then some o else none
    | _ => none

/-- No two objects of a kind have the same id and url. -/
structure UniqueKeys (rm : RecoveryManager Id) : Prop where
  exchanges : Unique ExchangeInfo.toObjectInfo rm.exchanges
  queues : Unique QueueInfo.toObjectInfo rm.queues
  bindings : Unique BindingInfo.toObjectInfo rm.bindings
  links : Unique LinkInfo.toObjectInfo rm.links

/-- What the two ids of a binding denote on its broker. -/
structure Refers (rm : RecoveryManager Id) (b : BindingInfo Id) (e : ExchangeInfo Id)
    (q : QueueInfo Id) : Prop where
  exchange : e ∈ rm.exchanges
  exid : e.objectid = b.exid
  exurl : e.brokerurl = b.brokerurl
  queue : q ∈ rm.queues
  quid : q.objectid = b.quid
  quurl : q.brokerurl = b.brokerurl

section Spec
variable [DecidableEq Id]

/-- Whether both ends of a binding are stored for its broker. -/
def resolves (rm : RecoveryManager Id) (b : BindingInfo Id) : Bool :=
  (rm.exchanges.any fun e => e.objectid = b.exid ∧ e.brokerurl = b.brokerurl) &&
    rm.queues.any fun q => q.objectid = b.quid ∧ q.brokerurl = b.brokerurl

end Spec

/-- The host of a link fits the buffer of the thread, and that of the event if
the link is reported down. -/
structure LinkFits (reply : BrokerReply) (l : LinkInfo Id) : Prop where
  dstip : (hostOf l.getLinkDestUrl).length < 64
  event : reply.unreachable ((hostOf l.getLinkDestUrl).takeWhile (· ≠ 0)) = true →
    (hostOf l.getLinkDestUrl).length < 32

section Lists
variable {α β : Type}

/-- What is matched with a member of the second list. -/
theorem exists_of_forall₂ {R : α → β → Prop} {l : List α} {m : List β} (h : List.Forall₂ R l m)
    {b : β} (hb : b ∈ m) : ∃ a ∈ l, R a b := by
  induction h with
  | nil => cases hb
  | @cons a c l m hR _ ih =>
      rcases List.mem_cons.mp hb with rfl | hb
      · exact ⟨a, List.mem_cons_self, hR⟩
      · obtain ⟨a', ha', hR'⟩ := ih hb
        exact ⟨a', List.mem_cons_of_mem _ ha', hR'⟩

/-- Keeping what passes a check and mapping what has an image are one list. -/
theorem forall₂_filterMap {R : α → β → Prop} {p : α → Bool} {f : α → Option β} {l : List α}
    (hSome : ∀ a ∈ l, p a = true → ∃ b, f a = some b ∧ R a b)
    (hNone : ∀ a ∈ l, p a = false → f a = none) :
    List.Forall₂ R (l.filter p) (l.filterMap f) := by
  induction l with
  | nil => exact .nil
  | cons a l ih =>
      have hRest := ih (fun b hb => hSome b (List.mem_cons_of_mem _ hb))
        fun b hb => hNone b (List.mem_cons_of_mem _ hb)
      cases hp : p a with
      | false =>
          rw [List.filter_cons_of_neg (by simp [hp]), List.filterMap_cons_none
            (hNone a List.mem_cons_self hp)]
          exact hRest
      | true =>
          obtain ⟨b, hb, hR⟩ := hSome a List.mem_cons_self hp
          rw [List.filter_cons_of_pos hp, List.filterMap_cons_some hb]
          exact .cons hR hRest

/-- The one value that passes is found among those kept. -/
theorem find?_filter_unique {p kept : α → Bool} {l : List α} {a : α} (ha : a ∈ l)
    (hp : p a = true) (hKept : kept a = true) (hUnique : ∀ c ∈ l, p c = true → c = a) :
    (l.filter kept).find? p = some a := by
  have hSome : ((l.filter kept).find? p).isSome :=
    List.find?_isSome.mpr ⟨a, List.mem_filter.mpr ⟨ha, hKept⟩, hp⟩
  obtain ⟨c, hc⟩ := Option.isSome_iff_exists.mp hSome
  rw [hc, hUnique c (List.mem_filter.mp (List.mem_of_find?_eq_some hc)).1 (List.find?_some hc)]

end Lists

section OperationsOn
variable (url : Text)

@[simp] theorem operationsOn_append (calls more : List RecoveryCall) :
    operationsOn url (calls ++ more) = operationsOn url calls ++ operationsOn url more :=
  List.filterMap_append

theorem operationsOn_create {α : Type} (f : α → Operation) (l : List α) :
    operationsOn url (l.map fun j => .create url (f j)) = l.map f := by
  rw [operationsOn, List.filterMap_map, ← List.filterMap_eq_map]
  congr 1
  funext j
  simp

/-- Bridges are created on link objects. -/
theorem operationsOn_copyBridges [DecidableEq Id] (links : List (LinkInfo Id))
    (bridges : List (BridgeInfo Id)) (linkobjlist : List LinkObject) (oldsrc newsrc : Text)
    (changedst : Option (Text × Text)) :
    operationsOn url (copyBridges links bridges linkobjlist oldsrc newsrc changedst) = [] := by
  rw [operationsOn, List.filterMap_eq_nil_iff]
  intro call hCall
  obtain ⟨i, _, hBridge⟩ := List.mem_flatMap.mp hCall
  split at hBridge
  · cases hBridge
  · split at hBridge
    · cases hBridge
    · dsimp only at hBridge
      split at hBridge
      · cases hBridge
      · split at hBridge
        · cases hBridge
        · rw [List.mem_singleton.mp hBridge]

end OperationsOn

section Links
variable {reply : BrokerReply} {url : Text} {l : LinkInfo Id} {links : List (LinkInfo Id)}

/-- A link is created, after an event if its end is down. -/
theorem copyLink_calls {calls : List RecoveryCall} (h : copyLink url reply l = some calls) :
    calls = [.create url l.copyTo] ∨
      calls = [.sendLinkDownEvent url l.getLinkDestUrl, .create url l.copyTo] := by
  obtain ⟨dst, _, h⟩ := Option.bind_eq_some_iff.mp h
  split at h
  · obtain ⟨event, hEvent, rfl⟩ := Option.map_eq_some_iff.mp h
    obtain ⟨src, _, hEvent⟩ := Option.bind_eq_some_iff.mp hEvent
    obtain ⟨_, _, rfl⟩ := Option.map_eq_some_iff.mp hEvent
    exact .inr rfl
  · cases h
    exact .inl rfl

/-- What is created for the links before a fault, if there is one. -/
theorem operationsOn_copyLinks :
    operationsOn url (copyLinks url reply links).1 <+: links.map LinkInfo.copyTo ∧
      ((copyLinks url reply links).2 = true →
        operationsOn url (copyLinks url reply links).1 = links.map LinkInfo.copyTo) := by
  induction links with
  | nil => exact ⟨List.nil_prefix, fun _ => rfl⟩
  | cons l links ih =>
      cases hLink : copyLink url reply l with
      | none =>
          rw [copyLinks, hLink]
          exact ⟨List.nil_prefix, fun h => by cases h⟩
      | some calls =>
          have hOne : operationsOn url calls = [l.copyTo] := by
            rcases copyLink_calls hLink with rfl | rfl
            · simp [operationsOn]
            · simp [operationsOn]
          simp only [copyLinks, hLink, operationsOn_append, hOne, List.map_cons,
            List.singleton_append]
          exact ⟨(List.prefix_cons_inj _).mpr ih.1, fun h => by rw [ih.2 h]⟩

end Links

section Names
variable {rm : RecoveryManager Id} {b : BindingInfo Id} {e : ExchangeInfo Id} {q : QueueInfo Id}

theorem Refers.unique (hKeys : rm.UniqueKeys) (h : Refers rm b e q) {e' : ExchangeInfo Id}
    {q' : QueueInfo Id} (h' : Refers rm b e' q') : e' = e ∧ q' = q := by
  constructor
  · apply hKeys.exchanges.eq_of_key h'.exchange h.exchange
    rw [ObjectInfo.mk.injEq, h'.exid, h.exid, h'.exurl, h.exurl]
    exact ⟨rfl, rfl⟩
  · apply hKeys.queues.eq_of_key h'.queue h.queue
    rw [ObjectInfo.mk.injEq, h'.quid, h.quid, h'.quurl, h.quurl]
    exact ⟨rfl, rfl⟩

variable [DecidableEq Id]

theorem resolves_iff : rm.resolves b = true ↔ ∃ e q, Refers rm b e q := by
  simp only [resolves, Bool.and_eq_true, List.any_eq_true, decide_eq_true_eq]
  constructor
  · rintro ⟨⟨e, he, hExid, hExurl⟩, q, hq, hQuid, hQuurl⟩
    exact ⟨e, q, he, hExid, hExurl, hq, hQuid, hQuurl⟩
  · rintro ⟨e, q, h⟩
    exact ⟨⟨e, h.exchange, h.exid, h.exurl⟩, q, h.queue, h.quid, h.quurl⟩

/-- The search finds what the ids denote. -/
theorem setBindingNames_of_refers (hKeys : rm.UniqueKeys) (h : Refers rm b e q) :
    b.setBindingNames (rm.exchanges.filter fun e => e.brokerurl = b.brokerurl)
        (rm.queues.filter fun q => q.brokerurl = b.brokerurl) =
      ({ b with exname := e.name, quname := q.name }, true) := by
  have hExchange : (rm.exchanges.filter fun e => e.brokerurl = b.brokerurl).find?
      (fun e => e.objectid = b.exid ∧ e.brokerurl = b.brokerurl) = some e := by
    apply find?_filter_unique h.exchange
    · simp [h.exid, h.exurl]
    · simp [h.exurl]
    · intro e' he' hFound
      obtain ⟨hId, hUrl⟩ := of_decide_eq_true hFound
      exact (h.unique hKeys ⟨he', hId, hUrl, h.queue, h.quid, h.quurl⟩).1
  have hQueue : (rm.queues.filter fun q => q.brokerurl = b.brokerurl).find?
      (fun q => q.objectid = b.quid ∧ q.brokerurl = b.brokerurl) = some q := by
    apply find?_filter_unique h.queue
    · simp [h.quid, h.quurl]
    · simp [h.quurl]
    · intro q' hq' hFound
      obtain ⟨hId, hUrl⟩ := of_decide_eq_true hFound
      exact (h.unique hKeys ⟨h.exchange, h.exid, h.exurl, hq', hId, hUrl⟩).2
  rw [BindingInfo.setBindingNames, hExchange, hQueue]
  rfl

theorem setBindingNames_of_not_resolves (h : rm.resolves b = false) :
    (b.setBindingNames (rm.exchanges.filter fun e => e.brokerurl = b.brokerurl)
        (rm.queues.filter fun q => q.brokerurl = b.brokerurl)).2 = false := by
  rw [Bool.eq_false_iff]
  intro hNamed
  simp only [BindingInfo.setBindingNames, Bool.and_eq_true, List.find?_isSome, List.mem_filter,
    decide_eq_true_eq] at hNamed
  obtain ⟨⟨e, ⟨he, _⟩, hExid, hExurl⟩, q, ⟨hq, _⟩, hQuid, hQuurl⟩ := hNamed
  rw [resolves_iff.mpr ⟨e, q, he, hExid, hExurl, hq, hQuid, hQuurl⟩] at h
  cases h

end Names

section CopyObjects
variable [DecidableEq Id] {failip backupip : IPString} {failport backupport : UInt32}
  {reply : BrokerReply} {rm : RecoveryManager Id}

/-- The bindings that are created, under the names their ids denote. -/
theorem bindings_named (url : Text) (hKeys : rm.UniqueKeys) :
    List.Forall₂ (fun b o => ∃ e q, Refers rm b e q ∧ o = .addBinding b.bindingkey e.name q.name ∧
        ∀ e' q', Refers rm b e' q' → e' = e ∧ q' = q)
      (rm.bindings.filter fun b => b.brokerurl = url ∧ rm.resolves b)
      (((rm.bindings.filter fun b => b.brokerurl = url).filterMap fun j =>
        if j.brokerurl ≠ url then none
        else
          let named := j.setBindingNames (rm.exchanges.filter fun e => e.brokerurl = url)
            (rm.queues.filter fun q => q.brokerurl = url)
          if named.2 then some named.1 else none).map BindingInfo.copyTo) := by
  have hTwice : (rm.bindings.filter fun b => b.brokerurl = url ∧ rm.resolves b) =
      (rm.bindings.filter fun b => b.brokerurl = url).filter rm.resolves := by
    rw [List.filter_filter]
    congr 1
    funext b
    rw [Bool.decide_and, Bool.and_comm, Bool.decide_eq_true]
  rw [List.map_filterMap, hTwice]
  apply forall₂_filterMap
  · intro b hb hResolves
    obtain rfl := of_decide_eq_true (List.mem_filter.mp hb).2
    obtain ⟨e, q, hRefers⟩ := resolves_iff.mp hResolves
    refine ⟨.addBinding b.bindingkey e.name q.name, ?_, e, q, hRefers, rfl,
      fun e' q' h' => hRefers.unique hKeys h'⟩
    simp [setBindingNames_of_refers hKeys hRefers, BindingInfo.copyTo]
  · intro b hb hResolves
    obtain rfl := of_decide_eq_true (List.mem_filter.mp hb).2
    simp [setBindingNames_of_not_resolves hResolves]

/-- What the thread does when it finds the backup's broker object. -/
theorem copyObjectsCalls_eq (hReply : reply.brokerobjects = 1) :
    rm.copyObjectsCalls failip failport backupip backupport reply =
      let oldurl := IPPortToUrl failip failport
      let newurl := IPPortToUrl backupip backupport
      let links := copyLinks newurl reply (rm.links.filter fun l => l.brokerurl = oldurl)
      let calls := .contact newurl 1 ::
        ((rm.exchanges.filter fun e => e.brokerurl = oldurl).map
          fun j => .create newurl j.copyTo) ++
        ((rm.queues.filter fun q => q.brokerurl = oldurl).map fun j => .create newurl j.copyTo) ++
        (((rm.bindings.filter fun b => b.brokerurl = oldurl).filterMap fun j =>
          if j.brokerurl ≠ oldurl then none
          else
            let named := j.setBindingNames (rm.exchanges.filter fun e => e.brokerurl = oldurl)
              (rm.queues.filter fun q => q.brokerurl = oldurl)
            if named.2 then some named.1 else none).map fun j => .create newurl j.copyTo) ++
        links.1
      if links.2 then
        (calls ++ copyBridges (rm.links.filter fun l => l.brokerurl = oldurl)
          (rm.bridges.filter fun i => i.brokerurl = oldurl) reply.linkobjects oldurl newurl none,
          true)
      else (calls, false) := by
  have hUrl : ∀ (ip : IPString) (port : UInt32),
      BrokerAddress.getAddress ⟨ip, port⟩ = IPPortToUrl ip port := fun _ _ => rfl
  simp only [copyObjectsCalls, copyObjectsThread, copyObjectsArgs, hUrl, hReply, ne_eq,
    not_true_eq_false, if_false, List.filter_filter, Bool.and_self]
  rfl

/-- What the thread creates on the backup, whether or not it returns. -/
theorem operationsOn_copyObjectsCalls (hKeys : rm.UniqueKeys) (hReply : reply.brokerobjects = 1) :
    ∃ bindings, operationsOn (IPPortToUrl backupip backupport)
        (rm.copyObjectsCalls failip failport backupip backupport reply).1 =
      (rm.exchanges.filter fun e => e.brokerurl = IPPortToUrl failip failport).map
          ExchangeInfo.copyTo ++
        (rm.queues.filter fun q => q.brokerurl = IPPortToUrl failip failport).map
          QueueInfo.copyTo ++ bindings ++
        operationsOn (IPPortToUrl backupip backupport)
          (copyLinks (IPPortToUrl backupip backupport) reply
            (rm.links.filter fun l => l.brokerurl = IPPortToUrl failip failport)).1 ∧
      List.Forall₂ (fun b o => ∃ e q, Refers rm b e q ∧
          o = .addBinding b.bindingkey e.name q.name ∧
          ∀ e' q', Refers rm b e' q' → e' = e ∧ q' = q)
        (rm.bindings.filter fun b => b.brokerurl = IPPortToUrl failip failport ∧ rm.resolves b)
        bindings := by
  have hContact : ∀ broker n calls, operationsOn (IPPortToUrl backupip backupport)
      (.contact broker n :: calls) = operationsOn (IPPortToUrl backupip backupport) calls :=
    fun _ _ _ => rfl
  refine ⟨_, ?_, bindings_named (IPPortToUrl failip failport) hKeys⟩
  rw [copyObjectsCalls_eq hReply]
  dsimp only
  split
  · simp only [List.cons_append, hContact, operationsOn_append, operationsOn_create,
      operationsOn_copyBridges, List.append_nil]
  · simp only [List.cons_append, hContact, operationsOn_append, operationsOn_create]

end CopyObjects

/-- One object of each kind, all of one broker. -/
def oneOfEachKind (host : Text) : RecoveryManager Nat where
  exchanges := [⟨⟨1, IPPortToUrl localhost 5672⟩, [101], [100]⟩]
  queues := [⟨⟨2, IPPortToUrl localhost 5672⟩, [113]⟩]
  bindings := [⟨⟨3, IPPortToUrl localhost 5672⟩, [107], 1, 2, [], []⟩]
  brokers := []
  links := [⟨⟨4, IPPortToUrl localhost 5672⟩, host, 5672⟩]
  bridges := []
  bavec := []

def reachable : BrokerReply := ⟨1, [], fun _ => false⟩

end QpidRecovery.RecoveryManager
