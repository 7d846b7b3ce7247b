import QpidRecovery.Recovery.CopyObjects
import QpidRecovery.Recovery.Store

/-! The objects that a sequence of property events leaves in the recovery
manager, and which of the reported bindings reach the backup. Exchanges and
queues with an ignored name are never stored. -/
namespace QpidRecovery.RecoveryManager

open KeyedList

variable {Id : Type}

section Collected
variable [DecidableEq Id]

variable (events : List (CollectedObject Id))

theorem collected_exchanges : (collected events).exchanges =
    collect ExchangeInfo.toObjectInfo (events.filterMap keptExchange?) :=
  vec_collected .exchange events

theorem collected_queues : (collected events).queues =
    collect QueueInfo.toObjectInfo (events.filterMap keptQueue?) :=
  vec_collected .queue events

theorem collected_bindings : (collected events).bindings =
    collect BindingInfo.toObjectInfo (events.filterMap binding?) :=
  vec_collected .binding events

theorem collected_links : (collected events).links =
    collect LinkInfo.toObjectInfo (events.filterMap link?) :=
  vec_collected .link events

/-- What was collected has unique keys. -/
theorem uniqueKeys_collected : (collected events).UniqueKeys where
  exchanges := by
    rw [collected_exchanges]
    exact unique_collect _
  queues := by
    rw [collected_queues]
    exact unique_collect _
  bindings := by
    rw [collected_bindings]
    exact unique_collect _
  links := by
    rw [collected_links]
    exact unique_collect _

/-- The names of the exchanges that are kept are not ignored. -/
theorem not_ignored_of_mem_exchanges {e : ExchangeInfo Id} (h : e ∈ (collected events).exchanges) :
    isIgnoredName e.name = false := by
  rw [collected_exchanges, mem_collect] at h
  obtain ⟨before, after, hSplit, _⟩ := h
  have hMem : e ∈ events.filterMap keptExchange? := by simp [hSplit]
  obtain ⟨o, _, ho⟩ := List.mem_filterMap.mp hMem
  simpa using (Option.filter_eq_some_iff.mp ho).2

end Collected

/-- The prefix `amq.`. -/
def amqPrefix : Text := [97, 109, 113, 46]

/-- All names with the prefix are ignored. -/
theorem isIgnoredName_amq {name : Text} (h : amqPrefix <+: name) : isIgnoredName name = true := by
  have hAny : ignoredPatterns.any (fun pattern => pattern.isPrefixOf name) = true := by
    rw [List.any_eq_true]
    exact ⟨amqPrefix, by decide, List.isPrefixOf_iff_prefix.mpr h⟩
  simp [isIgnoredName, hAny]

section Survival
variable [DecidableEq Id]

/-- A reported binding of a broker with what its ids denote: the exchange as it
was last reported, and the queue that is recovered. -/
structure Reported (events : List (CollectedObject Id)) (url : Text) (b : BindingInfo Id)
    (e : ExchangeInfo Id) (q : QueueInfo Id) : Prop where
  binding : LastOf BindingInfo.toObjectInfo (events.filterMap binding?) b
  broker : b.brokerurl = url
  exchange : LastOf ExchangeInfo.toObjectInfo (events.filterMap exchange?) e
  exid : e.objectid = b.exid
  exurl : e.brokerurl = b.brokerurl
  queue : q ∈ (collected events).queues
  quid : q.objectid = b.quid
  quurl : q.brokerurl = b.brokerurl

/-- Every reported binding with a recovered queue, and with an exchange that is
recovered or predeclared, is created on the backup. -/
def BindingsSurvive (predeclared : Text → Prop) (events : List (CollectedObject Id)) (url : Text)
    (ops : List Operation) : Prop :=
  ∀ b e q, Reported events url b e q →
    (e ∈ (collected events).exchanges ∨ predeclared e.name) →
    .addBinding b.bindingkey e.name q.name ∈ ops

variable {failip backupip : IPString} {failport backupport : UInt32} {reply : BrokerReply}
  {events : List (CollectedObject Id)} {predeclared : Text → Prop}

/-- A binding that the thread creates is to an exchange that is kept. -/
theorem mem_exchanges_of_created {rm : RecoveryManager Id} (hKeys : rm.UniqueKeys)
    (hReply : reply.brokerobjects = 1) {key exname quname : Text}
    (ho : .addBinding key exname quname ∈ operationsOn (IPPortToUrl backupip backupport)
      (rm.copyObjectsCalls failip failport backupip backupport reply).1) :
    ∃ e ∈ rm.exchanges, e.name = exname := by
  obtain ⟨bindings, hOps, hNamed⟩ := operationsOn_copyObjectsCalls hKeys hReply
  rw [hOps] at ho
  simp only [List.mem_append, List.mem_map] at ho
  rcases ho with ((⟨e, _, he⟩ | ⟨q, _, hq⟩) | hBinding) | hLink
  · cases he
  · cases hq
  · obtain ⟨b, _, e, q, hRefers, hEq, _⟩ := exists_of_forall₂ hNamed hBinding
    cases hEq
    exact ⟨e, hRefers.exchange, rfl⟩
  · obtain ⟨l, _, hl⟩ := List.mem_map.mp (operationsOn_copyLinks.1.subset hLink)
    cases hl

/-- A binding whose ends are both kept is created under their names, before any
link is copied. -/
theorem created_of_refers {rm : RecoveryManager Id} (hKeys : rm.UniqueKeys)
    (hReply : reply.brokerobjects = 1) {b : BindingInfo Id} {e : ExchangeInfo Id} {q : QueueInfo Id}
    (hb : b ∈ rm.bindings) (hUrl : b.brokerurl = IPPortToUrl failip failport)
    (hRefers : Refers rm b e q) :
    .addBinding b.bindingkey e.name q.name ∈ operationsOn (IPPortToUrl backupip backupport)
      (rm.copyObjectsCalls failip failport backupip backupport reply).1 := by
  obtain ⟨bindings, hOps, hNamed⟩ := operationsOn_copyObjectsCalls hKeys hReply
  have hKept : b ∈ rm.bindings.filter fun b =>
      b.brokerurl = IPPortToUrl failip failport ∧ rm.resolves b :=
    List.mem_filter.mpr ⟨hb, decide_eq_true ⟨hUrl, resolves_iff.mpr ⟨e, q, hRefers⟩⟩⟩
  obtain ⟨o, ho, e', q', _, rfl, hUnique⟩ := exists_of_forall₂ hNamed.flip hKept
  obtain ⟨rfl, rfl⟩ := hUnique e q hRefers
  rw [hOps]
  simp [ho]

/-- No reported binding with a recovered queue is lost exactly if none of them
is to a predeclared exchange. -/
theorem bindings_survive_iff (hAmq : ∀ name, predeclared name → amqPrefix <+: name)
    (hReply : reply.brokerobjects = 1) :
    BindingsSurvive predeclared events (IPPortToUrl failip failport)
        (operationsOn (IPPortToUrl backupip backupport)
          ((collected events).copyObjectsCalls failip failport backupip backupport reply).1) ↔
      ∀ b e q, Reported events (IPPortToUrl failip failport) b e q → ¬ predeclared e.name := by
  have hKeys := uniqueKeys_collected events
  constructor
  · intro hSurvive b e q hReported hPredeclared
    obtain ⟨e', he', hName⟩ :=
      mem_exchanges_of_created hKeys hReply (hSurvive b e q hReported (.inr hPredeclared))
    have hKept := not_ignored_of_mem_exchanges events he'
    rw [hName, isIgnoredName_amq (hAmq _ hPredeclared)] at hKept
    cases hKept
  · intro hNone b e q h hExchange
    have hKept : e ∈ (collected events).exchanges := hExchange.resolve_right (hNone b e q h)
    refine created_of_refers hKeys hReply ?_ h.broker
      ⟨hKept, h.exid, h.exurl, h.queue, h.quid, h.quurl⟩
    rw [collected_bindings, mem_collect]
    exact h.binding

end Survival

section Direct

/-- The name `amq.direct`. -/
def amqDirect : Text := [97, 109, 113, 46, 100, 105, 114, 101, 99, 116]

def boundQueue : QueueInfo Nat := ⟨⟨2, IPPortToUrl localhost 5672⟩, [113]⟩

def boundExchange (name : Text) : ExchangeInfo Nat := ⟨⟨1, IPPortToUrl localhost 5672⟩, name, [100]⟩

def boundBinding : BindingInfo Nat := ⟨⟨3, IPPortToUrl localhost 5672⟩, [107], 1, 2, [], []⟩

/-- A broker reports one binding, to the exchange of the given name. -/
def oneBinding (name : Text) : List (CollectedObject Nat) :=
  [.exchange (boundExchange name), .queue boundQueue, .binding boundBinding]

theorem bindings_survive_ordinary :
    BindingsSurvive (· = amqDirect) (oneBinding [101]) (IPPortToUrl localhost 5672)
      (operationsOn (IPPortToUrl localhost 5673)
        ((collected (oneBinding [101])).copyObjectsCalls localhost 5672 localhost 5673
          reachable).1) := by
  refine (bindings_survive_iff ?_ rfl).mpr ?_
  · rintro name rfl
    decide
  · rintro b e q h hName
    obtain ⟨before, after, hSplit, _⟩ := h.exchange
    have hMem : e ∈ (oneBinding [101]).filterMap exchange? := by simp [hSplit]
    rw [List.mem_singleton.mp hMem] at hName
    cases hName

/-- A binding to `amq.direct` is lost with its broker. -/
theorem bindings_lost_amqDirect :
    ¬ BindingsSurvive (· = amqDirect) (oneBinding amqDirect) (IPPortToUrl localhost 5672)
      (operationsOn (IPPortToUrl localhost 5673)
        ((collected (oneBinding amqDirect)).copyObjectsCalls localhost 5672 localhost 5673
          reachable).1) := by
  intro hSurvive
  have hIssued : (collected (oneBinding amqDirect)).copyObjectsCalls localhost 5672 localhost 5673
      reachable = ([.contact (IPPortToUrl localhost 5673) 1,
        .create (IPPortToUrl localhost 5673) (.addQueue [113])], true) := by decide
  rw [hIssued] at hSurvive
  have hReported : Reported (oneBinding amqDirect) (IPPortToUrl localhost 5672) boundBinding
      (boundExchange amqDirect) boundQueue :=
    { binding := ⟨[], [], rfl, by simp⟩
      broker := rfl
      exchange := ⟨[], [], rfl, by simp⟩
      exid := rfl
      exurl := rfl
      queue := List.mem_singleton.mpr rfl
      quid := rfl
      quurl := rfl }
  have hCreated := hSurvive _ _ _ hReported (.inr rfl)
  simp [operationsOn] at hCreated

end Direct

end QpidRecovery.RecoveryManager
