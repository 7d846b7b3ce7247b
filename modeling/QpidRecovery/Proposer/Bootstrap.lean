import QpidRecovery.Proposer.Centralized

/-! Which brokers of its list the landmark monitors once it has read the
requests that it could send itself. -/
namespace QpidRecovery.Proposer

open Transition KeyedList

variable {Fd Id : Type}

/-- Exactly one record watches the broker of each request. -/
def EachMonitored (requests : List ParticipateRequest) (s : State Fd Id) : Prop :=
  ∀ r ∈ requests, ∃ mon,
    (s.monitor.filter fun mon => mon.ip = r.brokerip ∧ mon.port = r.brokerport) = [mon]

theorem filter_eq_singleton {α : Type} {l : List α} {p : α → Bool} {a : α} (hNodup : l.Nodup)
    (ha : a ∈ l) (hp : p a = true) (hOnly : ∀ b ∈ l, p b = true → b = a) : l.filter p = [a] := by
  have hKept : (l.filter p).Nodup := hNodup.filter _
  cases hFilter : l.filter p with
  | nil => exact absurd hp (List.filter_eq_nil_iff.mp hFilter a ha)
  | cons b rest =>
      have hSame : ∀ c ∈ b :: rest, c = a := by
        intro c hc
        rw [← hFilter] at hc
        exact hOnly c (List.mem_filter.mp hc).1 (List.mem_filter.mp hc).2
      cases rest with
      | nil => rw [hSame b List.mem_cons_self]
      | cons c rest =>
          rw [hFilter, hSame b (by simp), hSame c (by simp)] at hKept
          exact absurd List.mem_cons_self (List.nodup_cons.mp hKept).1

theorem nameOfIP_injective : Function.Injective nameOfIP := by
  intro a b h
  have hBytes : (nameOfIP a).bytes = (nameOfIP b).bytes := congrArg CString.bytes h
  exact CString.ext hBytes

section Watching
variable {requests : List ParticipateRequest} {s : State Fd Id}

/-- A record is named by the address it watches. -/
theorem Watching.nameOfIP (h : Watching requests s.ledger) (hTrace : Unrecovered s.trace)
    (hNamed : ∀ r ∈ requests, r.name = Proposer.nameOfIP r.brokerip)
    (hAddress : ∀ r ∈ requests, r.brokerip.bytes ≠ []) {mon : Monitored Fd}
    (hMon : mon ∈ s.monitor) : mon.name = Proposer.nameOfIP mon.ip := by
  obtain ⟨r, ⟨before, after, rfl, _⟩, hName, hWatched⟩ := h.known mon hMon
  have hMem : r ∈ before ++ r :: after := by simp
  have hIP : monitoredIP r = r.brokerip := if_neg (hAddress r hMem)
  rw [hName, hNamed r hMem, (hWatched hTrace).1, hIP]

/-- So two records never watch one address. -/
theorem Watching.eq_of_ip (h : Watching requests s.ledger) (hTrace : Unrecovered s.trace)
    (hNamed : ∀ r ∈ requests, r.name = Proposer.nameOfIP r.brokerip)
    (hAddress : ∀ r ∈ requests, r.brokerip.bytes ≠ []) {mon mon' : Monitored Fd}
    (hMon : mon ∈ s.monitor) (hMon' : mon' ∈ s.monitor) (hIP : mon.ip = mon'.ip) : mon = mon' := by
  apply h.named.eq hMon hMon'
  rw [h.nameOfIP hTrace hNamed hAddress hMon, h.nameOfIP hTrace hNamed hAddress hMon', hIP]

/-- A request under a name of its own has its record. -/
theorem Watching.monitored (h : Watching requests s.ledger) (hTrace : Unrecovered s.trace)
    (hAddress : ∀ r ∈ requests, r.brokerip.bytes ≠ [])
    (hDistinct : (requests.map ParticipateRequest.name).Nodup) {r : ParticipateRequest}
    (hr : r ∈ requests) :
    ∃ mon ∈ s.monitor, mon.ip = r.brokerip ∧ mon.port = r.brokerport := by
  obtain ⟨mon, hMon, hName⟩ := h.present r hr
  obtain ⟨e, ⟨before, after, hSplit, _⟩, hOwn, hWatched⟩ := h.known mon hMon
  have he : e ∈ requests := by
    rw [hSplit]
    simp
  have hSame : e = r := List.inj_on_of_nodup_map hDistinct he hr (hOwn.symm.trans hName)
  subst hSame
  obtain ⟨hIP, hPort⟩ := hWatched hTrace
  exact ⟨mon, hMon, hIP.trans (if_neg (hAddress e hr)), hPort⟩

end Watching

section Sent
variable {o : Nat → SelfConnect} {monitoredbrokers : List Text}
  {made : List (ParticipateRequest × Bool)}

/-- All requests are sent exactly if all connections and writes succeed. -/
theorem bootstrap_sends (h : bootstrap o monitoredbrokers = some made) :
    (∀ i < monitoredbrokers.length, (o i).sends = true) ↔ ∀ r ∈ made, r.2 = true := by
  obtain ⟨requests, hRequests, rfl⟩ := Option.map_eq_some_iff.mp h
  have hLength : requests.length = monitoredbrokers.length := by
    clear h
    induction monitoredbrokers generalizing requests with
    | nil =>
        cases hRequests
        rfl
    | cons url rest ih =>
        rw [List.mapM_cons] at hRequests
        obtain ⟨r, _, hOthers⟩ := Option.bind_eq_some_iff.mp hRequests
        obtain ⟨others, hRest, hAll⟩ := Option.bind_eq_some_iff.mp hOthers
        cases hAll
        rw [List.length_cons, List.length_cons, ih others hRest]
  constructor
  · intro hSends r hr
    obtain ⟨i, hBound, rfl⟩ := List.mem_mapIdx.mp hr
    exact hSends i (hLength ▸ hBound)
  · intro hAll i hBound
    have hMade : i < requests.length := hLength ▸ hBound
    exact hAll (requests[i], (o i).sends) (List.mem_mapIdx.mpr ⟨i, hMade, rfl⟩)

theorem sentRequests_all (h : ∀ r ∈ made, r.2 = true) : sentRequests made = made.map Prod.fst := by
  rw [sentRequests, List.filter_eq_self.mpr h]

/-- A broker that is monitored was asked for in a request that was sent. -/
theorem Watching.sent {s : State Fd Id} (h : Watching (sentRequests made) s.ledger)
    (hTrace : Unrecovered s.trace) (hAddress : ∀ r ∈ made, r.1.brokerip.bytes ≠ [])
    (hDistinct : (made.map fun r => (r.1.brokerip, r.1.brokerport)).Nodup)
    (hEach : EachMonitored (made.map Prod.fst) s) : ∀ r ∈ made, r.2 = true := by
  intro r hr
  obtain ⟨mon, hMon⟩ := hEach r.1 (List.mem_map_of_mem hr)
  obtain ⟨hIn, hWatch⟩ := List.mem_filter.mp (hMon ▸ List.mem_singleton.mpr rfl)
  obtain ⟨hIP, hPort⟩ := of_decide_eq_true hWatch
  obtain ⟨e, ⟨before, after, hSplit, _⟩, _, hWatched⟩ := h.known mon hIn
  have hSent : (e, true) ∈ made := mem_sentRequests.mp (by simp [hSplit])
  obtain ⟨hIP', hPort'⟩ := hWatched hTrace
  rw [monitoredIP, if_neg (hAddress _ hSent)] at hIP'
  have hSame : (e, true) = r := by
    apply List.inj_on_of_nodup_map hDistinct hSent hr
    rw [← hIP, ← hPort, hIP', hPort']
  rw [← hSame]

end Sent

section Bootstrap
variable [DecidableEq Fd] [DecidableEq Id]

/-- What is read before the first timeout: the events of the recovery manager
and the requests, which wait before everything else. -/
def Action.early : Action Fd Id → Bool
  | .wait _ | .event _ _ | .request _ _ _ => true
  | _ => false

theorem step_early {s t : State Fd Id} {action : Action Fd Id} (hEarly : action.early = true)
    (hTrace : Unrecovered s.trace) (h : step s action = some t) : Unrecovered t.trace := by
  have hQuiet (new : List (Output Fd)) (hNew : ∀ e ∈ new, ¬ e.Marks)
      (hEq : t.trace = s.trace ++ new) : Unrecovered t.trace := by
    rw [hEq]
    intro name rp r stored hMem
    rcases List.mem_append.mp hMem with hOld | hMem
    · exact hTrace name rp r stored hOld
    · exact hNew _ hMem trivial
  cases action with
  | wait d =>
      cases h
      exact hTrace
  | request fromip r o =>
      cases h
      obtain ⟨now, mon', effects, _, _, _, _, _, _, _, hLedger⟩ := handleRequest_ledger o fromip r s
      exact hQuiet _ (effects_quiet effects) (congrArg Ledger.trace hLedger)
  | event le o =>
      cases le with
      | brokerDisconnection brokerip brokerport =>
          obtain ⟨ip, _, rfl⟩ := Option.map_eq_some_iff.mp h
          exact hTrace
      | linkDown srcip srcport dstip dstport =>
          simp only [step, handleEvent, linkDown] at h
          split at h
          · cases h
            exact hTrace
          · split at h
            · cases h
              exact hTrace
            · split at h
              · obtain ⟨l, _, rfl⟩ := Option.map_eq_some_iff.mp h
                refine hQuiet _ ?_ rfl
                intro e he
                obtain ⟨fd, _, rfl⟩ := List.mem_map.mp he
                exact id
              · cases h
      | objectProperty objinfo =>
          simp only [step, handleEvent] at h
          split at h
          · obtain ⟨dst, _, rfl⟩ := Option.map_eq_some_iff.mp h
            unfold listenProposerList
            split
            · exact hTrace
            · exact hTrace
          · cases h
            exact hTrace
  | query | ready | timeout => cases hEarly

/-- No recovery is committed while only such inputs are read. -/
theorem exec_early {s t : State Fd Id} {actions : List (Action Fd Id)}
    (hEarly : ∀ action ∈ actions, action.early = true) (hTrace : Unrecovered s.trace)
    (h : exec step s actions = some t) : Unrecovered t.trace := by
  induction actions generalizing s with
  | nil =>
      cases h
      exact hTrace
  | cons action rest ih =>
      obtain ⟨u, hStep, hRest⟩ := Option.bind_eq_some_iff.mp h
      apply ih (fun other hOther => hEarly other (List.mem_cons_of_mem _ hOther))
      · exact step_early (hEarly action List.mem_cons_self) hTrace hStep
      · exact hRest

variable {o : Nat → SelfConnect} {monitoredbrokers : List Text}
  {made : List (ParticipateRequest × Bool)}

/-- Once the landmark has read its own requests, and before a recovery, every
broker of a list of distinct addresses is monitored exactly if all its requests
could be sent and no two of the brokers share an ip. -/
theorem each_monitored_iff (hBootstrap : bootstrap o monitoredbrokers = some made)
    (hAddress : ∀ r ∈ made, r.1.brokerip.bytes ≠ [])
    (hDistinct : (made.map fun r => (r.1.brokerip, r.1.brokerport)).Nodup) (start : Time)
    (recoveryfd requestsfd querysfd : Option Fd) (backupbrokers : List Text) :
    (∀ (actions : List (Action Fd Id)) (s : State Fd Id),
      actions.filterMap requestOf = (sentRequests made).map (fun r => (localhost, r)) →
      exec step (.init start recoveryfd requestsfd querysfd backupbrokers) actions = some s →
      ((∀ action ∈ actions, action.early = true) ∨ Unrecovered s.trace) →
      EachMonitored (made.map Prod.fst) s) ↔
      (∀ i < monitoredbrokers.length, (o i).sends = true) ∧
        (made.map fun r => r.1.brokerip).Nodup := by
  have hStart : Unrecovered
      (State.init start recoveryfd requestsfd querysfd backupbrokers : State Fd Id).trace :=
    fun _ _ _ _ hMem => by cases hMem
  have hWatching {actions : List (Action Fd Id)} {s : State Fd Id}
      (hRequests : actions.filterMap requestOf = (sentRequests made).map fun r => (localhost, r))
      (hExec : exec step (.init start recoveryfd requestsfd querysfd backupbrokers) actions =
        some s) : Watching (sentRequests made) s.ledger :=
    (watching_init start recoveryfd requestsfd querysfd backupbrokers).exec hRequests hExec
  have hSent (r : ParticipateRequest) (hr : r ∈ sentRequests made) : (r, true) ∈ made :=
    mem_sentRequests.mp hr
  have hNamed (r : ParticipateRequest) (hr : r ∈ sentRequests made) :
      r.name = nameOfIP r.brokerip := bootstrap_named hBootstrap _ (hSent r hr)
  have hFilled (r : ParticipateRequest) (hr : r ∈ sentRequests made) : r.brokerip.bytes ≠ [] :=
    hAddress _ (hSent r hr)
  rw [bootstrap_sends hBootstrap]
  constructor
  · intro h
    obtain ⟨s, hExec, hTrace⟩ := exec_requests (sentRequests made) hStart
    have hRequests : ((sentRequests made).map fun r =>
        (.request localhost r unconnected : Action Fd Id)).filterMap requestOf =
          (sentRequests made).map fun r => (localhost, r) := by
      rw [List.filterMap_map]
      exact congrFun List.filterMap_eq_map (sentRequests made)
    have hEach := h _ s hRequests hExec (.inr hTrace)
    have hRecords := hWatching hRequests hExec
    refine ⟨hRecords.sent hTrace hAddress hDistinct hEach, ?_⟩
    apply List.Nodup.map_on
    · intro a ha b hb hSame
      obtain ⟨mon, hMon⟩ := hEach a.1 (List.mem_map_of_mem ha)
      obtain ⟨mon', hMon'⟩ := hEach b.1 (List.mem_map_of_mem hb)
      obtain ⟨hIn, hWatch⟩ := List.mem_filter.mp (hMon ▸ List.mem_singleton.mpr rfl)
      obtain ⟨hIn', hWatch'⟩ := List.mem_filter.mp (hMon' ▸ List.mem_singleton.mpr rfl)
      simp only [decide_eq_true_eq] at hWatch hWatch'
      have hIP : mon.ip = mon'.ip := hWatch.1.trans (hSame.trans hWatch'.1.symm)
      have hRecord := hRecords.eq_of_ip hTrace hNamed hFilled hIn hIn' hIP
      apply List.inj_on_of_nodup_map hDistinct ha hb
      rw [hSame, ← hWatch.2, ← hWatch'.2, hRecord]
    · exact hDistinct.of_map
  · rintro ⟨hAll, hIPs⟩ actions s hRequests hExec hWhen
    have hTrace : Unrecovered s.trace := by
      rcases hWhen with hEarly | hTrace
      · exact exec_early hEarly hStart hExec
      · exact hTrace
    have hRecords := hWatching hRequests hExec
    have hNames : ((sentRequests made).map ParticipateRequest.name).Nodup := by
      have hEq : (sentRequests made).map ParticipateRequest.name =
          (made.map fun r => r.1.brokerip).map nameOfIP := by
        rw [List.map_congr_left hNamed, sentRequests_all hAll, List.map_map, List.map_map]
        rfl
      rw [hEq]
      exact hIPs.map nameOfIP_injective
    intro r hr
    rw [← sentRequests_all hAll] at hr
    obtain ⟨mon, hMon, hIP, hPort⟩ := hRecords.monitored hTrace hFilled hNames hr
    refine ⟨mon, filter_eq_singleton hRecords.named.nodup.of_map hMon (decide_eq_true ⟨hIP, hPort⟩) ?_⟩
    intro other hOther hWatch
    apply hRecords.eq_of_ip hTrace hNamed hFilled hOther hMon
    exact (of_decide_eq_true hWatch).1.trans hIP.symm

end Bootstrap

section Sample

/-- The url `127.0.0.3:5672`. -/
def otherBroker : Text := [49, 50, 55, 46, 48, 46, 48, 46, 51, 58, 53, 54, 55, 50]

def otherRequest : ParticipateRequest :=
  let ip : IPString := ⟨[49, 50, 55, 46, 48, 46, 48, 46, 51], by decide, by decide⟩
  ⟨nameOfIP ip, ip, 5672, 2, 1, []⟩

theorem each_monitored_two :
    ∃ s, exec step landmark [.request localhost localRequest unconnected,
        .request localhost otherRequest unconnected] = some s ∧
      EachMonitored [localRequest, otherRequest] s := by
  have hBootstrap : bootstrap allSent [localBroker, otherBroker] =
      some [(localRequest, true), (otherRequest, true)] := by
    decide
  refine ⟨_, rfl, ?_⟩
  apply (each_monitored_iff hBootstrap (by decide) (by decide) 0 (some 0) (some 1) (some 2)
    [localBroker]).mpr ⟨fun _ _ => rfl, by decide⟩ [.request localhost localRequest unconnected,
      .request localhost otherRequest unconnected] _ rfl rfl
  exact .inl (by decide)

/-- The request for `127.0.0.1:5673`, the backup of the sample scripts. -/
def backupRequest : ParticipateRequest := ⟨nameOfIP localhost, localhost, 5673, 2, 1, []⟩

/-- The record of the broker is replaced by that of the backup. -/
theorem not_each_monitored :
    bootstrap allSent [localBroker, localhost.bytes ++ [58, 53, 54, 55, 51]] =
        some [(localRequest, true), (backupRequest, true)] ∧
      ¬ ∀ (actions : List (Action Nat Nat)) (s : State Nat Nat),
        actions.filterMap requestOf = [(localhost, localRequest), (localhost, backupRequest)] →
        exec step landmark actions = some s → (∀ action ∈ actions, action.early = true) →
        EachMonitored [localRequest, backupRequest] s := by
  refine ⟨by decide, ?_⟩
  intro h
  obtain ⟨mon, hMon⟩ := h [.request localhost localRequest unconnected,
    .request localhost backupRequest unconnected] _ rfl rfl (by decide) localRequest (by decide)
  cases hMon

end Sample

end QpidRecovery.Proposer
