import QpidRecovery.Library.KeyedList
import QpidRecovery.Proposer.Refinement
import QpidRecovery.Requestor.Arguments

/-! The names of centralized mode. The landmark monitors the brokers of a list
under names of its own, the requestor of a broker tells a service name to those
that ask for it, and they ask the landmark for the address behind that name. -/
namespace QpidRecovery

/-- The reply of the requestor to a query for its proposers. -/
def Requestor.replyProposerList {Fd : Type} (servicename : ServiceName)
    (proposers : List (HeartbeatClient Fd)) : Proposer.ReplyProposer :=
  ⟨servicename, copyIPArray proposers⟩

namespace Proposer

open Transition KeyedList

/-- The name in the `ReplyAddress` that `listenAddressChange` writes to every
proposer of the reply. -/
def queryName (rp : ReplyProposer) : ServiceName := rp.name

/-- `strcpy` of an address into the longer array of a name. -/
def nameOfIP (ip : IPString) : ServiceName :=
  ⟨ip.bytes, ip.noNul, ip.fits.trans (by decide)⟩

/-- The request that the landmark sends itself for one url of its list. -/
def bootstrapRequest (brokerurl : Text) : Option ParticipateRequest :=
  (urlToIPPort IP_LENGTH brokerurl).map fun broker =>
    { name := nameOfIP broker.1
      brokerip := broker.1
      brokerport := broker.2
      votingversion := 2
      committedversion := 1
      acceptor := [] }

/-- The outcomes of `tcpconnect` to the landmark's own server socket for one
entry, and of the `write` of the request. -/
structure SelfConnect where
  connected : Bool
  written : Bool
deriving DecidableEq, Repr

/-- The write is tried on a connection that failed, too, and fails. -/
def SelfConnect.sends (c : SelfConnect) : Bool := c.connected && c.written

/-- The requests of the list, and which of them are sent. All connections are
made before the first is accepted, and none is tried again. -/
def bootstrap (o : Nat → SelfConnect) (monitoredbrokers : List Text) :
    Option (List (ParticipateRequest × Bool)) :=
  (monitoredbrokers.mapM bootstrapRequest).map fun requests =>
    requests.mapIdx fun i r => (r, (o i).sends)

/-- The requests that wait to be accepted. -/
def sentRequests (made : List (ParticipateRequest × Bool)) : List ParticipateRequest :=
  (made.filter Prod.snd).map Prod.fst

/-- The address that is monitored for a request from the landmark itself. -/
def monitoredIP (r : ParticipateRequest) : IPString :=
  if r.brokerip.bytes = [] then localhost else r.brokerip

variable {Fd Id : Type}

/-- The query is answered by a record that watches the broker. -/
def Resolves (name : ServiceName) (r : ParticipateRequest) (s : State Fd Id) : Prop :=
  ∃ i mon, searchServiceByName name s.monitor = some i ∧ s.monitor[i]? = some mon ∧
    mon.ip = monitoredIP r ∧ mon.port = r.brokerport

/-- The request that an iteration reads, with its sender. -/
def requestOf : Action Fd Id → Option (IPString × ParticipateRequest)
  | .request fromip r _ => some (fromip, r)
  | _ => none

/-- No recovery was committed. -/
def Unrecovered (t : List (Output Fd)) : Prop :=
  ∀ name rp r stored, Output.committed name rp r stored ∉ t

/-- The records are those of the last request for every name, and until a
recovery is committed they watch the address of that request. -/
structure Watching (requests : List ParticipateRequest) (l : Ledger Fd) : Prop where
  named : WellNamed l
  present : ∀ r ∈ requests, ∃ mon ∈ l.monitor, mon.name = r.name
  known : ∀ mon ∈ l.monitor, ∃ r, LastOf ParticipateRequest.name requests r ∧
    mon.name = r.name ∧
      (Unrecovered l.trace → mon.ip = monitoredIP r ∧ mon.port = r.brokerport)

section Watching
variable {requests : List ParticipateRequest}

/-- A part of a run without a recovery. -/
theorem Unrecovered.left {t new : List (Output Fd)} (h : Unrecovered (t ++ new)) :
    Unrecovered t :=
  fun name rp r stored hMem => h name rp r stored (List.mem_append_left _ hMem)

theorem Unrecovered.right {t new : List (Output Fd)} (h : Unrecovered (t ++ new)) :
    Unrecovered new :=
  fun name rp r stored hMem => h name rp r stored (List.mem_append_right _ hMem)

variable [DecidableEq Id] {ok : Condition Fd}

/-- Only a committed recovery changes the address of a record. -/
theorem Change.address {mon mon' : Monitored Fd} {new : List (Output Fd)}
    (h : Change Id ok mon mon' new) (hTrace : Unrecovered new) :
    mon'.ip = mon.ip ∧ mon'.port = mon.port := by
  cases h with
  | commitSelf => exact absurd List.mem_cons_self (hTrace _ _ _ _)
  | commitOther => exact absurd List.mem_cons_self (hTrace _ _ _ _)
  | _ => exact ⟨rfl, rfl⟩

/-- A record that changes is still for its request. -/
theorem Watching.change {l : Ledger Fd} {j : Nat} {mon mon' : Monitored Fd}
    {new : List (Output Fd)} (h : Watching requests l) (hMon : l.monitor[j]? = some mon)
    (hChange : Change Id ok mon mon' new) :
    Watching requests ⟨l.monitor.set j mon', l.trace ++ new⟩ := by
  have hOld : mon ∈ l.monitor := List.mem_of_getElem? hMon
  refine ⟨h.named.move (Move.change l j hMon hChange), ?_, ?_⟩
  · intro r hr
    obtain ⟨other, hMem, hName⟩ := h.present r hr
    have hNames : (l.monitor.set j mon').map Monitored.name = l.monitor.map Monitored.name := by
      rw [List.map_set, hChange.name, set_getElem? (by rw [List.getElem?_map, hMon]; rfl)]
    have hStill : r.name ∈ (l.monitor.set j mon').map Monitored.name := by
      rw [hNames, ← hName]
      exact List.mem_map_of_mem hMem
    exact List.mem_map.mp hStill
  · intro other hMem
    rcases List.mem_or_eq_of_mem_set hMem with hMem | rfl
    · obtain ⟨r, hLast, hName, hAddress⟩ := h.known other hMem
      exact ⟨r, hLast, hName, fun hTrace => hAddress hTrace.left⟩
    · obtain ⟨r, hLast, hName, hAddress⟩ := h.known mon hOld
      refine ⟨r, hLast, hChange.name.trans hName, fun hTrace => ?_⟩
      obtain ⟨hIP, hPort⟩ := hChange.address hTrace.right
      obtain ⟨hIP', hPort'⟩ := hAddress hTrace.left
      exact ⟨hIP.trans hIP', hPort.trans hPort'⟩

/-- No request is read. -/
def noneCreated : Condition Fd where
  created := fun _ => False

/-- A move of the process keeps the records for their requests. -/
theorem Watching.move {l l' : Ledger Fd} (h : Watching requests l)
    (hMove : Move Id noneCreated l l') : Watching requests l' := by
  cases hMove with
  | quiet new hSilent =>
      refine ⟨⟨h.named.nodup, h.named.own⟩, h.present, fun mon hMem => ?_⟩
      obtain ⟨r, hLast, hName, hAddress⟩ := h.known mon hMem
      exact ⟨r, hLast, hName, fun hTrace => hAddress hTrace.left⟩
  | change j hMon hChange => exact h.change hMon hChange
  | replace mon' new hCreated => exact hCreated.elim

variable [DecidableEq Fd] {s t : State Fd Id}

/-- A request is the last one for its name. -/
theorem Watching.request (h : Watching requests s.ledger) (o : Outcomes Fd)
    (r : ParticipateRequest) :
    Watching (requests ++ [r]) (handleRequest o localhost r s).ledger := by
  have hMoves : Moves Id anyInput s.ledger (handleRequest o localhost r s).ledger :=
    handleRequest_moves trivial fun _ _ _ => trivial
  have hNamed : WellNamed (handleRequest o localhost r s).ledger :=
    hMoves.invariant h.named fun _ _ hBefore hMove => hBefore.move hMove
  obtain ⟨now, mon', effects, _, _, hName, hIP, hPort, _, _, hLedger⟩ :=
    handleRequest_ledger o localhost r s
  rw [hLedger] at hNamed ⊢
  have hOthers (mon : Monitored Fd) (hMem : mon ∈ s.monitor.eraseP fun mon => mon.name = r.name) :
      mon.name ≠ r.name := by
    intro hSame
    have hErased := List.mem_map_of_mem (f := Monitored.name) hMem
    rw [eraseP_name, hSame] at hErased
    exact h.named.nodup.not_mem_erase hErased
  refine ⟨hNamed, ?_, ?_⟩
  · intro r' hr'
    by_cases hSame : r'.name = r.name
    · exact ⟨mon', by simp, hName.trans hSame.symm⟩
    · have hOld : r' ∈ requests := by
        rcases List.mem_append.mp hr' with hOld | hNew
        · exact hOld
        · exact absurd (congrArg ParticipateRequest.name (List.mem_singleton.mp hNew)) hSame
      obtain ⟨mon, hMem, hOwn⟩ := h.present r' hOld
      refine ⟨mon, List.mem_append_left _ ?_, hOwn⟩
      exact (List.mem_eraseP_of_neg (by simpa [hOwn] using hSame)).mpr hMem
  · intro mon hMem
    rcases List.mem_append.mp hMem with hOld | hNew
    · obtain ⟨r', hLast, hOwn, hAddress⟩ := h.known mon (List.mem_of_mem_eraseP hOld)
      refine ⟨r', lastOf_append_singleton.mpr (.inr ⟨hLast, ?_⟩), hOwn, fun hTrace =>
        hAddress hTrace.left⟩
      rw [← hOwn]
      exact hOthers mon hOld
    · rw [List.mem_singleton.mp hNew]
      exact ⟨r, lastOf_append_singleton.mpr (.inl rfl), hName, fun _ => ⟨hIP, hPort⟩⟩

/-- So does an iteration without a request. -/
theorem Watching.step (h : Watching requests s.ledger) {action : Action Fd Id}
    (hRequest : requestOf action = none) (hStep : step s action = some t) :
    Watching requests t.ledger := by
  have hOk : Permits noneCreated s action := by
    cases action with
    | request => cases hRequest
    | ready => exact ⟨trivial, fun _ _ => ⟨trivial, fun _ _ => trivial⟩⟩
    | timeout => exact ⟨fun _ => trivial, fun _ _ => trivial⟩
    | _ => trivial
  exact (step_moves hOk hStep).invariant h fun _ _ hBefore hMove => hBefore.move hMove

/-- What the main loop makes of the requests, whatever else it reads. -/
theorem Watching.exec {before : List ParticipateRequest} {actions : List (Action Fd Id)}
    (h : Watching before s.ledger)
    (hRequests : actions.filterMap requestOf = requests.map fun r => (localhost, r))
    (hExec : exec Proposer.step s actions = some t) :
    Watching (before ++ requests) t.ledger := by
  induction actions generalizing s before requests with
  | nil =>
      cases hExec
      rw [List.filterMap_nil] at hRequests
      rw [List.map_eq_nil_iff.mp hRequests.symm, List.append_nil]
      exact h
  | cons action rest ih =>
      obtain ⟨u, hStep, hRest⟩ := Option.bind_eq_some_iff.mp hExec
      cases hRequest : requestOf action with
      | none =>
          rw [List.filterMap_cons_none hRequest] at hRequests
          exact ih (h.step hRequest hStep) hRequests hRest
      | some sent =>
          rw [List.filterMap_cons_some hRequest] at hRequests
          obtain ⟨r, requests', rfl, rfl, hTail⟩ := List.map_eq_cons_iff.mp hRequests.symm
          cases action with
          | request fromip r' o =>
              cases hRequest
              cases hStep
              have hAll := ih (h.request o r) hTail.symm hRest
              rwa [List.append_assoc] at hAll
          | _ => cases hRequest

omit [DecidableEq Id] [DecidableEq Fd] in
/-- A name resolves to the last request made under it. -/
theorem Watching.resolves_iff (h : Watching requests s.ledger) (hTrace : Unrecovered s.trace)
    (name : ServiceName) (r : ParticipateRequest) :
    Resolves name r s ↔ ∃ e, LastOf ParticipateRequest.name requests e ∧ e.name = name ∧
      monitoredIP e = monitoredIP r ∧ e.brokerport = r.brokerport := by
  have hSearch : searchServiceByName name s.monitor =
      s.monitor.findIdx? fun mon => mon.name = name := by
    unfold searchServiceByName
    congr 1
    funext mon
    exact decide_eq_decide.mpr (strcmp_bytes_iff _ _)
  constructor
  · rintro ⟨i, mon, hFound, hMon, hIP, hPort⟩
    rw [hSearch] at hFound
    obtain ⟨hBound, hName, _⟩ := List.findIdx?_eq_some_iff_getElem.mp hFound
    rw [List.getElem?_eq_getElem hBound] at hMon
    cases hMon
    obtain ⟨e, hLast, hOwn, hAddress⟩ := h.known _ (List.getElem_mem hBound)
    obtain ⟨hIP', hPort'⟩ := hAddress hTrace
    refine ⟨e, hLast, hOwn.symm.trans (of_decide_eq_true hName), ?_, ?_⟩
    · exact hIP'.symm.trans hIP
    · exact hPort'.symm.trans hPort
  · rintro ⟨e, hLast, hName, hIP, hPort⟩
    have hRequest : e ∈ requests := by
      obtain ⟨before, after, rfl, _⟩ := hLast
      simp
    obtain ⟨other, hMem, hOther⟩ := h.present e hRequest
    have hSome : (s.monitor.findIdx? fun mon => mon.name = name).isSome := by
      rw [List.findIdx?_isSome, List.any_eq_true]
      exact ⟨other, hMem, decide_eq_true (hOther.trans hName)⟩
    obtain ⟨i, hFound⟩ := Option.isSome_iff_exists.mp hSome
    obtain ⟨hBound, hMatch, _⟩ := List.findIdx?_eq_some_iff_getElem.mp hFound
    obtain ⟨e', hLast', hOwn, hAddress⟩ := h.known _ (List.getElem_mem hBound)
    have hSame : e' = e := by
      apply (unique_collect requests).eq_of_key (mem_collect.mpr hLast') (mem_collect.mpr hLast)
      exact hOwn.symm.trans ((of_decide_eq_true hMatch).trans hName.symm)
    subst hSame
    obtain ⟨hIP', hPort'⟩ := hAddress hTrace
    exact ⟨i, _, hSearch.trans hFound, List.getElem?_eq_getElem hBound, hIP'.trans hIP,
      hPort'.trans hPort⟩

end Watching

section Bootstrap
variable {o : Nat → SelfConnect} {monitoredbrokers : List Text}
  {made : List (ParticipateRequest × Bool)}

/-- The landmark's requests are named by their addresses. -/
theorem requests_named {requests : List ParticipateRequest}
    (h : monitoredbrokers.mapM bootstrapRequest = some requests) :
    ∀ r ∈ requests, r.name = nameOfIP r.brokerip := by
  induction monitoredbrokers generalizing requests with
  | nil =>
      cases h
      exact fun r hr => by cases hr
  | cons url rest ih =>
      rw [List.mapM_cons] at h
      obtain ⟨r, hFirst, hOthers⟩ := Option.bind_eq_some_iff.mp h
      obtain ⟨others, hRest, hAll⟩ := Option.bind_eq_some_iff.mp hOthers
      cases hAll
      intro r' hr'
      rcases List.mem_cons.mp hr' with rfl | hr'
      · obtain ⟨broker, _, rfl⟩ := Option.map_eq_some_iff.mp hFirst
        rfl
      · exact ih hRest r' hr'

/-- Every request is named by its address. -/
theorem bootstrap_named (h : bootstrap o monitoredbrokers = some made) :
    ∀ r ∈ made, r.1.name = nameOfIP r.1.brokerip := by
  obtain ⟨requests, hRequests, rfl⟩ := Option.map_eq_some_iff.mp h
  intro r hr
  obtain ⟨i, hBound, rfl⟩ := List.mem_mapIdx.mp hr
  exact requests_named hRequests _ (List.getElem_mem hBound)

/-- A request arrives if its connection and its write succeed. -/
theorem mem_sentRequests {r : ParticipateRequest} : r ∈ sentRequests made ↔ (r, true) ∈ made := by
  simp [sentRequests]

variable [DecidableEq Fd] [DecidableEq Id]

/-- Every connection fails. -/
def unconnected : Outcomes Fd where
  heartbeat := none
  paxos := fun _ _ => none
  connect := fun _ => none
  written := fun _ => false
  checked := fun _ => false
  backup := ⟨0, [], fun _ => false⟩
  broker := ⟨0, [], fun _ => false⟩

omit [DecidableEq Id] in
/-- Nobody is watched before the first request. -/
theorem watching_init (start : Time) (recoveryfd requestsfd querysfd : Option Fd)
    (backupbrokers : List Text) :
    Watching [] (State.init start recoveryfd requestsfd querysfd backupbrokers :
      State Fd Id).ledger where
  named := ⟨List.nodup_nil, fun mon hMem => by cases hMem⟩
  present := fun r hr => by cases hr
  known := fun mon hMem => by cases hMem

/-- The requests alone are read without a recovery. -/
theorem exec_requests (requests : List ParticipateRequest) {s : State Fd Id}
    (hTrace : Unrecovered s.trace) :
    ∃ t, exec step s (requests.map fun r => .request localhost r unconnected) = some t ∧
      Unrecovered t.trace := by
  induction requests generalizing s with
  | nil => exact ⟨s, rfl, hTrace⟩
  | cons r rest ih =>
      obtain ⟨now, mon', effects, _, _, _, _, _, _, _, hLedger⟩ :=
        handleRequest_ledger unconnected localhost r s
      have hNext : Unrecovered (handleRequest unconnected localhost r s).trace := by
        have hEq : (handleRequest unconnected localhost r s).trace =
            s.trace ++ effects.map .effect := congrArg Ledger.trace hLedger
        rw [hEq]
        intro name rp r' stored hMem
        rcases List.mem_append.mp hMem with hOld | hNew
        · exact hTrace name rp r' stored hOld
        · exact effects_quiet effects _ hNew trivial
      exact ih hNext

/-- A record without a name is one of the local broker. -/
theorem noName_iff (h : bootstrap o monitoredbrokers = some made) {e : ParticipateRequest}
    (he : e ∈ sentRequests made) : e.name = noName ↔ e.brokerip = noAddress := by
  have hName : e.name = nameOfIP e.brokerip := bootstrap_named h _ (mem_sentRequests.mp he)
  rw [hName]
  constructor
  · intro hName
    have hBytes : (nameOfIP e.brokerip).bytes = noName.bytes := congrArg CString.bytes hName
    exact CString.ext hBytes
  · intro hIP
    rw [hIP]
    rfl

/-- The name that the requestor of a listed broker gives away resolves to the
record of that broker, in every state before a recovery, exactly if the last
request sent for an entry without an address has the port of the broker, and the
broker is the local one. -/
theorem query_resolved_iff (files : Text → Option (List Text)) (flag landmarkip : Text)
    (a : Requestor.Arguments) (cfg : Requestor.Config)
    (hFlag : flag ∈ Requestor.landmarkOptions)
    (hMain : Requestor.mainArguments files [flag, landmarkip] = some a)
    (hConfig : a.config = some cfg) {Fd' : Type} (proposers : List (HeartbeatClient Fd'))
    (o : Nat → SelfConnect) (monitoredbrokers : List Text)
    (made : List (ParticipateRequest × Bool))
    (hBootstrap : bootstrap o monitoredbrokers = some made) (r : ParticipateRequest)
    (start : Time) (recoveryfd requestsfd querysfd : Option Fd) (backupbrokers : List Text) :
    (∀ (actions : List (Action Fd Id)) (s : State Fd Id),
      actions.filterMap requestOf = (sentRequests made).map (fun r => (localhost, r)) →
      exec step (.init start recoveryfd requestsfd querysfd backupbrokers) actions = some s →
      Unrecovered s.trace →
      Resolves (queryName (Requestor.replyProposerList cfg.servicename proposers)) r s) ↔
      ∃ e, LastOf ParticipateRequest.name (sentRequests made) e ∧ e.brokerip = noAddress ∧
        e.brokerport = r.brokerport ∧ monitoredIP r = localhost := by
  have hQuery : queryName (Requestor.replyProposerList cfg.servicename proposers) = noName := by
    unfold Requestor.Arguments.config at hConfig
    split at hConfig
    · cases hConfig
      exact (Requestor.mainArguments_landmark hFlag hMain).1
    · cases hConfig
  have hLast : (∃ e, LastOf ParticipateRequest.name (sentRequests made) e ∧ e.name = noName ∧
      monitoredIP e = monitoredIP r ∧ e.brokerport = r.brokerport) ↔
      ∃ e, LastOf ParticipateRequest.name (sentRequests made) e ∧ e.brokerip = noAddress ∧
        e.brokerport = r.brokerport ∧ monitoredIP r = localhost := by
    refine exists_congr fun e => and_congr_right fun hLast => ?_
    have he : e ∈ sentRequests made := by
      obtain ⟨before, after, hSplit, _⟩ := hLast
      simp [hSplit]
    rw [noName_iff hBootstrap he]
    refine and_congr_right fun hIP => ?_
    have hLocal : monitoredIP e = localhost := by simp [monitoredIP, hIP, noAddress]
    rw [hLocal, eq_comm (a := localhost), and_comm]
  have hWatching {actions : List (Action Fd Id)} {s : State Fd Id}
      (hRequests : actions.filterMap requestOf = (sentRequests made).map fun r => (localhost, r))
      (hExec : exec step (.init start recoveryfd requestsfd querysfd backupbrokers) actions =
        some s) : Watching (sentRequests made) s.ledger :=
    (watching_init start recoveryfd requestsfd querysfd backupbrokers).exec hRequests hExec
  rw [hQuery, ← hLast]
  constructor
  · intro h
    have hStart : Unrecovered
        (State.init start recoveryfd requestsfd querysfd backupbrokers : State Fd Id).trace :=
      fun _ _ _ _ hMem => by cases hMem
    obtain ⟨s, hExec, hTrace⟩ := exec_requests (sentRequests made) hStart
    have hRequests : ((sentRequests made).map fun r =>
        (.request localhost r unconnected : Action Fd Id)).filterMap requestOf =
          (sentRequests made).map fun r => (localhost, r) := by
      rw [List.filterMap_map]
      exact congrFun List.filterMap_eq_map (sentRequests made)
    exact ((hWatching hRequests hExec).resolves_iff hTrace noName r).mp (h _ s hRequests hExec hTrace)
  · intro h actions s hRequests hExec hTrace
    exact ((hWatching hRequests hExec).resolves_iff hTrace noName r).mpr h

end Bootstrap

section LocalBroker

/-- The url `127.0.0.1:5672`. -/
def localBroker : Text := localhost.bytes ++ [58, 53, 54, 55, 50]

/-- Every request is sent. -/
def allSent : Nat → SelfConnect := fun _ => ⟨true, true⟩

/-- The landmark of that broker, started with `landmark` on an empty machine. -/
def landmark : State Nat Nat := .init 0 (some 0) (some 1) (some 2) [localBroker]

/-- The request that the landmark sends itself for it. -/
def localRequest : ParticipateRequest := ⟨nameOfIP localhost, localhost, 5672, 2, 1, []⟩

/-- The command `requestor --landmark 127.0.0.1`, where the default lists exist
and are empty. -/
def localRequestor : Option Requestor.Arguments :=
  Requestor.mainArguments (fun _ => some [])
    [[45, 45, 108, 97, 110, 100, 109, 97, 114, 107], localhost.bytes]

theorem query_unresolved :
    ∃ cfg, localRequestor.bind Requestor.Arguments.config = some cfg ∧
      bootstrap allSent [localBroker] = some [(localRequest, true)] ∧
      ∃ s, exec step landmark [.request localhost localRequest unconnected] = some s ∧
        Unrecovered s.trace ∧
        ¬ Resolves (queryName (Requestor.replyProposerList cfg.servicename
          [⟨localhost, some 3, 0⟩])) localRequest s := by
  obtain ⟨s, hExec, hTrace⟩ := exec_requests [localRequest] (s := landmark) (by
    intro name rp r stored hMem
    cases hMem)
  have hSearch : (exec step landmark [.request localhost localRequest unconnected]).map
      (fun s => searchServiceByName noName s.monitor) = some none := by
    decide
  have hNone : searchServiceByName noName s.monitor = none := by
    rw [List.map_singleton] at hExec
    rw [hExec] at hSearch
    exact Option.some.inj hSearch
  refine ⟨_, rfl, by decide, s, hExec, hTrace, ?_⟩
  rintro ⟨i, mon, hFound, _⟩
  rw [show queryName _ = noName from rfl, hNone] at hFound
  cases hFound

/-- The request for the url `:5672`. -/
def addresslessRequest : ParticipateRequest := ⟨noName, noAddress, 5672, 2, 1, []⟩

theorem query_resolved_addressless :
    ∃ cfg, localRequestor.bind Requestor.Arguments.config = some cfg ∧
      ∀ (actions : List (Action Nat Nat)) (s : State Nat Nat),
        actions.filterMap requestOf = [(localhost, addresslessRequest)] →
        exec step landmark actions = some s → Unrecovered s.trace →
        Resolves (queryName (Requestor.replyProposerList cfg.servicename
          [(⟨localhost, some 3, 0⟩ : HeartbeatClient Nat)])) addresslessRequest s := by
  refine ⟨_, rfl, ?_⟩
  refine (query_resolved_iff (fun _ => some []) [45, 45, 108, 97, 110, 100, 109, 97, 114, 107]
    localhost.bytes _ _ (by decide) rfl rfl _ allSent [[58, 53, 54, 55, 50]]
    [(addresslessRequest, true)] (by decide) _ 0 (some 0) (some 1) (some 2) [localBroker]).mpr ?_
  exact ⟨addresslessRequest, ⟨[], [], rfl, by simp⟩, rfl, rfl, rfl⟩

end LocalBroker

end Proposer

end QpidRecovery
