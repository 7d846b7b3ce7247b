import QpidRecovery.Proposer.Frame

/-! What an iteration of the proposer does to its heartbeat clients. A client is
made by a request, keeps the time of the last heartbeat that was read, and is
given up when a read fails or nothing was read for too long. -/
namespace QpidRecovery.Proposer

variable {Fd Id : Type}

/-- The clients in the order of their records. -/
def State.clients (s : State Fd Id) : List (Option (HeartbeatClient Fd)) :=
  s.monitor.map Monitored.hbc

/-- The clients and the clock are the same. -/
structure SameClients (s t : State Fd Id) : Prop where
  now : t.now = s.now
  clients : t.clients = s.clients

namespace SameClients

variable {s t u : State Fd Id}

theorem refl (s : State Fd Id) : SameClients s s := ⟨rfl, rfl⟩

theorem trans (left : SameClients s t) (right : SameClients t u) : SameClients s u :=
  ⟨right.now.trans left.now, right.clients.trans left.clients⟩

/-- The clients are part of the records. -/
theorem of_monitor (hNow : t.now = s.now) (hMonitor : t.monitor = s.monitor) : SameClients s t :=
  ⟨hNow, congrArg (List.map Monitored.hbc) hMonitor⟩

end SameClients

/-- A record takes its client along. -/
theorem State.clients_put (i : Nat) (mon : Monitored Fd) (s : State Fd Id) :
    (s.put i mon).clients = s.clients.set i mon.hbc := by
  rw [State.clients, State.put, List.map_set]
  rfl

/-- The client of a record. -/
theorem State.clients_getElem? {s : State Fd Id} {i : Nat} {mon : Monitored Fd}
    (h : s.monitor[i]? = some mon) : s.clients[i]? = some mon.hbc := by
  rw [State.clients, List.getElem?_map, h, Option.map_some]

/-- A record that keeps its client. -/
theorem SameClients.put {s t : State Fd Id} (h : SameClients s t) {i : Nat}
    {mon mon' : Monitored Fd} (hMon : s.monitor[i]? = some mon) (hClient : mon'.hbc = mon.hbc) :
    SameClients s (t.put i mon') := by
  refine ⟨h.now, ?_⟩
  rw [State.clients_put, h.clients, hClient]
  exact set_getElem? (State.clients_getElem? hMon)

/-- What a function that works on one record beside the state leaves alone. -/
structure Beside (s : State Fd Id) (t : State Fd Id) : Prop where
  now : t.now = s.now
  monitor : t.monitor = s.monitor

theorem Beside.same {s t : State Fd Id} (h : Beside s t) : SameClients s t :=
  .of_monitor h.now h.monitor

section Parts
variable [DecidableEq Fd] [DecidableEq Id] {s t : State Fd Id} {mon mon' : Monitored Fd}

/-- A commit leaves the clients alone. -/
theorem handleCommit_client {o : Outcomes Fd} {r : PaxosResult} {returned : Int}
    (h : handleCommit o r mon s = some ((mon', t), returned)) :
    mon'.hbc = mon.hbc ∧ Beside s t := by
  generalize hOut : (mon', t) = out at h
  cases handleCommit_commit h with
  | nothing | empty =>
      cases hOut
      exact ⟨rfl, rfl, rfl⟩
  | recovered rp _ _ hCommit =>
      subst hOut
      unfold commitRecovery at hCommit
      dsimp only at hCommit
      split at hCommit
      · obtain ⟨copied, _, hEq⟩ := Option.map_eq_some_iff.mp hCommit
        cases hEq
        exact ⟨rfl, rfl, rfl⟩
      · cases hCommit
        exact ⟨rfl, rfl, rfl⟩
  | changed ap _ _ =>
      cases hOut
      exact ⟨rfl, rfl, rfl⟩

/-- So does a message. -/
theorem handlePaxosMessage_clients {o : Outcomes Fd} {ready : Fd} {m : PaxosMessage} {n i : Nat}
    (h : handlePaxosMessage o ready m n i s = some t) : SameClients s t := by
  rcases handlePaxosMessage_cases h with ⟨rfl, _⟩ | ⟨j, mon, r, hMon, _, hRest⟩
  · exact .refl _
  · have hPerform : SameClients s (s.perform r.effects) := .of_monitor rfl rfl
    have hPut : SameClients s ((s.perform r.effects).put j { mon with psm := r.machine }) :=
      hPerform.put hMon rfl
    rcases hRest with ⟨_, rfl⟩ | ⟨_, mon', s', hCommit, rfl⟩
    · exact hPut
    · obtain ⟨hClient, hBeside⟩ := handleCommit_client hCommit
      exact (hPut.trans hBeside.same).put hMon hClient

/-- The client is given up. -/
theorem startRecovery_client {o : Outcomes Fd} (h : startRecovery o mon s = some (mon', t)) :
    mon'.hbc = none ∧ Beside s t := by
  obtain ⟨hbc, _, rest, _, _, r, _, _, _, _, _, hCommit⟩ := startRecovery_cases h
  obtain ⟨hClient, hBeside⟩ := handleCommit_client hCommit
  exact ⟨hClient, hBeside.now, hBeside.monitor⟩

/-- A client is looked at, and given up if it is expired. -/
theorem checkMonitored_clients {o : Nat → Outcomes Fd} {i : Nat}
    (h : checkMonitored o i s = some t) : t.now = s.now ∧
      t.clients = s.clients.modify i fun hbc =>
        hbc.filter fun hbc => !hbc.isExpired s.now (HEARTBEAT_PERIOD * 2) := by
  unfold checkMonitored at h
  cases hMon : s.monitor[i]? with
  | none =>
      rw [hMon] at h
      cases h
      refine ⟨rfl, (List.modify_eq_self ?_).symm⟩
      rw [State.clients, List.length_map]
      exact List.getElem?_eq_none_iff.mp hMon
  | some mon =>
      rw [hMon] at h
      dsimp only at h
      generalize hOut : (if s.totaltime = 0 then informAll (o i).checked
        { mon with psm := (mon.psm.checkTimeout s.now (seconds 4)).1 } s
        else ({ mon with psm := (mon.psm.checkTimeout s.now (seconds 4)).1 }, s)) = out at h
      have hInform : out.1.hbc = mon.hbc ∧ Beside s out.2 := by
        split at hOut
        · subst hOut
          exact ⟨rfl, rfl, rfl⟩
        · subst hOut
          exact ⟨rfl, rfl, rfl⟩
      obtain ⟨hKept, hBeside⟩ := hInform
      have hModify (kept : Option (HeartbeatClient Fd)) (hFilter : kept =
          mon.hbc.filter fun hbc => !hbc.isExpired s.now (HEARTBEAT_PERIOD * 2)) :
          s.clients.set i kept = s.clients.modify i fun hbc =>
            hbc.filter fun hbc => !hbc.isExpired s.now (HEARTBEAT_PERIOD * 2) := by
        rw [List.modify_eq_set_getElem?, State.clients_getElem? hMon]
        simp [hFilter]
      cases hClient : out.1.hbc with
      | none =>
          rw [hClient] at h
          cases h
          refine ⟨hBeside.now, ?_⟩
          rw [State.clients_put, hBeside.same.clients, hClient]
          apply hModify
          rw [← hKept, hClient]
          rfl
      | some hbc =>
          rw [hClient] at h
          dsimp only at h
          have hOwn : mon.hbc = some hbc := hKept.symm.trans hClient
          split at h
          next hExpired =>
            obtain ⟨⟨mon', u⟩, hStart, rfl⟩ := Option.map_eq_some_iff.mp h
            obtain ⟨hGone, hAfter⟩ := startRecovery_client hStart
            refine ⟨hAfter.now.trans hBeside.now, ?_⟩
            rw [State.clients_put, hAfter.same.clients, hBeside.same.clients, hGone]
            apply hModify
            rw [hOwn, Option.filter_some, hExpired]
            rfl
          next hBeats =>
            cases h
            refine ⟨hBeside.now, ?_⟩
            rw [State.clients_put, hBeside.same.clients, hClient]
            apply hModify
            rw [hOwn, Option.filter_some, Bool.eq_false_of_not_eq_true hBeats]
            rfl

/-- Nobody is new. -/
theorem checked_clients {o : Nat → Outcomes Fd} {i : Nat} (h : checkMonitored o i s = some t)
    {hbc : HeartbeatClient Fd} (hClient : some hbc ∈ t.clients) : some hbc ∈ s.clients := by
  obtain ⟨j, hj⟩ := List.mem_iff_getElem?.mp hClient
  rw [(checkMonitored_clients h).2, List.getElem?_modify] at hj
  obtain ⟨old, hOld, hKept⟩ := Option.map_eq_some_iff.mp hj
  split at hKept
  · obtain ⟨rfl, _⟩ := Option.filter_eq_some_iff.mp hKept
    exact List.mem_of_getElem? hOld
  · rw [← hKept]
    exact List.mem_of_getElem? hOld

/-- So does an event. -/
theorem handleEvent_clients {o : Outcomes Fd} {le : ListenerEvent Id}
    (h : handleEvent o le s = some t) : SameClients s t := by
  cases le with
  | brokerDisconnection brokerip brokerport =>
      obtain ⟨ip, _, rfl⟩ := Option.map_eq_some_iff.mp h
      exact ⟨rfl, rfl⟩
  | linkDown srcip srcport dstip dstport =>
      unfold handleEvent linkDown at h
      dsimp only at h
      split at h
      · cases h
        exact .refl _
      · split at h
        · cases h
          exact .refl _
        · split at h
          · obtain ⟨l, _, rfl⟩ := Option.map_eq_some_iff.mp h
            exact ⟨rfl, rfl⟩
          · cases h
  | objectProperty objinfo =>
      unfold handleEvent at h
      dsimp only at h
      split at h
      · obtain ⟨dst, _, rfl⟩ := Option.map_eq_some_iff.mp h
        unfold listenProposerList
        split
        · exact ⟨rfl, rfl⟩
        · exact ⟨rfl, rfl⟩
      · cases h
        exact ⟨rfl, rfl⟩

omit [DecidableEq Fd] [DecidableEq Id] in
/-- So does a query. -/
theorem handleQuery_clients (o : Outcomes Fd) (newsfd : Fd) (name : ServiceName)
    (s : State Fd Id) : SameClients s (handleQuery o newsfd name s) := by
  unfold handleQuery
  split
  · exact ⟨rfl, rfl⟩
  · split
    · exact .refl s
    next mon hMon =>
      unfold addInformList
      dsimp only
      split
      · have hLogged : SameClients s ((s.log (informs o.written mon.address [newsfd])).log
            [.subscribed mon.name newsfd]) := ⟨rfl, rfl⟩
        exact hLogged.put hMon rfl
      · have hLogged : SameClients s (s.log (informs o.written mon.address [newsfd])) := ⟨rfl, rfl⟩
        exact hLogged.put hMon rfl

/-- The address that a request is about. -/
def brokerOf (fromip : IPString) (r : ParticipateRequest) : IPString :=
  if r.brokerip.bytes = [] then fromip else r.brokerip

omit [DecidableEq Id] in
/-- The new client comes last, and the old one of that name is gone. -/
theorem handleRequest_clients (o : Outcomes Fd) (fromip : IPString) (r : ParticipateRequest)
    (s : State Fd Id) :
    (handleRequest o fromip r s).now = s.now ∧
      ∃ kept, kept.Sublist s.clients ∧ (handleRequest o fromip r s).clients =
        kept ++ [some (HeartbeatClient.new s.now o.heartbeat (brokerOf fromip r))] := by
  have hErase : (eraseMonitored r.name s).now = s.now := by
    unfold eraseMonitored
    split
    · rfl
    · split
      · rfl
      · rfl
  have hMonitor := (eraseMonitored_ledger r.name s).1
  refine ⟨hErase, (s.monitor.eraseP fun mon => mon.name = r.name).map Monitored.hbc, ?_, ?_⟩
  · exact List.eraseP_sublist.map Monitored.hbc
  · rw [← hMonitor, ← hErase]
    exact List.map_append

/-- What an iteration other than the timeout branch does to the clients. -/
inductive ClientStep (s t : State Fd Id) : Action Fd Id → Prop where
  | same (action : Action Fd Id)
      (hOther : ∀ sfd input o, action = .ready sfd input o → receiver sfd s.monitor = none)
      (hNow : t.now = s.now) (hClients : t.clients = s.clients) : ClientStep s t action
  | created (fromip : IPString) (r : ParticipateRequest) (o : Outcomes Fd)
      (kept : List (Option (HeartbeatClient Fd))) (hNow : t.now = s.now)
      (hKept : kept.Sublist s.clients)
      (hClients : t.clients =
        kept ++ [some (HeartbeatClient.new s.now o.heartbeat (brokerOf fromip r))]) :
      ClientStep s t (.request fromip r o)
  | heard (sfd : Fd) (input : Input) (o : Outcomes Fd) (i : Nat) (hbc : HeartbeatClient Fd)
      (hNow : t.now = s.now) (hReceiver : receiver sfd s.monitor = some i)
      (hClient : s.clients[i]? = some (some hbc)) (hOwn : hbc.sfd = some sfd)
      (hRead : input.heartbeat = true) (hFs : t.fs = s.fs)
      (hClients : t.clients = s.clients.set i (some (hbc.readMessage s.now))) :
      ClientStep s t (.ready sfd input o)
  | lost (sfd : Fd) (input : Input) (o : Outcomes Fd) (i : Nat) (hbc : HeartbeatClient Fd)
      (hNow : t.now = s.now) (hReceiver : receiver sfd s.monitor = some i)
      (hClient : s.clients[i]? = some (some hbc)) (hOwn : hbc.sfd = some sfd)
      (hRead : input.heartbeat = false) (hClients : t.clients = s.clients.set i none) :
      ClientStep s t (.ready sfd input o)

omit [DecidableEq Id] in
/-- The record that was found has a client on this descriptor. -/
theorem client_of_receiver {sfd : Fd} {i : Nat} {mon : Monitored Fd}
    (hReceiver : receiver sfd s.monitor = some i) (hMon : s.monitor[i]? = some mon) :
    ∃ hbc, mon.hbc = some hbc ∧ hbc.sfd = some sfd := by
  obtain ⟨hBound, hOwns, _⟩ := List.findIdx?_eq_some_iff_getElem.mp hReceiver
  rw [(List.getElem?_eq_some_iff.mp hMon).2] at hOwns
  cases hClient : mon.hbc with
  | none =>
      rw [hClient] at hOwns
      cases hOwns
  | some hbc =>
      rw [hClient] at hOwns
      exact ⟨hbc, rfl, of_decide_eq_true hOwns⟩

/-- What a ready descriptor does to the clients. -/
theorem handleReady_clients {o : Outcomes Fd} {sfd : Fd} {input : Input}
    (h : handleReady o sfd input s = some t) : ClientStep s t (.ready sfd input o) := by
  have hNobody (hReceiver : receiver sfd s.monitor = none) :
      ∀ sfd' input' o', (Action.ready sfd input o : Action Fd Id) = .ready sfd' input' o' →
        receiver sfd' s.monitor = none := by
    intro sfd' input' o' hEq
    cases hEq
    exact hReceiver
  cases handleReady_step h with
  | beat i mon hReceiver hMon hRead hNext =>
      obtain ⟨hbc, hClient, hOwn⟩ := client_of_receiver hReceiver hMon
      have hEntry := State.clients_getElem? hMon
      rw [hClient] at hEntry
      subst hNext
      refine .heard sfd input o i hbc rfl hReceiver hEntry hOwn hRead rfl ?_
      rw [State.clients_put, hClient]
      rfl
  | lost i mon out hReceiver hMon hRead hStart hNext =>
      obtain ⟨hbc, hClient, hOwn⟩ := client_of_receiver hReceiver hMon
      have hEntry := State.clients_getElem? hMon
      rw [hClient] at hEntry
      obtain ⟨hGone, hBeside⟩ := startRecovery_client hStart
      subst hNext
      refine .lost sfd input o i hbc hBeside.now hReceiver hEntry hOwn hRead ?_
      rw [State.clients_put, hBeside.same.clients, hGone]
  | changed link newip newport hReceiver hLink hNext =>
      rcases startRerouting_cases hNext with ⟨_, rfl⟩ | ⟨_, rm, calls, _, _, rfl⟩
      · exact .same _ (hNobody hReceiver) rfl rfl
      · exact .same _ (hNobody hReceiver) rfl rfl
  | answered hReceiver hLink hResult hNext =>
      subst hNext
      exact .same _ (hNobody hReceiver) rfl rfl
  | listed i hReceiver hResult hFound hNext =>
      subst hNext
      unfold readProposerList
      cases input.proposers with
      | reply plist => exact .same _ (hNobody hReceiver) rfl rfl
      | short overlay => exact .same _ (hNobody hReceiver) rfl rfl
      | failed => exact .same _ (hNobody hReceiver) rfl rfl
  | message m hReceiver hResult hFound hMessage hNext =>
      have hSame := handlePaxosMessage_clients hNext
      exact .same _ (hNobody hReceiver) hSame.now hSame.clients
  | unread hReceiver hResult hFound hMessage hNext =>
      subst hNext
      exact .same _ (hNobody hReceiver) rfl rfl

/-- What an iteration does to the clients, a timeout apart. -/
theorem step_clients {action : Action Fd Id} (hWait : ∀ d, action ≠ .wait d)
    (hTimeout : ∀ o, action ≠ .timeout o) (h : step s action = some t) :
    ClientStep s t action := by
  cases action with
  | wait d => exact absurd rfl (hWait d)
  | timeout o => exact absurd rfl (hTimeout o)
  | request fromip r o =>
      cases h
      obtain ⟨hNow, kept, hKept, hClients⟩ := handleRequest_clients o fromip r s
      exact .created fromip r o kept hNow hKept hClients
  | query newsfd name o =>
      cases h
      have hSame := handleQuery_clients o newsfd name s
      exact .same _ (by simp) hSame.now hSame.clients
  | event le o =>
      have hSame := handleEvent_clients h
      exact .same _ (by simp) hSame.now hSame.clients
  | ready sfd input o => exact handleReady_clients h

end Parts

end QpidRecovery.Proposer
