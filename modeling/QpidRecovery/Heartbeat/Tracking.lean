import QpidRecovery.Heartbeat.World

/-! The connections between the proposer and the heartbeat servers. Every
client's descriptor stays registered, so a heartbeat that has arrived keeps the
proposer from waiting, and no two clients read from the same connection. -/
namespace QpidRecovery

namespace Proposer
variable {Fd Id : Type}

/-- The connections of the clients. -/
def State.conns (s : State Fd Id) : List Fd :=
  s.clients.filterMap fun c => c.bind HeartbeatClient.sfd

/-- The connection of a client. -/
theorem State.mem_conns {s : State Fd Id} {hbc : HeartbeatClient Fd} {c : Fd}
    (hClient : some hbc ∈ s.clients) (hOwn : hbc.sfd = some c) : c ∈ s.conns :=
  List.mem_filterMap.mpr ⟨some hbc, hClient, hOwn⟩

/-- The process holds the connections of its clients. -/
theorem State.conns_holding (s : State Fd Id) : (↑s.conns : Multiset Fd) ≤ s.holding.1 := by
  have hRecords : ∀ v : List (Monitored Fd),
      (↑((v.map Monitored.hbc).filterMap fun c => c.bind HeartbeatClient.sfd) : Multiset Fd) ≤
        (v.map Monitored.holding).sum.1 := by
    intro v
    induction v with
    | nil => exact Multiset.zero_le _
    | cons mon v ih =>
        have hSplit : (↑(((mon :: v).map Monitored.hbc).filterMap fun c =>
            c.bind HeartbeatClient.sfd) : Multiset Fd) =
            ↑(mon.hbc.bind HeartbeatClient.sfd).toList +
              ↑((v.map Monitored.hbc).filterMap fun c => c.bind HeartbeatClient.sfd) := by
          rw [Multiset.coe_add, List.map_cons]
          cases hOwn : mon.hbc.bind HeartbeatClient.sfd with
          | none => simp only [List.filterMap_cons, hOwn, Option.toList_none, List.nil_append]
          | some fd => simp only [List.filterMap_cons, hOwn, Option.toList_some, List.singleton_append]
        rw [hSplit, List.map_cons, List.sum_cons]
        refine add_le_add ?_ ih
        have hOwn : mon.holding.1 = ↑(mon.hbc.bind HeartbeatClient.sfd).toList +
            ↑mon.psm.connections + 0 := rfl
        rw [hOwn, add_zero]
        exact Multiset.le_add_right _ _
  exact (hRecords s.monitor).trans (Multiset.le_add_right _ _)

/-- A connection has its client. -/
theorem State.clients_of_mem {s : State Fd Id} {c : Fd} (h : c ∈ s.conns) :
    ∃ (i : Nat) (hbc : HeartbeatClient Fd), s.clients[i]? = some (some hbc) ∧ hbc.sfd = some c := by
  obtain ⟨client, hMem, hOwn⟩ := List.mem_filterMap.mp h
  obtain ⟨i, hi⟩ := List.mem_iff_getElem?.mp hMem
  obtain ⟨hbc, rfl, hSfd⟩ := Option.bind_eq_some_iff.mp hOwn
  exact ⟨i, hbc, hi, hSfd⟩

/-- A connection has one client. -/
theorem State.client_unique {s : State Fd Id} (hNodup : s.conns.Nodup) {i j : Nat}
    {a b : HeartbeatClient Fd} {c : Fd} (hi : s.clients[i]? = some (some a))
    (hj : s.clients[j]? = some (some b)) (ha : a.sfd = some c) (hb : b.sfd = some c) : i = j := by
  have hApart := List.pairwise_filterMap.mp hNodup
  rw [List.pairwise_iff_getElem] at hApart
  obtain ⟨hBound, hAt⟩ := List.getElem?_eq_some_iff.mp hi
  obtain ⟨hBound', hAt'⟩ := List.getElem?_eq_some_iff.mp hj
  rcases Nat.lt_trichotomy i j with hLess | rfl | hMore
  · refine absurd rfl (hApart i j hBound hBound' hLess c ?_ c ?_)
    · rw [hAt]
      exact ha
    · rw [hAt']
      exact hb
  · rfl
  · refine absurd rfl (hApart j i hBound' hBound hMore c ?_ c ?_)
    · rw [hAt']
      exact hb
    · rw [hAt]
      exact ha

/-- A descriptor that no client reads from is not a client's. -/
theorem State.not_mem_conns [DecidableEq Fd] {s : State Fd Id} {sfd : Fd}
    (h : receiver sfd s.monitor = none) : sfd ∉ s.conns := by
  intro hMem
  obtain ⟨client, hClient, hOwn⟩ := List.mem_filterMap.mp hMem
  obtain ⟨mon, hMon, rfl⟩ := List.mem_map.mp hClient
  have hNone := List.findIdx?_eq_none_iff.mp h mon hMon
  obtain ⟨hbc, hHbc, hSfd⟩ := Option.bind_eq_some_iff.mp hOwn
  rw [hHbc, Option.any_some] at hNone
  exact absurd hSfd (of_decide_eq_false hNone)

end Proposer

namespace Heartbeat

open Proposer Timed

variable {Fd Id : Type} [DecidableEq Fd] [DecidableEq Id] {w v : World Fd Id}

/-- An iteration of the proposer that is no timeout. -/
structure Acted (w : World Fd Id) (action : Action Fd Id) (v : World Fd Id) : Prop where
  idle : w.checking = none
  noWait : ∀ d, action ≠ .wait d
  noTimeout : ∀ o, action ≠ .timeout o
  reads : w.reads action = some v.beats
  dials : w.dials action = some v.hosts
  step : Proposer.step w.proposer action = some v.proposer
  fresh : ∀ fd ∈ Call.newFds (Proposer.calls w.proposer action), fd ∉ w.named
  kernel : Call.openedAfter (Proposer.calls w.proposer action) w.live = some v.live
  named : v.named = Call.newFds (Proposer.calls w.proposer action) ++ w.named
  timer : v.timer = w.timer
  checking : v.checking = none

omit [DecidableEq Id] in
/-- What the kernel hands out, and what becomes of the world. -/
theorem advance_eq {calls : List (Call Fd)} {t : Proposer.State Fd Id}
    (h : w.advance calls t = some v) :
    (∀ fd ∈ Call.newFds calls, fd ∉ w.named) ∧
      ∃ live, Call.openedAfter calls w.live = some live ∧
        v = { w with proposer := t, live := live, named := Call.newFds calls ++ w.named } := by
  unfold World.advance at h
  split at h
  · cases h
  next hFresh =>
    push Not at hFresh
    obtain ⟨live, hKernel, rfl⟩ := Option.map_eq_some_iff.mp h
    exact ⟨hFresh, live, hKernel, rfl⟩

/-- What an iteration has done. -/
theorem act_acted {action : Action Fd Id} (h : w.act action = some v) : Acted w action v := by
  unfold World.act at h
  split at h
  · cases h
  next hIdle =>
    have hNone : w.checking = none := by
      rwa [Bool.not_eq_true, Option.isSome_eq_false_iff, Option.isNone_iff_eq_none] at hIdle
    split at h
    · cases h
    · cases h
    next hWait hTimeout =>
      obtain ⟨beats, hReads, h⟩ := Option.bind_eq_some_iff.mp h
      obtain ⟨hosts, hDials, h⟩ := Option.bind_eq_some_iff.mp h
      obtain ⟨t, hStep, h⟩ := Option.bind_eq_some_iff.mp h
      obtain ⟨u, hAdvance, rfl⟩ := Option.map_eq_some_iff.mp h
      obtain ⟨hFresh, live, hKernel, rfl⟩ := advance_eq hAdvance
      exact ⟨hNone, hWait, hTimeout, hReads, hDials, hStep, hFresh, hKernel, rfl, rfl, hNone⟩

/-- One pass through the loop of the timeout branch. -/
structure Checked (w : World Fd Id) (o : Outcomes Fd) (i : Nat) (v : World Fd Id) : Prop where
  checking : w.checking = some i
  step : checkMonitored (fun _ => o) i w.proposer = some v.proposer
  fresh : ∀ fd ∈ Call.newFds (checkMonitoredCalls (fun _ => o) i w.proposer), fd ∉ w.named
  kernel : Call.openedAfter (checkMonitoredCalls (fun _ => o) i w.proposer) w.live = some v.live
  named : v.named = Call.newFds (checkMonitoredCalls (fun _ => o) i w.proposer) ++ w.named
  next : v.checking = World.position (i + 1) v.proposer.monitor.length
  timer : v.timer = w.timer
  hosts : v.hosts = w.hosts
  beats : v.beats = w.beats

/-- What a look at a record has done. -/
theorem check_checked {o : Outcomes Fd} (h : w.check o = some v) : ∃ i, Checked w o i v := by
  unfold World.check at h
  split at h
  · cases h
  next i hChecking =>
    obtain ⟨t, hStep, h⟩ := Option.bind_eq_some_iff.mp h
    obtain ⟨u, hAdvance, rfl⟩ := Option.map_eq_some_iff.mp h
    obtain ⟨hFresh, live, hKernel, rfl⟩ := advance_eq hAdvance
    exact ⟨i, hChecking, hStep, hFresh, hKernel, rfl, rfl, rfl, rfl, rfl⟩

/-- Everything that can happen, with the conditions under which it does. -/
inductive Happens (w : World Fd Id) : Event Fd Id → World Fd Id → Prop where
  | pass (d : Nat) (selecting : Bool) (serving : IPString → Bool) :
      Happens w (.pass d selecting serving) (w.pass d selecting serving)
  | connect (ip : IPString) (c : Fd) (hNew : c ∉ w.named) (hUp : (w.hosts ip).down = none) :
      Happens w (.connect ip c)
        { w.put ip ((w.hosts ip).connect c) with named := c :: w.named }
  | arrive (i : Nat) (b : Beat Fd) (hBeat : w.beats[i]? = some b) (hArrived : b.arrived = none) :
      Happens w (.arrive i)
        { w with beats := w.beats.set i { b with arrived := some w.now } }
  | accepted (ip : IPString) (c : Fd) (rest : List Fd) (hUp : (w.hosts ip).down = none)
      (hBacklog : (w.hosts ip).backlog = c :: rest) :
      Happens w (.accept ip true) (w.put ip { w.hosts ip with
        server := (w.hosts ip).server.accept (some c)
        backlog := rest })
  | refused (ip : IPString) (hUp : (w.hosts ip).down = none) :
      Happens w (.accept ip false)
        (w.put ip { w.hosts ip with server := (w.hosts ip).server.accept none })
  | timeout (ip : IPString) (hUp : (w.hosts ip).down = none)
      (hBacklog : (w.hosts ip).backlog = []) :
      Happens w (.timeout ip)
        (w.put ip { w.hosts ip with server := (w.hosts ip).server.timeout })
  | sent (ip : IPString) (i : Nat) (c : Fd) (hUp : (w.hosts ip).down = none)
      (hSending : (w.hosts ip).server.sending = some i)
      (hEntry : (w.hosts ip).server.sfdvec[i]? = some (some c)) :
      Happens w (.beat ip true)
        { w.put ip { w.hosts ip with server := (w.hosts ip).server.sent i } with
          beats := w.beats ++ [⟨ip, c, w.now, none⟩] }
  | unsent (ip : IPString) (written : Bool) (i : Nat) (sfd : Option Fd)
      (hUp : (w.hosts ip).down = none) (hSending : (w.hosts ip).server.sending = some i)
      (hEntry : (w.hosts ip).server.sfdvec[i]? = some sfd) (hFailed : sfd = none ∨ written = false) :
      Happens w (.beat ip written)
        (w.put ip { w.hosts ip with server := (w.hosts ip).server.unsent i })
  | resetTimeout (ip : IPString) (i : Nat) (hUp : (w.hosts ip).down = none)
      (hSending : (w.hosts ip).server.sending = some i)
      (hEnd : (w.hosts ip).server.sfdvec.length ≤ i) :
      Happens w (.resetTimeout ip)
        (w.put ip { w.hosts ip with server := (w.hosts ip).server.resetTimeout })
  | crash (ip : IPString) (hUp : (w.hosts ip).down = none) :
      Happens w (.crash ip) (w.put ip { w.hosts ip with down := some w.now })
  | act (action : Action Fd Id) (v : World Fd Id) (hActed : Acted w action v) :
      Happens w (.act action) v
  | expire (hIdle : w.checking = none) (hLeft : w.timer.left = 0) (hQuiet : w.quiet = true) :
      Happens w .expire { w with
        proposer := { w.proposer with totaltime := nextTotaltime w.proposer.totaltime }
        timer := .set 4000000
        checking := World.position 0 w.proposer.monitor.length }
  | check (o : Outcomes Fd) (i : Nat) (v : World Fd Id) (hChecked : Checked w o i v) :
      Happens w (.check o) v

/-- Nothing else can happen. -/
theorem step_happens {e : Event Fd Id} (h : w.step e = some v) : Happens w e v := by
  cases e with
  | pass d selecting serving =>
      cases h
      exact .pass d selecting serving
  | connect ip c =>
      simp only [World.step, World.connect] at h
      split at h
      · cases h
      next hGuard =>
        cases h
        rw [not_or, Option.not_isSome_iff_eq_none] at hGuard
        exact .connect ip c hGuard.1 hGuard.2
  | arrive i =>
      simp only [World.step, World.arrive] at h
      split at h
      · cases h
      next b hBeat =>
        split at h
        · cases h
        next hArrived =>
          cases h
          exact .arrive i b hBeat (Option.not_isSome_iff_eq_none.mp hArrived)
  | accept ip accepted =>
      simp only [World.step, World.accept] at h
      split at h
      · cases h
      next hGuard =>
        have hUpNow := Option.not_isSome_iff_eq_none.mp (not_or.mp hGuard).1
        split at h
        · cases h
        next c rest hBacklog =>
          cases accepted with
          | true =>
              cases h
              exact .accepted ip c rest hUpNow hBacklog
          | false =>
              cases h
              exact .refused ip hUpNow
  | timeout ip =>
      simp only [World.step, World.timeout] at h
      split at h
      · cases h
      next hGuard =>
        cases h
        simp only [not_or, ne_eq, not_not] at hGuard
        obtain ⟨hUp, _, hBacklog, _⟩ := hGuard
        exact .timeout ip (Option.not_isSome_iff_eq_none.mp hUp) hBacklog
  | beat ip written =>
      simp only [World.step, World.beat] at h
      split at h
      · cases h
      next hUp =>
        have hUpNow := Option.not_isSome_iff_eq_none.mp hUp
        obtain ⟨⟨server, c⟩, hPass, rfl⟩ := Option.map_eq_some_iff.mp h
        obtain ⟨i, sfd, hSending, hEntry, hCases⟩ := Server.sendHeartbeat_cases hPass
        rcases hCases with ⟨fd, rfl, rfl, rfl, rfl⟩ | ⟨hFailed, rfl, rfl⟩
        · exact .sent ip i fd hUpNow hSending hEntry
        · have hNothing := Happens.unsent ip written i sfd hUpNow hSending hEntry hFailed
          rw [Option.toList_none, List.map_nil, List.append_nil]
          exact hNothing
  | resetTimeout ip =>
      simp only [World.step, World.resetTimeout] at h
      split at h
      next i hUp hSending =>
        split at h
        · cases h
        next hEnd =>
          cases h
          exact .resetTimeout ip i hUp hSending (Nat.le_of_not_lt hEnd)
      · cases h
  | crash ip =>
      simp only [World.step, World.crash] at h
      split at h
      · cases h
      next hUp =>
        cases h
        exact .crash ip (Option.not_isSome_iff_eq_none.mp hUp)
  | act action => exact .act action v (act_acted h)
  | expire =>
      simp only [World.step, World.expire] at h
      split at h
      · cases h
      next hGuard =>
        cases h
        simp only [not_or, ne_eq, not_not, Bool.not_eq_false] at hGuard
        obtain ⟨hIdle, hLeft, hQuiet⟩ := hGuard
        exact .expire (Option.not_isSome_iff_eq_none.mp hIdle) hLeft hQuiet
  | check o =>
      obtain ⟨i, hChecked⟩ := check_checked h
      exact .check o i v hChecked

omit [DecidableEq Id] in
/-- Beats are only taken away. -/
theorem reads_subset {action : Action Fd Id} {beats : List (Beat Fd)}
    (h : w.reads action = some beats) : beats ⊆ w.beats := by
  unfold World.reads at h
  split at h
  · split at h
    · cases h
      exact List.Subset.refl _
    · split at h
      · split at h
        · cases h
          exact List.eraseP_subset
        · cases h
      · split at h
        · cases h
        · cases h
          exact List.Subset.refl _
  · cases h
    exact List.Subset.refl _

omit [DecidableEq Fd] [DecidableEq Id] in
/-- Only a request connects, and to a host that is up. -/
theorem dials_cases {action : Action Fd Id} {hosts : IPString → Host Fd}
    (h : w.dials action = some hosts) :
    (hosts = w.hosts ∧ ∀ fromip r o, action = .request fromip r o → o.heartbeat = none) ∨
      ∃ fromip r o c, action = .request fromip r o ∧ o.heartbeat = some c ∧
        (w.hosts (brokerOf fromip r)).down = none ∧
        hosts = Function.update w.hosts (brokerOf fromip r)
          ((w.hosts (brokerOf fromip r)).connect c) := by
  cases action with
  | request fromip r o =>
      simp only [World.dials] at h
      cases hConnect : o.heartbeat with
      | none =>
          rw [hConnect] at h
          cases h
          refine .inl ⟨rfl, ?_⟩
          intro fromip' r' o' hEq
          cases hEq
          exact hConnect
      | some c =>
          rw [hConnect] at h
          dsimp only at h
          split at h
          · cases h
          next hUp =>
            cases h
            exact .inr ⟨fromip, r, o, c, rfl, hConnect, Option.not_isSome_iff_eq_none.mp hUp, rfl⟩
  | _ =>
      cases h
      exact .inl ⟨rfl, by simp⟩

/-- The connection of a new client is new. -/
theorem newFds_heartbeat {fromip : IPString} {r : ParticipateRequest} {o : Outcomes Fd} {c : Fd}
    (s : Proposer.State Fd Id) (h : o.heartbeat = some c) :
    c ∈ Call.newFds (Proposer.calls s (.request fromip r o)) := by
  apply List.mem_filterMap.mpr
  refine ⟨.opened c, ?_, rfl⟩
  refine List.mem_append_left _ (List.mem_append_right _ ?_)
  simp [Call.connected, h]

/-- The descriptors of the proposer are in order, those of its clients are
registered, and all connections have their names. -/
structure Tracked (base : Holding Fd) (w : World Fd Id) : Prop where
  consistent : Consistent (base + w.proposer.holding) w.live w.proposer.fs
  watched : ∀ c ∈ w.proposer.conns, some c ∈ w.proposer.fs.regfd
  opened : ∀ c ∈ w.live, c ∈ w.named
  backlog : ∀ ip, ∀ c ∈ (w.hosts ip).backlog, c ∈ w.named
  accepted : ∀ ip c, some c ∈ (w.hosts ip).server.sfdvec → c ∈ w.named
  beats : ∀ b ∈ w.beats, b.conn ∈ w.named

namespace Tracked
variable {base : Holding Fd}

omit [DecidableEq Id] in
/-- The descriptors before the first event. -/
theorem initial (start : Time) {recoveryfd requestsfd querysfd : Fd} (backupbrokers : List Text)
    (hDistinct : [recoveryfd, requestsfd, querysfd].Nodup) :
    Tracked ((↑[recoveryfd, requestsfd, querysfd] : Multiset Fd), 0)
      (.init start recoveryfd requestsfd querysfd backupbrokers : World Fd Id) where
  consistent := by
    have hKernel : Call.openedAfter ([recoveryfd, requestsfd, querysfd].map .opened) [] =
        some [querysfd, requestsfd, recoveryfd] := by
      simp only [List.nodup_cons, List.mem_cons, List.not_mem_nil, or_false, not_or] at hDistinct
      obtain ⟨⟨hRequests, hQuery⟩, hServers, _⟩ := hDistinct
      simp [Call.openedAfter, Ne.symm hRequests, Ne.symm hQuery, Ne.symm hServers]
    exact init_consistent start backupbrokers List.nodup_nil hKernel
  watched := by
    intro c hMem
    cases hMem
  opened := fun c hMem => hMem
  backlog := by simp [World.init, Host.init]
  accepted := by simp [World.init, Host.init, Server.init]
  beats := by simp [World.init]

omit [DecidableEq Fd] [DecidableEq Id] in
/-- What the process holds has its name. -/
theorem isNamed (h : Tracked base w) {c : Fd} (hMem : c ∈ (base + w.proposer.holding).1) :
    c ∈ w.named :=
  h.opened c (h.consistent.isOpen c (Multiset.mem_add.mpr (.inl hMem)))

omit [DecidableEq Fd] [DecidableEq Id] in
/-- No two clients share a connection. -/
theorem distinct (h : Tracked base w) : w.proposer.conns.Nodup := by
  have hLess : (↑w.proposer.conns : Multiset Fd) ≤
      (base + w.proposer.holding).1 + (base + w.proposer.holding).2 :=
    (w.proposer.conns_holding.trans (Multiset.le_add_left _ _)).trans (Multiset.le_add_right _ _)
  exact Multiset.coe_nodup.mp (Multiset.nodup_of_le hLess h.consistent.distinct)

omit [DecidableEq Id] in
/-- The descriptors after the calls of the process. -/
theorem afterCalls (h : Tracked base w) {may : Option Fd → Prop} {calls : List (Call Fd)}
    {t : Proposer.State Fd Id} {live : List Fd} (hBooks : Books may calls w.proposer t)
    (hKernel : Call.openedAfter calls w.live = some live) :
    Consistent (base + t.holding) live t.fs := by
  have hAccounted := hBooks.accounted.frame base
  rw [add_comm _ base, add_comm _ base] at hAccounted
  rw [hBooks.fs]
  exact hAccounted.consistent h.consistent hKernel

omit [DecidableEq Id] in
/-- The proposer's own descriptors after calls that are accounted for. -/
theorem books (h : Tracked base w) {may : Option Fd → Prop} {calls : List (Call Fd)}
    {t : Proposer.State Fd Id} {live : List Fd} (hBooks : Books may calls w.proposer t)
    (hFresh : ∀ fd ∈ Call.newFds calls, fd ∉ w.named)
    (hKernel : Call.openedAfter calls w.live = some live)
    (hConns : ∀ c ∈ t.conns, c ∈ w.proposer.conns ∨ c ∈ Call.newFds calls)
    (hMay : ∀ fd, may (some fd) → fd ∉ t.conns) :
    Consistent (base + t.holding) live t.fs ∧ ∀ c ∈ t.conns, some c ∈ t.fs.regfd := by
  refine ⟨h.afterCalls hBooks hKernel, ?_⟩
  have hAccounted := hBooks.accounted.frame base
  rw [add_comm _ base, add_comm _ base] at hAccounted
  have hAll := hAccounted.watched (P := (· ∈ t.conns)) hMay h.consistent ?_ hKernel
  · intro c hMem
    rw [hBooks.fs]
    exact hAll c (Multiset.mem_add.mpr (.inr (Multiset.mem_of_le t.conns_holding hMem))) hMem
  · intro c hHeld hMem
    rcases hConns c hMem with hOld | hNew
    · exact h.watched c hOld
    · exact absurd (h.isNamed hHeld) (hFresh c hNew)

omit [DecidableEq Id] in
/-- The new state of the proposer, with what it opened. -/
theorem advance (h : Tracked base w) {calls : List (Call Fd)}
    (hOwn : Consistent (base + v.proposer.holding) v.live v.proposer.fs ∧
      ∀ c ∈ v.proposer.conns, some c ∈ v.proposer.fs.regfd)
    (hKernel : Call.openedAfter calls w.live = some v.live)
    (hNamed : v.named = Call.newFds calls ++ w.named)
    (hBacklog : ∀ ip, ∀ c ∈ (v.hosts ip).backlog, c ∈ v.named)
    (hAccepted : ∀ ip c, some c ∈ (v.hosts ip).server.sfdvec → c ∈ v.named)
    (hBeats : ∀ b ∈ v.beats, b.conn ∈ v.named) : Tracked base v where
  consistent := hOwn.1
  watched := hOwn.2
  opened := by
    intro c hMem
    rw [hNamed]
    rcases Call.openedAfter_subset hKernel c hMem with hOld | hNew
    · exact List.mem_append_right _ (h.opened c hOld)
    · exact List.mem_append_left _ hNew
  backlog := hBacklog
  accepted := hAccepted
  beats := hBeats

/-- The clients' connections after an iteration. Only the one whose heartbeat was
read may be the ready descriptor. -/
theorem acted_own (h : Tracked base w) {action : Action Fd Id} (hActed : Acted w action v) :
    Consistent (base + v.proposer.holding) v.live v.proposer.fs ∧
      ∀ c ∈ v.proposer.conns, some c ∈ v.proposer.fs.regfd := by
  have hBooks (may : Option Fd → Prop) (hNone : may none)
      (hReady : ∀ sfd input o, action = .ready sfd input o → may (some sfd)) :=
    step_books hNone hReady hActed.step
  cases step_clients hActed.noWait hActed.noTimeout hActed.step with
  | same action hOther hNow hClients =>
      have hConns : v.proposer.conns = w.proposer.conns := by
        rw [State.conns, hClients, State.conns]
      refine h.books (hBooks (fun x => ∀ fd ∈ w.proposer.conns, x ≠ some fd) (by simp) ?_)
        hActed.fresh hActed.kernel ?_ ?_
      · rintro sfd input o rfl fd hMem hSame
        cases hSame
        exact State.not_mem_conns (hOther sfd input o rfl) hMem
      · intro c hMem
        exact .inl (hConns ▸ hMem)
      · intro fd hMay hMem
        exact hMay fd (hConns ▸ hMem) rfl
  | created fromip r o kept hNow hKept hClients =>
      refine h.books (hBooks (· = none) rfl (by simp)) hActed.fresh hActed.kernel ?_ (by simp)
      intro c hMem
      rw [State.conns, hClients, List.filterMap_append] at hMem
      rcases List.mem_append.mp hMem with hOld | hNew
      · exact .inl ((hKept.filterMap _).subset hOld)
      · obtain ⟨client, hClient, hOwn⟩ := List.mem_filterMap.mp hNew
        rw [List.mem_singleton.mp hClient] at hOwn
        exact .inr (newFds_heartbeat w.proposer hOwn)
  | heard sfd input o i hbc hNow hReceiver hClient hOwn hRead hFs hClients =>
      have hSame : v.proposer.clients.map (fun c => c.bind HeartbeatClient.sfd) =
          w.proposer.clients.map fun c => c.bind HeartbeatClient.sfd := by
        rw [hClients, List.map_set]
        apply set_getElem?
        rw [List.getElem?_map, hClient]
        rfl
      have hFilter : ∀ s : Proposer.State Fd Id, s.conns =
          (s.clients.map fun c => c.bind HeartbeatClient.sfd).filterMap id := by
        intro s
        rw [List.filterMap_map]
        rfl
      refine ⟨h.afterCalls (hBooks (fun _ => True) trivial fun _ _ _ _ => trivial)
        hActed.kernel, ?_⟩
      rw [hFilter, hSame, ← hFilter, hFs]
      exact h.watched
  | lost sfd input o i hbc hNow hReceiver hClient hOwn hRead hClients =>
      have hOthers : ∀ c ∈ v.proposer.conns, c ∈ w.proposer.conns ∧ c ≠ sfd := by
        intro c hMem
        obtain ⟨j, other, hOther, hConn⟩ := State.clients_of_mem hMem
        rw [hClients] at hOther
        by_cases hIndex : i = j
        · subst hIndex
          rw [List.getElem?_set_self (List.getElem?_eq_some_iff.mp hClient).1] at hOther
          cases hOther
        · rw [List.getElem?_set_ne hIndex] at hOther
          refine ⟨State.mem_conns (List.mem_of_getElem? hOther) hConn, ?_⟩
          rintro rfl
          exact hIndex (State.client_unique h.distinct hClient hOther hOwn hConn)
      refine h.books (hBooks (fun x => x = none ∨ x = some sfd) (.inl rfl) ?_) hActed.fresh
        hActed.kernel (fun c hMem => .inl (hOthers c hMem).1) ?_
      · rintro sfd' input' o' hEq
        cases hEq
        exact .inr rfl
      · rintro fd (hNone | hSome) hMem
        · cases hNone
        · cases hSome
          exact (hOthers _ hMem).2 rfl

/-- An iteration keeps the descriptors in order. -/
theorem act (h : Tracked base w) {action : Action Fd Id} (hActed : Acted w action v) :
    Tracked base v := by
  have hGrow : ∀ c ∈ w.named, c ∈ v.named := by
    intro c hMem
    rw [hActed.named]
    exact List.mem_append_right _ hMem
  have hHosts : (∀ ip, ∀ c ∈ (v.hosts ip).backlog, c ∈ v.named) ∧
      ∀ ip c, some c ∈ (v.hosts ip).server.sfdvec → c ∈ v.named := by
    rcases dials_cases hActed.dials with ⟨hSame, _⟩ | ⟨fromip, r, o, c, rfl, hConnect, _, hUpdate⟩
    · rw [hSame]
      exact ⟨fun ip c hMem => hGrow c (h.backlog ip c hMem),
        fun ip c hMem => hGrow c (h.accepted ip c hMem)⟩
    · rw [hUpdate]
      refine ⟨?_, ?_⟩
      · intro ip c' hMem
        by_cases hIP : ip = brokerOf fromip r
        · rw [hIP, Function.update_self] at hMem
          rcases List.mem_append.mp hMem with hOld | hNew
          · exact hGrow c' (h.backlog _ c' hOld)
          · rw [List.mem_singleton.mp hNew, hActed.named]
            exact List.mem_append_left _ (newFds_heartbeat w.proposer hConnect)
        · rw [Function.update_of_ne hIP] at hMem
          exact hGrow c' (h.backlog ip c' hMem)
      · intro ip c' hMem
        by_cases hIP : ip = brokerOf fromip r
        · rw [hIP, Function.update_self] at hMem
          exact hGrow c' (h.accepted _ c' hMem)
        · rw [Function.update_of_ne hIP] at hMem
          exact hGrow c' (h.accepted ip c' hMem)
  exact h.advance (h.acted_own hActed) hActed.kernel hActed.named hHosts.1 hHosts.2
    fun b hMem => hGrow b.conn (h.beats b (reads_subset hActed.reads hMem))

/-- A client that is looked at is kept or given up. -/
theorem check (h : Tracked base w) {o : Outcomes Fd} {i : Nat} (hChecked : Checked w o i v) :
    Tracked base v := by
  have hConns : ∀ c ∈ v.proposer.conns, c ∈ w.proposer.conns := by
    intro c hMem
    obtain ⟨j, hbc, hClient, hConn⟩ := State.clients_of_mem hMem
    exact State.mem_conns (checked_clients hChecked.step (List.mem_of_getElem? hClient)) hConn
  have hBooks : Books (none = ·) _ _ _ := checkMonitored_books rfl hChecked.step
  have hGrow : ∀ c ∈ w.named, c ∈ v.named := by
    intro c hMem
    rw [hChecked.named]
    exact List.mem_append_right _ hMem
  refine h.advance (h.books hBooks hChecked.fresh hChecked.kernel
    (fun c hMem => .inl (hConns c hMem)) (by simp)) hChecked.kernel hChecked.named ?_ ?_ ?_
  · rw [hChecked.hosts]
    exact fun ip c hMem => hGrow c (h.backlog ip c hMem)
  · rw [hChecked.hosts]
    exact fun ip c hMem => hGrow c (h.accepted ip c hMem)
  · rw [hChecked.beats]
    exact fun b hMem => hGrow b.conn (h.beats b hMem)

omit [DecidableEq Fd] [DecidableEq Id] in
/-- The proposer's records and descriptors stay as they are. -/
theorem keep (h : Tracked base w) (hMonitor : v.proposer.monitor = w.proposer.monitor)
    (hHolding : v.proposer.holding = w.proposer.holding) (hFs : v.proposer.fs = w.proposer.fs)
    (hLive : v.live = w.live) (hNamed : w.named ⊆ v.named)
    (hBacklog : ∀ ip, ∀ c ∈ (v.hosts ip).backlog, c ∈ v.named)
    (hAccepted : ∀ ip c, some c ∈ (v.hosts ip).server.sfdvec → c ∈ v.named)
    (hBeats : ∀ b ∈ v.beats, b.conn ∈ v.named) : Tracked base v where
  consistent := by
    rw [hHolding, hLive, hFs]
    exact h.consistent
  watched := by
    rw [State.conns, State.clients, hMonitor, hFs]
    exact h.watched
  opened := by
    rw [hLive]
    exact fun c hMem => hNamed (h.opened c hMem)
  backlog := hBacklog
  accepted := hAccepted
  beats := hBeats

omit [DecidableEq Fd] [DecidableEq Id] in
/-- One host changes, and its connections keep their names. -/
theorem put (h : Tracked base w) (ip : IPString) {host : Host Fd}
    (hBacklog : ∀ c ∈ host.backlog, c ∈ w.named)
    (hAccepted : ∀ c, some c ∈ host.server.sfdvec → c ∈ w.named) : Tracked base (w.put ip host) := by
  refine h.keep rfl rfl rfl rfl (List.Subset.refl _) ?_ ?_ h.beats
  · intro ip' c hMem
    by_cases hIP : ip' = ip
    · rw [hIP, World.put_self] at hMem
      exact hBacklog c hMem
    · rw [World.put_of_ne hIP] at hMem
      exact h.backlog ip' c hMem
  · intro ip' c hMem
    by_cases hIP : ip' = ip
    · rw [hIP, World.put_self] at hMem
      exact hAccepted c hMem
    · rw [World.put_of_ne hIP] at hMem
      exact h.accepted ip' c hMem

/-- Every event keeps them in order. -/
theorem step (h : Tracked base w) {e : Event Fd Id} (hStep : w.step e = some v) :
    Tracked base v := by
  cases step_happens hStep with
  | pass d selecting serving =>
      exact h.keep rfl rfl rfl rfl (List.Subset.refl _) h.backlog h.accepted h.beats
  | connect ip c hNew hUp =>
      have hNamed : Tracked base { w with named := c :: w.named } :=
        h.keep rfl rfl rfl rfl (List.subset_cons_self _ _)
          (fun ip c' hMem => List.mem_cons_of_mem _ (h.backlog ip c' hMem))
          (fun ip c' hMem => List.mem_cons_of_mem _ (h.accepted ip c' hMem))
          fun b hMem => List.mem_cons_of_mem _ (h.beats b hMem)
      refine hNamed.put ip ?_ fun c' hMem => hNamed.accepted ip c' hMem
      intro c' hMem
      rcases List.mem_append.mp hMem with hOld | hLast
      · exact hNamed.backlog ip c' hOld
      · rw [List.mem_singleton.mp hLast]
        exact List.mem_cons_self
  | arrive i b hBeat hArrived =>
      refine h.keep rfl rfl rfl rfl (List.Subset.refl _) h.backlog h.accepted ?_
      intro b' hMem
      rcases List.mem_or_eq_of_mem_set hMem with hOld | rfl
      · exact h.beats b' hOld
      · exact h.beats b (List.mem_of_getElem? hBeat)
  | accepted ip c rest hUp hBacklog =>
      have hPending := h.backlog ip
      rw [hBacklog] at hPending
      refine h.put ip (fun c' hMem => hPending c' (List.mem_cons_of_mem _ hMem)) ?_
      intro c' hMem
      rcases List.mem_append.mp hMem with hOld | hLast
      · exact h.accepted ip c' hOld
      · cases List.mem_singleton.mp hLast
        exact hPending _ List.mem_cons_self
  | refused ip hUp =>
      refine h.put ip (h.backlog ip) ?_
      intro c' hMem
      rcases List.mem_append.mp hMem with hOld | hLast
      · exact h.accepted ip c' hOld
      · cases List.mem_singleton.mp hLast
  | timeout ip => exact h.put ip (h.backlog ip) (h.accepted ip)
  | sent ip i c hUp hSending hEntry =>
      have hHost : Tracked base (w.put ip { w.hosts ip with
          server := (w.hosts ip).server.sent i }) :=
        h.put ip (h.backlog ip) (h.accepted ip)
      refine hHost.keep rfl rfl rfl rfl (List.Subset.refl _) hHost.backlog hHost.accepted ?_
      intro b hMem
      rcases List.mem_append.mp hMem with hOld | hNew
      · exact h.beats b hOld
      · rw [List.mem_singleton.mp hNew]
        exact h.accepted ip c (List.mem_of_getElem? hEntry)
  | unsent ip written i sfd =>
      exact h.put ip (h.backlog ip) fun c hMem => h.accepted ip c (List.mem_of_mem_eraseIdx hMem)
  | resetTimeout ip => exact h.put ip (h.backlog ip) (h.accepted ip)
  | crash ip hUp => exact h.put ip (h.backlog ip) (h.accepted ip)
  | act action _ hActed => exact h.act hActed
  | expire hIdle hLeft hQuiet =>
      exact h.keep rfl rfl rfl rfl (List.Subset.refl _) h.backlog h.accepted h.beats
  | check o i _ hChecked => exact h.check hChecked

end Tracked

end Heartbeat

end QpidRecovery
