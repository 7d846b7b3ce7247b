import QpidRecovery.Heartbeat.Accuracy

/-! A broker that has failed is noticed in time, also when its host goes away
without closing a connection. The selector's timeout only counts the time that
the proposer waits, so the bound is one of the time that it does not. -/
namespace QpidRecovery.Heartbeat

open Proposer Timed Transition

variable {Fd Id : Type} [DecidableEq Fd] [DecidableEq Id] {B : Budget} {w v : World Fd Id}
  {base : Holding Fd}

/-- Only the budget is kept. Connections may be refused, and writes may fail. -/
def InTime (B : Budget) (w : World Fd Id) (e : Event Fd Id) : Prop :=
  ∀ v, w.step e = some v → Timely B v

/-- How long ago every client was heard of when the selector was last set. Those
that the timeout branch has looked at since then were not expired. -/
structure Looked (B : Budget) (w : World Fd Id) : Prop where
  timely : Timely B w
  busy : w.checking ≠ none → w.timer.left = 4000000
  early : ∀ i hbc, w.proposer.clients[i]? = some (some hbc) →
    (∀ k, w.checking = some k → i < k) → w.lastExpire ≤ hbc.timestamp + 5000000
  late : ∀ hbc, some hbc ∈ w.proposer.clients →
    w.lastExpire ≤ hbc.timestamp + (9000000 + B.watching : Nat)

namespace Looked

omit [DecidableEq Fd] [DecidableEq Id] in
/-- A client that is still there was heard of, or made, not long ago. -/
theorem now_le (h : Looked B w) {hbc : HeartbeatClient Fd}
    (hClient : some hbc ∈ w.proposer.clients) :
    w.now ≤ hbc.timestamp + (9000000 + 2 * B.watching : Nat) := by
  have hOutside := h.timely.watching
  have hNow : w.now = w.lastExpire + w.timer.elapsed := by
    unfold World.lastExpire
    lia
  cases hChecking : w.checking with
  | none =>
      obtain ⟨i, hi⟩ := List.mem_iff_getElem?.mp hClient
      have hEarly := h.early i hbc hi (by simp [hChecking])
      have hElapsed := w.timer.elapsed_le
      lia
  | some k =>
      have hLate := h.late hbc hClient
      have hElapsed := Timer.elapsed_of_full (h.busy (by simp [hChecking]))
      lia

omit [DecidableEq Fd] [DecidableEq Id] in
/-- Outside the timeout branch all clients have been looked at. -/
theorem idle (h : Looked B w) (hIdle : w.checking = none) {hbc : HeartbeatClient Fd}
    (hClient : some hbc ∈ w.proposer.clients) : w.lastExpire ≤ hbc.timestamp + 5000000 := by
  obtain ⟨i, hi⟩ := List.mem_iff_getElem?.mp hClient
  exact h.early i hbc hi (by simp [hIdle])

omit [DecidableEq Fd] [DecidableEq Id] in
/-- An idle proposer whose clients were heard of no later than before. -/
theorem of_idle (hTimely : Timely B v) (hIdle : v.checking = none)
    (hClients : ∀ hbc, some hbc ∈ v.proposer.clients →
      v.lastExpire ≤ hbc.timestamp + 5000000) : Looked B v where
  timely := hTimely
  busy := fun hLoop => absurd hIdle hLoop
  early := fun i hbc hi _ => hClients hbc (List.mem_of_getElem? hi)
  late := by
    intro hbc hClient
    have hEarly := hClients hbc hClient
    lia

/-- An iteration that is no timeout keeps the clocks. -/
theorem act (h : Looked B w) {action : Action Fd Id} (hActed : Acted w action v)
    (hTimely : Timely B v) : Looked B v := by
  have hLast (hNow : v.proposer.now = w.proposer.now) : v.lastExpire = w.lastExpire := by
    rw [World.lastExpire, World.lastExpire, hActed.timer]
    exact congrArg (· - _) hNow
  have hRecent : (w.lastExpire : Int) ≤ w.proposer.now := by
    show w.now - (w.timer.elapsed : Int) ≤ w.now
    lia
  have hOld {hbc : HeartbeatClient Fd} (hClient : some hbc ∈ w.proposer.clients) :=
    h.idle hActed.idle hClient
  refine of_idle hTimely hActed.checking ?_
  intro hbc hClient
  cases step_clients hActed.noWait hActed.noTimeout hActed.step with
  | same action hOther hNow hClients =>
      rw [hLast hNow]
      exact hOld (hClients ▸ hClient)
  | created fromip r o kept hNow hKept hClients =>
      rw [hLast hNow]
      rw [hClients] at hClient
      rcases List.mem_append.mp hClient with hMem | hNew
      · exact hOld (hKept.subset hMem)
      · cases List.mem_singleton.mp hNew
        show w.lastExpire ≤ w.proposer.now + 5000000
        lia
  | heard sfd input o i reader hNow hReceiver hReader hSfd hRead hFs hClients =>
      rw [hLast hNow]
      rw [hClients] at hClient
      rcases List.mem_or_eq_of_mem_set hClient with hMem | hEq
      · exact hOld hMem
      · cases hEq
        show w.lastExpire ≤ w.proposer.now + 5000000
        lia
  | lost sfd input o i reader hNow hReceiver hReader hSfd hRead hClients =>
      rw [hLast hNow]
      rw [hClients] at hClient
      rcases List.mem_or_eq_of_mem_set hClient with hMem | hEq
      · exact hOld hMem
      · cases hEq

/-- The client that is looked at is fresh, or given up. -/
theorem check (h : Looked B w) {o : Outcomes Fd} {i : Nat} (hChecked : Checked w o i v)
    (hTimely : Timely B v) : Looked B v := by
  obtain ⟨hNow, hClients⟩ := checkMonitored_clients hChecked.step
  have hLast : v.lastExpire = w.lastExpire := by
    rw [World.lastExpire, World.lastExpire, hChecked.timer]
    exact congrArg (· - _) hNow
  have hLooping : w.checking ≠ none := by simp [hChecked.checking]
  refine ⟨hTimely, fun _ => hChecked.timer ▸ h.busy hLooping, ?_, ?_⟩
  · intro j hbc hClient hBefore
    rw [hLast]
    rw [hClients, List.getElem?_modify] at hClient
    obtain ⟨old, hOld, hKept⟩ := Option.map_eq_some_iff.mp hClient
    by_cases hIndex : i = j
    · rw [if_pos hIndex] at hKept
      obtain ⟨_, hBeats⟩ := Option.filter_eq_some_iff.mp hKept
      have hFresh : w.now - hbc.timestamp ≤ 5000000 := by
        rw [Bool.not_eq_true', HeartbeatClient.isExpired, decide_eq_false_iff_not, not_lt] at hBeats
        exact hBeats
      show w.now - (w.timer.elapsed : Int) ≤ _
      lia
    · rw [if_neg hIndex] at hKept
      have hSame : w.proposer.clients[j]? = some (some hbc) := hOld.trans (congrArg some hKept)
      apply h.early j hbc hSame
      intro k hk
      rw [hChecked.checking] at hk
      cases hk
      -- a record behind the one that is looked at would be next
      by_contra hBehind
      have hBound : j < v.proposer.monitor.length := by
        have hLength : v.proposer.clients.length = v.proposer.monitor.length := List.length_map ..
        rw [← hLength, hClients, List.length_modify]
        exact (List.getElem?_eq_some_iff.mp hOld).1
      have hNext : v.checking = some (i + 1) := by
        rw [hChecked.next, World.position, if_pos (by omega)]
      have hLess := hBefore _ hNext
      omega
  · intro hbc hClient
    rw [hLast]
    exact h.late hbc (checked_clients hChecked.step hClient)

/-- Every event keeps the clocks. -/
theorem step (h : Looked B w) {e : Event Fd Id} (hOk : InTime B w e) (hStep : w.step e = some v) :
    Looked B v := by
  have hTimely := hOk v hStep
  cases step_happens hStep with
  | pass d selecting serving =>
      have hLast := w.lastExpire_pass d selecting serving
      refine ⟨hTimely, ?_, ?_, ?_⟩
      · intro hLoop
        have hLooping : w.checking ≠ none := hLoop
        show (w.timer.tick (w.waits selecting) d).left = _
        rw [World.waits_of_checking hLooping]
        exact h.busy hLooping
      · rw [hLast]
        exact h.early
      · rw [hLast]
        exact h.late
  | connect | arrive | accepted | refused | timeout | sent | unsent | resetTimeout | crash =>
      exact ⟨hTimely, h.busy, h.early, h.late⟩
  | act action _ hActed => exact h.act hActed hTimely
  | expire hIdle hLeft hQuiet =>
      have hLast : (w.now : Int) - (Timer.set 4000000).elapsed = w.now := by
        rw [Timer.elapsed_set]
        lia
      refine ⟨hTimely, fun _ => rfl, ?_, ?_⟩
      · intro i hbc hClient hBefore
        have hBound : i < w.proposer.monitor.length := by
          have hLength : w.proposer.clients.length = w.proposer.monitor.length := List.length_map ..
          rw [← hLength]
          exact (List.getElem?_eq_some_iff.mp hClient).1
        exact absurd (hBefore 0 (if_pos (by omega))) (Nat.not_lt_zero i)
      · intro hbc hClient
        have hEarly := h.idle hIdle hClient
        have hElapsed := w.timer.elapsed_le
        have hOutside := h.timely.watching
        show (w.now : Int) - (Timer.set 4000000).elapsed ≤ _
        rw [hLast]
        unfold World.lastExpire at hEarly
        lia
  | check o i _ hChecked => exact h.check hChecked hTimely

end Looked

/-- How late a heartbeat may be read. What has arrived keeps the proposer from
waiting, and a host that is down has sent nothing since. -/
structure Silent (B : Budget) (w : World Fd Id) : Prop where
  sent : ∀ b ∈ w.beats, b.sent ≤ w.now ∧ ∀ x, (w.hosts b.host).down = some x → b.sent ≤ x
  inTime : ∀ b ∈ w.beats, ∀ t, b.arrived = some t → t ≤ b.sent + B.delay
  pending : ∀ hbc, some hbc ∈ w.proposer.clients → ∀ b ∈ w.beats, b.To hbc →
    ∀ t, b.arrived = some t → w.now ≤ t + w.timer.outside
  stamped : ∀ hbc, some hbc ∈ w.proposer.clients → hbc.timestamp ≤ w.now
  heard : ∀ hbc, some hbc ∈ w.proposer.clients → ∀ c, hbc.sfd = some c →
    ∀ x, (w.hosts hbc.ip).down = some x → hbc.timestamp ≤ x + (B.delay + B.watching : Nat)

namespace Silent

omit [DecidableEq Fd] [DecidableEq Id] in
/-- The clocks of the hosts do not matter here. -/
theorem put (h : Silent B w) {ip : IPString} {host : Host Fd}
    (hDown : host.down = (w.hosts ip).down) : Silent B (w.put ip host) := by
  have hSame (ip' : IPString) : ((w.put ip host).hosts ip').down = (w.hosts ip').down := by
    by_cases hIP : ip' = ip
    · subst hIP
      rw [World.put_self, hDown]
    · rw [World.put_of_ne hIP]
  constructor
  · intro b hMem
    rw [hSame]
    exact h.sent b hMem
  · exact h.inTime
  · exact h.pending
  · exact h.stamped
  · intro hbc hClient c hOwn x
    rw [hSame]
    exact h.heard hbc hClient c hOwn x

omit [DecidableEq Id] in
/-- Who reads a heartbeat has one waiting. -/
theorem reads_heard {sfd : Fd} {input : Input} {o : Outcomes Fd} {hbc : HeartbeatClient Fd}
    {beats : List (Beat Fd)} (h : w.reads (.ready sfd input o) = some beats)
    (hClient : w.client sfd = some hbc) (hRead : input.heartbeat = true) :
    ∃ b ∈ w.beats, b.To hbc ∧ ∃ t, b.arrived = some t := by
  simp only [World.reads, hClient, hRead, if_true, true_or] at h
  split at h
  next hAny =>
    obtain ⟨b, hMem, hWaits⟩ := List.any_eq_true.mp hAny
    obtain ⟨hArrived, hTo⟩ := Bool.and_eq_true_iff.mp hWaits
    exact ⟨b, hMem, of_decide_eq_true hTo, Option.isSome_iff_exists.mp hArrived⟩
  · cases h

/-- An iteration that is no timeout reads only what was sent. -/
theorem act (h : Silent B w) (hTracked : Tracked base w) (hTimely : Timely B w)
    {action : Action Fd Id} (hActed : Acted w action v) : Silent B v := by
  have hSub := reads_subset hActed.reads
  have hDown (ip : IPString) : (v.hosts ip).down = (w.hosts ip).down :=
    (dials_host hActed.dials ip).2.1
  -- the clients after the action, each as before, made now, or heard of now
  have hClients (hbc : HeartbeatClient Fd) (hClient : some hbc ∈ v.proposer.clients) :
      v.proposer.now = w.proposer.now ∧ (some hbc ∈ w.proposer.clients ∨
        (hbc.timestamp = w.now ∧ ∀ c, hbc.sfd = some c →
          (c ∉ w.named ∧ (w.hosts hbc.ip).down = none) ∨
            ∃ old, some old ∈ w.proposer.clients ∧ old.ip = hbc.ip ∧ old.sfd = hbc.sfd ∧
              ∃ b ∈ w.beats, b.To old ∧ ∃ t, b.arrived = some t)) := by
    cases step_clients hActed.noWait hActed.noTimeout hActed.step with
    | same action hOther hNow hSame => exact ⟨hNow, .inl (hSame ▸ hClient)⟩
    | created fromip r o kept hNow hKept hNew =>
        refine ⟨hNow, ?_⟩
        rw [hNew] at hClient
        rcases List.mem_append.mp hClient with hOld | hLast
        · exact .inl (hKept.subset hOld)
        · cases List.mem_singleton.mp hLast
          refine .inr ⟨rfl, fun c hOwn => .inl ?_⟩
          refine ⟨hActed.fresh c (newFds_heartbeat w.proposer hOwn), ?_⟩
          rcases dials_cases hActed.dials with ⟨_, hNone⟩ | ⟨_, _, _, _, hEq, _, hUp, _⟩
          · rw [HeartbeatClient.new, hNone fromip r o rfl] at hOwn
            cases hOwn
          · cases hEq
            exact hUp
    | heard sfd input o i reader hNow hReceiver hReader hSfd hRead hFs hSet =>
        refine ⟨hNow, ?_⟩
        rw [hSet] at hClient
        rcases List.mem_or_eq_of_mem_set hClient with hOld | hEq
        · exact .inl hOld
        · cases hEq
          have hReaderMem := List.mem_of_getElem? hReader
          have hBeat := reads_heard hActed.reads (hTracked.client_eq hReaderMem hSfd) hRead
          exact .inr ⟨rfl, fun c hOwn => .inr ⟨reader, hReaderMem, rfl, rfl, hBeat⟩⟩
    | lost sfd input o i reader hNow hReceiver hReader hSfd hRead hSet =>
        refine ⟨hNow, ?_⟩
        rw [hSet] at hClient
        rcases List.mem_or_eq_of_mem_set hClient with hOld | hEq
        · exact .inl hOld
        · cases hEq
  have hNow : v.now = w.now := by
    cases step_clients hActed.noWait hActed.noTimeout hActed.step with
    | same _ _ hNow | created _ _ _ _ hNow | heard _ _ _ _ _ hNow | lost _ _ _ _ _ hNow =>
        exact hNow
  constructor
  · intro b hMem
    rw [hNow, hDown]
    exact h.sent b (hSub hMem)
  · exact fun b hMem => h.inTime b (hSub hMem)
  · intro hbc hClient b hMem hTo t hArrived
    rw [hNow, hActed.timer]
    rcases (hClients hbc hClient).2 with hOld | ⟨_, hConnected⟩
    · exact h.pending hbc hOld b (hSub hMem) hTo t hArrived
    · rcases hConnected b.conn hTo.2 with ⟨hNew, _⟩ | ⟨old, hOld, hIP, hSfd, _⟩
      · exact absurd (hTracked.beats b (hSub hMem)) hNew
      · exact h.pending old hOld b (hSub hMem) ⟨hIP.trans hTo.1, hSfd.trans hTo.2⟩ t hArrived
  · intro hbc hClient
    rw [hNow]
    rcases (hClients hbc hClient).2 with hOld | ⟨hStamp, _⟩
    · exact h.stamped hbc hOld
    · exact hStamp.le
  · intro hbc hClient c hOwn x hDead
    rw [hDown] at hDead
    rcases (hClients hbc hClient).2 with hOld | ⟨hStamp, hConnected⟩
    · exact h.heard hbc hOld c hOwn x hDead
    · rcases hConnected c hOwn with ⟨_, hUp⟩ | ⟨old, hOld, hIP, _, b, hMem, hTo, t, hArrived⟩
      · rw [hUp] at hDead
        cases hDead
      · have hPending := h.pending old hOld b hMem hTo t hArrived
        have hArrival := h.inTime b hMem t hArrived
        have hSent := (h.sent b hMem).2 x (by rw [← hTo.1, hIP, hDead])
        have hOutside := hTimely.watching
        rw [hStamp]
        lia

omit [DecidableEq Id] in
/-- While a heartbeat waits the proposer does not, so time that passes is time
that it spends outside its selector. -/
theorem pass (h : Silent B w) (hTracked : Tracked base w) (d : Nat) (selecting : Bool)
    (serving : IPString → Bool) : Silent B (w.pass d selecting serving) := by
  have hLater : (w.pass d selecting serving).now = w.now + d := rfl
  refine ⟨?_, h.inTime, ?_, ?_, h.heard⟩
  · intro b hMem
    obtain ⟨hSent, hDead⟩ := h.sent b hMem
    refine ⟨?_, hDead⟩
    rw [hLater]
    lia
  · intro hbc hClient b hMem hTo t hArrived
    have hPending := h.pending hbc hClient b hMem hTo t hArrived
    have hBusy : w.waits selecting = false := by
      rw [Bool.eq_false_iff]
      intro hWaits
      have hQuiet := (Bool.and_eq_true_iff.mp hWaits).2
      rw [hTracked.quiet hQuiet hClient hMem hTo] at hArrived
      cases hArrived
    show w.now + d ≤ t + (w.timer.tick (w.waits selecting) d).outside
    rw [hBusy, Timer.outside_tick_busy]
    lia
  · intro hbc hClient
    have hStamp := h.stamped hbc hClient
    rw [hLater]
    lia

omit [DecidableEq Fd] [DecidableEq Id] in
/-- A heartbeat arrives within its delay. -/
theorem arrive (h : Silent B w) (hTimely : Timely B w) {i : Nat} {b : Beat Fd}
    (hBeat : w.beats[i]? = some b) (hArrived : b.arrived = none) :
    Silent B { w with beats := w.beats.set i { b with arrived := some w.now } } := by
  have hMem := List.mem_of_getElem? hBeat
  have hDelay := hTimely.delay b hMem hArrived
  refine ⟨?_, ?_, ?_, h.stamped, h.heard⟩
  · intro b' hMem'
    rcases List.mem_or_eq_of_mem_set hMem' with hOld | rfl
    · exact h.sent b' hOld
    · exact h.sent b hMem
  · intro b' hMem' t hArrival
    rcases List.mem_or_eq_of_mem_set hMem' with hOld | rfl
    · exact h.inTime b' hOld t hArrival
    · cases hArrival
      exact hDelay
  · intro hbc hClient b' hMem' hTo t hArrival
    rcases List.mem_or_eq_of_mem_set hMem' with hOld | rfl
    · exact h.pending hbc hClient b' hOld hTo t hArrival
    · cases hArrival
      show w.now ≤ w.now + w.timer.outside
      lia

omit [DecidableEq Fd] [DecidableEq Id] in
/-- A host that is up sends a heartbeat, which has not arrived yet. -/
theorem beat (h : Silent B w) {ip : IPString} {c : Fd} (hUp : (w.hosts ip).down = none) :
    Silent B { w with beats := w.beats ++ [⟨ip, c, w.now, none⟩] } := by
  refine ⟨?_, ?_, ?_, h.stamped, h.heard⟩
  · intro b hMem
    rcases List.mem_append.mp hMem with hOld | hNew
    · exact h.sent b hOld
    · cases List.mem_singleton.mp hNew
      refine ⟨Int.le_refl _, ?_⟩
      intro x hDead
      rw [show (w.hosts ip).down = some x from hDead] at hUp
      cases hUp
  · intro b hMem t hArrived
    rcases List.mem_append.mp hMem with hOld | hNew
    · exact h.inTime b hOld t hArrived
    · cases List.mem_singleton.mp hNew
      cases hArrived
  · intro hbc hClient b hMem hTo t hArrived
    rcases List.mem_append.mp hMem with hOld | hNew
    · exact h.pending hbc hClient b hOld hTo t hArrived
    · cases List.mem_singleton.mp hNew
      cases hArrived

omit [DecidableEq Fd] [DecidableEq Id] in
/-- What was sent or read before was so before the crash. -/
theorem crash (h : Silent B w) (ip : IPString) :
    Silent B (w.put ip { w.hosts ip with down := some w.now }) := by
  have hDead {ip' : IPString} {x : Time} (hDown :
      ((w.put ip { w.hosts ip with down := some w.now }).hosts ip').down = some x) :
      x = w.now ∨ (w.hosts ip').down = some x := by
    by_cases hIP : ip' = ip
    · subst hIP
      rw [World.put_self] at hDown
      exact .inl (Option.some.inj hDown).symm
    · rw [World.put_of_ne hIP] at hDown
      exact .inr hDown
  refine ⟨?_, h.inTime, h.pending, h.stamped, ?_⟩
  · intro b hMem
    obtain ⟨hSent, hBefore⟩ := h.sent b hMem
    refine ⟨hSent, ?_⟩
    intro x hDown
    rcases hDead hDown with rfl | hOld
    · exact hSent
    · exact hBefore x hOld
  · intro hbc hClient c hOwn x hDown
    rcases hDead hDown with rfl | hOld
    · have hStamp := h.stamped hbc hClient
      lia
    · exact h.heard hbc hClient c hOwn x hOld

/-- A pass through the loop over the records reads nothing. -/
theorem check (h : Silent B w) {o : Outcomes Fd} {i : Nat} (hChecked : Checked w o i v) :
    Silent B v := by
  have hNow : v.now = w.now := (checkMonitored_clients hChecked.step).1
  have hOld {hbc : HeartbeatClient Fd} (hClient : some hbc ∈ v.proposer.clients) :=
    checked_clients hChecked.step hClient
  constructor
  · rw [hChecked.beats, hChecked.hosts, hNow]
    exact h.sent
  · rw [hChecked.beats]
    exact h.inTime
  · rw [hChecked.beats, hNow, hChecked.timer]
    exact fun hbc hClient => h.pending hbc (hOld hClient)
  · rw [hNow]
    exact fun hbc hClient => h.stamped hbc (hOld hClient)
  · rw [hChecked.hosts]
    exact fun hbc hClient => h.heard hbc (hOld hClient)

/-- Every event keeps the times of the heartbeats. -/
theorem step (h : Silent B w) (hTracked : Tracked base w) (hTimely : Timely B w)
    {e : Event Fd Id} (hStep : w.step e = some v) : Silent B v := by
  cases step_happens hStep with
  | pass d selecting serving => exact h.pass hTracked d selecting serving
  | connect ip c hNew hUp =>
      have hPut : Silent B (w.put ip ((w.hosts ip).connect c)) := h.put rfl
      exact ⟨hPut.sent, hPut.inTime, hPut.pending, hPut.stamped, hPut.heard⟩
  | arrive i b hBeat hArrived => exact h.arrive hTimely hBeat hArrived
  | accepted ip | refused ip | timeout ip | unsent ip | resetTimeout ip => exact h.put rfl
  | sent ip i c hUp hSending hEntry =>
      have hPut : Silent B (w.put ip { w.hosts ip with server := (w.hosts ip).server.sent i }) :=
        h.put rfl
      refine hPut.beat ?_
      rw [World.put_self]
      exact hUp
  | crash ip hUp => exact h.crash ip
  | act action _ hActed => exact h.act hTracked hTimely hActed
  | expire hIdle hLeft hQuiet =>
      refine ⟨h.sent, h.inTime, ?_, h.stamped, h.heard⟩
      intro hbc hClient b hMem hTo t hArrived
      rw [hTracked.quiet hQuiet hClient hMem hTo] at hArrived
      cases hArrived
  | check o i _ hChecked => exact h.check hChecked

end Silent

/-- Every client that is still there was heard of, or made, at most nine seconds
ago, and that of a host that went down at most nine seconds after it did, up to
what the loop and the network lose. -/
theorem failed_suspected_in_time {start : Time} {recoveryfd requestsfd querysfd : Fd}
    {backupbrokers : List Text} (hDistinct : [recoveryfd, requestsfd, querysfd].Nodup)
    (run : Run World.step (InTime B)
      (.init start recoveryfd requestsfd querysfd backupbrokers : World Fd Id) w)
    {hbc : HeartbeatClient Fd} (hClient : some hbc ∈ w.proposer.clients) :
    w.now ≤ hbc.timestamp + (9000000 + 2 * B.watching : Nat) ∧
      ∀ c x, hbc.sfd = some c → (w.hosts hbc.ip).down = some x →
        w.now ≤ x + (9000000 + B.delay + 3 * B.watching : Nat) := by
  have hAll : Tracked ((↑[recoveryfd, requestsfd, querysfd] : Multiset Fd), 0) w ∧ Looked B w ∧
      Silent B w := by
    refine run.invariant (P := fun w =>
      Tracked ((↑[recoveryfd, requestsfd, querysfd] : Multiset Fd), 0) w ∧ Looked B w ∧
        Silent B w) ?_ ?_
    · refine ⟨.initial start backupbrokers hDistinct, ?_, ?_⟩
      · refine ⟨(Clocked.initial start _ _ _ backupbrokers).timely, ?_, ?_, ?_⟩
        · simp [World.init]
        · intro i hbc hClient
          cases hClient
        · intro hbc hClient
          cases hClient
      · constructor
        · simp [World.init]
        · simp [World.init]
        · simp [World.init]
        · intro hbc hClient
          cases hClient
        · intro hbc hClient
          cases hClient
    · rintro u e v ⟨hTracked, hLooked, hSilent⟩ hOk hStep
      exact ⟨hTracked.step hStep, hLooked.step hOk hStep,
        hSilent.step hTracked hLooked.timely hStep⟩
  obtain ⟨_, hLooked, hSilent⟩ := hAll
  have hNow := hLooked.now_le hClient
  refine ⟨hNow, ?_⟩
  intro c x hOwn hDown
  have hHeard := hSilent.heard hbc hClient c hOwn x hDown
  lia

section Sample

/-- The host goes down after four seconds, and after four more nobody has
noticed. -/
def goesSilent : List (Event Nat Nat) :=
  watched ++ [.crash localhost, .expire, .check (allConnected 1),
    .pass 4000000 true fun _ => true]

theorem failed_suspected_in_time_silent :
    ∃ w : World Nat Nat, w.now = 8000000 ∧
      some ⟨localhost, some 10, 4000000⟩ ∈ w.proposer.clients ∧
      w.now ≤ 4000000 + (9000000 + 500000 + 3 * 500000 : Nat) := by
  have hExec : (exec (guarded World.step (punctual halfSeconds)) nobodyWatched goesSilent).map
      (fun w => decide (w.now = 8000000) &&
        decide (w.proposer.clients = [some ⟨localhost, some 10, 4000000⟩]) &&
        decide ((w.hosts localhost).down = some 4000000)) = some true := by
    decide
  obtain ⟨w, hw, hState⟩ := Option.map_eq_some_iff.mp hExec
  simp only [Bool.and_eq_true, decide_eq_true_iff] at hState
  obtain ⟨⟨hNow, hClients⟩, hDown⟩ := hState
  have hClient : some ⟨localhost, some 10, 4000000⟩ ∈ w.proposer.clients := by
    rw [hClients]
    exact List.mem_singleton_self _
  have hRun : Run World.step (InTime halfSeconds) nobodyWatched w :=
    (Run.of_guarded punctual_sound hw).mono fun _ _ h => h.timely
  exact ⟨w, hNow, hClient,
    (failed_suspected_in_time (by decide) hRun hClient).2 10 4000000 rfl hDown⟩

/-- The next time that the selector runs out, the client is given up. -/
example : (exec World.step nobodyWatched (goesSilent ++
    [.expire, .check (allConnected 1), .pass 4000000 true fun _ => true, .expire,
      .check (allConnected 1)])).map (fun w => w.proposer.clients) = some [none] := by
  decide

end Sample

end QpidRecovery.Heartbeat
