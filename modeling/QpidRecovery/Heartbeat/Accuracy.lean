import QpidRecovery.Heartbeat.Tracking

/-! No broker that is alive is taken for a failed one, as long as the network and
the two loops keep within the three seconds that the constants leave them. The
server sends every two seconds, and a client is given up after five. -/
namespace QpidRecovery.Heartbeat

open Proposer Timed Transition

/-- The longest times, in microseconds: those that a heartbeat server and the
proposer spend outside `select` in one period, and that a heartbeat takes. -/
structure Budget where
  serving : Nat
  watching : Nat
  delay : Nat

section Times
variable {Fd Id : Type}

/-- The budget is not used up, by the hosts that the proposer watches, by itself
and by the network. -/
structure Timely (B : Budget) (w : World Fd Id) : Prop where
  serving : ∀ hbc, some hbc ∈ w.proposer.clients → (w.hosts hbc.ip).down = none →
    (w.hosts hbc.ip).server.timer.outside ≤ B.serving
  watching : w.timer.outside ≤ B.watching
  delay : ∀ b ∈ w.beats, b.arrived = none → w.now ≤ b.sent + B.delay

/-- When the server's selector was last set. -/
def World.lastReset (w : World Fd Id) (ip : IPString) : Time :=
  w.now - (w.hosts ip).server.timer.elapsed

/-- The server's round of heartbeats, if it sends one, began no earlier. -/
def World.roundStart (w : World Fd Id) (ip : IPString) : Time :=
  w.now - (w.hosts ip).server.timer.outside

/-- When the proposer's selector was last set. -/
def World.lastExpire (w : World Fd Id) : Time := w.now - w.timer.elapsed

theorem Timely.now_le_reset {B : Budget} {w : World Fd Id} (h : Timely B w)
    {hbc : HeartbeatClient Fd} (hClient : some hbc ∈ w.proposer.clients)
    (hUp : (w.hosts hbc.ip).down = none) :
    w.now ≤ w.lastReset hbc.ip + (selectorPeriod + B.serving : Nat) := by
  have hElapsed := (w.hosts hbc.ip).server.timer.elapsed_le
  have hOutside := h.serving hbc hClient hUp
  unfold World.lastReset
  lia

theorem World.lastReset_le (w : World Fd Id) (ip : IPString) : w.lastReset ip ≤ w.now := by
  unfold World.lastReset
  lia

theorem World.roundStart_le (w : World Fd Id) (ip : IPString) : w.roundStart ip ≤ w.now := by
  unfold World.roundStart
  lia

end Times

section Reading
variable {Fd Id : Type} [DecidableEq Fd] {w : World Fd Id} {base : Holding Fd}

/-- A client reads from its own connection. -/
theorem Tracked.client_eq (h : Tracked base w) {hbc : HeartbeatClient Fd} {sfd : Fd}
    (hClient : some hbc ∈ w.proposer.clients) (hOwn : hbc.sfd = some sfd) :
    w.client sfd = some hbc := by
  cases hReceiver : receiver sfd w.proposer.monitor with
  | none => exact absurd (State.mem_conns hClient hOwn) (State.not_mem_conns hReceiver)
  | some i =>
      obtain ⟨hBound, _⟩ := List.findIdx?_eq_some_iff_getElem.mp hReceiver
      have hMon := List.getElem?_eq_getElem hBound
      obtain ⟨other, hOther, hSfd⟩ := client_of_receiver hReceiver hMon
      have hEntry := State.clients_getElem? hMon
      rw [hOther] at hEntry
      obtain ⟨j, hj⟩ := List.mem_iff_getElem?.mp hClient
      have hSame := State.client_unique h.distinct hEntry hj hSfd hOwn
      subst hSame
      rw [World.client, hReceiver, Option.bind_some, hj]
      rfl

/-- While the proposer waits, no heartbeat of its clients has arrived. -/
theorem Tracked.quiet (h : Tracked base w) (hQuiet : w.quiet = true) {hbc : HeartbeatClient Fd}
    (hClient : some hbc ∈ w.proposer.clients) {b : Beat Fd} (hBeat : b ∈ w.beats)
    (hTo : b.To hbc) : b.arrived = none := by
  have hRegistered := h.watched b.conn (State.mem_conns hClient hTo.2)
  have hNone := List.findSome?_eq_none_iff.mp (Option.isNone_iff_eq_none.mp hQuiet) _ hRegistered
  have hUnreadable := Option.filter_eq_none_iff.mp hNone b.conn rfl
  cases hArrived : b.arrived with
  | none => rfl
  | some t =>
      refine absurd ?_ hUnreadable
      rw [World.readable, h.client_eq hClient hTo.2, Option.any_some, List.any_eq_true]
      refine ⟨b, hBeat, ?_⟩
      rw [World.waitsFor, hArrived, Option.isSome_some, Bool.true_and, decide_eq_true hTo]

end Reading

section Served
variable {Fd Id : Type} {B : Budget} {w v : World Fd Id}

/-- A heartbeat that the client may still read. From one to the next the server
lets two periods of its budget pass at most. -/
def Pending (B : Budget) (w : World Fd Id) (hbc : HeartbeatClient Fd) : Prop :=
  ∃ b ∈ w.beats, b.To hbc ∧ b.sent ≤ hbc.timestamp + (selectorPeriod + 2 * B.serving : Nat)

/-- The server knows the connection of a client, and the client has not missed
a heartbeat but those that it may still read. A round that is being sent has
reached it, or will. -/
structure Served (B : Budget) (w : World Fd Id) (hbc : HeartbeatClient Fd) (c : Fd) : Prop where
  listed : c ∈ (w.hosts hbc.ip).backlog ∨ some c ∈ (w.hosts hbc.ip).server.sfdvec
  recent : w.lastReset hbc.ip ≤ hbc.timestamp + B.serving ∨ Pending B w hbc
  round : ∀ i, (w.hosts hbc.ip).server.sending = some i →
    some c ∈ (w.hosts hbc.ip).server.sfdvec.drop i ∨ w.roundStart hbc.ip ≤ hbc.timestamp ∨
      Pending B w hbc

/-- Every client whose host is up is served. -/
def AllServed (B : Budget) (w : World Fd Id) : Prop :=
  ∀ hbc, some hbc ∈ w.proposer.clients → ∀ c, hbc.sfd = some c → (w.hosts hbc.ip).down = none →
    Served B w hbc c

theorem Pending.keep {hbc : HeartbeatClient Fd} (h : Pending B w hbc)
    (hBeats : ∀ b ∈ w.beats, b.To hbc → ∃ b' ∈ v.beats, b'.To hbc ∧ b'.sent = b.sent) :
    Pending B v hbc := by
  obtain ⟨b, hMem, hTo, hSent⟩ := h
  obtain ⟨b', hMem', hTo', hSame⟩ := hBeats b hMem hTo
  exact ⟨b', hMem', hTo', hSame ▸ hSent⟩

/-- The host goes on with a round as before. -/
structure Continues (w v : World Fd Id) (ip : IPString) : Prop where
  backlog : (w.hosts ip).backlog ⊆ (v.hosts ip).backlog
  accepted : (w.hosts ip).server.sfdvec ⊆ (v.hosts ip).server.sfdvec
  lastReset : v.lastReset ip = w.lastReset ip
  round : ∀ i, (v.hosts ip).server.sending = some i → (w.hosts ip).server.sending = some i ∧
    (w.hosts ip).server.sfdvec.drop i ⊆ (v.hosts ip).server.sfdvec.drop i ∧
    v.roundStart ip = w.roundStart ip

/-- Nothing happens to the server. -/
theorem Continues.of_server {ip : IPString} (hNow : v.now = w.now)
    (hServer : (v.hosts ip).server = (w.hosts ip).server)
    (hBacklog : (w.hosts ip).backlog ⊆ (v.hosts ip).backlog) : Continues w v ip where
  backlog := hBacklog
  accepted := by
    rw [hServer]
    exact List.Subset.refl _
  lastReset := by rw [World.lastReset, World.lastReset, hNow, hServer]
  round := by
    intro i hSending
    rw [hServer] at hSending
    refine ⟨hSending, ?_, ?_⟩
    · rw [hServer]
      exact List.Subset.refl _
    · rw [World.roundStart, World.roundStart, hNow, hServer]

/-- The host loses sight of nobody, and no heartbeat for the client is lost. -/
theorem Served.keep {hbc : HeartbeatClient Fd} {c : Fd} (h : Served B w hbc c)
    (hHost : Continues w v hbc.ip)
    (hBeats : ∀ b ∈ w.beats, b.To hbc → ∃ b' ∈ v.beats, b'.To hbc ∧ b'.sent = b.sent) :
    Served B v hbc c where
  listed := h.listed.imp (hHost.backlog ·) (hHost.accepted ·)
  recent := by
    rw [hHost.lastReset]
    exact h.recent.imp_right fun hPending => hPending.keep hBeats
  round := by
    intro i hSending
    obtain ⟨hBefore, hDrop, hStart⟩ := hHost.round i hSending
    rw [hStart]
    exact (h.round i hBefore).imp (hDrop ·) (Or.imp_right fun hPending => hPending.keep hBeats)

/-- A client that was just heard of. -/
theorem Served.now {hbc : HeartbeatClient Fd} {c : Fd}
    (hListed : c ∈ (w.hosts hbc.ip).backlog ∨ some c ∈ (w.hosts hbc.ip).server.sfdvec)
    (hNow : w.now ≤ hbc.timestamp) : Served B w hbc c where
  listed := hListed
  recent := by
    have hLast := w.lastReset_le hbc.ip
    exact .inl (by lia)
  round := by
    intro i _
    have hStart := w.roundStart_le hbc.ip
    exact .inr (.inl (by lia))

theorem World.continues_pass [DecidableEq Fd] (d : Nat) (selecting : Bool)
    (serving : IPString → Bool) (w : World Fd Id) (ip : IPString) :
    Continues w (w.pass d selecting serving) ip where
  backlog := List.Subset.refl _
  accepted := List.Subset.refl _
  lastReset := by
    have hElapsed := Timer.elapsed_tick (serving ip && (w.hosts ip).backlog.isEmpty &&
      (w.hosts ip).server.sending.isNone) d (w.hosts ip).server.timer
    have hLast : (w.pass d selecting serving).lastReset ip = (w.now + d) -
        ((w.hosts ip).server.timer.tick (serving ip && (w.hosts ip).backlog.isEmpty &&
          (w.hosts ip).server.sending.isNone) d).elapsed := rfl
    rw [hLast, hElapsed, World.lastReset]
    lia
  round := by
    intro i hSending
    refine ⟨hSending, List.Subset.refl _, ?_⟩
    have hBefore : (w.hosts ip).server.sending = some i := hSending
    have hStart : (w.pass d selecting serving).roundStart ip = (w.now + d) -
        ((w.hosts ip).server.timer.tick (serving ip && (w.hosts ip).backlog.isEmpty &&
          (w.hosts ip).server.sending.isNone) d).outside := rfl
    rw [hStart, hBefore, Option.isNone_some, Bool.and_false, Timer.outside_tick_busy,
      World.roundStart]
    lia

section Network

/-- Nothing happens to the clients, the hosts and the heartbeats. -/
theorem AllServed.same (h : AllServed B w) (hNow : v.now = w.now)
    (hClients : v.proposer.clients = w.proposer.clients) (hHosts : v.hosts = w.hosts)
    (hBeats : v.beats = w.beats) : AllServed B v := by
  intro hbc hClient c hOwn hUp
  rw [hClients] at hClient
  rw [hHosts] at hUp
  refine (h hbc hClient c hOwn hUp).keep ?_ ?_
  · apply Continues.of_server hNow
    · rw [hHosts]
    · rw [hHosts]
      exact List.Subset.refl _
  · intro b hMem hTo
    rw [hBeats]
    exact ⟨b, hMem, hTo, rfl⟩

/-- One host changes, and the clients of the others do not notice. -/
theorem AllServed.host (h : AllServed B w) {ip : IPString} (hNow : v.now = w.now)
    (hClients : v.proposer.clients = w.proposer.clients)
    (hOthers : ∀ ip', ip' ≠ ip → v.hosts ip' = w.hosts ip') (hBeats : w.beats ⊆ v.beats)
    (hOwn : ∀ hbc, some hbc ∈ w.proposer.clients → hbc.ip = ip → ∀ c, hbc.sfd = some c →
      (v.hosts ip).down = none → Served B v hbc c) : AllServed B v := by
  intro hbc hClient c hConn hUp
  rw [hClients] at hClient
  by_cases hIP : hbc.ip = ip
  · exact hOwn hbc hClient hIP c hConn (hIP ▸ hUp)
  · have hHost := hOthers hbc.ip hIP
    rw [hHost] at hUp
    refine (h hbc hClient c hConn hUp).keep ?_ fun b hMem hTo => ⟨b, hBeats hMem, hTo, rfl⟩
    apply Continues.of_server hNow
    · rw [hHost]
    · rw [hHost]
      exact List.Subset.refl _

/-- A host that changes without a heartbeat. -/
theorem AllServed.put (h : AllServed B w) {ip : IPString} {host : Host Fd}
    (hDown : host.down = none → (w.hosts ip).down = none)
    (hListed : ∀ c, c ∈ (w.hosts ip).backlog ∨ some c ∈ (w.hosts ip).server.sfdvec →
      c ∈ host.backlog ∨ some c ∈ host.server.sfdvec)
    (hTimer : host.server.timer = (w.hosts ip).server.timer)
    (hRound : ∀ i, host.server.sending = some i → (w.hosts ip).server.sending = some i ∧
      (w.hosts ip).server.sfdvec.drop i ⊆ host.server.sfdvec.drop i) :
    AllServed B (w.put ip host) := by
  refine h.host rfl rfl (fun ip' hIP => World.put_of_ne hIP host w) (List.Subset.refl _) ?_
  rintro hbc hClient rfl c hOwn hUp
  rw [World.put_self] at hUp
  have hServed := h hbc hClient c hOwn (hDown hUp)
  have hLast : (w.put hbc.ip host).lastReset hbc.ip = w.lastReset hbc.ip := by
    rw [World.lastReset, World.put_self, hTimer]
    rfl
  have hStart : (w.put hbc.ip host).roundStart hbc.ip = w.roundStart hbc.ip := by
    rw [World.roundStart, World.put_self, hTimer]
    rfl
  constructor
  · rw [World.put_self]
    exact hListed c hServed.listed
  · rw [hLast]
    exact hServed.recent
  · rw [World.put_self, hStart]
    intro i hSending
    obtain ⟨hBefore, hDrop⟩ := hRound i hSending
    exact (hServed.round i hBefore).imp_left (hDrop ·)

/-- A round begins. It has all clients still to reach. -/
theorem AllServed.timeout (h : AllServed B w) {ip : IPString} (hUp : (w.hosts ip).down = none)
    (hBacklog : (w.hosts ip).backlog = []) :
    AllServed B (w.put ip { w.hosts ip with server := (w.hosts ip).server.timeout }) := by
  refine h.host rfl rfl (fun ip' hIP => World.put_of_ne hIP _ w) (List.Subset.refl _) ?_
  rintro hbc hClient rfl c hOwn _
  have hServed := h hbc hClient c hOwn hUp
  have hAccepted : some c ∈ (w.hosts hbc.ip).server.sfdvec := by
    rcases hServed.listed with hPending | hAccepted
    · rw [hBacklog] at hPending
      cases hPending
    · exact hAccepted
  constructor
  · rw [World.put_self]
    exact .inr hAccepted
  · rw [World.lastReset, World.put_self]
    exact hServed.recent
  · rw [World.put_self]
    intro i hSending
    cases hSending
    exact .inl hAccepted

/-- A heartbeat is sent. It comes in time. -/
theorem AllServed.sent (h : AllServed B w) (hTimely : Timely B w) {ip : IPString} {i : Nat} {c : Fd}
    (hUp : (w.hosts ip).down = none) (hSending : (w.hosts ip).server.sending = some i)
    (hEntry : (w.hosts ip).server.sfdvec[i]? = some (some c)) :
    AllServed B { w.put ip { w.hosts ip with server := (w.hosts ip).server.sent i } with
      beats := w.beats ++ [⟨ip, c, w.now, none⟩] } := by
  refine h.host rfl rfl (fun ip' hIP => World.put_of_ne hIP _ w) (List.subset_append_left _ _) ?_
  rintro hbc hClient rfl c' hOwn _
  have hServed := h hbc hClient c' hOwn hUp
  have hKept (hPending : Pending B w hbc) : Pending B
      { w.put hbc.ip { w.hosts hbc.ip with server := (w.hosts hbc.ip).server.sent i } with
        beats := w.beats ++ [⟨hbc.ip, c, w.now, none⟩] } hbc :=
    hPending.keep fun b hMem hTo => ⟨b, List.mem_append_left _ hMem, hTo, rfl⟩
  have hHost : ((w.put hbc.ip { w.hosts hbc.ip with
      server := (w.hosts hbc.ip).server.sent i }).hosts hbc.ip).server =
        (w.hosts hbc.ip).server.sent i := by
    rw [World.put_self]
  constructor
  · show c' ∈ ((w.put hbc.ip _).hosts hbc.ip).backlog ∨
      some c' ∈ ((w.put hbc.ip _).hosts hbc.ip).server.sfdvec
    rw [World.put_self]
    exact hServed.listed
  · refine hServed.recent.imp ?_ hKept
    intro hLast
    show w.now - (((w.put hbc.ip _).hosts hbc.ip).server.timer.elapsed : Int) ≤ _
    rw [hHost]
    exact hLast
  · intro j hNext
    have hj : some (i + 1) = some j := by
      rw [← hNext]
      exact (congrArg Server.sending hHost).symm
    cases hj
    show some c' ∈ ((w.put hbc.ip _).hosts hbc.ip).server.sfdvec.drop (i + 1) ∨
      w.now - (((w.put hbc.ip _).hosts hbc.ip).server.timer.outside : Int) ≤ _ ∨ _
    rw [hHost]
    rcases hServed.round i hSending with hAhead | hStart | hPending
    · obtain ⟨hLt, hAt⟩ := List.getElem?_eq_some_iff.mp hEntry
      rw [List.drop_eq_getElem_cons hLt, hAt] at hAhead
      rcases List.mem_cons.mp hAhead with hSame | hRest
      · cases hSame
        refine .inr (.inr ?_)
        rcases hServed.recent with hLast | hPending
        · refine ⟨⟨hbc.ip, c, w.now, none⟩, ?_, ⟨rfl, hOwn⟩, ?_⟩
          · exact List.mem_append_right _ (List.mem_singleton_self _)
          · have hNow := hTimely.now_le_reset hClient hUp
            show w.now ≤ _
            lia
        · exact hKept hPending
      · exact .inl hRest
    · exact .inr (.inl hStart)
    · exact .inr (.inr (hKept hPending))

/-- Whoever is still to be reached moves up by one place. -/
theorem drop_eraseIdx {α : Type} {l : List α} {i : Nat} (hLt : i < l.length) :
    (l.eraseIdx i).drop i = l.drop (i + 1) := by
  rw [List.eraseIdx_eq_take_drop_succ]
  exact List.drop_left' (List.length_take_of_le hLt.le)

/-- Only somebody else is erased. -/
theorem AllServed.unsent (h : AllServed B w) {ip : IPString} {i : Nat} {sfd : Option Fd}
    (hSending : (w.hosts ip).server.sending = some i)
    (hEntry : (w.hosts ip).server.sfdvec[i]? = some sfd)
    (hOther : ∀ hbc, some hbc ∈ w.proposer.clients → hbc.ip = ip → ∀ c, hbc.sfd = some c →
      sfd ≠ some c) (hUp : (w.hosts ip).down = none) :
    AllServed B (w.put ip { w.hosts ip with server := (w.hosts ip).server.unsent i }) := by
  obtain ⟨hLt, hAt⟩ := List.getElem?_eq_some_iff.mp hEntry
  refine h.host rfl rfl (fun ip' hIP => World.put_of_ne hIP _ w) (List.Subset.refl _) ?_
  rintro hbc hClient rfl c hOwn _
  have hServed := h hbc hClient c hOwn hUp
  have hNe := hOther hbc hClient rfl c hOwn
  constructor
  · rw [World.put_self]
    refine hServed.listed.imp_right fun hAccepted => ?_
    obtain ⟨j, hj⟩ := List.mem_iff_getElem?.mp hAccepted
    refine List.mem_eraseIdx_iff_getElem?.mpr ⟨j, ?_, hj⟩
    rintro rfl
    rw [hEntry] at hj
    exact hNe (Option.some.inj hj)
  · rw [World.lastReset, World.put_self]
    exact hServed.recent
  · rw [World.put_self, World.roundStart, World.put_self]
    intro j hSame
    rw [show (w.hosts hbc.ip).server.sending = some j from hSame] at hSending
    cases hSending
    refine (hServed.round i hSame).imp_left fun hAhead => ?_
    rw [List.drop_eq_getElem_cons hLt, hAt] at hAhead
    rcases List.mem_cons.mp hAhead with hHere | hRest
    · exact absurd hHere.symm hNe
    · rw [← drop_eraseIdx hLt] at hRest
      exact hRest

/-- A round is over. It has reached all clients. -/
theorem AllServed.resetTimeout (h : AllServed B w) (hTimely : Timely B w) {ip : IPString} {i : Nat}
    (hUp : (w.hosts ip).down = none) (hSending : (w.hosts ip).server.sending = some i)
    (hEnd : (w.hosts ip).server.sfdvec.length ≤ i) :
    AllServed B (w.put ip { w.hosts ip with server := (w.hosts ip).server.resetTimeout }) := by
  refine h.host rfl rfl (fun ip' hIP => World.put_of_ne hIP _ w) (List.Subset.refl _) ?_
  rintro hbc hClient rfl c hOwn _
  have hServed := h hbc hClient c hOwn hUp
  constructor
  · rw [World.put_self]
    exact hServed.listed
  · rcases hServed.round i hSending with hAhead | hStart | hPending
    · rw [List.drop_eq_nil_of_le hEnd] at hAhead
      cases hAhead
    · have hOutside := hTimely.serving hbc hClient hUp
      have hLast := (w.put hbc.ip { w.hosts hbc.ip with
        server := (w.hosts hbc.ip).server.resetTimeout }).lastReset_le hbc.ip
      have hNow : (w.put hbc.ip { w.hosts hbc.ip with
        server := (w.hosts hbc.ip).server.resetTimeout }).now = w.now := rfl
      unfold World.roundStart at hStart
      exact .inl (by lia)
    · exact .inr hPending
  · rw [World.put_self]
    intro j hNone
    cases hNone

end Network

section Actions
variable [DecidableEq Fd] {base : Holding Fd}

/-- A beat is taken away only by the client that reads it. -/
theorem reads_kept {action : Action Fd Id} {beats : List (Beat Fd)}
    (h : w.reads action = some beats) {b : Beat Fd} (hMem : b ∈ w.beats) :
    b ∈ beats ∨ ∃ sfd input o hbc, action = .ready sfd input o ∧ w.client sfd = some hbc ∧
      b.To hbc ∧ input.heartbeat = true := by
  unfold World.reads at h
  split at h
  next sfd input o =>
    split at h
    · cases h
      exact .inl hMem
    next hbc hClient =>
      split at h
      · split at h
        next hRead =>
          cases h
          by_cases hWaits : World.waitsFor hbc b = true
          · have hTo := of_decide_eq_true (Bool.and_eq_true_iff.mp hWaits).2
            exact .inr ⟨sfd, input, o, hbc, rfl, hClient, hTo, hRead⟩
          · exact .inl ((List.mem_eraseP_of_neg hWaits).mpr hMem)
        · cases h
      · split at h
        · cases h
        · cases h
          exact .inl hMem
  · cases h
    exact .inl hMem

omit [DecidableEq Fd] in
theorem dials_host {action : Action Fd Id} {hosts : IPString → Host Fd}
    (h : w.dials action = some hosts) (ip : IPString) :
    (hosts ip).server = (w.hosts ip).server ∧ (hosts ip).down = (w.hosts ip).down ∧
      (w.hosts ip).backlog ⊆ (hosts ip).backlog := by
  rcases dials_cases h with ⟨rfl, _⟩ | ⟨fromip, r, o, c, _, _, _, rfl⟩
  · exact ⟨rfl, rfl, List.Subset.refl _⟩
  · by_cases hIP : ip = brokerOf fromip r
    · subst hIP
      rw [Function.update_self]
      exact ⟨rfl, rfl, List.subset_append_left _ _⟩
    · rw [Function.update_of_ne hIP]
      exact ⟨rfl, rfl, List.Subset.refl _⟩

variable [DecidableEq Id]

/-- A client that stays as it is, and from which no beat was taken. -/
theorem Served.acted {hbc : HeartbeatClient Fd} {c : Fd} (h : Served B w hbc c)
    {action : Action Fd Id} (hActed : Acted w action v) (hNow : v.now = w.now)
    (hBeats : ∀ b ∈ w.beats, b.To hbc → b ∈ v.beats) : Served B v hbc c := by
  obtain ⟨hServer, _, hBacklog⟩ := dials_host hActed.dials hbc.ip
  exact h.keep (.of_server hNow hServer hBacklog) fun b hMem hTo =>
    ⟨b, hBeats b hMem hTo, hTo, rfl⟩

theorem AllServed.act (h : AllServed B w) (hTracked : Tracked base w) {action : Action Fd Id}
    (hActed : Acted w action v) : AllServed B v := by
  have hUp : ∀ ip, (v.hosts ip).down = none → (w.hosts ip).down = none := by
    intro ip hDown
    rwa [(dials_host hActed.dials ip).2.1] at hDown
  cases step_clients hActed.noWait hActed.noTimeout hActed.step with
  | same action hOther hNow hClients =>
      intro hbc hClient c hOwn hDown
      rw [hClients] at hClient
      refine (h hbc hClient c hOwn (hUp _ hDown)).acted hActed hNow ?_
      intro b hMem _
      rcases reads_kept hActed.reads hMem with hKept | ⟨sfd, input, o, reader, rfl, hReader, _⟩
      · exact hKept
      · rw [World.client, hOther sfd input o rfl] at hReader
        cases hReader
  | created fromip r o kept hNow hKept hClients =>
      intro hbc hClient c hOwn hDown
      rw [hClients] at hClient
      rcases List.mem_append.mp hClient with hOld | hNew
      · refine (h hbc (hKept.subset hOld) c hOwn (hUp _ hDown)).acted hActed hNow ?_
        intro b hMem _
        rcases reads_kept hActed.reads hMem with hStays | ⟨_, _, _, _, hEq, _⟩
        · exact hStays
        · cases hEq
      · cases List.mem_singleton.mp hNew
        refine .now (.inl ?_) hNow.le
        rcases dials_cases hActed.dials with ⟨_, hNone⟩ | ⟨fromip', r', o', c', hEq, hConnect, _, hHosts⟩
        · rw [HeartbeatClient.new, hNone fromip r o rfl] at hOwn
          cases hOwn
        · cases hEq
          rw [HeartbeatClient.new, hConnect] at hOwn
          cases hOwn
          rw [hHosts]
          show c ∈ (Function.update w.hosts (brokerOf fromip r) _ (brokerOf fromip r)).backlog
          rw [Function.update_self]
          exact List.mem_append_right _ (List.mem_singleton_self c)
  | heard sfd input o i reader hNow hReceiver hReader hSfd hRead hFs hClients =>
      intro hbc hClient c hOwn hDown
      rw [hClients] at hClient
      obtain ⟨j, hj⟩ := List.mem_iff_getElem?.mp hClient
      by_cases hIndex : i = j
      · subst hIndex
        rw [List.getElem?_set_self (List.getElem?_eq_some_iff.mp hReader).1] at hj
        cases hj
        have hServed := h reader (List.mem_of_getElem? hReader) c hOwn (hUp _ hDown)
        obtain ⟨hServer, _, hBacklog⟩ := dials_host hActed.dials reader.ip
        refine .now ?_ hNow.le
        show c ∈ (v.hosts reader.ip).backlog ∨ some c ∈ (v.hosts reader.ip).server.sfdvec
        rw [hServer]
        exact hServed.listed.imp_left (hBacklog ·)
      · rw [List.getElem?_set_ne hIndex] at hj
        refine (h hbc (List.mem_of_getElem? hj) c hOwn (hUp _ hDown)).acted hActed hNow ?_
        intro b hMem hTo
        rcases reads_kept hActed.reads hMem with hStays | ⟨sfd', _, _, reader', hEq, hClient', hTo', _⟩
        · exact hStays
        · cases hEq
          rw [hTracked.client_eq (List.mem_of_getElem? hReader) hSfd] at hClient'
          cases hClient'
          have hSame := State.client_unique hTracked.distinct hReader hj hTo'.2 hTo.2
          exact absurd hSame hIndex
  | lost sfd input o i reader hNow hReceiver hReader hSfd hRead hClients =>
      intro hbc hClient c hOwn hDown
      rw [hClients] at hClient
      rcases List.mem_or_eq_of_mem_set hClient with hOld | hEq
      · refine (h hbc hOld c hOwn (hUp _ hDown)).acted hActed hNow ?_
        intro b hMem _
        rcases reads_kept hActed.reads hMem with hStays | ⟨_, _, _, _, hEq, _, _, hHeard⟩
        · exact hStays
        · cases hEq
          rw [hRead] at hHeard
          cases hHeard
      · cases hEq

theorem AllServed.check (h : AllServed B w) {o : Outcomes Fd} {i : Nat}
    (hChecked : Checked w o i v) : AllServed B v := by
  have hNow := (checkMonitored_clients hChecked.step).1
  intro hbc hClient c hOwn hDown
  rw [hChecked.hosts] at hDown
  refine (h hbc (checked_clients hChecked.step hClient) c hOwn hDown).keep ?_ ?_
  · apply Continues.of_server hNow
    · rw [hChecked.hosts]
    · rw [hChecked.hosts]
      exact List.Subset.refl _
  · intro b hMem hTo
    rw [hChecked.beats]
    exact ⟨b, hMem, hTo, rfl⟩

end Actions

end Served

section Runs
variable {Fd Id : Type} [DecidableEq Fd] [DecidableEq Id] {B : Budget} {w v : World Fd Id}
  {base : Holding Fd}

/-- The budget is kept, and no write fails to a client that the proposer still
has. -/
structure Punctual (B : Budget) (w : World Fd Id) (e : Event Fd Id) : Prop where
  timely : ∀ v, w.step e = some v → Timely B v
  written : ∀ ip, e = .beat ip false → ∀ i, (w.hosts ip).server.sending = some i →
    ∀ hbc, some hbc ∈ w.proposer.clients → hbc.ip = ip → ∀ c, hbc.sfd = some c →
      (w.hosts ip).server.sfdvec[i]? ≠ some (some c)

omit [DecidableEq Fd] [DecidableEq Id] in
theorem World.put_up {ip : IPString} {host : Host Fd}
    (hDown : host.down = none → (w.hosts ip).down = none) (ip' : IPString)
    (h : ((w.put ip host).hosts ip').down = none) : (w.hosts ip').down = none := by
  by_cases hIP : ip' = ip
  · subst hIP
    rw [World.put_self] at h
    exact hDown h
  · rwa [World.put_of_ne hIP] at h

/-- No host comes back. -/
theorem step_up {e : Event Fd Id} (hStep : w.step e = some v) (ip : IPString)
    (hUp : (v.hosts ip).down = none) : (w.hosts ip).down = none := by
  cases step_happens hStep with
  | pass | arrive | expire => exact hUp
  | connect ip' | accepted ip' | refused ip' | timeout ip' | sent ip' | unsent ip'
  | resetTimeout ip' =>
      refine World.put_up ?_ ip hUp
      exact id
  | crash ip' =>
      refine World.put_up ?_ ip hUp
      simp
  | act action _ hActed =>
      rw [(dials_host hActed.dials ip).2.1] at hUp
      exact hUp
  | check o i _ hChecked =>
      rw [hChecked.hosts] at hUp
      exact hUp

/-- In the timeout branch, every client of a host that is up has been heard of
lately. -/
structure Clocked (B : Budget) (w : World Fd Id) : Prop where
  timely : Timely B w
  served : AllServed B w
  busy : w.checking ≠ none → w.timer.left = 4000000
  fresh : w.checking ≠ none → ∀ hbc, some hbc ∈ w.proposer.clients → ∀ c, hbc.sfd = some c →
    (w.hosts hbc.ip).down = none →
    w.lastExpire ≤ hbc.timestamp + (selectorPeriod + 2 * B.serving + B.delay : Nat)

omit [DecidableEq Fd] in
/-- Who is accepted during a round is reached in it, too. -/
theorem drop_append_subset {newsfd : Option Fd} (sfdvec : List (Option Fd)) (i : Nat) :
    sfdvec.drop i ⊆ (sfdvec ++ [newsfd]).drop i := by
  rw [List.drop_append]
  exact List.subset_append_left _ _

theorem AllServed.step (h : AllServed B w) (hTimely : Timely B w) (hTracked : Tracked base w)
    {e : Event Fd Id} (hOk : Punctual B w e) (hStep : w.step e = some v) : AllServed B v := by
  cases step_happens hStep with
  | pass d selecting serving =>
      intro hbc hClient c hOwn hUp
      exact (h hbc hClient c hOwn hUp).keep (w.continues_pass d selecting serving hbc.ip)
        fun b hMem hTo => ⟨b, hMem, hTo, rfl⟩
  | connect ip c hNew hUp =>
      have hPut : AllServed B (w.put ip ((w.hosts ip).connect c)) :=
        h.put id (fun c' hListed => hListed.imp_left (List.mem_append_left _)) rfl
          fun i hSending => ⟨hSending, List.Subset.refl _⟩
      exact hPut.same rfl rfl rfl rfl
  | arrive i b hBeat hArrived =>
      intro hbc hClient c hOwn hUp
      refine (h hbc hClient c hOwn hUp).keep (.of_server rfl rfl (List.Subset.refl _)) ?_
      intro b' hMem hTo
      obtain ⟨j, hj⟩ := List.mem_iff_getElem?.mp hMem
      by_cases hIndex : i = j
      · subst hIndex
        rw [hBeat] at hj
        cases hj
        exact ⟨_, List.mem_set (List.getElem?_eq_some_iff.mp hBeat).1 _, hTo, rfl⟩
      · refine ⟨b', List.mem_of_getElem? (i := j) ?_, hTo, rfl⟩
        rw [List.getElem?_set_ne hIndex]
        exact hj
  | accepted ip c rest hUp hBacklog =>
      refine h.put id ?_ rfl fun i hSending => ⟨hSending, drop_append_subset _ i⟩
      rintro c' (hPending | hListed)
      · rw [hBacklog] at hPending
        rcases List.mem_cons.mp hPending with rfl | hRest
        · exact .inr (List.mem_append_right _ (List.mem_singleton_self _))
        · exact .inl hRest
      · exact .inr (List.mem_append_left _ hListed)
  | refused ip hUp =>
      refine h.put id ?_ rfl fun i hSending => ⟨hSending, drop_append_subset _ i⟩
      exact fun c' hListed => hListed.imp_right (List.mem_append_left _)
  | timeout ip hUp hBacklog => exact h.timeout hUp hBacklog
  | sent ip i c hUp hSending hEntry => exact h.sent hTimely hUp hSending hEntry
  | unsent ip written i sfd hUp hSending hEntry hFailed =>
      refine h.unsent hSending hEntry ?_ hUp
      rintro hbc hClient hIP c hOwn rfl
      rcases hFailed with hNone | rfl
      · cases hNone
      · exact hOk.written ip rfl i hSending hbc hClient hIP c hOwn hEntry
  | resetTimeout ip i hUp hSending hEnd => exact h.resetTimeout hTimely hUp hSending hEnd
  | crash ip hUp =>
      exact h.put (by simp) (fun c hListed => hListed) rfl
        fun i hSending => ⟨hSending, List.Subset.refl _⟩
  | act action _ hActed => exact h.act hTracked hActed
  | expire hIdle hLeft hQuiet => exact h.same rfl rfl rfl rfl
  | check o i _ hChecked => exact h.check hChecked

omit [DecidableEq Id] in
theorem World.lastExpire_pass (d : Nat) (selecting : Bool) (serving : IPString → Bool)
    (w : World Fd Id) : (w.pass d selecting serving).lastExpire = w.lastExpire := by
  have hElapsed := Timer.elapsed_tick (w.waits selecting) d w.timer
  have hLast : (w.pass d selecting serving).lastExpire =
      (w.now + d) - (w.timer.tick (w.waits selecting) d).elapsed := rfl
  rw [hLast, hElapsed, World.lastExpire]
  lia

omit [DecidableEq Id] in
/-- While the records are looked at, the selector is not waited in. -/
theorem World.waits_of_checking {selecting : Bool} (h : w.checking ≠ none) :
    w.waits selecting = false := by
  cases hChecking : w.checking with
  | none => exact absurd hChecking h
  | some i => simp [World.waits, hChecking]

namespace Clocked

omit [DecidableEq Fd] [DecidableEq Id] in
/-- A client that the timeout branch looks at is not expired, if its host is up. -/
theorem beating (h : Clocked B w) (hMargin : 2 * B.serving + B.delay + B.watching ≤ 3000000)
    (hChecking : w.checking ≠ none) {hbc : HeartbeatClient Fd}
    (hClient : some hbc ∈ w.proposer.clients) {c : Fd} (hOwn : hbc.sfd = some c)
    (hUp : (w.hosts hbc.ip).down = none) :
    hbc.isExpired w.now (HEARTBEAT_PERIOD * 2) = false := by
  have hFresh := h.fresh hChecking hbc hClient c hOwn hUp
  have hElapsed := Timer.elapsed_of_full (h.busy hChecking)
  have hOutside := h.timely.watching
  have hPeriod : (selectorPeriod : Int) = 2000000 := selectorPeriod_eq
  have hNow : w.now - hbc.timestamp ≤ 5000000 := by
    unfold World.lastExpire at hFresh
    lia
  exact decide_eq_false (not_lt.mpr hNow)

omit [DecidableEq Fd] [DecidableEq Id] in
/-- The proposer's timer and its loop stay where they are. -/
theorem keep (h : Clocked B w) (hTimely : Timely B v) (hServed : AllServed B v)
    (hTimer : v.timer = w.timer) (hNow : v.now = w.now)
    (hChecking : v.checking ≠ none → w.checking ≠ none)
    (hClients : ∀ hbc, some hbc ∈ v.proposer.clients → some hbc ∈ w.proposer.clients)
    (hDown : ∀ ip, (v.hosts ip).down = none → (w.hosts ip).down = none) : Clocked B v where
  timely := hTimely
  served := hServed
  busy := fun hLoop => hTimer ▸ h.busy (hChecking hLoop)
  fresh := by
    intro hLoop hbc hClient c hOwn hUp
    rw [World.lastExpire, hNow, hTimer]
    exact h.fresh (hChecking hLoop) hbc (hClients hbc hClient) c hOwn (hDown _ hUp)

theorem step (h : Clocked B w) (hTracked : Tracked base w) {e : Event Fd Id}
    (hOk : Punctual B w e) (hStep : w.step e = some v) : Clocked B v := by
  have hTimely := hOk.timely v hStep
  have hServed := h.served.step h.timely hTracked hOk hStep
  have hDown := step_up hStep
  have hNetwork (hProposer : v.proposer = w.proposer) (hTimer : v.timer = w.timer)
      (hChecking : v.checking = w.checking) : Clocked B v :=
    h.keep hTimely hServed hTimer (congrArg State.now hProposer) (hChecking ▸ id)
      (fun hbc hClient => hProposer ▸ hClient) hDown
  cases step_happens hStep with
  | pass d selecting serving =>
      refine ⟨hTimely, hServed, ?_, ?_⟩
      · intro hLoop
        have hLooping : w.checking ≠ none := hLoop
        show (w.timer.tick (w.waits selecting) d).left = _
        rw [World.waits_of_checking hLooping]
        exact h.busy hLooping
      · rw [World.lastExpire_pass]
        exact h.fresh
  | connect | arrive | accepted | refused | timeout | sent | unsent | resetTimeout | crash =>
      exact hNetwork rfl rfl rfl
  | act action _ hActed =>
      exact ⟨hTimely, hServed, fun hLoop => absurd hActed.checking hLoop,
        fun hLoop => absurd hActed.checking hLoop⟩
  | expire hIdle hLeft hQuiet =>
      refine ⟨hTimely, hServed, fun _ => rfl, ?_⟩
      intro _ hbc hClient c hOwn hUp
      have hNow : ((w.now : Int) - (Timer.set 4000000).elapsed) = w.now := by
        rw [Timer.elapsed_set]
        lia
      show (w.now : Int) - (Timer.set 4000000).elapsed ≤ _
      rw [hNow]
      rcases (h.served hbc hClient c hOwn hUp).recent with hLast | ⟨b, hMem, hTo, hSent⟩
      · have hReset := h.timely.now_le_reset hClient hUp
        lia
      · have hUnread := hTracked.quiet hQuiet hClient hMem hTo
        have hDelay := h.timely.delay b hMem hUnread
        lia
  | check o i _ hChecked =>
      exact h.keep hTimely hServed hChecked.timer (checkMonitored_clients hChecked.step).1
        (fun _ => by simp [hChecked.checking])
        (fun hbc hClient => checked_clients hChecked.step hClient) hDown

omit [DecidableEq Id] in
theorem initial (start : Time) (recoveryfd requestsfd querysfd : Fd) (backupbrokers : List Text) :
    Clocked B (World.init start recoveryfd requestsfd querysfd backupbrokers : World Fd Id) where
  timely := ⟨fun _ _ _ => Nat.zero_le _, Nat.zero_le _, by simp [World.init]⟩
  served := by
    intro hbc hClient
    cases hClient
  busy := by simp [World.init]
  fresh := by simp [World.init]

end Clocked

/-- The descriptors and the clocks of a run. -/
theorem punctual_clocked {start : Time} {recoveryfd requestsfd querysfd : Fd}
    {backupbrokers : List Text} (hDistinct : [recoveryfd, requestsfd, querysfd].Nodup)
    (run : Run World.step (Punctual B)
      (.init start recoveryfd requestsfd querysfd backupbrokers : World Fd Id) w) :
    (∃ base, Tracked base w) ∧ Clocked B w := by
  have hBoth : Tracked ((↑[recoveryfd, requestsfd, querysfd] : Multiset Fd), 0) w ∧ Clocked B w := by
    refine run.invariant (P := fun w =>
      Tracked ((↑[recoveryfd, requestsfd, querysfd] : Multiset Fd), 0) w ∧ Clocked B w) ?_ ?_
    · exact ⟨.initial start backupbrokers hDistinct, .initial start _ _ _ backupbrokers⟩
    · exact fun u e v h hOk hStep => ⟨h.1.step hStep, h.2.step h.1 hOk hStep⟩
  exact ⟨⟨_, hBoth.1⟩, hBoth.2⟩

/-- No client of a host that is up is given up, whatever the order of events. A
request replaces a record and gives up nobody. -/
theorem live_never_suspected {start : Time} {recoveryfd requestsfd querysfd : Fd}
    {backupbrokers : List Text} (hDistinct : [recoveryfd, requestsfd, querysfd].Nodup)
    (hMargin : 2 * B.serving + B.delay + B.watching ≤ 3000000)
    (run : Run World.step (Punctual B)
      (.init start recoveryfd requestsfd querysfd backupbrokers : World Fd Id) w)
    {e : Event Fd Id} (hRequest : ∀ fromip r o, e ≠ .act (.request fromip r o))
    (hStep : w.step e = some v) {i : Nat} {hbc : HeartbeatClient Fd} {c : Fd}
    (hClient : w.proposer.clients[i]? = some (some hbc)) (hOwn : hbc.sfd = some c)
    (hUp : (w.hosts hbc.ip).down = none) :
    ∃ hbc', v.proposer.clients[i]? = some (some hbc') ∧ hbc'.ip = hbc.ip ∧ hbc'.sfd = hbc.sfd := by
  obtain ⟨⟨base, hTracked⟩, hClocked⟩ := punctual_clocked hDistinct run
  have hSame (hClients : v.proposer.clients = w.proposer.clients) :
      ∃ hbc', v.proposer.clients[i]? = some (some hbc') ∧ hbc'.ip = hbc.ip ∧
        hbc'.sfd = hbc.sfd := ⟨hbc, hClients ▸ hClient, rfl, rfl⟩
  cases step_happens hStep with
  | act action _ hActed =>
      cases step_clients hActed.noWait hActed.noTimeout hActed.step with
      | same action hOther hNow hClients => exact hSame hClients
      | created fromip r o => exact absurd rfl (hRequest fromip r o)
      | heard sfd input o j reader hNow hReceiver hReader hSfd hRead hFs hClients =>
          by_cases hIndex : j = i
          · subst hIndex
            rw [hReader] at hClient
            cases hClient
            refine ⟨hbc.readMessage w.proposer.now, ?_, rfl, rfl⟩
            rw [hClients, List.getElem?_set_self (List.getElem?_eq_some_iff.mp hReader).1]
          · refine ⟨hbc, ?_, rfl, rfl⟩
            rw [hClients, List.getElem?_set_ne hIndex]
            exact hClient
      | lost sfd input o j reader hNow hReceiver hReader hSfd hRead hClients =>
          by_cases hIndex : j = i
          · subst hIndex
            rw [hReader] at hClient
            cases hClient
            have hReads := hActed.reads
            have hReader' := hTracked.client_eq (List.mem_of_getElem? hReader) hSfd
            simp only [World.reads, hReader', hRead, hUp] at hReads
            split at hReads <;> simp at hReads
          · refine ⟨hbc, ?_, rfl, rfl⟩
            rw [hClients, List.getElem?_set_ne hIndex]
            exact hClient
  | check o k _ hChecked =>
      have hBeating := hClocked.beating hMargin (by simp [hChecked.checking])
        (List.mem_of_getElem? hClient) hOwn hUp
      refine ⟨hbc, ?_, rfl, rfl⟩
      rw [(checkMonitored_clients hChecked.step).2, List.getElem?_modify, hClient]
      split
      · show some (Option.filter _ (some hbc)) = _
        rw [Option.filter_some]
        show some (if (!hbc.isExpired w.now (HEARTBEAT_PERIOD * 2)) = true then _ else _) = _
        rw [hBeating]
        rfl
      · rfl
  | connect | pass | arrive | accepted | refused | timeout | sent | unsent | resetTimeout | crash
  | expire => exact hSame rfl

section Sample

/-- The budget, checked. -/
def timely (B : Budget) (w : World Nat Nat) : Bool :=
  (w.proposer.clients.all fun client => client.all fun hbc =>
      (w.hosts hbc.ip).down.isSome || decide ((w.hosts hbc.ip).server.timer.outside ≤ B.serving)) &&
    (decide (w.timer.outside ≤ B.watching) &&
      w.beats.all fun b => b.arrived.isSome || decide (w.now ≤ b.sent + B.delay))

theorem timely_sound {B : Budget} {w : World Nat Nat} (h : timely B w = true) : Timely B w := by
  simp only [timely, Bool.and_eq_true, List.all_eq_true, Bool.or_eq_true, decide_eq_true_iff] at h
  obtain ⟨hServing, hWatching, hDelay⟩ := h
  refine ⟨?_, hWatching, ?_⟩
  · intro hbc hClient hUp
    have hHost := hServing (some hbc) hClient
    rw [Option.all_some] at hHost
    simpa [hUp] using hHost
  · intro b hMem hArrived
    simpa [hArrived] using hDelay b hMem

/-- The condition on the steps, checked. -/
def punctual (B : Budget) (w : World Nat Nat) (e : Event Nat Nat) : Bool :=
  (w.step e).all (timely B) && match e with
    | .beat ip false => (w.hosts ip).server.sending.all fun i =>
        w.proposer.clients.all fun client => client.all fun hbc =>
          hbc.sfd.isNone || (w.hosts ip).server.sfdvec[i]? != some hbc.sfd
    | _ => true

theorem punctual_sound {B : Budget} (w : World Nat Nat) (e : Event Nat Nat)
    (h : punctual B w e = true) : Punctual B w e := by
  obtain ⟨hTimely, hRest⟩ := Bool.and_eq_true_iff.mp h
  constructor
  · intro v hStep
    rw [hStep, Option.all_some] at hTimely
    exact timely_sound hTimely
  · rintro ip rfl i hSending hbc hClient _ c hOwn
    simp only [hSending, Option.all_some, List.all_eq_true] at hRest
    have hWritten := hRest (some hbc) hClient
    simpa [hOwn] using hWritten

/-- Half a second for everybody. -/
def halfSeconds : Budget := ⟨500000, 500000, 500000⟩

/-- Two seconds in which everybody waits, and a heartbeat that is read. -/
def heartbeat : List (Event Nat Nat) :=
  [.pass 2000000 true fun _ => true, .timeout localhost, .beat localhost true,
    .resetTimeout localhost, .arrive 0, .act (.ready 10 ⟨true, none, .failed, none⟩ (allConnected 1))]

def nobodyWatched : World Nat Nat := .init 0 0 1 2 [localhost.bytes ++ [58, 53, 54, 55, 51]]

/-- A broker is watched for four seconds. -/
def watched : List (Event Nat Nat) :=
  [.expire, .act (watchBroker 1), .accept localhost true] ++ heartbeat ++ heartbeat

theorem live_never_suspected_watched :
    ∃ w v : World Nat Nat, w.now = 4000000 ∧ w.step (.check (allConnected 1)) = some v ∧
      ∃ hbc', v.proposer.clients[0]? = some (some hbc') ∧ hbc'.ip = localhost ∧
        hbc'.sfd = some 10 := by
  have hExec : (exec (guarded World.step (punctual halfSeconds)) nobodyWatched
      (watched ++ [.expire])).map (fun w => decide (w.now = 4000000) &&
        (w.step (.check (allConnected 1))).isSome &&
        decide (w.proposer.clients[0]? = some (some ⟨localhost, some 10, 4000000⟩)) &&
        (w.hosts localhost).down.isNone) = some true := by
    decide
  obtain ⟨w, hw, hState⟩ := Option.map_eq_some_iff.mp hExec
  simp only [Bool.and_eq_true, decide_eq_true_iff, Option.isNone_iff_eq_none] at hState
  obtain ⟨⟨⟨hNow, hEnabled⟩, hClient⟩, hUp⟩ := hState
  obtain ⟨v, hv⟩ := Option.isSome_iff_exists.mp hEnabled
  have hRun := Run.of_guarded punctual_sound hw
  exact ⟨w, v, hNow, hv,
    live_never_suspected (by decide) (by decide) hRun (by simp) hv hClient rfl hUp⟩

end Sample

end Runs

end QpidRecovery.Heartbeat
