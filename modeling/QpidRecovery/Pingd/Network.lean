import QpidRecovery.Pingd.Answers
import QpidRecovery.Pingd.Probe

/-! The daemon, its children and the network. The raw socket of every child
gets a copy of every ICMP packet that arrives, and a child knows the answer to
its own probe by the low half of its pid. -/
namespace QpidRecovery.Pingd

open Layout Transition

/-- A child as the daemon's options have it. -/
def Ping.child (options : Ping) (pid : Int32) : Ping := { options with pid := pid }

/-- A probe that is not yet answered, or whose answer has not arrived. -/
structure Probe where
  pid : Int32
  target : Address
  packet : List UInt8
deriving DecidableEq, Repr

/-- Two fields are a record of what happened: who answered the probes of a child
while it ran, with the TTL of each answer, and what these were when the child
was waited for. -/
structure World where
  daemon : State
  probes : List Probe
  inbox : Int32 → List (List UInt8)
  answered : Int32 → List (Address × UInt8)
  buried : List (Child × List (Address × UInt8))

def World.init : World where
  daemon := .init
  probes := []
  inbox := fun _ => []
  answered := fun _ => []
  buried := []

inductive Event where
  | daemon (a : Action)
  | probe (pid : Int32) (tv : Timeval)
  | lose (i : Nat)
  | answer (i : Nat) (ip : Iphdr) (checksum : UInt16)
  | arrive (ip : Iphdr) (icmp : List UInt8)
  | hear (pid : Int32)

/-- Every child that runs gets a copy. -/
def World.deliver (packet : List UInt8) (w : World) : World :=
  { w with inbox := fun pid =>
      if runs pid w.daemon.children then w.inbox pid ++ [packet] else w.inbox pid }

/-- The pid of a new child. -/
def Action.forked : Action → Option Int32
  | .receive (some (_, some pid)) => some pid
  | _ => none

/-- A step of the daemon or of a child. A new child has a socket of its own. -/
def World.act (capacity : Nat) (a : Action) (w : World) : Option World :=
  (step capacity w.daemon a).map fun d =>
    { w with
      daemon := d
      inbox := a.forked.elim w.inbox fun pid => Function.update w.inbox pid []
      answered := a.forked.elim w.answered fun pid => Function.update w.answered pid []
      buried := w.buried ++
        (d.reaped.drop w.daemon.reaped.length).map fun r => (r.1, w.answered r.1.pid) }

/-- A child reads the next packet at its socket, and may report it. -/
def World.hear (options : Ping) (capacity : Nat) (pid : Int32) (w : World) : Option World :=
  match w.inbox pid with
  | [] => none
  | packet :: rest =>
      if runs pid w.daemon.children then
        let w := { w with inbox := Function.update w.inbox pid rest }
        match parseReply (options.child pid) packet with
        | none => some w
        | some sample => w.act capacity (.report sample)
      else none

/-- The reports are those that the children make of what they hear. -/
def World.step (options : Ping) (capacity : Nat) (w : World) : Event → Option World
  | .daemon (.report _) => none
  | .daemon a => w.act capacity a
  | .probe pid tv =>
      (w.daemon.children.find? fun c => c.pid = pid ∧ c.exited = false).bind fun c =>
        (sendProbe (options.child pid) tv).map fun packet =>
          { w with probes := w.probes ++ [⟨pid, c.request.pingto, packet⟩] }
  | .lose i => some { w with probes := w.probes.eraseIdx i }
  | .answer i ip checksum =>
      w.probes[i]?.bind fun x => (echo x.packet checksum).map fun icmp =>
        { w with
          probes := w.probes.eraseIdx i
          answered := if runs x.pid w.daemon.children then
              Function.update w.answered x.pid (w.answered x.pid ++ [(x.target, ip.ttl)])
            else w.answered }.deliver (ip.bytes ++ icmp)
  | .arrive ip icmp => some (w.deliver (ip.bytes ++ icmp))
  | .hear pid => w.hear options capacity pid

/-- What arrives besides the answers is no echo reply with the identity of a
child that runs. -/
def Foreign (w : World) (icmp : List UInt8) : Prop :=
  8 ≤ icmp.length → (ofBytes (icmp.take (size Icmphdr)) : Icmphdr).type = ICMP_ECHOREPLY →
    ∀ c ∈ w.daemon.children, c.exited = false →
      (ofBytes (icmp.take (size Icmphdr)) : Icmphdr).id ≠ htons (lowHalf c.pid)

/-- No child that runs and no probe on its way has the low half of a new pid. -/
def Fresh (w : World) (pid : Int32) : Prop :=
  (∀ c ∈ w.daemon.children, c.exited = false → lowHalf c.pid ≠ lowHalf pid) ∧
    ∀ x ∈ w.probes, lowHalf x.pid ≠ lowHalf pid

def World.allowed (capacity : Nat) (w : World) : Event → Prop
  | .daemon a => ok capacity w.daemon a ∧ ∀ pid, a.forked = some pid → Fresh w pid
  | .arrive _ icmp => Foreign w icmp
  | _ => True

/-- Everything that the daemon's step does to the children. -/
inductive Changes (s t : State) : Action → Prop where
  | report (sample : PingdSample) (runs : runs sample.pid s.children)
      (children : t.children = onChild sample.pid
        (fun c => { c with reports := c.reports ++ [sample.hops] }) s.children)
      (reaped : t.reaped = s.reaped) : Changes s t (.report sample)
  | exit (pid : Int32)
      (children : t.children = onChild pid (fun c => { c with exited := true }) s.children)
      (reaped : t.reaped = s.reaped) : Changes s t (.exit pid)
  | fork (r : PingRequest) (pid : Int32) (new : pid ∉ s.children.map Child.pid)
      (children : t.children = ⟨pid, r, [], false⟩ :: s.children)
      (reaped : t.reaped = s.reaped) : Changes s t (.receive (some (r, some pid)))
  | reap (c : Child) (now : Nat) (mem : c ∈ s.children)
      (children : t.children = s.children.filter fun d => d.pid ≠ c.pid)
      (reaped : t.reaped = s.reaped ++ [(c, now)]) : Changes s t (.reap c.pid now)
  | other (a : Action) (forked : a.forked = none) (silent : ∀ sample, a ≠ .report sample)
      (children : t.children = s.children) (reaped : t.reaped = s.reaped) : Changes s t a

theorem changes {capacity : Nat} {s t : State} {a : Action} (h : step capacity s a = some t) :
    Changes s t a := by
  cases a with
  | report sample =>
      simp only [step] at h
      split_ifs at h with hRuns
      cases h
      exact .report sample hRuns.1 rfl rfl
  | exit pid =>
      simp only [step] at h
      split_ifs at h
      cases h
      exact .exit pid rfl rfl
  | handler =>
      simp only [step] at h
      split_ifs at h <;> cases h <;> exact .other _ rfl (fun _ hReport => by cases hReport) rfl rfl
  | read =>
      simp only [step] at h
      split_ifs at h
      split at h
      · cases h
      · split at h
        · cases h
          exact .other _ rfl (fun _ hReport => by cases hReport) rfl rfl
        · cases h
          refine .other _ rfl (fun _ hReport => by cases hReport) ?_ ?_ <;> unfold handleReport <;>
            dsimp only <;> split_ifs <;> rfl
  | select =>
      simp only [step] at h
      split_ifs at h
      cases h
      exact .other _ rfl (fun _ hReport => by cases hReport) rfl rfl
  | receive r =>
      simp only [step] at h
      split_ifs at h
      split at h
      · cases h
        exact .other _ rfl (fun _ hReport => by cases hReport) rfl rfl
      · cases h
        exact .other _ rfl (fun _ hReport => by cases hReport) rfl rfl
      · next request pid =>
          split_ifs at h with hNew
          cases h
          refine .fork request pid hNew ?_ ?_ <;> unfold mappid <;> split <;> rfl
  | reap pid now =>
      simp only [step] at h
      split_ifs at h
      obtain ⟨c, hFound, rfl⟩ := Option.map_eq_some_iff.mp h
      have hFits := List.find?_some hFound
      simp only [decide_eq_true_eq] at hFits
      obtain ⟨rfl, _⟩ := hFits
      refine .reap c now (List.mem_of_find?_eq_some hFound) ?_ ?_ <;> split <;> rfl
  | harvested =>
      simp only [step] at h
      split_ifs at h
      cases h
      exact .other _ rfl (fun _ hReport => by cases hReport) rfl rfl

section Hears
variable {options : Ping} {capacity : Nat} {w v : World}

/-- The hop count that a child reports when it reads a packet. -/
def hopsHeard (options : Ping) (pid : Int32) (packet : List UInt8) : Option Int32 :=
  (parseReply (options.child pid) packet).map PingdSample.hops

/-- What a child has reported and what it is still to read are the answers to
its own probes, in their order. -/
structure Hears (options : Ping) (w : World) : Prop where
  daemon : ∃ heard, Inv heard w.daemon
  sent : ∀ x ∈ w.probes, ∃ tv, sendProbe (options.child x.pid) tv = some x.packet
  apart : ∀ c ∈ w.daemon.children, c.exited = false → ∀ d ∈ w.daemon.children, d.exited = false →
    lowHalf c.pid = lowHalf d.pid → c.pid = d.pid
  ours : ∀ x ∈ w.probes, ∀ c ∈ w.daemon.children, c.exited = false →
    lowHalf c.pid = lowHalf x.pid → c.pid = x.pid ∧ c.request.pingto = x.target
  targets : ∀ c ∈ w.daemon.children, ∀ y ∈ w.answered c.pid, y.1 = c.request.pingto
  heard : ∀ c ∈ w.daemon.children,
    c.reports ++ (w.inbox c.pid).filterMap (hopsHeard options c.pid) =
      (w.answered c.pid).map fun y => hopCount y.2
  same : w.buried.map Prod.fst = w.daemon.reaped.map Prod.fst
  buried : ∀ b ∈ w.buried, b.1.reports <+: (b.2.map fun y => hopCount y.2) ∧
    ∀ y ∈ b.2, y.1 = b.1.request.pingto

theorem runs_iff {pid : Int32} {children : List Child} :
    runs pid children = true ↔ ∃ c ∈ children, c.pid = pid ∧ c.exited = false := by
  simp [runs]

/-- No child has heard anything, and no child and no probe is new. -/
theorem Hears.narrow (h : Hears options w) (hDaemon : ∃ heard, Inv heard v.daemon)
    (hProbes : v.probes ⊆ w.probes) (hInbox : v.inbox = w.inbox)
    (hAnswered : v.answered = w.answered)
    (hOld : ∀ c ∈ v.daemon.children, ∃ d ∈ w.daemon.children, d.pid = c.pid ∧
      d.request = c.request ∧ d.reports = c.reports ∧ (c.exited = false → d.exited = false))
    (hSame : v.buried.map Prod.fst = v.daemon.reaped.map Prod.fst)
    (hBuried : ∀ b ∈ v.buried, b.1.reports <+: (b.2.map fun y => hopCount y.2) ∧
      ∀ y ∈ b.2, y.1 = b.1.request.pingto) : Hears options v where
  daemon := hDaemon
  sent := fun x hx => h.sent x (hProbes hx)
  apart := by
    intro c hc hRuns e he hRuns' hHalf
    obtain ⟨c', hc', hPid, _, _, hOpen⟩ := hOld c hc
    obtain ⟨e', he', hPid', _, _, hOpen'⟩ := hOld e he
    rw [← hPid, ← hPid'] at hHalf ⊢
    exact h.apart c' hc' (hOpen hRuns) e' he' (hOpen' hRuns') hHalf
  ours := by
    intro x hx c hc hRuns hHalf
    obtain ⟨c', hc', hPid, hRequest, _, hOpen⟩ := hOld c hc
    rw [← hPid] at hHalf
    rw [← hPid, ← hRequest]
    exact h.ours x (hProbes hx) c' hc' (hOpen hRuns) hHalf
  targets := by
    intro c hc
    obtain ⟨c', hc', hPid, hRequest, _⟩ := hOld c hc
    rw [hAnswered, ← hPid, ← hRequest]
    exact h.targets c' hc'
  heard := by
    intro c hc
    obtain ⟨c', hc', hPid, _, hReports, _⟩ := hOld c hc
    rw [hInbox, hAnswered, ← hPid, ← hReports]
    exact h.heard c' hc'
  same := hSame
  buried := hBuried

/-- No child is waited for. -/
theorem buried_kept {d : State} (hReaped : d.reaped = w.daemon.reaped) :
    w.buried ++ (d.reaped.drop w.daemon.reaped.length).map (fun r => (r.1, w.answered r.1.pid)) =
      w.buried := by
  rw [hReaped, List.drop_length, List.map_nil, List.append_nil]

theorem Hears.fork (h : Hears options w) {d : State} {r : PingRequest} {pid : Int32}
    (hDaemon : ∃ heard, Inv heard d) (hFresh : Fresh w pid)
    (hNew : pid ∉ w.daemon.children.map Child.pid)
    (hChildren : d.children = ⟨pid, r, [], false⟩ :: w.daemon.children)
    (hReaped : d.reaped = w.daemon.reaped) :
    Hears options { w with
      daemon := d
      inbox := Function.update w.inbox pid []
      answered := Function.update w.answered pid [] } := by
  obtain ⟨hOthers, hProbes⟩ := hFresh
  have hMem : ∀ c ∈ d.children, c = ⟨pid, r, [], false⟩ ∨ c ∈ w.daemon.children := by
    intro c hc
    rw [hChildren] at hc
    exact List.mem_cons.mp hc
  constructor
  · exact hDaemon
  · exact h.sent
  · intro c hc hRuns e he hRuns' hHalf
    rcases hMem c hc with rfl | hOld
    · rcases hMem e he with rfl | hOld'
      · rfl
      · exact absurd hHalf.symm (hOthers e hOld' hRuns')
    · rcases hMem e he with rfl | hOld'
      · exact absurd hHalf (hOthers c hOld hRuns)
      · exact h.apart c hOld hRuns e hOld' hRuns' hHalf
  · intro x hx c hc hRuns hHalf
    rcases hMem c hc with rfl | hOld
    · exact absurd hHalf.symm (hProbes x hx)
    · exact h.ours x hx c hOld hRuns hHalf
  · intro c hc
    rcases hMem c hc with rfl | hOld
    · simp
    · have hPid : c.pid ≠ pid := fun hEq => hNew (List.mem_map.mpr ⟨c, hOld, hEq⟩)
      show ∀ y ∈ Function.update w.answered pid [] c.pid, _
      rw [Function.update_of_ne hPid]
      exact h.targets c hOld
  · intro c hc
    rcases hMem c hc with rfl | hOld
    · simp
    · have hPid : c.pid ≠ pid := fun hEq => hNew (List.mem_map.mpr ⟨c, hOld, hEq⟩)
      show c.reports ++ (Function.update w.inbox pid [] c.pid).filterMap _ =
        (Function.update w.answered pid [] c.pid).map fun y => hopCount y.2
      rw [Function.update_of_ne hPid, Function.update_of_ne hPid]
      exact h.heard c hOld
  · exact h.same.trans (congrArg (List.map Prod.fst) hReaped.symm)
  · exact h.buried

/-- A step of the daemon, or the exit of a child. -/
theorem Hears.act {a : Action} (h : Hears options w) (hOk : ok capacity w.daemon a)
    (hFresh : ∀ pid, a.forked = some pid → Fresh w pid) (hReport : ∀ sample, a ≠ .report sample)
    (hAct : w.act capacity a = some v) : Hears options v := by
  obtain ⟨d, hStep, rfl⟩ := Option.map_eq_some_iff.mp hAct
  obtain ⟨heard, hInv⟩ := h.daemon
  have hDaemon := hInv.step hOk hStep
  cases changes hStep with
  | report sample => exact absurd rfl (hReport sample)
  | exit pid hChildren hReaped =>
      rw [buried_kept hReaped]
      refine h.narrow hDaemon (List.Subset.refl _) rfl rfl ?_ ?_ h.buried
      · intro c hc
        rw [hChildren] at hc
        obtain ⟨c', hc', ⟨_, rfl⟩ | ⟨_, rfl⟩⟩ := mem_onChild hc
        · exact ⟨c', hc', rfl, rfl, rfl, nofun⟩
        · exact ⟨c, hc', rfl, rfl, rfl, id⟩
      · exact h.same.trans (congrArg (List.map Prod.fst) hReaped.symm)
  | fork r pid hNew hChildren hReaped =>
      rw [buried_kept hReaped]
      exact h.fork hDaemon (hFresh pid rfl) hNew hChildren hReaped
  | reap c now hMem hChildren hReaped =>
      have hDrop : d.reaped.drop w.daemon.reaped.length = [(c, now)] := by
        rw [hReaped, List.drop_left]
      rw [hDrop]
      refine h.narrow hDaemon (List.Subset.refl _) rfl rfl ?_ ?_ ?_
      · intro e he
        rw [hChildren] at he
        exact ⟨e, List.mem_of_mem_filter he, rfl, rfl, rfl, id⟩
      · simp [hReaped, h.same]
      · intro b hb
        rcases List.mem_append.mp hb with hOld | hLast
        · exact h.buried b hOld
        · obtain rfl := List.mem_singleton.mp hLast
          exact ⟨⟨_, h.heard c hMem⟩, h.targets c hMem⟩
  | other a hForked hSilent hChildren hReaped =>
      rw [buried_kept hReaped, hForked]
      refine h.narrow hDaemon (List.Subset.refl _) rfl rfl ?_ ?_ h.buried
      · intro c hc
        rw [hChildren] at hc
        exact ⟨c, hc, rfl, rfl, rfl, id⟩
      · exact h.same.trans (congrArg (List.map Prod.fst) hReaped.symm)

/-- Of the children that the daemon has not waited for, those that have not
exited run. -/
theorem runs_child {heard : Int32 → List Int32} {s : State} (hInv : Inv heard s) {c : Child}
    (hc : c ∈ s.children) : runs c.pid s.children = !c.exited := by
  cases hExited : c.exited with
  | false => exact runs_iff.mpr ⟨c, hc, rfl, hExited⟩
  | true =>
      apply Bool.eq_false_iff.mpr
      intro hRuns
      obtain ⟨d, hd, hPid, hOpen⟩ := runs_iff.mp hRuns
      obtain rfl := List.inj_on_of_nodup_map hInv.distinct hd hc hPid
      rw [hExited] at hOpen
      cases hOpen

/-- A packet arrives at the children that run. -/
theorem Hears.deliver (h : Hears options w) {packet : List UInt8} {probes : List Probe}
    {answered : Int32 → List (Address × UInt8)} (hProbes : probes ⊆ w.probes)
    (hTargets : ∀ c ∈ w.daemon.children, ∀ y ∈ answered c.pid, y.1 = c.request.pingto)
    (hHeard : ∀ c ∈ w.daemon.children, c.exited = false →
      ((answered c.pid).map fun y => hopCount y.2) =
        ((w.answered c.pid).map fun y => hopCount y.2) ++ (hopsHeard options c.pid packet).toList)
    (hExited : ∀ c ∈ w.daemon.children, c.exited = true → answered c.pid = w.answered c.pid) :
    Hears options ({ w with probes := probes, answered := answered }.deliver packet) where
  daemon := h.daemon
  sent := fun x hx => h.sent x (hProbes hx)
  apart := h.apart
  ours := fun x hx => h.ours x (hProbes hx)
  targets := hTargets
  heard := by
    intro c hc
    obtain ⟨heard, hInv⟩ := h.daemon
    have hOld := h.heard c hc
    simp only [World.deliver, runs_child hInv hc]
    cases hOpen : c.exited with
    | false =>
        rw [hHeard c hc hOpen, ← hOld, List.append_assoc]
        simp only [Bool.not_false, if_true, List.filterMap_append]
        cases hReport : hopsHeard options c.pid packet <;> simp [hReport]
    | true =>
        rw [hExited c hc hOpen]
        exact hOld
  same := h.same
  buried := h.buried

/-- A child reads the next packet that it has. -/
theorem Hears.hear (h : Hears options w) {pid : Int32} {packet : List UInt8}
    {rest : List (List UInt8)} (hInbox : w.inbox pid = packet :: rest)
    (hSilent : parseReply (options.child pid) packet = none) :
    Hears options { w with inbox := Function.update w.inbox pid rest } := by
  constructor
  · exact h.daemon
  · exact h.sent
  · exact h.apart
  · exact h.ours
  · exact h.targets
  · intro c hc
    have hOld := h.heard c hc
    by_cases hPid : c.pid = pid
    · subst hPid
      rw [hInbox, List.filterMap_cons_none (by rw [hopsHeard, hSilent, Option.map_none])] at hOld
      simpa using hOld
    · simpa [hPid] using hOld
  · exact h.same
  · exact h.buried

/-- A child reports what it reads. -/
theorem Hears.report (h : Hears options w) {pid : Int32} {packet : List UInt8}
    {rest : List (List UInt8)} {sample : PingdSample} (hInbox : w.inbox pid = packet :: rest)
    (hSample : parseReply (options.child pid) packet = some sample)
    (hAct : { w with inbox := Function.update w.inbox pid rest }.act capacity (.report sample) =
      some v) : Hears options v := by
  obtain ⟨d, hStep, rfl⟩ := Option.map_eq_some_iff.mp hAct
  obtain ⟨heard, hInv⟩ := h.daemon
  have hDaemon : ∃ heard', Inv heard' d := hInv.step (a := .report sample) trivial hStep
  have hPid : sample.pid = pid := by
    unfold parseReply at hSample
    dsimp only at hSample
    split_ifs at hSample
    cases hSample
    rfl
  cases changes hStep with
  | other _ _ hSilent => exact absurd rfl (hSilent sample)
  | report _ _ hChildren hReaped =>
      rw [buried_kept hReaped]
      have hOld : ∀ c ∈ d.children, ∃ e ∈ w.daemon.children, e.pid = c.pid ∧
          e.request = c.request ∧ e.exited = c.exited ∧
          c.reports = e.reports ++ if e.pid = pid then [sample.hops] else [] := by
        intro c hc
        rw [hChildren, hPid] at hc
        obtain ⟨e, he, ⟨hSame, rfl⟩ | ⟨hOther, rfl⟩⟩ := mem_onChild hc
        · exact ⟨e, he, rfl, rfl, rfl, by rw [if_pos hSame]⟩
        · exact ⟨c, he, rfl, rfl, rfl, by rw [if_neg hOther, List.append_nil]⟩
      constructor
      · exact hDaemon
      · exact h.sent
      · intro c hc hRuns e he hRuns' hHalf
        obtain ⟨c', hc', hPid, _, hOpen, _⟩ := hOld c hc
        obtain ⟨e', he', hPid', _, hOpen', _⟩ := hOld e he
        rw [← hPid, ← hPid'] at hHalf ⊢
        exact h.apart c' hc' (hOpen.trans hRuns) e' he' (hOpen'.trans hRuns') hHalf
      · intro x hx c hc hRuns hHalf
        obtain ⟨c', hc', hPid, hRequest, hOpen, _⟩ := hOld c hc
        rw [← hPid] at hHalf
        rw [← hPid, ← hRequest]
        exact h.ours x hx c' hc' (hOpen.trans hRuns) hHalf
      · intro c hc
        obtain ⟨e, he, hSame, hRequest, _⟩ := hOld c hc
        rw [← hSame, ← hRequest]
        exact h.targets e he
      · intro c hc
        obtain ⟨e, he, hSame, _, _, hReports⟩ := hOld c hc
        have hHeard := h.heard e he
        rw [hReports, ← hSame]
        by_cases hReader : e.pid = pid
        · rw [hReader] at hHeard ⊢
          rw [hInbox, List.filterMap_cons_some (b := sample.hops)
            (by rw [hopsHeard, hSample, Option.map_some])] at hHeard
          simpa [Action.forked] using hHeard
        · simpa [Action.forked, hReader] using hHeard
      · exact h.same.trans (congrArg (List.map Prod.fst) hReaped.symm)
      · exact h.buried

/-- The answer to a probe is heard by the child that sent it. -/
theorem hopsHeard_answer (hLoud : options.quiet = false ∧ options.flood = false) {x : Probe}
    {tv : Timeval} (hSent : sendProbe (options.child x.pid) tv = some x.packet)
    {checksum : UInt16} {icmp : List UInt8} (hEcho : echo x.packet checksum = some icmp)
    (ip : Iphdr) (pid : Int32) :
    hopsHeard options pid (ip.bytes ++ icmp) =
      if lowHalf pid = lowHalf x.pid then some (hopCount ip.ttl) else none := by
  obtain ⟨icp, hType, hId, hAnswer⟩ := echo_sendProbe hSent checksum
  rw [hEcho] at hAnswer
  cases hAnswer
  have hIdent : icp.id = (options.child pid).ident ↔ lowHalf pid = lowHalf x.pid := by
    rw [hId, Ping.ident, Ping.ident, htons_inj]
    exact eq_comm
  have hOptions : (options.child pid).quiet = false ∧ (options.child pid).flood = false := hLoud
  simp only [hopsHeard, parseReply_eq, hType, hIdent, hOptions.1, hOptions.2]
  by_cases hHalf : lowHalf pid = lowHalf x.pid <;> simp [hHalf]

theorem hopsHeard_foreign {icmp : List UInt8} (hForeign : Foreign w icmp) (ip : Iphdr) {c : Child}
    (hc : c ∈ w.daemon.children) (hRuns : c.exited = false) :
    hopsHeard options c.pid (ip.bytes ++ icmp) = none := by
  rw [hopsHeard, Option.map_eq_none_iff]
  by_cases hShort : icmp.length < 8
  · exact parseReply_short _ ip hShort
  have hSize : size Icmphdr = 8 := rfl
  have hTake : (icmp.take (size Icmphdr)).length = size Icmphdr := by
    rw [List.length_take]
    omega
  have hSplit : icmp = bytes (ofBytes (icmp.take (size Icmphdr)) : Icmphdr) ++
      icmp.drop (size Icmphdr) := by
    rw [bytes_ofBytes _ hTake, List.take_append_drop]
  rw [hSplit, parseReply_eq, if_neg]
  rintro ⟨hType, hId, _⟩
  exact hForeign (Nat.le_of_not_lt hShort) hType c hc hRuns hId

theorem Hears.answer (h : Hears options w) (hLoud : options.quiet = false ∧ options.flood = false)
    {i : Nat} {x : Probe} (hx : w.probes[i]? = some x) {ip : Iphdr} {checksum : UInt16}
    {icmp : List UInt8} (hEcho : echo x.packet checksum = some icmp) :
    Hears options ({ w with
      probes := w.probes.eraseIdx i
      answered := if runs x.pid w.daemon.children then
          Function.update w.answered x.pid (w.answered x.pid ++ [(x.target, ip.ttl)])
        else w.answered }.deliver (ip.bytes ++ icmp)) := by
  have hMem : x ∈ w.probes := List.mem_of_getElem? hx
  obtain ⟨heard, hInv⟩ := h.daemon
  obtain ⟨tv, hSent⟩ := h.sent x hMem
  have hNew : ∀ c ∈ w.daemon.children,
      (if runs x.pid w.daemon.children then
          Function.update w.answered x.pid (w.answered x.pid ++ [(x.target, ip.ttl)])
        else w.answered) c.pid =
        w.answered c.pid ++
          if c.pid = x.pid ∧ c.exited = false then [(x.target, ip.ttl)] else [] := by
    intro c hc
    have hRuns := runs_child hInv hc
    by_cases hPid : c.pid = x.pid
    · rw [← hPid, hRuns]
      cases hOpen : c.exited <;> simp
    · have hOther : ¬(c.pid = x.pid ∧ c.exited = false) := fun hOwn => hPid hOwn.1
      rw [if_neg hOther, List.append_nil]
      split_ifs
      · rw [Function.update_of_ne hPid]
      · rfl
  apply h.deliver (List.eraseIdx_sublist _ _).subset
  · intro c hc y hy
    rw [hNew c hc] at hy
    rcases List.mem_append.mp hy with hOld | hLast
    · exact h.targets c hc y hOld
    · split_ifs at hLast with hOwn
      · obtain rfl := List.mem_singleton.mp hLast
        exact (h.ours x hMem c hc hOwn.2 (congrArg lowHalf hOwn.1)).2.symm
      · cases hLast
  · intro c hc hOpen
    rw [hNew c hc, hopsHeard_answer hLoud hSent hEcho]
    have hHalf : lowHalf c.pid = lowHalf x.pid ↔ c.pid = x.pid :=
      ⟨fun hHalf => (h.ours x hMem c hc hOpen hHalf).1, congrArg lowHalf⟩
    by_cases hPid : c.pid = x.pid <;> simp [hHalf, hPid, hOpen]
  · intro c hc hExited
    rw [hNew c hc]
    simp [hExited]

theorem Hears.probe (h : Hears options w) {pid : Int32} {tv : Timeval} {c : Child}
    {packet : List UInt8} (hc : c ∈ w.daemon.children) (hPid : c.pid = pid)
    (hRuns : c.exited = false) (hSent : sendProbe (options.child pid) tv = some packet) :
    Hears options { w with probes := w.probes ++ [⟨pid, c.request.pingto, packet⟩] } := by
  obtain ⟨heard, hInv⟩ := h.daemon
  constructor
  · exact h.daemon
  · intro x hx
    rcases List.mem_append.mp hx with hOld | hLast
    · exact h.sent x hOld
    · obtain rfl := List.mem_singleton.mp hLast
      exact ⟨tv, hSent⟩
  · exact h.apart
  · intro x hx d hd hRuns' hHalf
    rcases List.mem_append.mp hx with hOld | hLast
    · exact h.ours x hOld d hd hRuns' hHalf
    · obtain rfl := List.mem_singleton.mp hLast
      rw [← hPid] at hHalf
      have hSame := h.apart d hd hRuns' c hc hRuns hHalf
      obtain rfl := List.inj_on_of_nodup_map hInv.distinct hd hc hSame
      exact ⟨hPid, rfl⟩
  · exact h.targets
  · exact h.heard
  · exact h.same
  · exact h.buried

/-- Whatever happens, every child hears the answers to its own probes. -/
theorem Hears.step (h : Hears options w) (hLoud : options.quiet = false ∧ options.flood = false)
    {e : Event} (hAllowed : w.allowed capacity e) (hStep : w.step options capacity e = some v) :
    Hears options v := by
  cases e with
  | daemon a =>
      obtain ⟨hOk, hFresh⟩ := hAllowed
      cases a with
      | report sample => cases hStep
      | exit | handler | read | select | receive | reap | harvested =>
          exact h.act hOk hFresh nofun hStep
  | probe pid tv =>
      obtain ⟨c, hFound, hSend⟩ := Option.bind_eq_some_iff.mp hStep
      obtain ⟨packet, hSent, rfl⟩ := Option.map_eq_some_iff.mp hSend
      have hFits := List.find?_some hFound
      simp only [decide_eq_true_eq] at hFits
      exact h.probe (List.mem_of_find?_eq_some hFound) hFits.1 hFits.2 hSent
  | lose i =>
      cases hStep
      exact h.narrow h.daemon (List.eraseIdx_sublist _ _).subset rfl rfl
        (fun c hc => ⟨c, hc, rfl, rfl, rfl, id⟩) h.same h.buried
  | answer i ip checksum =>
      obtain ⟨x, hx, hAnswer⟩ := Option.bind_eq_some_iff.mp hStep
      obtain ⟨icmp, hEcho, rfl⟩ := Option.map_eq_some_iff.mp hAnswer
      exact h.answer hLoud hx hEcho
  | arrive ip icmp =>
      cases hStep
      apply h.deliver (List.Subset.refl _) h.targets
      · intro c hc hRuns
        rw [hopsHeard_foreign hAllowed ip hc hRuns, Option.toList_none, List.append_nil]
      · exact fun _ _ _ => rfl
  | hear pid =>
      have hHear : w.hear options capacity pid = some v := hStep
      unfold World.hear at hHear
      split at hHear
      · cases hHear
      · next packet rest hInbox =>
          split_ifs at hHear
          dsimp only at hHear
          split at hHear
          · next hSilent =>
              cases hHear
              exact h.hear hInbox hSilent
          · next sample hSample => exact h.report hInbox hSample hHear

theorem Hears.initial (options : Ping) : Hears options World.init := by
  constructor
  · refine ⟨fun _ => [], ⟨nofun, nofun⟩, List.nodup_nil, rfl, rfl, ?_, ?_, ?_, rfl, .nil, ?_⟩
    · exact fun r hr => absurd hr List.not_mem_nil
    · exact fun c hc => absurd hc List.not_mem_nil
    · exact fun c hc => absurd hc List.not_mem_nil
    · exact fun ⟨c, hc, _⟩ => absurd hc List.not_mem_nil
  · exact fun x hx => absurd hx List.not_mem_nil
  · exact fun c hc => absurd hc List.not_mem_nil
  · exact fun x hx => absurd hx List.not_mem_nil
  · exact fun c hc => absurd hc List.not_mem_nil
  · exact fun c hc => absurd hc List.not_mem_nil
  · rfl
  · exact fun b hb => absurd hb List.not_mem_nil

end Hears

section Sample

end Sample

end QpidRecovery.Pingd
