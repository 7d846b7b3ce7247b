import Mathlib.Data.List.Perm.Basic
import Mathlib.Logic.Function.Basic
import QpidRecovery.Pingd.Daemon

/-! The answers of the ping daemon. Reports and the records of the handler share
one pipe, but the loop around `waitpid` takes every child that has exited. The
answer is right as long as it takes no child that still has a report in the
pipe. -/
namespace QpidRecovery.Pingd

open Transition

def lastHops (reports : List Int32) : Int32 := reports.getLast?.getD HOPS_ERROR

/-- The response that is due to the client of a child. -/
def Child.answer (c : Child) (now : Nat) : PingdHops :=
  ⟨c.request.client, lastHops c.reports, c.request.pingto, now⟩

/-- No report of a child is in the pipe when the child is waited for, the table
has a free entry for every child that is forked, and the handler finds room. -/
def ok (capacity : Nat) (s : State) : Action → Prop
  | .reap pid _ => ∀ r ∈ s.pipe, r.reporter ≠ some pid
  | .receive (some (_, some _)) => s.children.length < TABLE_SIZE
  | .handler => (pending (s.pipe ++ [.child])).length ≤ capacity
  | _ => True

/-- The daemon waits in `select`, and nothing is on its way to it. -/
def State.Settled (s : State) : Prop :=
  s.control = .selecting ∧ s.pipe = [] ∧ s.sigchld = false

/-- The steps that the daemon takes by itself. -/
def Action.isOwn : Action → Bool
  | .handler | .read | .receive _ | .reap _ _ | .harvested => true
  | .report _ | .exit _ | .select => false

/-- Whether the daemon is on its way back to the `select`. -/
def Control.away : Control → Nat
  | receiving | harvesting => 1
  | selecting | blocked | errexit => 0

/-- What is left to do without another exit, report or datagram. -/
def State.work (s : State) : Nat :=
  3 * s.sigchld.toNat + 2 * s.pipe.length + s.children.countP Child.exited + s.control.away

/-- Every child that was waited for has been answered, once and with the last
hop count that it wrote. The daemon has waited for all that exited before it
rests, and it gets there. -/
structure Answers (capacity : Nat) (s : State) : Prop where
  alive : s.control ≠ .blocked ∧ s.control ≠ .errexit
  requests : s.requests.Perm ((s.children ++ s.reaped.map Prod.fst).map Child.request)
  responses : s.responses = s.reaped.map fun done => done.1.answer done.2
  failed : ∀ done ∈ s.reaped, (done.1.answer done.2).hops = HOPS_ERROR ↔ done.1.reports = []
  complete : s.Settled → ∀ c ∈ s.children, c.exited = false
  progress : s.Settled ∨
    ∃ a t, a.isOwn = true ∧ step capacity s a = some t ∧ t.work < s.work

/-- The hop counts of one child that are still in the pipe. -/
def queued (pid : Int32) (pipe : List Report) : List Int32 := pipe.filterMap (Report.hopsOf pid)

/-- The entry of a child of which so many hop counts were read. -/
def entry (heard : Int32 → List Int32) (c : Child) : PidAddress :=
  ⟨c.pid, lastHops (heard c.pid), c.request.client, c.request.pingto⟩

/-- The table knows the children, and each with the hop counts that have left
the pipe. -/
structure Inv (heard : Int32 → List Int32) (s : State) : Prop where
  alive : s.control ≠ .blocked ∧ s.control ≠ .errexit
  distinct : (s.children.map Child.pid).Nodup
  table : s.inUse = s.children.map (entry heard)
  free : s.inUse.length + s.unused = TABLE_SIZE
  known : ∀ r ∈ s.pipe, ∀ pid, r.reporter = some pid → pid ∈ s.children.map Child.pid
  reports : ∀ c ∈ s.children, c.reports = heard c.pid ++ queued c.pid s.pipe
  counted : ∀ c ∈ s.children ++ s.reaped.map Prod.fst, ∀ h ∈ c.reports, 0 ≤ h
  responses : s.responses = s.reaped.map fun done => done.1.answer done.2
  requests : s.requests.Perm ((s.children ++ s.reaped.map Prod.fst).map Child.request)
  due : (∃ c ∈ s.children, c.exited = true) →
    s.control = .harvesting ∨ s.sigchld = true ∨ Report.child ∈ s.pipe

section Lists
variable {children : List Child} {pid : Int32} {f : Child → Child}

theorem onChild_map {β : Type} {g : Child → β} (h : ∀ c, g (f c) = g c) :
    (onChild pid f children).map g = children.map g := by
  rw [onChild, List.map_map]
  apply List.map_congr_left
  intro c _
  dsimp only [Function.comp_apply]
  split
  · exact h c
  · rfl

/-- What the table and the requests see of a child. -/
theorem onChild_kept (pid : Int32) (children : List Child)
    (hPid : ∀ c, (f c).pid = c.pid) (hRequest : ∀ c, (f c).request = c.request) :
    (onChild pid f children).map Child.pid = children.map Child.pid ∧
      (onChild pid f children).map Child.request = children.map Child.request ∧
      ∀ heard, (onChild pid f children).map (entry heard) = children.map (entry heard) := by
  refine ⟨onChild_map hPid, onChild_map hRequest, fun heard => onChild_map ?_⟩
  intro c
  rw [entry, entry, hPid, hRequest]

theorem mem_onChild {c : Child} (h : c ∈ onChild pid f children) :
    ∃ d ∈ children, (d.pid = pid ∧ c = f d) ∨ (d.pid ≠ pid ∧ c = d) := by
  obtain ⟨d, hd, rfl⟩ := List.mem_map.mp h
  refine ⟨d, hd, ?_⟩
  split
  next hSame => exact .inl ⟨hSame, rfl⟩
  next hOther => exact .inr ⟨hOther, rfl⟩

/-- `sethops` finds the entry of a child. -/
theorem sethops_map (heard : Int32 → List Int32) (h : Int32)
    (hNodup : (children.map Child.pid).Nodup) (hMem : pid ∈ children.map Child.pid) :
    sethops pid h (children.map (entry heard)) =
      some (children.map (entry (Function.update heard pid (heard pid ++ [h])))) := by
  induction children with
  | nil => cases hMem
  | cons c rest ih =>
      rw [List.map_cons, List.nodup_cons] at hNodup
      have hOther : ∀ l : List Child, pid ∉ l.map Child.pid →
          l.map (entry (Function.update heard pid (heard pid ++ [h]))) = l.map (entry heard) := by
        intro l hNot
        apply List.map_congr_left
        intro d hd
        have hPid : d.pid ≠ pid := fun hSame => hNot (List.mem_map.mpr ⟨d, hd, hSame⟩)
        rw [entry, Function.update_of_ne hPid]
        rfl
      rw [List.map_cons, sethops, List.map_cons]
      split
      next hSame =>
        have hPid : c.pid = pid := hSame
        rw [hOther rest (hPid ▸ hNodup.1)]
        simp [entry, hPid, lastHops]
      next hDifferent =>
        have hPid : c.pid ≠ pid := hDifferent
        have hRest : pid ∈ rest.map Child.pid := by
          rcases List.mem_cons.mp hMem with hHead | hTail
          · exact absurd hHead.symm hPid
          · exact hTail
        rw [ih hNodup.2 hRest, Option.map_some, entry, entry, Function.update_of_ne hPid]

theorem filter_absent (h : pid ∉ children.map Child.pid) :
    (children.filter fun d => d.pid ≠ pid) = children := by
  apply List.filter_eq_self.mpr
  intro d hd
  apply decide_eq_true
  intro hSame
  exact h (List.mem_map.mpr ⟨d, hd, hSame⟩)

/-- `unmappid` takes out the entry of a child. -/
theorem unmappid_map (heard : Int32 → List Int32) {c : Child}
    (hNodup : (children.map Child.pid).Nodup) (hMem : c ∈ children) :
    unmappid c.pid (children.map (entry heard)) =
      some (entry heard c, (children.filter fun d => d.pid ≠ c.pid).map (entry heard)) := by
  induction children with
  | nil => cases hMem
  | cons d rest ih =>
      rw [List.map_cons, List.nodup_cons] at hNodup
      rw [List.map_cons, unmappid]
      rcases List.mem_cons.mp hMem with hHead | hTail
      · have hSame : d.pid = (entry heard d).pid := rfl
        rw [hHead, if_pos hSame, List.filter_cons_of_neg (by simp), filter_absent hNodup.1]
      · have hPid : d.pid ≠ c.pid := by
          intro hSame
          exact hNodup.1 (List.mem_map.mpr ⟨c, hTail, hSame.symm⟩)
        rw [if_neg (fun hSame => hPid hSame.symm), ih hNodup.2 hTail,
          List.filter_cons_of_pos (by simpa using hPid)]
        rfl

/-- A child that is waited for, and the others. -/
theorem perm_reap {c : Child} (hNodup : (children.map Child.pid).Nodup) (hMem : c ∈ children) :
    children.Perm (c :: children.filter fun d => d.pid ≠ c.pid) := by
  induction children with
  | nil => cases hMem
  | cons d rest ih =>
      rw [List.map_cons, List.nodup_cons] at hNodup
      rcases List.mem_cons.mp hMem with hHead | hTail
      · subst hHead
        rw [List.filter_cons_of_neg (by simp), filter_absent hNodup.1]
      · have hPid : d.pid ≠ c.pid := by
          intro hSame
          exact hNodup.1 (List.mem_map.mpr ⟨c, hTail, hSame.symm⟩)
        rw [List.filter_cons_of_pos (by simpa using hPid)]
        exact ((ih hNodup.2 hTail).cons d).trans (List.Perm.swap c d _)

end Lists

theorem queued_sample (pid : Int32) (sample : PingdSample) :
    queued pid [.sample sample] = if sample.pid = pid then [sample.hops] else [] := by
  by_cases hSame : sample.pid = pid
  · simp [queued, Report.hopsOf, hSame]
  · simp [queued, Report.hopsOf, hSame]

theorem queued_append (pid : Int32) (first second : List Report) :
    queued pid (first ++ second) = queued pid first ++ queued pid second :=
  List.filterMap_append

/-- A child whose pid is not in the pipe has nothing queued there. -/
theorem queued_of_absent {pid : Int32} {pipe : List Report}
    (h : ∀ r ∈ pipe, r.reporter ≠ some pid) : queued pid pipe = [] := by
  apply List.filterMap_eq_nil_iff.mpr
  intro r hr
  cases r with
  | sample s =>
      have hOther : s.pid ≠ pid := fun hSame => h _ hr (congrArg some hSame)
      exact if_neg hOther
  | child => rfl

section Steps
variable {heard : Int32 → List Int32} {s t : State} {capacity : Nat}

theorem step_report (hInv : Inv heard s) {sample : PingdSample}
    (hStep : step capacity s (.report sample) = some t) : Inv heard t := by
  simp only [step] at hStep
  split at hStep
  next hCan =>
    obtain ⟨hRuns, hHops, _⟩ := hCan
    cases hStep
    obtain ⟨hPids, hRequests, hEntries⟩ := onChild_kept
      (f := fun c => { c with reports := c.reports ++ [sample.hops] }) sample.pid s.children
      (fun _ => rfl) (fun _ => rfl)
    constructor
    · exact hInv.alive
    · dsimp only
      rw [hPids]
      exact hInv.distinct
    · exact hInv.table.trans (hEntries heard).symm
    · exact hInv.free
    · dsimp only
      rw [hPids]
      intro r hr pid hPid
      rcases List.mem_append.mp hr with hOld | hNew
      · exact hInv.known r hOld pid hPid
      · obtain ⟨c, hc, hRunning⟩ := List.any_eq_true.mp hRuns
        rw [List.mem_singleton.mp hNew] at hPid
        cases hPid
        exact List.mem_map.mpr ⟨c, hc, (of_decide_eq_true hRunning).1⟩
    · intro c hc
      dsimp only
      rw [queued_append, queued_sample]
      obtain ⟨d, hd, ⟨hSame, rfl⟩ | ⟨hOther, rfl⟩⟩ := mem_onChild hc
      · dsimp only
        rw [if_pos hSame.symm, hInv.reports d hd, List.append_assoc]
      · rw [if_neg (fun hSame => hOther hSame.symm), List.append_nil]
        exact hInv.reports c hd
    · intro c hc h hh
      rcases List.mem_append.mp hc with hChild | hReaped
      · obtain ⟨d, hd, ⟨_, rfl⟩ | ⟨_, rfl⟩⟩ := mem_onChild hChild
        · rcases List.mem_append.mp hh with hOld | hNew
          · exact hInv.counted d (List.mem_append_left _ hd) h hOld
          · rw [List.mem_singleton.mp hNew]
            exact hHops
        · exact hInv.counted c (List.mem_append_left _ hd) h hh
      · exact hInv.counted c (List.mem_append_right _ hReaped) h hh
    · exact hInv.responses
    · dsimp only
      rw [List.map_append, hRequests, ← List.map_append]
      exact hInv.requests
    · rintro ⟨c, hc, hExited⟩
      obtain ⟨d, hd, ⟨_, rfl⟩ | ⟨_, rfl⟩⟩ := mem_onChild hc
      · rcases hInv.due ⟨d, hd, hExited⟩ with hHarvest | hSignal | hChild
        · exact .inl hHarvest
        · exact .inr (.inl hSignal)
        · exact .inr (.inr (List.mem_append_left _ hChild))
      · rcases hInv.due ⟨c, hd, hExited⟩ with hHarvest | hSignal | hChild
        · exact .inl hHarvest
        · exact .inr (.inl hSignal)
        · exact .inr (.inr (List.mem_append_left _ hChild))
  · cases hStep

theorem step_exit (hInv : Inv heard s) {pid : Int32}
    (hStep : step capacity s (.exit pid) = some t) : Inv heard t := by
  simp only [step] at hStep
  split at hStep
  · cases hStep
    obtain ⟨hPids, hRequests, hEntries⟩ := onChild_kept
      (f := fun c => { c with exited := true }) pid s.children (fun _ => rfl) (fun _ => rfl)
    constructor
    · exact hInv.alive
    · dsimp only
      rw [hPids]
      exact hInv.distinct
    · exact hInv.table.trans (hEntries heard).symm
    · exact hInv.free
    · dsimp only
      rw [hPids]
      exact hInv.known
    · intro c hc
      obtain ⟨d, hd, ⟨_, rfl⟩ | ⟨_, rfl⟩⟩ := mem_onChild hc
      · exact hInv.reports d hd
      · exact hInv.reports c hd
    · intro c hc h hh
      rcases List.mem_append.mp hc with hChild | hReaped
      · obtain ⟨d, hd, ⟨_, rfl⟩ | ⟨_, rfl⟩⟩ := mem_onChild hChild
        · exact hInv.counted d (List.mem_append_left _ hd) h hh
        · exact hInv.counted c (List.mem_append_left _ hd) h hh
      · exact hInv.counted c (List.mem_append_right _ hReaped) h hh
    · exact hInv.responses
    · dsimp only
      rw [List.map_append, hRequests, ← List.map_append]
      exact hInv.requests
    · exact fun _ => .inr (.inl rfl)
  · cases hStep

theorem step_handler (hInv : Inv heard s) (hOk : ok capacity s .handler)
    (hStep : step capacity s .handler = some t) : Inv heard t := by
  have hRoom : (pending (s.pipe ++ [.child])).length ≤ capacity := hOk
  simp only [step, hRoom] at hStep
  split at hStep
  · cases hStep
    constructor
    · exact hInv.alive
    · exact hInv.distinct
    · exact hInv.table
    · exact hInv.free
    · intro r hr pid hPid
      rcases List.mem_append.mp hr with hOld | hNew
      · exact hInv.known r hOld pid hPid
      · rw [List.mem_singleton.mp hNew] at hPid
        cases hPid
    · intro c hc
      dsimp only
      rw [queued_append]
      exact (hInv.reports c hc).trans (congrArg _ (List.append_nil _).symm)
    · exact hInv.counted
    · exact hInv.responses
    · exact hInv.requests
    · intro _
      exact .inr (.inr (List.mem_append_right _ List.mem_cons_self))
  · cases hStep

theorem step_select (hInv : Inv heard s) (hStep : step capacity s .select = some t) :
    Inv heard t := by
  simp only [step] at hStep
  split at hStep
  next hCan =>
    cases hStep
    obtain ⟨_, hDistinct, hTable, hFree, hKnown, hReports, hCounted, hResponses, hRequests, hDue⟩ :=
      hInv
    refine ⟨⟨nofun, nofun⟩, hDistinct, hTable, hFree, hKnown, hReports, hCounted, hResponses,
      hRequests, ?_⟩
    intro hExited
    rcases hDue hExited with hHarvest | hRest
    · rw [hCan.1] at hHarvest
      cases hHarvest
    · exact .inr hRest
  · cases hStep

theorem step_harvested (hInv : Inv heard s) (hStep : step capacity s .harvested = some t) :
    Inv heard t := by
  simp only [step] at hStep
  split at hStep
  next hCan =>
    cases hStep
    obtain ⟨_, hDistinct, hTable, hFree, hKnown, hReports, hCounted, hResponses, hRequests, _⟩ := hInv
    refine ⟨⟨nofun, nofun⟩, hDistinct, hTable, hFree, hKnown, hReports, hCounted, hResponses,
      hRequests, ?_⟩
    rintro ⟨c, hc, hExited⟩
    have hNone := List.all_eq_true.mp hCan.2 c hc
    rw [hExited] at hNone
    cases hNone
  · cases hStep

theorem step_reap (hInv : Inv heard s) {pid : Int32} {now : Nat}
    (hOk : ok capacity s (.reap pid now)) (hStep : step capacity s (.reap pid now) = some t) :
    Inv heard t := by
  simp only [step] at hStep
  split at hStep
  next hHarvest =>
    obtain ⟨c, hFind, hNext⟩ := Option.map_eq_some_iff.mp hStep
    have hc := List.mem_of_find?_eq_some hFind
    have hPid : c.pid = pid := by
      have hFound := List.find?_some hFind
      exact (of_decide_eq_true hFound).1
    subst hPid
    have hUnmap := unmappid_map heard hInv.distinct hc
    rw [hInv.table, hUnmap] at hNext
    dsimp only at hNext
    subst hNext
    have hReports : c.reports = heard c.pid := by
      rw [hInv.reports c hc, queued_of_absent hOk, List.append_nil]
    have hPerm := perm_reap hInv.distinct hc
    have hLeft : ∀ d ∈ s.children.filter (fun d => d.pid ≠ c.pid), d ∈ s.children :=
      fun d hd => (List.mem_filter.mp hd).1
    constructor
    · exact hInv.alive
    · exact hInv.distinct.sublist (List.filter_sublist.map _)
    · rfl
    · have hLength := hPerm.length_eq
      have hFree := hInv.free
      rw [hInv.table, List.length_map] at hFree
      dsimp only
      rw [List.length_map]
      rw [List.length_cons] at hLength
      omega
    · intro r hr pid hPid
      obtain ⟨d, hd, rfl⟩ := List.mem_map.mp (hInv.known r hr pid hPid)
      have hOther : d.pid ≠ c.pid := fun hSame => hOk r hr (hSame ▸ hPid)
      exact List.mem_map.mpr ⟨d, List.mem_filter.mpr ⟨hd, decide_eq_true hOther⟩, rfl⟩
    · exact fun d hd => hInv.reports d (hLeft d hd)
    · intro d hd h hh
      rcases List.mem_append.mp hd with hChild | hReaped
      · exact hInv.counted d (List.mem_append_left _ (hLeft d hChild)) h hh
      · dsimp only at hReaped
        rw [List.map_append] at hReaped
        rcases List.mem_append.mp hReaped with hOld | hNew
        · exact hInv.counted d (List.mem_append_right _ hOld) h hh
        · rw [List.mem_singleton.mp hNew] at hh
          exact hInv.counted c (List.mem_append_left _ hc) h hh
    · have hAnswer : respond (entry heard c) now = c.answer now := by
        rw [respond, Child.answer, hReports]
        rfl
      dsimp only
      rw [hInv.responses, hAnswer, List.map_append]
      rfl
    · have hAll : (s.children ++ s.reaped.map Prod.fst).Perm
          (s.children.filter (fun d => d.pid ≠ c.pid) ++ (s.reaped ++ [(c, now)]).map Prod.fst) := by
        rw [List.map_append, ← List.append_assoc]
        exact (hPerm.append_right _).trans (List.perm_append_singleton c _).symm
      exact hInv.requests.trans (hAll.map _)
    · exact fun _ => .inl hHarvest
  · cases hStep

theorem handleReport_sample (sample : PingdSample) (s : State) :
    handleReport (Report.sample sample).header (Report.sample sample).body s =
      { s with inUse := (sethops sample.pid sample.hops s.inUse).getD s.inUse } := by
  have hType : (Report.sample sample).header.type = PINGD_SAMPLE := rfl
  rw [handleReport, if_pos hType, Report.body, Layout.ofBytes_bytes]

theorem handleReport_child (s : State) :
    handleReport Report.child.header Report.child.body s = { s with control := .harvesting } :=
  rfl

/-- The daemon is back at the `select` without a child. -/
theorem Inv.unforked (hInv : Inv heard s) (hReceiving : s.control = .receiving) :
    Inv heard { s with control := .selecting } := by
  obtain ⟨_, hDistinct, hTable, hFree, hKnown, hReports, hCounted, hResponses, hRequests, hDue⟩ :=
    hInv
  refine ⟨⟨nofun, nofun⟩, hDistinct, hTable, hFree, hKnown, hReports, hCounted, hResponses,
    hRequests, ?_⟩
  intro hExited
  rcases hDue hExited with hHarvest | hRest
  · rw [hReceiving] at hHarvest
    cases hHarvest
  · exact .inr hRest

/-- A child is forked, and the table has room for it. -/
theorem Inv.forked (hInv : Inv heard s) (hReceiving : s.control = .receiving)
    (request : PingRequest) {pid : Int32} (hNew : pid ∉ s.children.map Child.pid)
    (hRoom : s.children.length < TABLE_SIZE) :
    Inv (Function.update heard pid []) (mappid pid request { s with
      control := .selecting
      children := ⟨pid, request, [], false⟩ :: s.children
      requests := s.requests ++ [request] }) := by
  have hBack := hInv.unforked hReceiving
  have hOther : ∀ c ∈ s.children, Function.update heard pid [] c.pid = heard c.pid := by
    intro c hc
    apply Function.update_of_ne
    exact fun hSame => hNew (List.mem_map.mpr ⟨c, hc, hSame⟩)
  have hFree := hInv.free
  rw [hInv.table, List.length_map] at hFree
  unfold mappid
  dsimp only
  split
  next hFull => omega
  next unused hUnused =>
    constructor
    · exact hBack.alive
    · exact List.nodup_cons.mpr ⟨hNew, hInv.distinct⟩
    · dsimp only
      rw [List.map_cons, hInv.table]
      congr 1
      · simp [entry, lastHops]
      · apply List.map_congr_left
        intro c hc
        rw [entry, entry, hOther c hc]
    · dsimp only
      rw [List.length_cons, hInv.table, List.length_map]
      omega
    · exact fun r hr p hReporter => List.mem_cons_of_mem _ (hInv.known r hr p hReporter)
    · intro c hc
      rcases List.mem_cons.mp hc with rfl | hOld
      · have hAbsent : ∀ r ∈ s.pipe, r.reporter ≠ some pid :=
          fun r hr hReporter => hNew (hInv.known r hr pid hReporter)
        dsimp only
        rw [Function.update_self, queued_of_absent hAbsent]
        rfl
      · rw [hOther c hOld]
        exact hInv.reports c hOld
    · intro c hc h hh
      rcases List.mem_cons.mp hc with rfl | hOld
      · cases hh
      · exact hInv.counted c hOld h hh
    · exact hInv.responses
    · dsimp only
      rw [List.cons_append, List.map_cons]
      exact (List.perm_append_singleton _ _).trans (hInv.requests.cons request)
    · rintro ⟨c, hc, hExited⟩
      rcases List.mem_cons.mp hc with rfl | hOld
      · cases hExited
      · exact hBack.due ⟨c, hOld, hExited⟩

theorem step_receive (hInv : Inv heard s) {r : Option (PingRequest × Option Int32)}
    (hOk : ok capacity s (.receive r)) (hStep : step capacity s (.receive r) = some t) :
    ∃ heard', Inv heard' t := by
  simp only [step] at hStep
  split at hStep
  next hReceiving =>
    split at hStep
    · cases hStep
      exact ⟨heard, hInv.unforked hReceiving⟩
    · cases hStep
      exact ⟨heard, hInv.unforked hReceiving⟩
    next request pid =>
      split at hStep
      · cases hStep
      next hNew =>
        cases hStep
        exact ⟨_, hInv.forked hReceiving request hNew hOk⟩
  · cases hStep

/-- A hop count goes from the pipe into the table. -/
theorem Inv.sampled (hInv : Inv heard s) {sample : PingdSample} {rest : List Report}
    (hPipe : s.pipe = .sample sample :: rest) :
    Inv (Function.update heard sample.pid (heard sample.pid ++ [sample.hops])) { s with
      pipe := rest
      inUse := (sethops sample.pid sample.hops s.inUse).getD s.inUse } := by
  have hTail : ∀ r ∈ rest, r ∈ s.pipe := by
    intro r hr
    rw [hPipe]
    exact List.mem_cons_of_mem _ hr
  have hChild : sample.pid ∈ s.children.map Child.pid := by
    apply hInv.known (.sample sample) _ sample.pid rfl
    rw [hPipe]
    exact List.mem_cons_self
  have hSet := sethops_map heard sample.hops hInv.distinct hChild
  constructor
  · exact hInv.alive
  · exact hInv.distinct
  · dsimp only
    rw [hInv.table, hSet, Option.getD_some]
  · dsimp only
    rw [hInv.table, hSet, Option.getD_some, List.length_map]
    have hFree := hInv.free
    rw [hInv.table, List.length_map] at hFree
    exact hFree
  · exact fun r hr => hInv.known r (hTail r hr)
  · intro c hc
    have hReports := hInv.reports c hc
    rw [hPipe, ← List.singleton_append, queued_append, queued_sample] at hReports
    dsimp only
    by_cases hSame : sample.pid = c.pid
    · rw [if_pos hSame] at hReports
      rw [hSame, Function.update_self, hReports, List.append_assoc]
    · rw [if_neg hSame, List.nil_append] at hReports
      rw [Function.update_of_ne (fun hPid => hSame hPid.symm), hReports]
  · exact hInv.counted
  · exact hInv.responses
  · exact hInv.requests
  · intro hExited
    rcases hInv.due hExited with hHarvest | hSignal | hRecord
    · exact .inl hHarvest
    · exact .inr (.inl hSignal)
    · rw [hPipe] at hRecord
      rcases List.mem_cons.mp hRecord with hHead | hRest
      · cases hHead
      · exact .inr (.inr hRest)

theorem step_read (hInv : Inv heard s) (hStep : step capacity s .read = some t) :
    ∃ heard', Inv heard' t := by
  simp only [step] at hStep
  split at hStep
  next hSelecting =>
    cases hPipe : s.pipe with
    | nil =>
        rw [hPipe] at hStep
        cases hStep
    | cons r rest =>
        rw [hPipe] at hStep
        dsimp only at hStep
        rw [pending, List.flatMap_cons, readReport_written] at hStep
        cases hStep
        cases r with
        | sample sample =>
            rw [handleReport_sample]
            exact ⟨_, hInv.sampled hPipe⟩
        | child =>
            refine ⟨heard, ?_⟩
            obtain ⟨_, hDistinct, hTable, hFree, hKnown, hReports, hCounted, hResponses, hRequests,
              _⟩ := hInv
            have hTail : ∀ r ∈ rest, r ∈ s.pipe := by
              intro r hr
              rw [hPipe]
              exact List.mem_cons_of_mem _ hr
            rw [handleReport_child]
            refine ⟨⟨nofun, nofun⟩, hDistinct, hTable, hFree, fun r hr => hKnown r (hTail r hr), ?_,
              hCounted, hResponses, hRequests, fun _ => .inl rfl⟩
            intro c hc
            rw [hReports c hc, hPipe]
            rfl
  · cases hStep

/-- Every step of the run keeps the table in order. -/
theorem Inv.step (hInv : Inv heard s) {a : Action} (hOk : ok capacity s a)
    (hStep : step capacity s a = some t) : ∃ heard', Inv heard' t := by
  cases a with
  | report sample => exact ⟨heard, step_report hInv hStep⟩
  | exit pid => exact ⟨heard, step_exit hInv hStep⟩
  | handler => exact ⟨heard, step_handler hInv hOk hStep⟩
  | read => exact step_read hInv hStep
  | select => exact ⟨heard, step_select hInv hStep⟩
  | receive r => exact step_receive hInv hOk hStep
  | reap pid now => exact ⟨heard, step_reap hInv hOk hStep⟩
  | harvested => exact ⟨heard, step_harvested hInv hStep⟩

end Steps

section Progress
variable {s t : State} {capacity : Nat}

/-- A child that has exited is waited for once. -/
theorem countP_reaped_lt {children : List Child} {c : Child} {pid : Int32} (hMem : c ∈ children)
    (hPid : c.pid = pid) (hExited : c.exited = true) :
    (children.filter fun d => d.pid ≠ pid).countP Child.exited < children.countP Child.exited := by
  have hSplit := List.countP_eq_countP_filter_add children Child.exited (fun d => d.pid ≠ pid)
  have hGone : 0 < (children.filter fun d => !decide (d.pid ≠ pid)).countP Child.exited := by
    apply List.countP_pos_iff.mpr
    exact ⟨c, List.mem_filter.mpr ⟨hMem, by simp [hPid]⟩, hExited⟩
  omega

/-- The daemon never comes to an end by itself without having less to do. -/
theorem own_work_lt {a : Action} (hOwn : a.isOwn = true) (hStep : step capacity s a = some t) :
    t.work < s.work := by
  cases a with
  | report sample => cases hOwn
  | exit pid => cases hOwn
  | select => cases hOwn
  | handler =>
      simp only [step] at hStep
      split at hStep
      next hCan =>
        have hSignal : s.sigchld.toNat = 1 := by rw [hCan.1]; rfl
        split at hStep
        · cases hStep
          simp only [State.work, List.length_append, List.length_singleton, Bool.toNat_false]
          omega
        · cases hStep
          simp only [State.work, Control.away, Bool.toNat_false]
          omega
      · cases hStep
  | read =>
      simp only [step] at hStep
      split at hStep
      next hSelecting =>
        cases hPipe : s.pipe with
        | nil =>
            rw [hPipe] at hStep
            cases hStep
        | cons r rest =>
            rw [hPipe] at hStep
            dsimp only at hStep
            rw [pending, List.flatMap_cons, readReport_written] at hStep
            cases hStep
            cases r with
            | sample sample =>
                rw [handleReport_sample]
                simp only [State.work, hPipe, List.length_cons]
                omega
            | child =>
                rw [handleReport_child]
                simp only [State.work, hPipe, hSelecting, Control.away, List.length_cons]
                omega
      · cases hStep
  | receive r =>
      simp only [step] at hStep
      split at hStep
      next hReceiving =>
        split at hStep
        · cases hStep
          simp only [State.work, hReceiving, Control.away]
          omega
        · cases hStep
          simp only [State.work, hReceiving, Control.away]
          omega
        · split at hStep
          · cases hStep
          next request pid _ =>
            cases hStep
            unfold mappid
            split
            · simp only [State.work, hReceiving, Control.away, List.countP_cons]
              simp
            · simp only [State.work, hReceiving, Control.away, List.countP_cons]
              simp
      · cases hStep
  | reap pid now =>
      simp only [step] at hStep
      split at hStep
      next hHarvest =>
        obtain ⟨c, hFind, rfl⟩ := Option.map_eq_some_iff.mp hStep
        have hFound := List.find?_some hFind
        obtain ⟨hPid, hExited⟩ := of_decide_eq_true hFound
        have hFewer := countP_reaped_lt (List.mem_of_find?_eq_some hFind) hPid hExited
        split
        · simp only [State.work, hHarvest, Control.away]
          omega
        · simp only [State.work, hHarvest, Control.away]
          omega
      · cases hStep
  | harvested =>
      simp only [step] at hStep
      split at hStep
      next hCan =>
        cases hStep
        simp only [State.work, hCan.1, Control.away]
        omega
      · cases hStep

/-- As long as something is left to do, the daemon can do it. -/
theorem own_enabled (hAlive : s.control ≠ .blocked ∧ s.control ≠ .errexit) :
    s.Settled ∨ ∃ a, a.isOwn = true ∧ (step capacity s a).isSome = true := by
  cases hControl : s.control with
  | blocked => exact absurd hControl hAlive.1
  | errexit => exact absurd hControl hAlive.2
  | receiving =>
      refine .inr ⟨.receive none, rfl, ?_⟩
      simp only [step, hControl, if_true]
      rfl
  | harvesting =>
      cases hExited : s.children.find? fun c => c.exited with
      | none =>
          refine .inr ⟨.harvested, rfl, ?_⟩
          have hAll : (s.children.all fun c => !c.exited) = true := by
            apply List.all_eq_true.mpr
            intro c hc
            simpa using List.find?_eq_none.mp hExited c hc
          simp only [step, hControl, hAll, and_self, if_true]
          rfl
      | some c =>
          have hFind : (s.children.find? fun d => d.pid = c.pid ∧ d.exited).isSome = true := by
            apply List.find?_isSome.mpr
            exact ⟨c, List.mem_of_find?_eq_some hExited,
              decide_eq_true ⟨rfl, by simpa using List.find?_some hExited⟩⟩
          refine .inr ⟨.reap c.pid 0, rfl, ?_⟩
          simp only [step, hControl, if_true]
          rw [Option.isSome_map]
          exact hFind
  | selecting =>
      cases hPipe : s.pipe with
      | cons r rest =>
          refine .inr ⟨.read, rfl, ?_⟩
          simp only [step, hControl, if_true, hPipe]
          rw [pending, List.flatMap_cons, readReport_written]
          rfl
      | nil =>
          cases hSignal : s.sigchld with
          | false => exact .inl ⟨hControl, hPipe, hSignal⟩
          | true =>
              have hCan : s.sigchld = true ∧ s.control ≠ .blocked ∧ s.control ≠ .errexit :=
                ⟨hSignal, hAlive⟩
              refine .inr ⟨.handler, rfl, ?_⟩
              simp only [step]
              rw [if_pos hCan]
              split
              · rfl
              · rfl

/-- What the daemon has sent, and that it will send the rest. -/
theorem Inv.answers {heard : Int32 → List Int32} (hInv : Inv heard s) : Answers capacity s where
  alive := hInv.alive
  requests := hInv.requests
  responses := hInv.responses
  failed := by
    intro done hDone
    have hCounted := hInv.counted done.1 (List.mem_append_right _ (List.mem_map_of_mem hDone))
    show lastHops done.1.reports = HOPS_ERROR ↔ done.1.reports = []
    constructor
    · intro hLast
      cases hReports : done.1.reports.getLast? with
      | none => exact List.getLast?_eq_none_iff.mp hReports
      | some h =>
          have hNonneg := hCounted h (List.mem_of_getLast? hReports)
          rw [lastHops, hReports, Option.getD_some] at hLast
          rw [hLast] at hNonneg
          exact absurd hNonneg (by decide)
    · intro hNone
      rw [hNone]
      rfl
  complete := by
    rintro ⟨hControl, hPipe, hSignal⟩ c hc
    cases hExited : c.exited with
    | false => rfl
    | true =>
        rcases hInv.due ⟨c, hc, hExited⟩ with hHarvest | hPending | hRecord
        · rw [hControl] at hHarvest
          cases hHarvest
        · rw [hSignal] at hPending
          cases hPending
        · rw [hPipe] at hRecord
          cases hRecord
  progress := by
    rcases own_enabled hInv.alive with hSettled | ⟨a, hOwn, hEnabled⟩
    · exact .inl hSettled
    · obtain ⟨t, hStep⟩ := Option.isSome_iff_exists.mp hEnabled
      exact .inr ⟨a, t, hOwn, hStep, own_work_lt hOwn hStep⟩

/-- In every run that meets the conditions, every request whose child exits is
answered once, with what the child wrote. -/
theorem answers_requests (capacity : Nat) (s : State)
    (hRun : Run (step capacity) (ok capacity) State.init s) : Answers capacity s := by
  have hInv : ∃ heard, Inv heard s := by
    apply hRun.invariant
    · refine ⟨fun _ => [], ⟨nofun, nofun⟩, List.nodup_nil, rfl, rfl, ?_, ?_, ?_, rfl, .nil, ?_⟩
      · intro r hr
        cases hr
      · intro c hc
        cases hc
      · intro c hc
        cases hc
      · rintro ⟨c, hc, _⟩
        cases hc
    · rintro _ _ _ ⟨heard, hBefore⟩ hOk hStep
      exact hBefore.step hOk hStep
  obtain ⟨heard, hInv⟩ := hInv
  exact hInv.answers

end Progress

section Sample

/-- Requests from `10.0.1.1` and `10.0.1.2`, both for `10.0.1.9`. -/
def firstRequest : PingRequest :=
  ⟨⟨[49, 48, 46, 48, 46, 49, 46, 49], by decide, by decide⟩,
    ⟨[49, 48, 46, 48, 46, 49, 46, 57], by decide, by decide⟩⟩

def secondRequest : PingRequest :=
  ⟨⟨[49, 48, 46, 48, 46, 49, 46, 50], by decide, by decide⟩,
    ⟨[49, 48, 46, 48, 46, 49, 46, 57], by decide, by decide⟩⟩

/-- The capacity of a pipe on Linux. -/
def PIPE_CAPACITY : Nat := 65536

instance (capacity : Nat) (s : State) (a : Action) : Decidable (ok capacity s a) :=
  match a with
  | .reap pid _ => inferInstanceAs (Decidable (∀ r ∈ s.pipe, r.reporter ≠ some pid))
  | .receive (some (_, some _)) => inferInstanceAs (Decidable (s.children.length < TABLE_SIZE))
  | .handler => inferInstanceAs (Decidable ((pending (s.pipe ++ [.child])).length ≤ capacity))
  | .report _ | .exit _ | .read | .select | .receive none | .receive (some (_, none))
  | .harvested => inferInstanceAs (Decidable True)

def bothForked : List Action :=
  [.select, .receive (some (firstRequest, some 10)),
    .select, .receive (some (secondRequest, some 11))]

/-- Two exits share one record, and the second child has reported twice. -/
theorem answers_requests_both :
    ∃ s, Run (step PIPE_CAPACITY) (ok PIPE_CAPACITY) State.init s ∧
      s.responses = [⟨secondRequest.client, 3, secondRequest.pingto, 100⟩,
        ⟨firstRequest.client, HOPS_ERROR, firstRequest.pingto, 100⟩] ∧
      s.Settled ∧ Answers PIPE_CAPACITY s := by
  have hExec : (exec (guarded (step PIPE_CAPACITY) fun s a => decide (ok PIPE_CAPACITY s a))
      State.init (bothForked ++ [.report ⟨5, 11⟩, .exit 10, .report ⟨3, 11⟩, .exit 11, .read, .read,
        .handler, .read, .reap 11 100, .reap 10 100, .harvested])).map
      (fun s => (s.responses, s.control, s.pipe, s.sigchld)) =
      some ([⟨secondRequest.client, 3, secondRequest.pingto, 100⟩,
        ⟨firstRequest.client, HOPS_ERROR, firstRequest.pingto, 100⟩], .selecting, [], false) := by
    decide
  obtain ⟨s, hs, hState⟩ := Option.map_eq_some_iff.mp hExec
  obtain ⟨hResponses, hSettled⟩ := Prod.mk.inj hState
  obtain ⟨hControl, hSettled⟩ := Prod.mk.inj hSettled
  obtain ⟨hPipe, hSignal⟩ := Prod.mk.inj hSettled
  have hRun : Run (step PIPE_CAPACITY) (ok PIPE_CAPACITY) State.init s :=
    Run.of_guarded (fun _ _ => of_decide_eq_true) hs
  exact ⟨s, hRun, hResponses, ⟨hControl, hPipe, hSignal⟩, answers_requests PIPE_CAPACITY s hRun⟩

/-- The record for the first child is read when the second has exited too, and
its report is still behind that record. -/
theorem report_behind_record :
    ¬ ∀ (actions : List Action) (s : State),
      exec (step PIPE_CAPACITY) State.init actions = some s → Answers PIPE_CAPACITY s := by
  intro hAll
  have hExec : (exec (step PIPE_CAPACITY) State.init (bothForked ++
      [.exit 10, .handler, .report ⟨3, 11⟩, .exit 11, .read, .reap 10 100, .reap 11 100])).map
      (fun s => (s.responses, s.reaped)) =
      some ([⟨firstRequest.client, HOPS_ERROR, firstRequest.pingto, 100⟩,
          ⟨secondRequest.client, HOPS_ERROR, secondRequest.pingto, 100⟩],
        [(⟨10, firstRequest, [], true⟩, 100), (⟨11, secondRequest, [3], true⟩, 100)]) := by
    decide
  obtain ⟨s, hs, hState⟩ := Option.map_eq_some_iff.mp hExec
  obtain ⟨hResponses, hReaped⟩ := Prod.mk.inj hState
  have hAnswers := (hAll _ s hs).responses
  rw [hResponses, hReaped] at hAnswers
  exact absurd hAnswers (by decide)

end Sample

end QpidRecovery.Pingd
