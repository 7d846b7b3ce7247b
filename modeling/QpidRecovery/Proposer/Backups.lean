import QpidRecovery.Proposer.Frame

/-! Which backups a process proposes. All services share one list, which is
read from the front, one entry for each broker that fails. -/
namespace QpidRecovery.Proposer

open Transition

variable {Fd Id : Type}

/-- A call of `startRecovery`. -/
structure Failure (Fd Id : Type) where
  o : Outcomes Fd
  mon : Monitored Fd
  state : State Fd Id

namespace Failure

/-- The proposal that the call makes, if it does not crash before. -/
def proposal (f : Failure Fd Id) : Option RecoveryProposal :=
  match f.mon.hbc, f.state.backupbrokers with
  | some _, backupurl :: _ => recoveryProposal f.mon backupurl
  | _, _ => none

def backup (f : Failure Fd Id) : Option (IPString × UInt32) :=
  f.proposal.map fun rp => (rp.backupip, rp.backupport)

end Failure

section Calls
variable [DecidableEq Fd]

/-- The call for a record whose heartbeat has expired. -/
def checkFailure (o : Nat → Outcomes Fd) (i : Nat) (s : State Fd Id) : List (Failure Fd Id) :=
  match s.monitor[i]? with
  | none => []
  | some mon =>
      let mon := { mon with psm := (mon.psm.checkTimeout s.now (seconds 4)).1 }
      let out := if s.totaltime = 0 then informAll (o i).checked mon s else (mon, s)
      match out.1.hbc with
      | none => []
      | some hbc =>
          if hbc.isExpired s.now (HEARTBEAT_PERIOD * 2) then [⟨o i, out.1, out.2⟩] else []

variable [DecidableEq Id]

/-- The calls of the timeout branch. -/
def checkFailures (o : Nat → Outcomes Fd) : Nat → State Fd Id → List (Failure Fd Id)
  | 0, _ => []
  | n + 1, s => checkFailures o n s ++ (checkAll o n s).elim [] (checkFailure o n)

/-- The calls of `startRecovery` in one iteration, up to a crash. -/
def failures (s : State Fd Id) : Action Fd Id → List (Failure Fd Id)
  | .ready sfd input o =>
      match receiver sfd s.monitor with
      | none => []
      | some i =>
          match s.monitor[i]? with
          | none => []
          | some mon => if input.heartbeat then [] else [⟨o, mon, s⟩]
  | .timeout o => checkFailures o s.monitor.length { s with totaltime := nextTotaltime s.totaltime }
  | _ => []

/-- Those of a sequence of iterations. -/
def failuresAlong : State Fd Id → List (Action Fd Id) → List (Failure Fd Id)
  | _, [] => []
  | s, action :: rest =>
      failures s action ++ (step s action).elim [] fun t => failuresAlong t rest

/-- A backup that is left: it is on the list, is not the broker that failed, and
no earlier call proposed it. -/
def Fresh (backupbrokers : List Text) (before : List (Failure Fd Id)) (f : Failure Fd Id)
    (backup : IPString × UInt32) : Prop :=
  (∃ backupurl ∈ backupbrokers, urlToIPPort IP_LENGTH backupurl = some backup) ∧
    backup ≠ (f.mon.ip, f.mon.port) ∧ ∀ g ∈ before, g.backup ≠ some backup

/-- The call proposes a backup that is left, or leaves everything as it was when
none is. -/
def SelectsBackup (backupbrokers : List Text) (before : List (Failure Fd Id))
    (f : Failure Fd Id) : Prop :=
  (∃ backup, f.backup = some backup ∧ Fresh backupbrokers before f backup) ∨
    (∀ backup, ¬ Fresh backupbrokers before f backup) ∧ f.backup = none ∧
      ∃ mon s, startRecovery f.o f.mon f.state = some (mon, s) ∧ mon.hbc = f.mon.hbc ∧
        (mon.ip, mon.port) = (f.mon.ip, f.mon.port) ∧ mon.psm = f.mon.psm ∧
        s.recovery.bavec = f.state.recovery.bavec

/-- The entry whose turn it is names a broker, other than the one that failed
and than those of the entries before it. -/
def NextUsable (backupbrokers : List Text) (n : Nat) (f : Failure Fd Id) : Prop :=
  ∃ backupurl backup, backupbrokers[n]? = some backupurl ∧
    urlToIPPort IP_LENGTH backupurl = some backup ∧ backup ≠ (f.mon.ip, f.mon.port) ∧
    ∀ earlier ∈ backupbrokers.take n, urlToIPPort IP_LENGTH earlier ≠ some backup

/-- What `startRecovery` does once the proposal is made. -/
theorem startRecovery_eq (f : Failure Fd Id) :
    startRecovery f.o f.mon f.state = f.proposal.bind fun rp =>
      let s := { f.state with
        fs := f.state.fs.unregisterFD (f.mon.hbc.bind HeartbeatClient.sfd)
        recovery := f.state.recovery.deleteBroker f.mon.ip f.mon.port
        backupbrokers := f.state.backupbrokers.tail }
      let r := f.mon.psm.newProposal s.now (.recoveryProposal rp)
      (handleCommit f.o r.result { f.mon with hbc := none, psm := r.machine }
        (s.perform r.effects)).map Prod.fst := by
  unfold startRecovery Failure.proposal
  cases hClient : f.mon.hbc with
  | none => rfl
  | some hbc =>
      cases hList : f.state.backupbrokers with
      | nil => rfl
      | cons backupurl rest =>
          cases hProposal : recoveryProposal f.mon backupurl with
          | none => simp [hProposal]
          | some rp => simp [hProposal]

end Calls

/-! The list of backups is read in `startRecovery` only. -/

section Unread
variable {s t : State Fd Id} {mon mon' : Monitored Fd}

variable [DecidableEq Fd] [DecidableEq Id]

/-- An event takes no backup. -/
theorem handleEvent_backupbrokers {o : Outcomes Fd} {le : ListenerEvent Id}
    (h : handleEvent o le s = some t) : t.backupbrokers = s.backupbrokers := by
  have hListen : ∀ (u : State Fd Id) (ip : IPString) (port : UInt32),
      (listenProposerList o ip port u).backupbrokers = u.backupbrokers := by
    intro u ip port
    unfold listenProposerList
    split
    · rfl
    · rfl
  cases le with
  | brokerDisconnection brokerip brokerport =>
      obtain ⟨ip, _, rfl⟩ := Option.map_eq_some_iff.mp h
      rfl
  | linkDown srcip srcport dstip dstport =>
      simp only [handleEvent, linkDown] at h
      split at h
      · cases h
        rfl
      · split at h
        · cases h
          rfl
        · split at h
          · obtain ⟨l, _, rfl⟩ := Option.map_eq_some_iff.mp h
            rfl
          · cases h
  | objectProperty objinfo =>
      simp only [handleEvent] at h
      split at h
      · obtain ⟨dst, _, rfl⟩ := Option.map_eq_some_iff.mp h
        exact hListen _ _ _
      · cases h
        rfl

/-- What a descriptor of no heartbeat client brings. -/
theorem handleReady_backupbrokers {o : Outcomes Fd} {ready : Fd} {input : Input}
    (hNone : receiver ready s.monitor = none) (h : handleReady o ready input s = some t) :
    t.backupbrokers = s.backupbrokers := by
  cases handleReady_step h with
  | beat i mon hReceiver =>
      rw [hReceiver] at hNone
      cases hNone
  | lost i mon out hReceiver =>
      rw [hReceiver] at hNone
      cases hNone
  | changed link newip newport hReceiver hLink hNext =>
      rcases startRerouting_cases hNext with ⟨_, rfl⟩ | ⟨_, rm, calls, _, _, rfl⟩
      · rfl
      · rfl
  | answered hReceiver hLink hResult hNext =>
      rw [hNext]
      rfl
  | listed i hReceiver hResult hFound hNext =>
      rw [hNext]
      unfold readProposerList
      cases input.proposers with
      | reply plist => rfl
      | short overlay => rfl
      | failed => rfl
  | message m hReceiver hResult hFound hMessage hNext =>
      exact (handlePaxosMessage_kept hNext).backupbrokers
  | unread hReceiver hResult hFound hMessage hNext =>
      rw [hNext]

/-- What the timeout branch does to a record that is not expired, and that it
calls `startRecovery` for one that is. -/
theorem checkMonitored_cases (o : Nat → Outcomes Fd) (i : Nat) (s : State Fd Id) :
    (checkFailure o i s = [] ∧
      ∃ t, checkMonitored o i s = some t ∧ t.backupbrokers = s.backupbrokers) ∨
    ∃ f, checkFailure o i s = [f] ∧ f.mon.hbc.isSome ∧
      f.state.backupbrokers = s.backupbrokers ∧
      checkMonitored o i s =
        (startRecovery f.o f.mon f.state).map fun out => out.2.put i out.1 := by
  unfold checkFailure checkMonitored
  cases s.monitor[i]? with
  | none => exact .inl ⟨rfl, s, rfl, rfl⟩
  | some mon =>
      dsimp only
      generalize hOut : (if s.totaltime = 0 then informAll (o i).checked
        { mon with psm := (mon.psm.checkTimeout s.now (seconds 4)).1 } s
        else ({ mon with psm := (mon.psm.checkTimeout s.now (seconds 4)).1 }, s)) = out
      have hSame : out.2.backupbrokers = s.backupbrokers := by
        split at hOut
        · rw [← hOut]
          rfl
        · rw [← hOut]
      cases hClient : out.1.hbc with
      | none => exact .inl ⟨rfl, _, rfl, hSame⟩
      | some hbc =>
          dsimp only
          split
          · exact .inr ⟨_, rfl, by rw [hClient]; rfl, hSame, rfl⟩
          · exact .inl ⟨rfl, _, rfl, hSame⟩

/-- A recovery takes the next backup. -/
theorem startRecovery_backupbrokers (f : Failure Fd Id)
    (h : startRecovery f.o f.mon f.state = some (mon', t)) :
    f.proposal.isSome ∧ t.backupbrokers = f.state.backupbrokers.tail := by
  refine ⟨?_, (startRecovery_kept h).backupbrokers⟩
  rw [startRecovery_eq] at h
  obtain ⟨rp, hProposal, _⟩ := Option.bind_eq_some_iff.mp h
  rw [hProposal]
  rfl

end Unread

section Reading

/-- Calls that read a list one entry after another. Only the last one may fail
to. -/
inductive Reading : List Text → List (Failure Fd Id) → Prop where
  | nil (unread : List Text) : Reading unread []
  | cons {unread : List Text} {f : Failure Fd Id} {rest : List (Failure Fd Id)}
      (hClient : f.mon.hbc.isSome) (hUnread : f.state.backupbrokers = unread)
      (hMore : rest ≠ [] → f.proposal.isSome) (hRest : Reading unread.tail rest) :
      Reading unread (f :: rest)

/-- Calls on the way from a state to another, or to a crash. -/
structure Accounts (s : State Fd Id) (calls : List (Failure Fd Id))
    (next : Option (State Fd Id)) : Prop where
  reading : Reading s.backupbrokers calls
  all : ∀ t, next = some t → ∀ f ∈ calls, f.proposal.isSome
  left : ∀ t, next = some t → t.backupbrokers = s.backupbrokers.drop calls.length

/-- Failures that were read one after another. -/
theorem Reading.append {unread : List Text} {before after : List (Failure Fd Id)}
    (h : Reading unread before) (hAll : ∀ f ∈ before, f.proposal.isSome)
    (hAfter : Reading (unread.drop before.length) after) : Reading unread (before ++ after) := by
  induction h with
  | nil unread => exact hAfter
  | @cons unread f rest hClient hUnread hMore hRest ih =>
      refine .cons hClient hUnread (fun _ => hAll f List.mem_cons_self) ?_
      apply ih (fun g hg => hAll g (List.mem_cons_of_mem _ hg))
      rwa [List.length_cons, ← List.drop_tail] at hAfter

/-- What a call proposes is the entry it reads. -/
theorem backup_eq {f : Failure Fd Id} (hClient : f.mon.hbc.isSome) :
    f.backup = f.state.backupbrokers.head?.bind (urlToIPPort IP_LENGTH) := by
  obtain ⟨hbc, hSome⟩ := Option.isSome_iff_exists.mp hClient
  unfold Failure.backup Failure.proposal
  rw [hSome]
  cases f.state.backupbrokers with
  | nil => rfl
  | cons backupurl rest =>
      show ((urlToIPPort IP_LENGTH backupurl).map _).map _ = urlToIPPort IP_LENGTH backupurl
      cases urlToIPPort IP_LENGTH backupurl with
      | none => rfl
      | some backup => rfl

/-- There is a proposal as long as there is a backup. -/
theorem isSome_backup (f : Failure Fd Id) : f.backup.isSome = f.proposal.isSome :=
  Option.isSome_map

/-- A call finds the entry whose number is that of the calls before it. -/
theorem Reading.split {before after : List (Failure Fd Id)} {f : Failure Fd Id}
    {unread : List Text} (h : Reading unread (before ++ f :: after)) :
    f.mon.hbc.isSome ∧ f.state.backupbrokers = unread.drop before.length ∧
      before.map Failure.backup =
        (unread.take before.length).map (urlToIPPort IP_LENGTH) := by
  induction before generalizing unread with
  | nil =>
      cases h with
      | cons hClient hUnread _ _ => exact ⟨hClient, hUnread, rfl⟩
  | cons g before ih =>
      cases h with
      | cons hClient hUnread hMore hRest =>
          obtain ⟨hSome, hDrop, hEarlier⟩ := ih hRest
          have hProposed : g.backup.isSome := by
            rw [isSome_backup]
            exact hMore (by simp)
          rw [backup_eq hClient, hUnread] at hProposed
          cases unread with
          | nil => cases hProposed
          | cons backupurl rest =>
              refine ⟨hSome, hDrop, ?_⟩
              have hFirst : g.backup = urlToIPPort IP_LENGTH backupurl := by
                rw [backup_eq hClient, hUnread]
                rfl
              rw [List.map_cons, hFirst, hEarlier]
              rfl

/-- A part of an iteration that takes no backup. -/
theorem Accounts.quiet {s : State Fd Id} {next : Option (State Fd Id)}
    (h : ∀ t, next = some t → t.backupbrokers = s.backupbrokers) : Accounts s [] next where
  reading := .nil _
  all := by
    intro t _ f hf
    cases hf
  left := h

/-- Two parts of an iteration. -/
theorem Accounts.bind {s : State Fd Id} {calls : List (Failure Fd Id)}
    {next : Option (State Fd Id)} {more : State Fd Id → List (Failure Fd Id)}
    {after : State Fd Id → Option (State Fd Id)} (h : Accounts s calls next)
    (hMore : ∀ t, next = some t → Accounts t (more t) (after t)) :
    Accounts s (calls ++ next.elim [] more) (next.bind after) := by
  cases hNext : next with
  | none =>
      rw [Option.elim_none, List.append_nil]
      constructor
      · exact h.reading
      · intro t hNever
        cases hNever
      · intro t hNever
        cases hNever
  | some t =>
      have hRest := hMore t hNext
      have hUnread := h.left t hNext
      constructor
      · apply h.reading.append (h.all t hNext)
        rw [← hUnread]
        exact hRest.reading
      · intro u hAfter f hf
        rcases List.mem_append.mp hf with hFirst | hLater
        · exact h.all t hNext f hFirst
        · exact hRest.all u hAfter f hLater
      · intro u hAfter
        have hLeft := hRest.left u hAfter
        rw [hUnread, List.drop_drop] at hLeft
        rw [hLeft, List.length_append]
        rfl

variable [DecidableEq Fd] [DecidableEq Id]

/-- A failure takes its backup. -/
theorem Accounts.one {s : State Fd Id} {f : Failure Fd Id}
    {next : Monitored Fd × State Fd Id → State Fd Id} (hClient : f.mon.hbc.isSome)
    (hUnread : f.state.backupbrokers = s.backupbrokers)
    (hKeep : ∀ out, (next out).backupbrokers = out.2.backupbrokers) :
    Accounts s [f] ((startRecovery f.o f.mon f.state).map next) where
  reading := .cons hClient hUnread (fun hMore => absurd rfl hMore) (.nil _)
  all := by
    intro t h g hg
    obtain ⟨out, hOut, _⟩ := Option.map_eq_some_iff.mp h
    rw [List.mem_singleton.mp hg]
    exact (startRecovery_backupbrokers f hOut).1
  left := by
    intro t h
    obtain ⟨out, hOut, rfl⟩ := Option.map_eq_some_iff.mp h
    rw [hKeep, (startRecovery_backupbrokers f hOut).2, hUnread]
    exact List.drop_one.symm

/-- The failures of the timeout branch. -/
theorem checkAll_accounts (o : Nat → Outcomes Fd) (n : Nat) (s : State Fd Id) :
    Accounts s (checkFailures o n s) (checkAll o n s) := by
  induction n with
  | zero =>
      apply Accounts.quiet
      intro t h
      cases h
      rfl
  | succ n ih =>
      apply ih.bind
      intro t _
      rcases checkMonitored_cases o n t with ⟨hNone, u, hNext, hSame⟩ | ⟨f, hOne, hClient, hUnread, hNext⟩
      · rw [hNone, hNext]
        apply Accounts.quiet
        intro v hv
        cases hv
        exact hSame
      · rw [hOne, hNext]
        exact Accounts.one hClient hUnread fun _ => rfl

/-- A record that receives has a client. -/
theorem receiver_client {sfd : Fd} {v : List (Monitored Fd)} {i : Nat} {mon : Monitored Fd}
    (h : receiver sfd v = some i) (hMon : v[i]? = some mon) : mon.hbc.isSome := by
  obtain ⟨hBound, hFound, _⟩ := List.findIdx?_eq_some_iff_getElem.mp h
  rw [List.getElem?_eq_getElem hBound, Option.some.injEq] at hMon
  rw [hMon] at hFound
  obtain ⟨hbc, hSome, _⟩ := (Option.any_eq_true _ _).mp hFound
  exact Option.isSome_iff_exists.mpr ⟨hbc, hSome⟩

/-- The failures of an iteration. -/
theorem step_accounts (s : State Fd Id) (action : Action Fd Id) :
    Accounts s (failures s action) (step s action) := by
  cases action with
  | wait d =>
      apply Accounts.quiet
      intro t h
      cases h
      rfl
  | request fromip r o =>
      apply Accounts.quiet
      intro t h
      cases h
      exact (handleRequest_kept o fromip r s).backupbrokers
  | query newsfd name o =>
      apply Accounts.quiet
      intro t h
      cases h
      exact (handleQuery_kept o newsfd name s).backupbrokers
  | event le o => exact Accounts.quiet fun t h => handleEvent_backupbrokers h
  | timeout o =>
      have hAll := checkAll_accounts o s.monitor.length
        { s with totaltime := nextTotaltime s.totaltime }
      exact ⟨hAll.reading, hAll.all, hAll.left⟩
  | ready sfd input o =>
      cases hReceiver : receiver sfd s.monitor with
      | none =>
          simp only [failures, hReceiver]
          exact Accounts.quiet fun t h => handleReady_backupbrokers hReceiver h
      | some i =>
          simp only [failures, step, handleReady, hReceiver]
          cases hMon : s.monitor[i]? with
          | none =>
              apply Accounts.quiet
              intro t h
              cases h
          | some mon =>
              dsimp only
              split
              · apply Accounts.quiet
                intro t h
                cases h
                rfl
              · exact Accounts.one (f := ⟨o, mon, s⟩) (receiver_client hReceiver hMon) rfl
                  fun _ => rfl

/-- The failures of a run. -/
theorem exec_accounts (s : State Fd Id) (actions : List (Action Fd Id)) :
    Accounts s (failuresAlong s actions) (exec step s actions) := by
  induction actions generalizing s with
  | nil =>
      apply Accounts.quiet
      intro t h
      cases h
      rfl
  | cons action rest ih => exact (step_accounts s action).bind fun t _ => ih t

end Reading

section Theorem
variable [DecidableEq Fd] [DecidableEq Id]

/-- In every run each call of `startRecovery` selects a backup as it should
exactly if the entry whose turn it is can be used. -/
theorem selectsBackup_iff (start : Time) (recoveryfd requestsfd querysfd : Option Fd)
    (backupbrokers : List Text) (actions : List (Action Fd Id)) (before after : List (Failure Fd Id))
    (f : Failure Fd Id)
    (hCalls : failuresAlong (.init start recoveryfd requestsfd querysfd backupbrokers) actions =
      before ++ f :: after) :
    SelectsBackup backupbrokers before f ↔ NextUsable backupbrokers before.length f := by
  have hReading := (exec_accounts
    (.init start recoveryfd requestsfd querysfd backupbrokers) actions).reading
  rw [hCalls] at hReading
  obtain ⟨hClient, hUnread, hEarlier⟩ := hReading.split
  have hBackup : f.backup = backupbrokers[before.length]?.bind (urlToIPPort IP_LENGTH) := by
    rw [backup_eq hClient, hUnread, List.head?_drop]
    rfl
  have hUsed : ∀ backup, (∀ g ∈ before, g.backup ≠ some backup) ↔
      ∀ earlier ∈ backupbrokers.take before.length, urlToIPPort IP_LENGTH earlier ≠ some backup := by
    intro backup
    have hMem : some backup ∈ before.map Failure.backup ↔
        some backup ∈ (backupbrokers.take before.length).map (urlToIPPort IP_LENGTH) := by
      rw [hEarlier]
      rfl
    simp only [List.mem_map] at hMem
    constructor
    · intro h earlier hTaken hSame
      obtain ⟨g, hg, hEq⟩ := hMem.mpr ⟨earlier, hTaken, hSame⟩
      exact h g hg hEq
    · intro h g hg hSame
      obtain ⟨earlier, hTaken, hEq⟩ := hMem.mp ⟨g, hg, hSame⟩
      exact h earlier hTaken hEq
  constructor
  · rintro (⟨backup, hSome, _, hOther, hNew⟩ | ⟨_, hNone, mon, s, hReturned, _⟩)
    · rw [hBackup] at hSome
      obtain ⟨backupurl, hEntry, hUrl⟩ := Option.bind_eq_some_iff.mp hSome
      exact ⟨backupurl, backup, hEntry, hUrl, hOther, (hUsed backup).mp hNew⟩
    · have hProposed := (startRecovery_backupbrokers f hReturned).1
      rw [← isSome_backup, hNone] at hProposed
      cases hProposed
  · rintro ⟨backupurl, backup, hEntry, hUrl, hOther, hNew⟩
    refine .inl ⟨backup, ?_, ⟨backupurl, List.mem_of_getElem? hEntry, hUrl⟩, hOther,
      (hUsed backup).mpr hNew⟩
    rw [hBackup, hEntry]
    exact hUrl

end Theorem

section OneBackup

/-- The broker is lost, is monitored again, and is lost again. -/
def lostTwice : List (Action Nat Nat) :=
  [watchBroker 1, .ready 10 .failed (allConnected 1),
    watchBroker 2, .ready 10 .failed (allConnected 1)]

theorem selectsBackup_first :
    ∃ f after, failuresAlong oneBackup lostTwice = [] ++ f :: after ∧
      SelectsBackup oneBackup.backupbrokers [] f := by
  refine ⟨_, _, rfl, ?_⟩
  refine (selectsBackup_iff 0 (some 0) (some 1) (some 2) _ lostTwice [] _ _ rfl).mpr ?_
  exact ⟨_, (localhost, 5673), rfl, rfl, by decide, by simp⟩

/-- The second call reads the end of the list when the heartbeat client and the
registry entry are gone, and crashes. -/
theorem backup_exhausted :
    ¬ ∀ (actions : List (Action Nat Nat)) (before after : List (Failure Nat Nat))
      (f : Failure Nat Nat), failuresAlong oneBackup actions = before ++ f :: after →
        SelectsBackup oneBackup.backupbrokers before f := by
  intro h
  rcases h lostTwice [_] [] _ rfl with ⟨backup, hSome, _⟩ | ⟨_, _, mon, s, hReturned, _⟩
  · cases hSome
  · cases hReturned

end OneBackup

end QpidRecovery.Proposer
