import QpidRecovery.Proposer.Refinement

/-! Where a proposer has the addresses of its services from. A request brings
the first, and a committed recovery, its own or one that it was told of, brings
the next. -/
namespace QpidRecovery.Proposer

open Transition

variable {Fd Id : Type}

/-- The addresses that requests brought, and the recoveries that messages
announced. -/
structure Sources where
  asked : ReplyAddress → Prop
  learned : ServiceName → RecoveryProposal → Prop

/-- The recovery of the service was announced, or the process committed it. -/
def Settled (src : Sources) (trace : List (Output Fd)) (name : ServiceName)
    (rp : RecoveryProposal) : Prop :=
  src.learned name rp ∨ ∃ stored, .committed name rp .committingSelf stored ∈ trace

def Known (src : Sources) (trace : List (Output Fd)) (r : ReplyAddress) : Prop :=
  src.asked r ∨ ∃ rp, Settled src trace r.name rp ∧ r.ip = rp.backupip ∧ r.port = rp.backupport

/-- Whatever the process has or tells has a source. -/
structure Sourced (src : Sources) (l : Ledger Fd) : Prop where
  machine : ∀ mon ∈ l.monitor, ∀ rp, mon.psm.lastcommit = .recoveryProposal rp →
    Settled src l.trace mon.name rp
  record : ∀ mon ∈ l.monitor, Known src l.trace mon.address
  committed : ∀ name rp r stored, .committed name rp r stored ∈ l.trace →
    Settled src l.trace name rp
  inform : ∀ sfd r written, .inform sfd r written ∈ l.trace → Known src l.trace r

section Sources
variable {src src' : Sources} {trace new : List (Output Fd)} {name : ServiceName}
  {rp : RecoveryProposal} {r : ReplyAddress}

/-- What is settled stays so. -/
theorem Settled.append (h : Settled src trace name rp) (new : List (Output Fd)) :
    Settled src (trace ++ new) name rp :=
  h.imp_right fun ⟨stored, hMem⟩ => ⟨stored, List.mem_append_left new hMem⟩

/-- What is known stays known. -/
theorem Known.append (h : Known src trace r) (new : List (Output Fd)) :
    Known src (trace ++ new) r :=
  h.imp_right fun ⟨rp, hSettled, hAddress⟩ => ⟨rp, hSettled.append new, hAddress⟩

/-- More sources may be found in the course of a run. -/
theorem Sourced.mono {l : Ledger Fd} (h : Sourced src l) (hAsked : ∀ r, src.asked r → src'.asked r)
    (hLearned : ∀ name rp, src.learned name rp → src'.learned name rp) : Sourced src' l := by
  have hSettled {name : ServiceName} {rp : RecoveryProposal}
      (hOld : Settled src l.trace name rp) : Settled src' l.trace name rp :=
    hOld.imp_left (hLearned name rp)
  have hKnown {r : ReplyAddress} (hOld : Known src l.trace r) : Known src' l.trace r :=
    hOld.imp (hAsked r) fun ⟨rp, hCommit, hAddress⟩ => ⟨rp, hSettled hCommit, hAddress⟩
  exact ⟨fun mon hMem rp hLast => hSettled (h.machine mon hMem rp hLast),
    fun mon hMem => hKnown (h.record mon hMem),
    fun name rp r stored hMem => hSettled (h.committed name rp r stored hMem),
    fun sfd r written hMem => hKnown (h.inform sfd r written hMem)⟩

/-- The entries that tell nothing. -/
def Output.Plain : Output Fd → Prop
  | .inform _ _ _ => False
  | e => ¬ e.Marks

/-- Calls on descriptors tell nobody an address. -/
theorem plain_effects (effects : List (Effect Fd)) : ∀ e ∈ effects.map Output.effect, e.Plain := by
  intro e he
  obtain ⟨call, _, rfl⟩ := List.mem_map.mp he
  exact id

theorem plain_calls (calls : List RecoveryCall) :
    ∀ e ∈ (calls.map Output.recovery : List (Output Fd)), e.Plain := by
  intro e he
  obtain ⟨call, _, rfl⟩ := List.mem_map.mp he
  exact id

/-- All subscribers get the same answer. -/
theorem inform_of_informs {written : Fd → Bool} {r r' : ReplyAddress} {sockets : List Fd} {sfd : Fd}
    {result : Bool} (h : .inform sfd r' result ∈ informs written r sockets) : r' = r := by
  obtain ⟨fd, _, hMem⟩ := List.mem_flatMap.mp h
  rcases List.mem_cons.mp hMem with hInform | hClose
  · cases hInform
    rfl
  · split at hClose
    · cases hClose
    · cases List.mem_singleton.mp hClose

/-- Records that stay, and entries that tell nothing but what is known. -/
theorem Sourced.extend {l : Ledger Fd} (h : Sourced src l) (new : List (Output Fd))
    (hCommitted : ∀ name rp r stored, .committed name rp r stored ∈ new →
      Settled src (l.trace ++ new) name rp)
    (hInform : ∀ sfd r written, .inform sfd r written ∈ new → Known src (l.trace ++ new) r) :
    Sourced src ⟨l.monitor, l.trace ++ new⟩ where
  machine := fun mon hMem rp hLast => (h.machine mon hMem rp hLast).append new
  record := fun mon hMem => (h.record mon hMem).append new
  committed := by
    intro name rp r stored hMem
    rcases List.mem_append.mp hMem with hOld | hNew
    · exact (h.committed name rp r stored hOld).append new
    · exact hCommitted name rp r stored hNew
  inform := by
    intro sfd r written hMem
    rcases List.mem_append.mp hMem with hOld | hNew
    · exact (h.inform sfd r written hOld).append new
    · exact hInform sfd r written hNew

/-- Nobody is told anything new. -/
theorem Sourced.plain {l : Ledger Fd} (h : Sourced src l) {new : List (Output Fd)}
    (hPlain : ∀ e ∈ new, e.Plain) : Sourced src ⟨l.monitor, l.trace ++ new⟩ := by
  refine h.extend new ?_ ?_
  · exact fun name rp r stored hMem => absurd trivial (hPlain _ hMem)
  · exact fun sfd r written hMem => (hPlain _ hMem).elim

/-- One record takes the place of another. -/
theorem Sourced.set {l : Ledger Fd} (h : Sourced src l) (j : Nat) {mon' : Monitored Fd}
    (hMachine : ∀ rp, mon'.psm.lastcommit = .recoveryProposal rp →
      Settled src l.trace mon'.name rp) (hRecord : Known src l.trace mon'.address) :
    Sourced src ⟨l.monitor.set j mon', l.trace⟩ where
  machine := by
    intro mon hMem
    rcases List.mem_or_eq_of_mem_set hMem with hOld | rfl
    · exact h.machine mon hOld
    · exact hMachine
  record := by
    intro mon hMem
    rcases List.mem_or_eq_of_mem_set hMem with hOld | rfl
    · exact h.record mon hOld
    · exact hRecord
  committed := h.committed
  inform := h.inform

end Sources

/-- No record is made, and what is announced to be committed was. -/
def announcedTo (src : Sources) : Condition Fd where
  created := fun _ => False
  given := fun mon _ m => m.name = mon.psm.name →
    ∀ rp, m.body = .phase3Commit (.recoveryProposal rp) → src.learned m.name rp

/-- A machine that is ready commits its own proposal. -/
theorem sendCommitment_lastcommit_of_ready (now : Time) {psm : ProposerStateMachine Fd}
    (hReady : psm.isReadyToCommit = true) :
    (psm.sendCommitment now).1.lastcommit = psm.proposal := by
  rw [ProposerStateMachine.sendCommitment, hReady, if_neg (by decide)]
  rfl

/-- A machine in `PHASE3` reports what was committed. -/
theorem getCommittingProposal_of_phase3 {psm : ProposerStateMachine Fd}
    (hState : psm.state = .phase3) : psm.getCommittingProposal = some psm.lastcommit := by
  have hReady : psm.isReadyToCommit = false := by
    simp [ProposerStateMachine.isReadyToCommit, hState]
  rw [ProposerStateMachine.getCommittingProposal, hReady, if_neg Bool.false_ne_true, if_pos hState]

section Changes
variable [DecidableEq Id] {src : Sources} {l : Ledger Fd} {mon mon' : Monitored Fd}
  {new : List (Output Fd)} {j : Nat}

/-- A recovery that one change commits has its source. -/
theorem Sourced.commit (h : Sourced src l) (rp : RecoveryProposal)
    (rest : List (Output Fd)) {r : PaxosResult} {stored : List Operation}
    (hSettled : Settled src (l.trace ++ .committed mon.name rp r stored :: rest) mon.name rp)
    (hCommitted : ∀ name' rp' r' stored', .committed name' rp' r' stored' ∉ rest)
    (hInform : ∀ sfd a written, .inform sfd a written ∈ rest →
      a = ⟨mon.name, rp.backupip, rp.backupport⟩)
    (hName : mon'.name = mon.name) (hIP : mon'.ip = rp.backupip) (hPort : mon'.port = rp.backupport)
    (hMachine : ∀ rp', mon'.psm.lastcommit = .recoveryProposal rp' → rp' = rp) :
    Sourced src
      ⟨l.monitor.set j mon', l.trace ++ .committed mon.name rp r stored :: rest⟩ := by
  have hExtended : Sourced src ⟨l.monitor, l.trace ++ .committed mon.name rp r stored :: rest⟩ := by
    refine h.extend _ ?_ ?_
    · intro name' rp' r' stored' hNew
      rcases List.mem_cons.mp hNew with hHead | hRest
      · cases hHead
        exact hSettled
      · exact absurd hRest (hCommitted _ _ _ _)
    · intro sfd a written hNew
      rcases List.mem_cons.mp hNew with hHead | hRest
      · cases hHead
      · rw [hInform sfd a written hRest]
        exact .inr ⟨rp, hSettled, rfl, rfl⟩
  refine hExtended.set j ?_ ?_
  · intro rp' hLast
    rw [hMachine rp' hLast, hName]
    exact hSettled
  · refine .inr ⟨rp, ?_, hIP, hPort⟩
    change Settled src _ mon'.name rp
    rw [hName]
    exact hSettled

/-- A record tells what it knows. -/
theorem Sourced.change (h : Sourced src l) (hNamed : WellNamed l)
    (hMon : l.monitor[j]? = some mon) (hChange : Change Id (announcedTo src) mon mon' new) :
    Sourced src ⟨l.monitor.set j mon', l.trace ++ new⟩ := by
  have hMem := List.mem_of_getElem? hMon
  have hMachine := h.machine mon hMem
  have hRecord := h.record mon hMem
  cases hChange with
  | beat => exact (h.plain (by simp)).set j (by simpa using hMachine) (hRecord.append [])
  | timeout now =>
      refine (h.plain (by simp)).set j ?_ (hRecord.append [])
      rw [mon.psm.checkTimeout_lastcommit now (seconds 4)]
      exact fun rp hLast => (hMachine rp hLast).append []
  | message now ready m hOk =>
      refine (h.plain (plain_effects _)).set j ?_ (hRecord.append _)
      intro rp hLast
      have hOwn := hNamed.own mon hMem
      by_cases hName : m.name = mon.psm.name
      · rcases mon.psm.handleMessage_lastcommit now ready m with hSame | ⟨_, hBody⟩
        · rw [hSame] at hLast
          exact (hMachine rp hLast).append _
        · rw [hLast] at hBody
          have hLearned := hOk hName rp hBody
          rw [hName, hOwn] at hLearned
          exact .inl hLearned
      · rw [ProposerStateMachine.handleMessage, if_pos hName] at hLast
        exact (hMachine rp hLast).append _
  | inform written =>
      refine (h.extend _ ?_ ?_).set j (fun rp hLast => (hMachine rp hLast).append _)
        (hRecord.append _)
      · exact fun name rp r stored hNew => absurd trivial (informs_quiet _ _ _ _ hNew)
      · intro sfd r result hNew
        rw [inform_of_informs hNew]
        exact hRecord.append _
  | subscribe newsfd =>
      refine (h.extend _ (by simp) ?_).set j (fun rp hLast => (hMachine rp hLast).append _)
        (hRecord.append _)
      intro sfd r result hNew
      simp only [List.mem_cons, List.not_mem_nil, or_false, reduceCtorEq] at hNew
      cases hNew
      exact hRecord.append _
  | propose now hbc backupip backupport r hClient hProposal =>
      refine (h.plain (plain_effects _)).set j ?_ (hRecord.append _)
      rw [hProposal, mon.psm.newProposal_lastcommit now]
      exact fun rp hLast => (hMachine rp hLast).append _
  | commitSelf now rp rm reply calls returned written hOk hReady hProposal hCopied =>
      refine h.commit rp _ (.inr ⟨_, List.mem_append_right _ List.mem_cons_self⟩) ?_ ?_ rfl rfl
        rfl ?_
      · intro name' rp' r' stored' hRest
        rcases List.mem_append.mp hRest with hFirst | hInform
        · rcases List.mem_append.mp hFirst with hCall | hEffect
          · exact calls_quiet calls _ hCall trivial
          · exact effects_quiet _ _ hEffect trivial
        · exact informs_quiet _ _ _ _ hInform trivial
      · intro sfd a result hRest
        rcases List.mem_append.mp hRest with hFirst | hInform
        · rcases List.mem_append.mp hFirst with hCall | hEffect
          · exact (plain_calls calls _ hCall).elim
          · exact (plain_effects _ _ hEffect).elim
        · exact inform_of_informs hInform
      · intro rp' hLast
        rw [sendCommitment_lastcommit_of_ready now hReady, hProposal] at hLast
        cases hLast
        rfl
  | commitOther rp stored written hState hProposal =>
      rw [getCommittingProposal_of_phase3 hState] at hProposal
      have hLast := Option.some.inj hProposal
      refine h.commit rp _ ((hMachine rp hLast).append _) ?_ ?_ rfl rfl rfl ?_
      · exact fun name' rp' r' stored' hRest => informs_quiet _ _ _ _ hRest trivial
      · exact fun sfd a result hRest => inform_of_informs hRest
      · intro rp' hLast'
        rw [hLast] at hLast'
        cases hLast'
        rfl
  | commitAcceptors now r connect ap effects =>
      refine (h.extend _ ?_ ?_).set j (fun rp hLast => by cases hLast) (hRecord.append _)
      · intro name' rp' r' stored' hNew
        rcases List.mem_cons.mp hNew with hHead | hRest
        · cases hHead
        · exact absurd trivial (effects_quiet _ _ hRest)
      · intro sfd a result hNew
        rcases List.mem_cons.mp hNew with hHead | hRest
        · cases hHead
        · exact (plain_effects _ _ hRest).elim

/-- A change of a record, and entries that tell nothing or the address of a
record. -/
inductive Spoken (Id : Type) [DecidableEq Id] (ok : Condition Fd) :
    Ledger Fd → Ledger Fd → Prop where
  | plain (l : Ledger Fd) (new : List (Output Fd)) (hPlain : ∀ e ∈ new, e.Plain) :
      Spoken Id ok l ⟨l.monitor, l.trace ++ new⟩
  | change (l : Ledger Fd) (j : Nat) {mon mon' : Monitored Fd} {new : List (Output Fd)}
      (hMon : l.monitor[j]? = some mon) (hChange : Change Id ok mon mon' new) :
      Spoken Id ok l ⟨l.monitor.set j mon', l.trace ++ new⟩
  | refused (l : Ledger Fd) {mon : Monitored Fd} (written : Fd → Bool) (newsfd : Fd)
      (hMon : mon ∈ l.monitor) :
      Spoken Id ok l ⟨l.monitor, l.trace ++ informs written mon.address [newsfd]⟩

def Speaks (Id : Type) [DecidableEq Id] (ok : Condition Fd) : Ledger Fd → Ledger Fd → Prop :=
  Relation.ReflTransGen (Spoken Id ok)

/-- A step of the process tells what the records know. -/
theorem Sourced.spoken {l' : Ledger Fd} (h : Sourced src l) (hNamed : WellNamed l)
    (hSpoken : Spoken Id (announcedTo src) l l') : Sourced src l' ∧ WellNamed l' := by
  cases hSpoken with
  | plain new hPlain => exact ⟨h.plain hPlain, hNamed.nodup, hNamed.own⟩
  | change j hMon hChange => exact ⟨h.change hNamed hMon hChange, hNamed.move (.change l j hMon hChange)⟩
  | @refused mon written newsfd hMon =>
      refine ⟨h.extend _ ?_ ?_, hNamed.nodup, hNamed.own⟩
      · exact fun name rp r stored hNew => absurd trivial (informs_quiet _ _ _ _ hNew)
      · intro sfd r result hNew
        rw [inform_of_informs hNew]
        exact (h.record mon hMon).append _

/-- So do several. -/
theorem Sourced.speaks {l' : Ledger Fd} (h : Sourced src l) (hNamed : WellNamed l)
    (hSpeaks : Speaks Id (announcedTo src) l l') : Sourced src l' ∧ WellNamed l' := by
  induction hSpeaks with
  | refl => exact ⟨h, hNamed⟩
  | tail _ last ih => exact ih.1.spoken ih.2 last

end Changes

section Iterations
variable [DecidableEq Id] {ok : Condition Fd} {mon mon' : Monitored Fd} {s t : State Fd Id}

/-- Changes of one record. -/
theorem Changes.speaks {l : Ledger Fd} {j : Nat} {new : List (Output Fd)}
    (hMon : l.monitor[j]? = some mon) (changes : Changes Id ok mon mon' new) :
    Speaks Id ok l ⟨l.monitor.set j mon', l.trace ++ new⟩ := by
  induction changes with
  | nil =>
      have hSame : l.monitor.set j mon = l.monitor := set_getElem? hMon
      rw [hSame, List.append_nil]
      exact .refl
  | @snoc mon' _ new _ _ last ih =>
      have hBound : j < l.monitor.length := (List.getElem?_eq_some_iff.mp hMon).1
      have hSpoken := Spoken.change ⟨l.monitor.set j mon', l.trace ++ new⟩ j
        (List.getElem?_set_self hBound) last
      rw [List.set_set, List.append_assoc] at hSpoken
      exact .tail ih hSpoken

/-- A record that is written back after a function worked on it. -/
theorem Acts.speaks {j : Nat} (hMon : s.monitor[j]? = some mon) (h : Acts ok mon s mon' t) :
    Speaks Id ok s.ledger (t.put j mon').ledger := by
  obtain ⟨new, hTrace, hChanges⟩ := h.changes
  have hSpeaks := hChanges.speaks (l := s.ledger) hMon
  have hLedger : (t.put j mon').ledger = ⟨s.monitor.set j mon', s.trace ++ new⟩ := by
    simp only [State.ledger, State.put, h.monitor, hTrace]
  rwa [hLedger]

omit [DecidableEq Id] in
theorem ledger_append {new : List (Output Fd)} (hMonitor : t.monitor = s.monitor)
    (hTrace : t.trace = s.trace ++ new) : t.ledger = ⟨s.ledger.monitor, s.ledger.trace ++ new⟩ := by
  simp only [State.ledger, hMonitor, hTrace]

/-- A part of an iteration that tells nobody anything. -/
theorem Speaks.of_plain {new : List (Output Fd)} (hMonitor : t.monitor = s.monitor)
    (hTrace : t.trace = s.trace ++ new) (hPlain : ∀ e ∈ new, e.Plain) :
    Speaks Id ok s.ledger t.ledger := by
  rw [ledger_append hMonitor hTrace]
  exact .single (.plain s.ledger new hPlain)

/-- A part that does nothing to the records. -/
theorem Speaks.of_same (hMonitor : t.monitor = s.monitor) (hTrace : t.trace = s.trace) :
    Speaks Id ok s.ledger t.ledger :=
  .of_plain hMonitor (hTrace.trans (List.append_nil _).symm) (List.forall_mem_nil _)

/-- Who asks is told what the record knows. -/
theorem handleQuery_speaks (o : Outcomes Fd) (newsfd : Fd) (name : ServiceName)
    (s : State Fd Id) : Speaks Id ok s.ledger (handleQuery o newsfd name s).ledger := by
  unfold handleQuery
  split
  · exact .of_plain rfl rfl (plain_effects [.close newsfd])
  · split
    · exact .refl
    next mon hMon =>
      cases hWritten : o.written newsfd with
      | true =>
          have hSubscribe : Acts ok mon s (addInformList o.written newsfd mon s).1
              (addInformList o.written newsfd mon s).2 := by
            simp only [addInformList, hWritten, if_true]
            refine ⟨rfl, rfl, _, ?_, (Change.subscribe newsfd).single⟩
            simp [State.log, informs, hWritten]
          exact hSubscribe.speaks hMon
      | false =>
          have hRefused : Spoken Id ok s.ledger _ :=
            .refused s.ledger o.written newsfd (List.mem_of_getElem? hMon)
          refine .single ?_
          rw [← ledger_append ?_ ?_] at hRefused
          · exact hRefused
          · simp only [addInformList, hWritten, State.put, State.log]
            exact set_getElem? hMon
          · simp only [addInformList, hWritten]
            rfl

variable [DecidableEq Fd]

/-- An event tells nobody anything. -/
theorem handleEvent_speaks {o : Outcomes Fd} {le : ListenerEvent Id}
    (h : handleEvent o le s = some t) : Speaks Id ok s.ledger t.ledger := by
  cases le with
  | brokerDisconnection brokerip brokerport =>
      obtain ⟨ip, _, rfl⟩ := Option.map_eq_some_iff.mp h
      exact .of_same rfl rfl
  | linkDown srcip srcport dstip dstport =>
      unfold handleEvent linkDown at h
      dsimp only at h
      split at h
      · cases h
        exact .refl
      · split at h
        · cases h
          exact .refl
        next p _ =>
          split at h
          · obtain ⟨⟨l, opened, returned⟩, _, rfl⟩ := Option.map_eq_some_iff.mp h
            refine .of_plain rfl rfl ?_
            intro e he
            obtain ⟨fd, _, rfl⟩ := List.mem_map.mp he
            exact id
          · cases h
  | objectProperty objinfo =>
      unfold handleEvent at h
      dsimp only at h
      split at h
      · obtain ⟨dst, _, rfl⟩ := Option.map_eq_some_iff.mp h
        unfold listenProposerList
        split <;> exact .of_same rfl rfl
      · cases h
        exact .of_same rfl rfl

/-- What the handled message says is taken in before its commit is. -/
theorem handlePaxosMessage_speaks {o : Outcomes Fd} {ready : Fd} {m : PaxosMessage} {n i : Nat}
    (hOk : ok.answered o.backup) (hDialled : ok.dialled m.name o.paxos)
    (hGiven : ∀ mon ∈ s.monitor, ok.given mon ready m)
    (hReceivable : receivable m = true) (h : handlePaxosMessage o ready m n i s = some t) :
    Speaks Id ok s.ledger t.ledger := by
  rcases handlePaxosMessage_cases h with ⟨rfl, _⟩ | ⟨j, mon, r, hMon, hReaction, hRest⟩
  · exact .refl
  · have hMem := List.mem_of_getElem? hMon
    have hMessage : Change Id ok mon _ _ := .message s.now ready m (hGiven mon hMem) hReceivable
    rw [← hReaction] at hMessage
    have hHandled : Acts ok mon s { mon with psm := r.machine } (s.perform r.effects) :=
      ⟨rfl, rfl, _, rfl, hMessage.single⟩
    have hSpeaks := hHandled.speaks hMon
    rcases hRest with ⟨_, rfl⟩ | ⟨hResult, mon', s', hCommit, rfl⟩
    · exact hSpeaks
    · refine .trans hSpeaks (Acts.speaks ?_ (handleCommit_acts hOk ?_ ?_ hCommit))
      · exact List.getElem?_set_self (List.getElem?_eq_some_iff.mp hMon).1
      · intro ap _
        have hNotIgnored : (mon.psm.handleMessage s.now ready m).result ≠ .ignored := by
          rw [← hReaction]
          rcases hResult with hSelf | hOther
          · rw [hSelf]
            decide
          · rw [hOther]
            decide
        have hName : r.machine.name = m.name := by
          rw [hReaction, (mon.psm.handleMessage_keeps _ _ _).name,
            ProposerStateMachine.handleMessage_recipient hNotIgnored]
        change ok.dialled r.machine.name o.paxos
        rwa [hName]
      · rw [hReaction]
        exact handleMessage_committed s.now ready m mon.psm

/-- What a ready descriptor makes the process tell. -/
theorem handleReady_speaks {o : Outcomes Fd} {ready : Fd} {input : Input}
    (hOk : ok.answered o.backup)
    (hMessages : ∀ m, paxosMessage ready input s = some m →
      ok.dialled m.name o.paxos ∧ ∀ mon ∈ s.monitor, ok.given mon ready m)
    (h : handleReady o ready input s = some t) : Speaks Id ok s.ledger t.ledger := by
  cases hMessage : paxosMessage ready input s with
  | some m =>
      rw [handleReady_paxosMessage hMessage] at h
      obtain ⟨hDialled, hGiven⟩ := hMessages m hMessage
      exact handlePaxosMessage_speaks hOk hDialled hGiven (paxosMessage_receivable hMessage) h
  | none =>
      cases handleReady_step h with
      | beat i mon _ hMon _ hNext =>
          have hBeat : Acts ok mon s
              { mon with hbc := mon.hbc.map (HeartbeatClient.readMessage s.now) } s := by
            cases hClient : mon.hbc with
            | none =>
                have hSame : { mon with hbc := none } = mon := by rw [← hClient]
                rw [Option.map_none, hSame]
                exact .refl mon s
            | some hbc =>
                exact ⟨rfl, rfl, [], (List.append_nil _).symm, (Change.beat hbc _ hClient).single⟩
          rw [hNext]
          exact hBeat.speaks hMon
      | lost i mon out _ hMon _ hStart hNext =>
          rw [hNext]
          exact (startRecovery_acts hOk hStart).speaks hMon
      | changed link newip newport _ _ hNext =>
          rcases startRerouting_cases hNext with ⟨_, rfl⟩ | ⟨_, rm, calls, _, _, rfl⟩
          · exact .of_same rfl rfl
          · exact .of_plain rfl rfl (List.forall_mem_cons.mpr ⟨id, plain_calls calls⟩)
      | answered _ _ _ hNext =>
          rw [hNext]
          exact .of_same rfl rfl
      | listed i _ _ _ hNext =>
          rw [hNext]
          unfold readProposerList
          split <;> exact .of_same rfl rfl
      | message m hReceiver hResult hFound hFilter _ =>
          have hListening := LinkDstListener.readAddressChange_result hResult
          rw [paxosMessage, if_pos ⟨hReceiver, hListening, hFound⟩, hFilter] at hMessage
          cases hMessage
      | unread _ _ _ _ hNext =>
          rw [hNext]
          exact .of_same rfl rfl

/-- The loop has passed the first `n` records and left the others alone. -/
theorem checkAll_speaks {o : Nat → Outcomes Fd} {n : Nat}
    (hChecked : ∀ mon ∈ s.monitor, ok.checked s.now mon) (hOk : ∀ i, ok.answered (o i).backup)
    (h : checkAll o n s = some t) : Speaks Id ok s.ledger t.ledger := by
  induction n generalizing t with
  | zero =>
      cases h
      exact .refl
  | succ n ih =>
      obtain ⟨u, hFirst, hLast⟩ := Option.bind_eq_some_iff.mp h
      obtain ⟨_, hNow, hLater⟩ := checkAll_moves hChecked hOk hFirst
      cases hMon : u.monitor[n]? with
      | none =>
          simp only [checkMonitored, hMon] at hLast
          cases hLast
          exact ih hFirst
      | some mon =>
          have hMem : mon ∈ s.monitor := by
            rw [hLater n (Nat.le_refl n)] at hMon
            exact List.mem_of_getElem? hMon
          obtain ⟨mon', s', hActs, rfl⟩ :=
            checkMonitored_acts hMon (hNow ▸ hChecked mon hMem) (hOk n) hLast
          exact (ih hFirst).trans (hActs.speaks hMon)

/-- The trace only grows. -/
theorem step_trace {action : Action Fd Id} (hStep : step s action = some t) :
    ∃ new, t.trace = s.trace ++ new := by
  have hOk : Permits anyInput s action := by
    cases action with
    | request => exact ⟨trivial, fun _ _ _ => trivial⟩
    | ready => exact ⟨trivial, fun _ _ => ⟨trivial, fun _ _ => trivial⟩⟩
    | timeout => exact ⟨fun _ => trivial, fun _ _ => trivial⟩
    | _ => trivial
  refine (step_moves hOk hStep).invariant (P := fun l => ∃ new, l.trace = s.trace ++ new)
    ⟨[], (List.append_nil _).symm⟩ ?_
  rintro l l' ⟨new, hTrace⟩ hMove
  cases hMove with
  | quiet more => exact ⟨new ++ more, by rw [← List.append_assoc, ← hTrace]⟩
  | @change j mon mon' more => exact ⟨new ++ more, by rw [← List.append_assoc, ← hTrace]⟩
  | replace mon' more => exact ⟨new ++ more, by rw [← List.append_assoc, ← hTrace]⟩

/-- What an iteration reads has a source. -/
def Reads (src : Sources) (s : State Fd Id) : Action Fd Id → Prop
  | .request fromip r _ =>
      src.asked ⟨r.name, if r.brokerip.bytes = [] then fromip else r.brokerip, r.brokerport⟩
  | .ready sfd input _ => ∀ m, paxosMessage sfd input s = some m →
      ∀ rp, m.body = .phase3Commit (.recoveryProposal rp) → src.learned m.name rp
  | _ => True

omit [DecidableEq Id] in
/-- A new record has the address that its request brought. -/
theorem handleRequest_sourced {src : Sources} (o : Outcomes Fd) (fromip : IPString)
    (r : ParticipateRequest) (h : Sourced src s.ledger)
    (hAsked : src.asked
      ⟨r.name, if r.brokerip.bytes = [] then fromip else r.brokerip, r.brokerport⟩) :
    Sourced src (handleRequest o fromip r s).ledger := by
  obtain ⟨now, mon', effects, hMachine, _, hName, hIP, hPort, _, _, hLedger⟩ :=
    handleRequest_ledger o fromip r s
  have hPlain := h.plain (plain_effects effects)
  rw [hLedger]
  refine ⟨?_, ?_, hPlain.committed, hPlain.inform⟩
  · intro mon hMem rp hLast
    rcases List.mem_append.mp hMem with hOld | hNew
    · exact hPlain.machine mon (List.mem_of_mem_eraseP hOld) rp hLast
    · rw [List.mem_singleton.mp hNew, hMachine] at hLast
      cases hLast
  · intro mon hMem
    rcases List.mem_append.mp hMem with hOld | hNew
    · exact hPlain.record mon (List.mem_of_mem_eraseP hOld)
    · rw [List.mem_singleton.mp hNew, Monitored.address, hName, hIP, hPort]
      exact .inl hAsked

/-- One iteration of the main loop. -/
theorem Sourced.step {src : Sources} {action : Action Fd Id} (h : Sourced src s.ledger)
    (hNamed : WellNamed s.ledger) (hReads : Reads src s action)
    (hStep : step s action = some t) : Sourced src t.ledger := by
  cases action with
  | wait d =>
      cases hStep
      exact h
  | request fromip r o =>
      cases hStep
      exact handleRequest_sourced o fromip r h hReads
  | query newsfd name o =>
      cases hStep
      exact (h.speaks hNamed (handleQuery_speaks o newsfd name s)).1
  | event le o => exact (h.speaks hNamed (handleEvent_speaks hStep)).1
  | ready sfd input o =>
      refine (h.speaks hNamed (handleReady_speaks trivial ?_ hStep)).1
      exact fun m hMessage => ⟨trivial, fun _ _ _ rp hBody => hReads m hMessage rp hBody⟩
  | timeout o =>
      exact (h.speaks hNamed (checkAll_speaks (s := { s with totaltime := nextTotaltime s.totaltime })
        (fun _ _ => trivial) (fun _ => trivial) hStep)).1

end Iterations

end QpidRecovery.Proposer
