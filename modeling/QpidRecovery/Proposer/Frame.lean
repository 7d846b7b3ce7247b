import QpidRecovery.Proposer.Refinement

/-! What the parts of one iteration leave alone: the subscriptions for links,
the stored objects and the list of backups. Links are rerouted elsewhere. -/
namespace QpidRecovery.Proposer

/-- A link from one broker to another. -/
structure Link where
  srcip : IPString
  srcport : UInt32
  dstip : IPString
  dstport : UInt32
deriving DecidableEq, Repr

/-- A call of `reroute` for the subscription of a service. -/
structure Moved where
  name : ServiceName
  link : Link
  newip : IPString
  newport : UInt32
deriving DecidableEq, Repr

variable {Fd Id : Type}

/-- The entry of a call of `reroute`. -/
def Output.moved : Output Fd → Option Moved
  | .reroute name srcip srcport oldip oldport newip newport =>
      some ⟨name, ⟨srcip, srcport, oldip, oldport⟩, newip, newport⟩
  | _ => none

/-- All calls of `reroute`, in their order. -/
def State.moved (s : State Fd Id) : List Moved := s.trace.filterMap Output.moved

section Moved

/-- A call of a state machine moves no link. -/
@[simp] theorem moved_effects (effects : List (Effect Fd)) :
    (effects.map Output.effect).filterMap Output.moved = [] := by
  simp [List.filterMap_map, Function.comp_def, Output.moved]

/-- Nor does an answer to a query. -/
@[simp] theorem moved_informs (written : Fd → Bool) (r : ReplyAddress) (sockets : List Fd) :
    (informs written r sockets).filterMap Output.moved = [] := by
  rw [List.filterMap_eq_nil_iff]
  intro e he
  obtain ⟨sfd, _, he⟩ := List.mem_flatMap.mp he
  rcases List.mem_cons.mp he with rfl | he
  · rfl
  · split at he
    · cases he
    · rw [List.mem_singleton.mp he]
      rfl

@[simp] theorem State.moved_log (new : List (Output Fd)) (s : State Fd Id) :
    (s.log new).moved = s.moved ++ new.filterMap Output.moved :=
  List.filterMap_append

@[simp] theorem State.moved_put (i : Nat) (mon : Monitored Fd) (s : State Fd Id) :
    (s.put i mon).moved = s.moved := rfl

@[simp] theorem State.moved_perform [DecidableEq Fd] (effects : List (Effect Fd))
    (s : State Fd Id) : (s.perform effects).moved = s.moved := by
  rw [moved, perform, List.filterMap_append, moved_effects, List.append_nil]
  rfl

@[simp] theorem moved_informAll (written : Fd → Bool) (mon : Monitored Fd) (s : State Fd Id) :
    (informAll written mon s).2.moved = s.moved := by
  rw [informAll, State.moved_log, moved_informs, List.append_nil]

end Moved

/-- Only records, descriptors and the registry of brokers may have changed. -/
structure Kept (s t : State Fd Id) : Prop where
  dstproposers : t.dstproposers = s.dstproposers
  dstlistener : t.dstlistener = s.dstlistener
  backupbrokers : t.backupbrokers = s.backupbrokers
  objects : t.recovery = { s.recovery with bavec := t.recovery.bavec }
  moved : t.moved = s.moved

namespace Kept

variable {s t u : State Fd Id}

theorem refl (s : State Fd Id) : Kept s s := ⟨rfl, rfl, rfl, rfl, rfl⟩

theorem trans (left : Kept s t) (right : Kept t u) : Kept s u where
  dstproposers := right.dstproposers.trans left.dstproposers
  dstlistener := right.dstlistener.trans left.dstlistener
  backupbrokers := right.backupbrokers.trans left.backupbrokers
  objects := by
    rw [right.objects, left.objects]
  moved := right.moved.trans left.moved

end Kept

section Parts
variable {s t : State Fd Id} {mon mon' : Monitored Fd}

/-- A query leaves the brokers, the lists and the links alone. -/
theorem handleQuery_kept (o : Outcomes Fd) (newsfd : Fd) (name : ServiceName) (s : State Fd Id) :
    Kept s (handleQuery o newsfd name s) := by
  unfold handleQuery
  split
  · exact ⟨rfl, rfl, rfl, rfl, by simp [Output.moved]⟩
  · split
    · exact .refl s
    · unfold addInformList
      dsimp only
      split
      · exact ⟨rfl, rfl, rfl, rfl, by simp [Output.moved]⟩
      · exact ⟨rfl, rfl, rfl, rfl, by simp⟩

variable [DecidableEq Fd]

/-- So does a new record. -/
theorem createProposer_kept (o : Outcomes Fd) (r : ParticipateRequest) (fromip : IPString)
    (s : State Fd Id) : Kept s (createProposer o r fromip s) := by
  have hErase : Kept s (eraseMonitored r.name s) := by
    unfold eraseMonitored
    split
    · exact .refl s
    · split
      · exact .refl s
      · exact ⟨rfl, rfl, rfl, rfl, State.moved_perform _ s⟩
  refine ⟨hErase.dstproposers, hErase.dstlistener, hErase.backupbrokers, hErase.objects, ?_⟩
  exact (State.moved_perform _ _).trans hErase.moved

/-- A request adds its broker and nothing else. -/
theorem handleRequest_kept (o : Outcomes Fd) (fromip : IPString) (r : ParticipateRequest)
    (s : State Fd Id) : Kept s (handleRequest o fromip r s) := by
  have hCreate := createProposer_kept o r (if r.brokerip.bytes = [] then fromip else r.brokerip) s
  have hAdd : ∀ (rm : RecoveryManager Id) (ip : IPString) (port : UInt32),
      rm.addBroker ip port = { rm with bavec := (rm.addBroker ip port).bavec } := by
    intro rm ip port
    unfold RecoveryManager.addBroker
    split
    · rfl
    · rfl
  apply hCreate.trans
  exact ⟨rfl, rfl, rfl, hAdd _ _ _, rfl⟩

variable [DecidableEq Id]

/-- What a commit leaves alone. -/
theorem handleCommit_kept {o : Outcomes Fd} {r : PaxosResult} {returned : Int}
    (h : handleCommit o r mon s = some ((mon', t), returned)) : Kept s t := by
  cases handleCommit_commit h with
  | nothing | empty => exact .refl s
  | recovered rp _ _ hCommit =>
      unfold commitRecovery at hCommit
      dsimp only at hCommit
      split at hCommit
      · obtain ⟨copied, _, hEq⟩ := Option.map_eq_some_iff.mp hCommit
        cases hEq
        exact ⟨rfl, rfl, rfl, rfl, by simp [Output.moved]⟩
      · cases hCommit
        exact ⟨rfl, rfl, rfl, rfl, by simp [Output.moved]⟩
  | changed => exact ⟨rfl, rfl, rfl, rfl, by simp [Output.moved]⟩

/-- What a message leaves alone. -/
theorem handlePaxosMessage_kept {o : Outcomes Fd} {ready : Fd} {m : PaxosMessage} {n i : Nat}
    (h : handlePaxosMessage o ready m n i s = some t) : Kept s t := by
  rcases handlePaxosMessage_cases h with ⟨rfl, _⟩ | ⟨j, mon, r, _, _, hRest⟩
  · exact .refl _
  · rcases hRest with ⟨_, rfl⟩ | ⟨_, mon', s', hCommit, rfl⟩
    · exact ⟨rfl, rfl, rfl, rfl, by simp⟩
    · have hKept := handleCommit_kept hCommit
      exact ⟨hKept.dstproposers, hKept.dstlistener, hKept.backupbrokers, hKept.objects,
        by simpa using hKept.moved⟩

/-- One backup is read. -/
theorem startRecovery_kept {o : Outcomes Fd} (h : startRecovery o mon s = some (mon', t)) :
    Kept { s with backupbrokers := s.backupbrokers.tail } t := by
  obtain ⟨hbc, _, rest, _, _, r, _, _, hBackups, _, _, hCommit⟩ := startRecovery_cases h
  have hKept := handleCommit_kept hCommit
  refine ⟨hKept.dstproposers, hKept.dstlistener, ?_, hKept.objects, ?_⟩
  · rw [hKept.backupbrokers, hBackups]
    rfl
  · exact hKept.moved.trans (State.moved_perform _ _)

/-- Up to the backups that are read. -/
theorem checkMonitored_kept {o : Nat → Outcomes Fd} {i : Nat}
    (h : checkMonitored o i s = some t) :
    Kept { s with backupbrokers := t.backupbrokers } t := by
  cases hMon : s.monitor[i]? with
  | none =>
      rw [checkMonitored, hMon] at h
      cases h
      exact .refl s
  | some mon =>
      obtain ⟨out, hOut, hEnd⟩ := checkMonitored_result hMon h
      have hInform : Kept s out.2 := by
        rcases hOut with rfl | rfl
        · exact .refl s
        · exact ⟨rfl, rfl, rfl, rfl, moved_informAll _ _ s⟩
      rcases hEnd with rfl | ⟨started, hStart, rfl⟩
      · exact ⟨hInform.dstproposers, hInform.dstlistener, rfl, hInform.objects, hInform.moved⟩
      · have hKept := startRecovery_kept hStart
        refine ⟨hKept.dstproposers.trans hInform.dstproposers,
          hKept.dstlistener.trans hInform.dstlistener, rfl, ?_, hKept.moved.trans hInform.moved⟩
        have hObjects := hKept.objects
        dsimp only at hObjects
        rw [hInform.objects] at hObjects
        exact hObjects

/-- The timeout branch takes backup brokers, and leaves the rest alone. -/
theorem checkAll_kept {o : Nat → Outcomes Fd} {n : Nat} (h : checkAll o n s = some t) :
    Kept { s with backupbrokers := t.backupbrokers } t := by
  induction n generalizing t with
  | zero =>
      cases h
      exact .refl s
  | succ n ih =>
      obtain ⟨u, hFirst, hLast⟩ := Option.bind_eq_some_iff.mp h
      have hBefore := ih hFirst
      have hAfter := checkMonitored_kept hLast
      refine ⟨hAfter.dstproposers.trans hBefore.dstproposers,
        hAfter.dstlistener.trans hBefore.dstlistener, rfl, ?_, hAfter.moved.trans hBefore.moved⟩
      have hObjects := hAfter.objects
      dsimp only at hObjects
      rw [hBefore.objects] at hObjects
      exact hObjects

end Parts

end QpidRecovery.Proposer
