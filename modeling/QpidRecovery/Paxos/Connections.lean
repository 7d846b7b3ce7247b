import QpidRecovery.Common.Descriptors
import QpidRecovery.Paxos.Proposer

/-! The connections of a proposer's state machine. -/
namespace QpidRecovery

variable {Fd : Type}

/-- A state machine registers a connection right after it has made it. -/
def Effect.calls : Effect Fd → List (Call Fd)
  | .send _ _ => []
  | .registerFD fd => [.opened fd, .register (some fd)]
  | .unregisterFD fd => [.unregister (some fd)]
  | .close fd => [.close fd]

/-- The selector hears of the calls of a machine in their order. -/
theorem FileSelector.perform_eq [DecidableEq Fd] (effects : List (Effect Fd)) (fs : FileSelector Fd) :
    fs.perform effects = Call.selects (effects.flatMap Effect.calls) fs := by
  unfold perform
  induction effects generalizing fs with
  | nil => rfl
  | cons e rest ih =>
      rw [List.foldl_cons, ih, List.flatMap_cons, Call.selects_append]
      cases e with
      | send fd m => rfl
      | registerFD fd => rfl
      | unregisterFD fd => rfl
      | close fd => rfl

/-- A state machine unregisters only what it had connected. -/
theorem Effect.calls_some (effects : List (Effect Fd)) :
    .unregister none ∉ effects.flatMap Effect.calls := by
  intro hMem
  obtain ⟨e, _, hCall⟩ := List.mem_flatMap.mp hMem
  cases e with
  | send fd m => cases hCall
  | registerFD fd => simp [Effect.calls] at hCall
  | unregisterFD fd => simp [Effect.calls] at hCall
  | close fd => simp [Effect.calls] at hCall

namespace ProposerStateMachine

variable {may : Option Fd → Prop} {psm : ProposerStateMachine Fd} {l : Holding Fd}

/-- The connected slots. -/
def connections (psm : ProposerStateMachine Fd) : List Fd := psm.accsfd.filterMap id

/-- A broadcast opens and closes nothing. -/
theorem broadcast_calls (body : PaxosBody) : (psm.broadcast body).flatMap Effect.calls = [] := by
  apply List.flatMap_eq_nil_iff.mpr
  intro e he
  obtain ⟨slot, _, hSlot⟩ := List.mem_filterMap.mp he
  obtain ⟨fd, _, rfl⟩ := Option.map_eq_some_iff.mp hSlot
  rfl

/-- A new machine holds the connections that it opened. -/
theorem new_accounted (now : Time) (connect : Nat → IPString → Option Fd) (m : ServiceName) (v : Nat)
    (last : AcceptorChangeProposal) :
    Accounted may ((new now connect m v last).2.flatMap Effect.calls) l
      (l + ((↑(new now connect m v last).1.connections : Multiset Fd), 0)) := by
  have hCalls : ∀ accsfd : List (Option Fd),
      (accsfd.filterMap fun slot => slot.map Effect.registerFD).flatMap Effect.calls =
        (accsfd.filterMap id).flatMap fun fd => [.opened fd, .register (some fd)] := by
    intro accsfd
    induction accsfd with
    | nil => rfl
    | cons slot rest ih =>
        cases slot with
        | none => exact ih
        | some fd =>
            simp only [List.filterMap_cons, Option.map_some, id, List.flatMap_cons, ih]
            rfl
  have hAcquire : Accounted may _ _ _ := .acquireAll (new now connect m v last).1.connections l
  rw [connections, ← hCalls] at hAcquire
  exact hAcquire

/-- All connections of a machine are closed and unregistered. -/
theorem disconnectAcceptors_accounted (psm : ProposerStateMachine Fd) (l : Holding Fd) :
    Accounted may (psm.disconnectAcceptors.2.flatMap Effect.calls)
      (l + ((↑psm.connections : Multiset Fd), 0)) l := by
  have hCalls : psm.disconnectAcceptors.2.flatMap Effect.calls =
      psm.connections.flatMap fun fd => [.unregister (some fd), .close fd] := by
    unfold disconnectAcceptors connections
    dsimp only
    induction psm.accsfd with
    | nil => rfl
    | cons slot rest ih =>
        cases slot with
        | none => exact ih
        | some fd =>
            simp only [List.filterMap_cons, id, List.flatMap_cons, List.flatMap_append, ih]
            rfl
  rw [hCalls]
  exact .releaseAll psm.connections l

theorem connections_disconnected (psm : ProposerStateMachine Fd) :
    psm.disconnectAcceptors.1.connections = [] := by
  apply List.filterMap_eq_nil_iff.mpr
  intro slot hSlot
  obtain ⟨_, _, rfl⟩ := List.mem_map.mp hSlot
  rfl

/-- A commit closes all connections. -/
theorem commit_accounted (psm : ProposerStateMachine Fd) (now : Time) (p : Proposal) :
    Accounted may ((psm.commit now p).2.flatMap Effect.calls)
      (l + ((↑psm.connections : Multiset Fd), 0))
      (l + ((↑(psm.commit now p).1.connections : Multiset Fd), 0)) := by
  have hNone : (psm.commit now p).1.connections = [] := connections_disconnected psm
  have hDisconnect : Accounted may _ _ l := psm.disconnectAcceptors_accounted l
  refine hDisconnect.of_eq rfl ?_
  rw [hNone]
  exact add_zero l

/-- So does the commitment, if the machine is ready. -/
theorem sendCommitment_accounted (now : Time) :
    Accounted may ((psm.sendCommitment now).2.flatMap Effect.calls)
      (l + ((↑psm.connections : Multiset Fd), 0))
      (l + ((↑(psm.sendCommitment now).1.connections : Multiset Fd), 0)) := by
  unfold sendCommitment
  split
  · exact .nil _
  · dsimp only
    rw [List.flatMap_append, broadcast_calls, List.nil_append]
    exact commit_accounted { psm with proposal := .noProposal } now psm.proposal

/-- Nothing is connected any more once the commitment is sent. -/
theorem connections_sendCommitment (now : Time) (hReady : psm.isReadyToCommit = true) :
    (psm.sendCommitment now).1.connections = [] := by
  unfold sendCommitment
  rw [hReady, if_neg (by simp)]
  exact connections_disconnected _

/-- A new proposal leaves the connections alone. -/
theorem newProposal_accounted (now : Time) (p : Proposal) :
    Accounted may ((psm.newProposal now p).effects.flatMap Effect.calls)
      (l + ((↑psm.connections : Multiset Fd), 0))
      (l + ((↑(psm.newProposal now p).machine.connections : Multiset Fd), 0)) := by
  unfold newProposal
  dsimp only
  split
  · rw [broadcast_calls]
    exact .nil _
  · rw [broadcast_calls]
    exact .nil _

theorem checkTimeout_connections (now timeout : Time) :
    (psm.checkTimeout now timeout).1.connections = psm.connections := by
  rcases checkTimeout_cases now timeout psm with hSame | ⟨_, hBack⟩
  · rw [hSame]
  · rw [hBack]
    rfl

/-- A message may close all connections, and opens none. -/
theorem handleMessage_accounted (now : Time) (replysfd : Fd) (m : PaxosMessage) :
    Accounted may ((psm.handleMessage now replysfd m).effects.flatMap Effect.calls)
      (l + ((↑psm.connections : Multiset Fd), 0))
      (l + ((↑(psm.handleMessage now replysfd m).machine.connections : Multiset Fd), 0)) := by
  have hOutcome := psm.handleMessage_outcome now replysfd m
  generalize psm.handleMessage now replysfd m = r at hOutcome ⊢
  cases hOutcome with
  | ignored => exact .nil _
  | dropped hName => exact .nil _
  | recalled hName hWhy => exact .nil _
  | counted ack nack hName hVersion hState hCount hFew => exact .nil _
  | opened ack nack hName hVersion hState hCount hMany =>
      rw [broadcast_calls]
      exact .nil _
  | acknowledged hName hVersion hState hBody => exact .nil _
  | refused hName hVersion hState hBody => exact .nil _
  | learned p hName hVersion hState hBody => exact psm.commit_accounted now p

end ProposerStateMachine

end QpidRecovery
