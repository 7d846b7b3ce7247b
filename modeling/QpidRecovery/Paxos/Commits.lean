import QpidRecovery.Library.Transition
import QpidRecovery.Paxos.Promises
import QpidRecovery.Paxos.Proposer
import QpidRecovery.Paxos.RoundTrip

/-! The life of one proposer machine as its processes drive it: it is given at
most one proposal, and a `COMMITTING_SELF` is followed by `sendCommitment`
before anything else is called. -/
namespace QpidRecovery.Commits

open Transition

structure State (Fd : Type) where
  psm : ProposerStateMachine Fd
  given : Option Proposal
  /-- A `COMMITTING_SELF` was returned and `sendCommitment` is not yet called. -/
  pending : Bool
  /-- The number of `COMMITTING_SELF` returned so far. -/
  selfs : Nat

inductive Action (Fd : Type) where
  | newProposal (now : Time) (p : Proposal)
  | message (now : Time) (replysfd : Fd) (m : PaxosMessage)
  | timeout (now timeout : Time)
  | sendCommitment (now : Time)

variable {Fd : Type}

def start (now : Time) (connect : Nat → IPString → Option Fd) (name : ServiceName) (version : Nat)
    (last : AcceptorChangeProposal) : State Fd :=
  ⟨(ProposerStateMachine.new now connect name version last).1, none, false, 0⟩

/-- The call of the machine that an action makes. -/
def Action.call (psm : ProposerStateMachine Fd) :
    Action Fd → Reaction (ProposerStateMachine Fd) Fd
  | .newProposal now p => psm.newProposal now p
  | .message now replysfd m => psm.handleMessage now replysfd m
  | .timeout now limit => .quiet (psm.checkTimeout now limit)
  | .sendCommitment now => .void (psm.sendCommitment now)

/-- The argument of `newProposal`, if the action is that call. -/
def Action.proposal? : Action Fd → Option Proposal
  | .newProposal _ p => some p
  | _ => none

def State.after (s : State Fd) (action : Action Fd) : State Fd where
  psm := (action.call s.psm).machine
  given := action.proposal?.or s.given
  pending := (action.call s.psm).result = .committingSelf
  selfs := if (action.call s.psm).result = .committingSelf then s.selfs + 1 else s.selfs

def step (s : State Fd) (action : Action Fd) : Option (State Fd) := some (s.after action)

/-- How the processes call the machine. -/
def Driven (s : State Fd) : Action Fd → Prop
  | .newProposal _ p => s.pending = false ∧ s.given = none ∧ p ≠ .noProposal
  | .message _ _ m => s.pending = false ∧ m.Received
  | .timeout _ _ => s.pending = false
  | .sendCommitment _ => s.pending = true

/-- What a call guarantees: a commit comes with a real proposal, and a message
sent with none of the kind that `receive` rejects. -/
structure Sound (s : State Fd) (action : Action Fd) : Prop where
  self : (action.call s.psm).result = .committingSelf →
    s.selfs = 0 ∧ ∃ p, (s.after action).given = some p ∧ p ≠ .noProposal ∧
      (action.call s.psm).machine.getCommittingProposal = some p
  other : (action.call s.psm).result = .committingOther →
    ∃ now replysfd m p, action = .message now replysfd m ∧ m.body = .phase3Commit p ∧
      p ≠ .noProposal ∧ (action.call s.psm).machine.getCommittingProposal = some p
  sent : ∀ out ∈ sends (action.call s.psm).effects, out.2.Received

structure Inv (s : State Fd) : Prop where
  lastcommit : s.psm.lastcommit ≠ .noProposal
  proposal : s.psm.state = .phase1 ∨ s.psm.state = .phase2 →
    s.given = some s.psm.proposal ∧ s.psm.proposal ≠ .noProposal
  asked : s.psm.state = .phase1 → s.psm.nacceptor ≠ 0 ∧ s.psm.phase2ack = 0
  idle : s.given = none → s.psm.phase2ack = 0 ∧ s.selfs = 0
  ready : s.psm.isReadyToCommit = s.pending
  once : s.selfs = 0 ∨ s.selfs = 1 ∧ (s.pending = true ∨ s.psm.state = .phase3)

/-- The invariant of a new machine. -/
theorem inv_start (now : Time) (connect : Nat → IPString → Option Fd) (name : ServiceName)
    (version : Nat) (last : AcceptorChangeProposal) :
    Inv (start now connect name version last) where
  lastcommit := by simp [start, ProposerStateMachine.new]
  proposal h := by simp [start, ProposerStateMachine.new] at h
  asked h := by cases h
  idle _ := ⟨rfl, rfl⟩
  ready := rfl
  once := .inl rfl

/-- A machine that is no longer pending has returned no `COMMITTING_SELF`
unless it is in `PHASE3`. -/
theorem Inv.selfs_eq_zero {s : State Fd} (h : Inv s) (hPending : s.pending = false)
    (hState : s.psm.state ≠ .phase3) : s.selfs = 0 := by
  rcases h.once with hZero | ⟨_, hPend | hPhase3⟩
  · exact hZero
  · rw [hPending] at hPend
    cases hPend
  · exact absurd hPhase3 hState

/-- The state after a `COMMITTING_SELF` says all that is needed about it. -/
theorem Inv.committingSelf {s : State Fd} {action : Action Fd} (hAfter : Inv (s.after action))
    (h : (action.call s.psm).result = .committingSelf) :
    s.selfs = 0 ∧ ∃ p, (s.after action).given = some p ∧ p ≠ .noProposal ∧
      (action.call s.psm).machine.getCommittingProposal = some p := by
  have hReady : (action.call s.psm).machine.isReadyToCommit = true := by
    have hPending : (s.after action).pending = true := by simp [State.after, h]
    rw [← hPending]
    exact hAfter.ready
  have hState : (s.after action).psm.state = .phase2 := by
    simp only [ProposerStateMachine.isReadyToCommit, decide_eq_true_eq] at hReady
    exact hReady.1
  have hSelfs : s.selfs = 0 := by
    have hOnce := hAfter.once
    simp only [State.after, h, if_true] at hOnce
    omega
  obtain ⟨hGiven, hReal⟩ := hAfter.proposal (.inr hState)
  exact ⟨hSelfs, _, hGiven, hReal, if_pos hReady⟩

/-- A message with a real proposal can be received. -/
theorem received_of_body {m : PaxosMessage} {p : Proposal} (hp : p ≠ .noProposal)
    (h : m.getProposalPtr = some p) : m.Received := by
  rw [PaxosMessage.Received, h]
  simpa using hp

/-- What is broadcast can be received, if its body can. -/
theorem broadcast_received {psm : ProposerStateMachine Fd} {body : PaxosBody}
    (hBody : (PaxosMessage.mk psm.version psm.name body).Received) :
    ∀ out ∈ sends (psm.broadcast body), out.2.Received := by
  rintro ⟨fd, m⟩ hOut
  obtain ⟨_, rfl⟩ := ProposerStateMachine.mem_sends_broadcast.mp hOut
  exact hBody

section NewProposal
variable {s : State Fd} (hInv : Inv s) (now : Time) {p : Proposal}
include hInv

/-- The first proposal keeps the invariant. -/
theorem Inv.newProposal (hGiven : s.given = none) (hReal : p ≠ .noProposal) :
    Inv (s.after (.newProposal now p)) := by
  obtain ⟨hAck, hSelfs⟩ := hInv.idle hGiven
  rcases s.psm.newProposal_cases now p with ⟨hSize, hEq⟩ | ⟨hSize, hEq⟩
  · constructor <;> simp only [State.after, Action.call, Action.proposal?, hEq]
    · exact hInv.lastcommit
    · exact fun _ => ⟨rfl, hReal⟩
    · exact fun _ => ⟨hSize, hAck⟩
    · intro h
      cases h
    · simp [ProposerStateMachine.isReadyToCommit]
    · exact .inl hSelfs
  · constructor <;> simp only [State.after, Action.call, Action.proposal?, hEq]
    · exact hInv.lastcommit
    · exact fun _ => ⟨rfl, hReal⟩
    · intro h
      cases h
    · intro h
      cases h
    · simp [ProposerStateMachine.isReadyToCommit, hSize]
    · exact .inr ⟨by simp [hSelfs], .inl rfl⟩

/-- It commits only if there is nobody to ask. -/
theorem Inv.newProposal_sound (hGiven : s.given = none) (hReal : p ≠ .noProposal) :
    Sound s (.newProposal now p) := by
  constructor
  · exact (hInv.newProposal now hGiven hReal).committingSelf
  · intro h
    rcases s.psm.newProposal_cases now p with ⟨_, hEq⟩ | ⟨_, hEq⟩
    · simp [Action.call, hEq] at h
    · simp [Action.call, hEq] at h
  · have hSent : ∀ out ∈ sends (s.psm.broadcast (.phase1Proposal p)), out.2.Received :=
      broadcast_received (received_of_body hReal rfl)
    rcases s.psm.newProposal_cases now p with ⟨_, hEq⟩ | ⟨_, hEq⟩
    · simpa [Action.call, hEq] using hSent
    · simpa [Action.call, hEq] using hSent

end NewProposal

section Message
variable {s : State Fd} (hInv : Inv s) (now : Time) (replysfd : Fd) {m : PaxosMessage}
include hInv

/-- Counting one more reply in `PHASE2` commits exactly when it makes the
machine ready. -/
theorem Inv.counted {psm : ProposerStateMachine Fd} (ack nack : Nat)
    (hPending : s.pending = false) (hState : s.psm.state = .phase2)
    (hMachine : psm = { s.psm with phase2ack := ack, phase2nack := nack }) :
    Inv ⟨psm, s.given, psm.isReadyToCommit,
      if psm.isReadyToCommit then s.selfs + 1 else s.selfs⟩ := by
  subst hMachine
  have hSelfs := hInv.selfs_eq_zero hPending (by simp [hState])
  have hProposal := hInv.proposal (.inr hState)
  constructor
  · exact hInv.lastcommit
  · exact fun _ => hProposal
  · intro h
    simp [hState] at h
  · intro h
    simp [hProposal.1] at h
  · rfl
  · dsimp only
    split
    · next hReady => exact .inr ⟨by rw [hSelfs], .inl hReady⟩
    · exact .inl hSelfs

/-- A message keeps the invariant. -/
theorem Inv.message (hPending : s.pending = false) (hReceived : m.Received) :
    Inv (s.after (.message now replysfd m)) := by
  generalize hReaction : s.psm.handleMessage now replysfd m = r
  have hOutcome := s.psm.handleMessage_outcome now replysfd m
  rw [hReaction] at hOutcome
  have hAfter : s.after (.message now replysfd m) =
      ⟨r.machine, s.given, r.result = .committingSelf,
        if r.result = .committingSelf then s.selfs + 1 else s.selfs⟩ := by
    simp [State.after, Action.call, Action.proposal?, hReaction]
  rw [hAfter]
  have hSame : s = ⟨s.psm, s.given, false, s.selfs⟩ := by rw [← hPending]
  cases hOutcome with
  | ignored => exact hSame ▸ hInv
  | dropped => exact hSame ▸ hInv
  | recalled => exact hSame ▸ hInv
  | counted ack nack hName hVersion hState =>
      constructor
      · exact hInv.lastcommit
      · exact hInv.proposal
      · exact hInv.asked
      · exact hInv.idle
      · simp [ProposerStateMachine.isReadyToCommit, hState]
      · exact .inl (hInv.selfs_eq_zero hPending (by simp [hState]))
  | opened ack nack hName hVersion hState hCount hMany =>
      obtain ⟨hSize, hAck⟩ := hInv.asked hState
      constructor
      · exact hInv.lastcommit
      · exact fun _ => hInv.proposal (.inl hState)
      · intro h
        cases h
      · exact hInv.idle
      · simp [ProposerStateMachine.isReadyToCommit, hAck, hSize]
      · exact .inl (hInv.selfs_eq_zero hPending (by simp [hState]))
  | acknowledged hName hVersion hState hBody =>
      have hCounted := hInv.counted (s.psm.phase2ack + 1) s.psm.phase2nack
        hPending hState rfl
      simpa [ProposerStateMachine.checkPhase2] using hCounted
  | refused hName hVersion hState hBody =>
      have hCounted := hInv.counted s.psm.phase2ack (s.psm.phase2nack + 1)
        hPending hState rfl
      simpa [ProposerStateMachine.checkPhase2] using hCounted
  | learned p hName hVersion hState hBody =>
      have hReal : p ≠ .noProposal := by
        rintro rfl
        exact hReceived (by rw [PaxosMessage.getProposalPtr, hBody])
      constructor
      · exact hReal
      · intro h
        simp at h
      · intro h
        cases h
      · exact hInv.idle
      · simp [ProposerStateMachine.isReadyToCommit]
      · exact .inl (hInv.selfs_eq_zero hPending hState)

/-- It commits only what was acknowledged by a majority, or what it carries. -/
theorem Inv.message_sound (hPending : s.pending = false) (hReceived : m.Received) :
    Sound s (.message now replysfd m) := by
  refine ⟨(hInv.message now replysfd hPending hReceived).committingSelf, ?_, ?_⟩
  · intro h
    obtain ⟨_, _, _, p, hBody, hCommitted⟩ := s.psm.handleMessage_takes h
    refine ⟨now, replysfd, m, p, rfl, hBody, ?_, hCommitted⟩
    rintro rfl
    exact hReceived (by rw [PaxosMessage.getProposalPtr, hBody])
  · simp only [Action.call]
    generalize hReaction : s.psm.handleMessage now replysfd m = r
    have hOutcome := s.psm.handleMessage_outcome now replysfd m
    rw [hReaction] at hOutcome
    cases hOutcome with
    | recalled =>
        intro out hOut
        rw [ProposerStateMachine.sendLastcommit, sends_cons_send, sends_nil,
          List.mem_singleton] at hOut
        subst hOut
        exact received_of_body hInv.lastcommit rfl
    | opened ack nack hName hVersion hState =>
        exact broadcast_received (received_of_body (hInv.proposal (.inl hState)).2 rfl)
    | learned p => simp
    | acknowledged => simp [ProposerStateMachine.checkPhase2]
    | refused => simp [ProposerStateMachine.checkPhase2]
    | _ => simp

end Message

section Timeout
variable {s : State Fd} (hInv : Inv s) (now limit : Time)
include hInv

/-- A timeout keeps the invariant. -/
theorem Inv.timeout (hPending : s.pending = false) : Inv (s.after (.timeout now limit)) := by
  rcases s.psm.checkTimeout_cases now limit with hEq | ⟨hState, hEq⟩
  · have hAfter : s.after (.timeout now limit) = s := by
      simp [State.after, Action.call, Action.proposal?, hEq, ← hPending]
    rw [hAfter]
    exact hInv
  · have hSelfs := hInv.selfs_eq_zero hPending (by rcases hState with h | h <;> simp [h])
    constructor <;> simp only [State.after, Action.call, Action.proposal?, hEq]
    · exact hInv.lastcommit
    · intro h
      simp [ProposerStateMachine.initialState] at h
    · intro h
      cases h
    · exact fun _ => ⟨rfl, hSelfs⟩
    · simp [ProposerStateMachine.isReadyToCommit, ProposerStateMachine.initialState]
    · exact .inl hSelfs

theorem Inv.timeout_sound (hPending : s.pending = false) : Sound s (.timeout now limit) := by
  refine ⟨(hInv.timeout now limit hPending).committingSelf, ?_, by simp [Action.call]⟩
  intro h
  rcases s.psm.checkTimeout_cases now limit with hEq | ⟨_, hEq⟩
  · simp [Action.call, hEq] at h
  · simp [Action.call, hEq] at h

end Timeout

section SendCommitment
variable {s : State Fd} (hInv : Inv s) (now : Time)
include hInv

/-- What is pending is a real proposal. -/
theorem Inv.proposal_of_pending (hPending : s.pending = true) :
    s.psm.isReadyToCommit = true ∧ s.given = some s.psm.proposal ∧
      s.psm.proposal ≠ .noProposal := by
  have hReady : s.psm.isReadyToCommit = true := by rw [hInv.ready, hPending]
  have hState : s.psm.state = .phase2 := by
    simp only [ProposerStateMachine.isReadyToCommit, decide_eq_true_eq] at hReady
    exact hReady.1
  exact ⟨hReady, hInv.proposal (.inr hState)⟩

/-- The commitment keeps the invariant. -/
theorem Inv.sendCommitment (hPending : s.pending = true) :
    Inv (s.after (.sendCommitment now)) := by
  obtain ⟨hReady, hGiven, hReal⟩ := hInv.proposal_of_pending hPending
  constructor <;>
    simp only [State.after, Action.call, Action.proposal?, ProposerStateMachine.sendCommitment,
      hReady, Bool.true_eq_false, if_false, Reaction.void_machine, Reaction.void_result,
      ProposerStateMachine.commit_fst]
  · exact hReal
  · intro h
    simp at h
  · intro h
    cases h
  · intro h
    simp [hGiven] at h
  · simp [ProposerStateMachine.isReadyToCommit]
  · rcases hInv.once with hZero | ⟨hOne, _⟩
    · exact .inl hZero
    · exact .inr ⟨hOne, .inr trivial⟩

/-- It is sent with the proposal that was reported. -/
theorem Inv.sendCommitment_sound (hPending : s.pending = true) :
    Sound s (.sendCommitment now) := by
  obtain ⟨hReady, _, hReal⟩ := hInv.proposal_of_pending hPending
  constructor
  · intro h
    cases h
  · intro h
    cases h
  · simp only [Action.call, Reaction.void_effects, ProposerStateMachine.sendCommitment, hReady,
      Bool.true_eq_false, if_false, sends_append, ProposerStateMachine.sends_commit,
      List.append_nil]
    exact broadcast_received (received_of_body hReal rfl)

end SendCommitment

/-- Every call that the process makes keeps the invariant. -/
theorem Inv.after {s : State Fd} {action : Action Fd} (hInv : Inv s) (hDriven : Driven s action) :
    Inv (s.after action) := by
  cases action with
  | newProposal now p => exact hInv.newProposal now hDriven.2.1 hDriven.2.2
  | message now replysfd m => exact hInv.message now replysfd hDriven.1 hDriven.2
  | timeout now limit => exact hInv.timeout now limit hDriven
  | sendCommitment now => exact hInv.sendCommitment now hDriven

/-- Every such call is sound. -/
theorem Inv.sound {s : State Fd} {action : Action Fd} (hInv : Inv s) (hDriven : Driven s action) :
    Sound s action := by
  cases action with
  | newProposal now p => exact hInv.newProposal_sound now hDriven.2.1 hDriven.2.2
  | message now replysfd m => exact hInv.message_sound now replysfd hDriven.1 hDriven.2
  | timeout now limit => exact hInv.timeout_sound now limit hDriven
  | sendCommitment now => exact hInv.sendCommitment_sound now hDriven

section Acceptor

/-- Messages come from `receive`. -/
def FromReceive (_ : Promises.State Fd) : Promises.Action Fd → Prop
  | .message _ _ m => m.Received
  | .timeout _ _ => True

/-- An event with no reply that `receive` would reject. -/
def Deliverable : Promises.Event Fd → Prop
  | .reset => True
  | .handled _ replies => ∀ out ∈ replies, out.2.Received

/-- An acceptor holds and sends real commits only. -/
structure AcceptorInv (s : Promises.State Fd) : Prop where
  lastcommit : s.machine.lastcommit ≠ .noProposal
  events : ∀ e ∈ s.events, Deliverable e

/-- What an acceptor committed last is real, and so are its answers. -/
theorem AcceptorInv.message {s : Promises.State Fd} (hInv : AcceptorInv s) (now : Time)
    (replysfd : Fd) {m : PaxosMessage} (hReceived : m.Received) :
    (s.machine.handleMessage now replysfd m).machine.lastcommit ≠ .noProposal ∧
      Deliverable (.handled m (sends (s.machine.handleMessage now replysfd m).effects)) := by
  generalize hReaction : s.machine.handleMessage now replysfd m = r
  have hOutcome := s.machine.handleMessage_outcome now replysfd m
  rw [hReaction] at hOutcome
  cases hOutcome with
  | recalled =>
      refine ⟨hInv.lastcommit, ?_⟩
      simpa [Deliverable] using received_of_body hInv.lastcommit rfl
  | refused b hName hVersion hState hNack =>
      refine ⟨hInv.lastcommit, ?_⟩
      rcases hNack with rfl | rfl
      · simp [Deliverable, PaxosMessage.Received, PaxosMessage.getProposalPtr]
      · simp [Deliverable, PaxosMessage.Received, PaxosMessage.getProposalPtr]
  | learned p hName hVersion hBody =>
      refine ⟨?_, by simp [Deliverable]⟩
      rintro rfl
      exact hReceived (by rw [PaxosMessage.getProposalPtr, hBody])
  | _ =>
      exact ⟨hInv.lastcommit,
        by simp [Deliverable, PaxosMessage.Received, PaxosMessage.getProposalPtr]⟩

/-- Every step of an acceptor keeps this. -/
theorem AcceptorInv.step {s t : Promises.State Fd} {action : Promises.Action Fd}
    (hInv : AcceptorInv s) (hOk : FromReceive s action) (h : Promises.step s action = some t) :
    AcceptorInv t := by
  cases action with
  | message now replysfd m =>
      cases h
      obtain ⟨hLast, hDeliverable⟩ := hInv.message now replysfd hOk
      refine ⟨hLast, ?_⟩
      intro e he
      rcases List.mem_append.mp he with he | he
      · exact hInv.events e he
      · rwa [List.mem_singleton.mp he]
  | timeout now limit =>
      cases h
      rcases s.machine.checkTimeout_cases now limit with hEq | ⟨_, _, hEq⟩
      · rw [hEq]
        exact hInv
      · rw [hEq, if_pos rfl]
        refine ⟨hInv.lastcommit, ?_⟩
        intro e he
        rcases List.mem_append.mp he with he | he
        · exact hInv.events e he
        · rw [List.mem_singleton.mp he]
          trivial

end Acceptor

/-- Over every life of a proposer and of an acceptor: a commit comes with the
real proposal it is of, a `COMMITTING_SELF` is returned once at most, and no
`NoProposal`, which `receive` rejects, is ever sent. -/
theorem commits_real {now : Time} {name : ServiceName} {version : Nat}
    {last : AcceptorChangeProposal} :
    (∀ (connect : Nat → IPString → Option Fd) (s : State Fd),
      Run step Driven (start now connect name version last) s →
        s.selfs ≤ 1 ∧ ∀ action, Driven s action → Sound s action) ∧
    (∀ s : Promises.State Fd,
      Run Promises.step FromReceive
          (Promises.start now name version (.acceptorChangeProposal last)) s →
        ∀ e ∈ s.events, Deliverable e) ∧
    (∀ (c : Channel) (header : Wire.PaxosHeader) (v : UInt32) (rest : List UInt8),
      c.Complete → Wire.hasProposal header.type = true →
        c.pending = (Wire.PaxosMessageImage.mk header (some ⟨v, .noProposal⟩)).image ++ rest →
        Wire.receive c = none) := by
  refine ⟨?_, ?_, fun _ _ _ _ hComplete hType => Wire.receive_noProposal hComplete hType⟩
  · intro connect s run
    have hInv : Inv s := by
      apply run.invariant (inv_start now connect name version last)
      intro u action v hInv hDriven hStep
      cases hStep
      exact hInv.after hDriven
    refine ⟨?_, fun action hDriven => hInv.sound hDriven⟩
    rcases hInv.once with hZero | ⟨hOne, _⟩
    · omega
    · omega
  · intro s run
    have hStart : AcceptorInv (Promises.start now name version (.acceptorChangeProposal last) :
        Promises.State Fd) :=
      ⟨by simp [Promises.start, AcceptorStateMachine.new], by simp [Promises.start]⟩
    exact (run.invariant hStart fun _ _ _ hInv hOk => hInv.step hOk).events

/-- One acceptor is asked, and its acceptance is about to be handled. -/
def askedOnce : State Nat :=
  (((start 0 (fun slot _ => some slot) brokerService 1 ⟨0, [localhost]⟩).after
    (.newProposal 1 Promises.firstChange)).after
    (.message 2 0 ⟨1, brokerService, .phase1Ack⟩))

theorem commits_real_askedOnce :
    (askedOnce.psm.handleMessage 3 0 ⟨1, brokerService, .phase2Ack⟩).result = .committingSelf ∧
      Sound askedOnce (.message 3 0 ⟨1, brokerService, .phase2Ack⟩) := by
  have run : Run step Driven (start 0 (fun slot _ => some slot) brokerService 1 ⟨0, [localhost]⟩)
      askedOnce := by
    refine ((Run.refl _).tail (a := .newProposal 1 Promises.firstChange) ?_ rfl).tail
      (a := .message 2 0 ⟨1, brokerService, .phase1Ack⟩) ?_ rfl
    · exact ⟨rfl, rfl, by decide⟩
    · exact ⟨rfl, by decide⟩
  exact ⟨by decide, (commits_real.1 _ _ run).2 _ ⟨rfl, by decide⟩⟩

end QpidRecovery.Commits
