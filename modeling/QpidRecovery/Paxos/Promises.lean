import QpidRecovery.Library.Trace
import QpidRecovery.Library.Transition
import QpidRecovery.Paxos.Acceptor
import QpidRecovery.Paxos.Ordering

/-! The life of one acceptor machine: every message it handles and every
timeout check, with what it replied. A period ends when a timeout takes it back
to an empty `PHASE1`. -/
namespace QpidRecovery.Promises

open Transition Trace

inductive Event (Fd : Type) where
  | handled (m : PaxosMessage) (replies : List (Fd × PaxosMessage))
  | reset

structure State (Fd : Type) where
  machine : AcceptorStateMachine
  events : List (Event Fd)

inductive Action (Fd : Type) where
  | message (now : Time) (replysfd : Fd) (m : PaxosMessage)
  | timeout (now timeout : Time)

variable {Fd : Type}

def start (now : Time) (name : ServiceName) (version : Nat) (last : Proposal) : State Fd :=
  ⟨.new now name version last, []⟩

def step (s : State Fd) : Action Fd → Option (State Fd)
  | .message now replysfd m =>
      let r := s.machine.handleMessage now replysfd m
      some ⟨r.machine, s.events ++ [.handled m (sends r.effects)]⟩
  | .timeout now timeout =>
      let r := s.machine.checkTimeout now timeout
      some ⟨r.1, if r.2 = .handled then s.events ++ [.reset] else s.events⟩

/-- The message was answered with a body of this kind. -/
def Replied (b : PaxosBody) (replies : List (Fd × PaxosMessage)) : Prop :=
  ∃ out ∈ replies, out.2.body = b

instance (b : PaxosBody) (replies : List (Fd × PaxosMessage)) : Decidable (Replied b replies) :=
  inferInstanceAs (Decidable (∃ out ∈ replies, out.2.body = b))

/-- The proposals answered with the given body in the current period. -/
def answered (b : PaxosBody) : List (Event Fd) → List Proposal :=
  List.foldl (fun answered event =>
    match event with
    | .reset => []
    | .handled m replies =>
        if Replied b replies then answered ++ m.getProposalPtr.toList else answered) []

/-- Messages come from `receive`, and their scores are in range. -/
def Admissible (_ : State Fd) : Action Fd → Prop
  | .message _ _ m => m.Received ∧ ∀ p, m.getProposalPtr = some p → p.ScoreInRange
  | .timeout _ _ => True

/-- An acceptance is of a proposal equal to one acknowledged in its period,
which is not below any other of them, and is the first of its period. -/
def Justified (before : List (Event Fd)) : Event Fd → Prop
  | .reset => True
  | .handled m replies => Replied .phase2Ack replies →
      ∃ p, m.body = .phase2Request p ∧
        (∃ q ∈ answered .phase1Ack before, q.SameContent p) ∧
        (∀ q ∈ answered .phase1Ack before, 0 ≤ p.compare q) ∧
        answered .phase2Ack before = []

/-- Nothing of a vote is among the replies. -/
def Voteless : Event Fd → Prop
  | .reset => False
  | .handled _ replies => ¬ Replied .phase1Ack replies ∧ ¬ Replied .phase1Nack replies ∧
      ¬ Replied .phase2Ack replies ∧ ¬ Replied .phase2Nack replies

section Answered
variable (b : PaxosBody) (events : List (Event Fd))

@[simp] theorem answered_reset : answered b (events ++ [.reset]) = [] := by
  simp [answered, List.foldl_append]

/-- Only a message that was answered so counts. -/
theorem answered_handled (m : PaxosMessage) (replies : List (Fd × PaxosMessage)) :
    answered b (events ++ [.handled m replies]) =
      if Replied b replies then answered b events ++ m.getProposalPtr.toList
      else answered b events := by
  simp [answered, List.foldl_append]

@[simp] theorem not_replied_nil : ¬ Replied b ([] : List (Fd × PaxosMessage)) := by
  simp [Replied]

@[simp] theorem replied_singleton {fd : Fd} {m : PaxosMessage} :
    Replied b [(fd, m)] ↔ m.body = b := by
  simp [Replied]

end Answered

/-- A promise is the best of the acknowledged proposals, once there is one. -/
structure Best (promise : Proposal) (acked : List Proposal) : Prop where
  inRange : promise.ScoreInRange
  source : promise = .noProposal ∨ promise ∈ acked
  ackedInRange : ∀ q ∈ acked, q.ScoreInRange
  greatest : ∀ q ∈ acked, (q.order promise).isLE

theorem Best.noProposal : Best .noProposal [] where
  inRange := by
    intro r hr
    cases hr
  source := .inl rfl
  ackedInRange := by simp
  greatest := by simp

/-- A proposal that the promise is not above takes its place. -/
theorem Best.raise {promise p : Proposal} {acked : List Proposal} (h : Best promise acked)
    (hp : p.ScoreInRange) (hBest : promise.compare p ≤ 0) : Best p (acked ++ [p]) where
  inRange := hp
  source := .inr (by simp)
  ackedInRange := by
    intro q hq
    rcases List.mem_append.mp hq with hq | hq
    · exact h.ackedInRange q hq
    · rwa [List.mem_singleton.mp hq]
  greatest := by
    intro q hq
    have hPromise : (promise.order p).isLE := by
      rwa [← Proposal.answer_compare_of_inRange h.inRange hp, ThreeWay.isLE_answer]
    rcases List.mem_append.mp hq with hq | hq
    · exact Std.TransCmp.isLE_trans (h.greatest q hq) hPromise
    · have hSelf : p.order p = .eq := Std.ReflCmp.compare_self
      rw [List.mem_singleton.mp hq, hSelf]
      rfl

/-- What ties with the promise is above every acknowledged proposal. -/
theorem Best.compare_nonneg {promise p q : Proposal} {acked : List Proposal}
    (h : Best promise acked) (hp : p.ScoreInRange) (hEqual : promise.compare p = 0)
    (hq : q ∈ acked) : 0 ≤ p.compare q := by
  have hTie : promise.order p = .eq := by
    rw [← Proposal.answer_compare_of_inRange h.inRange hp, ThreeWay.answer_eq_eq, hEqual]
  have hLess : (q.order p).isLE :=
    Std.TransCmp.isLE_trans (h.greatest q hq) (by rw [hTie]; rfl)
  have hAnswer := Proposal.answer_compare_of_inRange hp (h.ackedInRange q hq)
  have hNotLess : ThreeWay.answer (p.compare q) ≠ .lt := by
    rw [hAnswer]
    exact Std.OrientedCmp.not_lt_of_isLE hLess
  rw [Ne, ThreeWay.answer_eq_lt] at hNotLess
  omega

/-- A received proposal that ties with the promise was acknowledged. -/
theorem Best.acknowledged {promise p : Proposal} {acked : List Proposal} (h : Best promise acked)
    (hp : p.ScoreInRange) (hReal : p ≠ .noProposal) (hEqual : promise.compare p = 0) :
    ∃ q ∈ acked, q.SameContent p := by
  have hSame : promise.SameContent p := by
    rw [← Proposal.order_eq_eq, ← Proposal.answer_compare_of_inRange h.inRange hp,
      ThreeWay.answer_eq_eq, hEqual]
  rcases h.source with rfl | hMem
  · cases p with
    | noProposal => exact absurd rfl hReal
    | _ => cases hSame
  · exact ⟨promise, hMem, hSame⟩

structure Inv (s : State Fd) : Prop where
  justified : BeforeEach Justified s.events
  best : s.machine.state = .phase1 → Best s.machine.promise (answered .phase1Ack s.events)
  fresh : s.machine.state = .phase1 → answered .phase2Ack s.events = []

/-- The invariant of a new machine. -/
theorem inv_start (now : Time) (name : ServiceName) (version : Nat) (last : Proposal) :
    Inv (start now name version last : State Fd) where
  justified := BeforeEach.nil
  best _ := Best.noProposal
  fresh _ := rfl

/-- An event that is no vote needs no justification. -/
theorem justified_append {events : List (Event Fd)} {e : Event Fd}
    (h : BeforeEach Justified events) (he : Justified events e) :
    BeforeEach Justified (events ++ [e]) := by
  apply h.append
  intro before b after hSplit
  cases before with
  | nil =>
      obtain ⟨rfl, _⟩ := List.cons.inj hSplit
      rwa [List.append_nil]
  | cons c before => simp at hSplit

/-- A message that is not answered with an acknowledgement. -/
theorem Inv.message_idle {s : State Fd} {m : PaxosMessage} {a : AcceptorStateMachine}
    {replies : List (Fd × PaxosMessage)} (hInv : Inv s) (hPhase1 : ¬ Replied .phase1Ack replies)
    (hPhase2 : ¬ Replied .phase2Ack replies)
    (hMachine : a.state = .phase1 → a = s.machine) :
    Inv ⟨a, s.events ++ [.handled m replies]⟩ where
  justified := justified_append hInv.justified fun h => absurd h hPhase2
  best h := by
    have hSame := hMachine h
    subst hSame
    rw [answered_handled, if_neg hPhase1]
    exact hInv.best h
  fresh h := by
    have hSame := hMachine h
    subst hSame
    rw [answered_handled, if_neg hPhase2]
    exact hInv.fresh h

/-- A message keeps the invariant. -/
theorem Inv.message {s : State Fd} (hInv : Inv s) (now : Time) (replysfd : Fd) {m : PaxosMessage}
    (hReceived : m.Received) (hScore : ∀ p, m.getProposalPtr = some p → p.ScoreInRange) :
    Inv ⟨(s.machine.handleMessage now replysfd m).machine,
      s.events ++ [.handled m (sends (s.machine.handleMessage now replysfd m).effects)]⟩ := by
  generalize hReaction : s.machine.handleMessage now replysfd m = r
  have hOutcome := s.machine.handleMessage_outcome now replysfd m
  rw [hReaction] at hOutcome
  cases hOutcome with
  | ignored => exact hInv.message_idle (by simp) (by simp) fun _ => rfl
  | dropped => exact hInv.message_idle (by simp) (by simp) fun _ => rfl
  | recalled => exact hInv.message_idle (by simp) (by simp) fun _ => rfl
  | refused b hName hVersion hState hNack =>
      rcases hNack with rfl | rfl
      · exact hInv.message_idle (by simp) (by simp) fun _ => rfl
      · exact hInv.message_idle (by simp) (by simp) fun _ => rfl
  | promised p hName hVersion hBody hState hBest =>
      have hProposal : m.getProposalPtr = some p := by rw [PaxosMessage.getProposalPtr, hBody]
      constructor
      · exact justified_append hInv.justified fun h => by simp at h
      · intro _
        simp only [sends_cons_send, sends_nil, answered_handled, replied_singleton, if_true,
          hProposal, Option.toList_some]
        exact (hInv.best hState).raise (hScore p hProposal) hBest
      · intro _
        simp only [sends_cons_send, sends_nil, answered_handled, replied_singleton, reduceCtorEq,
          if_false]
        exact hInv.fresh hState
  | accepted p hName hVersion hBody hState hEqual =>
      have hProposal : m.getProposalPtr = some p := by rw [PaxosMessage.getProposalPtr, hBody]
      have hBest := hInv.best hState
      have hReal : p ≠ .noProposal := by
        rintro rfl
        exact hReceived hProposal
      constructor
      · apply justified_append hInv.justified
        intro _
        exact ⟨p, hBody, hBest.acknowledged (hScore p hProposal) hReal hEqual,
          fun q hq => hBest.compare_nonneg (hScore p hProposal) hEqual hq, hInv.fresh hState⟩
      · intro h
        cases h
      · intro h
        cases h
  | learned => exact hInv.message_idle (by simp) (by simp) fun h => by cases h

/-- A timeout forgets the promise and what was acknowledged. -/
theorem Inv.timeout {s : State Fd} (hInv : Inv s) (now timeout : Time) :
    Inv ⟨(s.machine.checkTimeout now timeout).1,
      if (s.machine.checkTimeout now timeout).2 = .handled then s.events ++ [.reset]
      else s.events⟩ := by
  rcases s.machine.checkTimeout_cases now timeout with hSame | ⟨_, _, hReset⟩
  · rw [hSame]
    exact hInv
  · rw [hReset, if_pos rfl]
    constructor
    · exact justified_append hInv.justified trivial
    · intro _
      rw [answered_reset]
      exact Best.noProposal
    · intro _
      exact answered_reset _ _

/-- Every step keeps the invariant. -/
theorem Inv.step {s t : State Fd} {action : Action Fd} (hInv : Inv s) (hOk : Admissible s action)
    (h : step s action = some t) : Inv t := by
  cases action with
  | message now replysfd m =>
      cases h
      exact hInv.message now replysfd hOk.1 hOk.2
  | timeout now timeout =>
      cases h
      exact hInv.timeout now timeout

/-- An acceptor that knows the commit votes no more. -/
theorem handleMessage_voteless (now : Time) (replysfd : Fd) (m : PaxosMessage)
    {a : AcceptorStateMachine} (h : a.state = .phase3) :
    Voteless (.handled m (sends (a.handleMessage now replysfd m).effects)) := by
  generalize hReaction : a.handleMessage now replysfd m = r
  have hOutcome := a.handleMessage_outcome now replysfd m
  rw [hReaction] at hOutcome
  cases hOutcome with
  | refused b hName hVersion hState => simp [h] at hState
  | promised p hName hVersion hBody hState => simp [h] at hState
  | accepted p hName hVersion hBody hState => simp [h] at hState
  | _ => simp [Voteless]

/-- What a run from `PHASE3` leaves as it was. -/
structure Settled (s t : State Fd) : Prop where
  state : t.machine.state = .phase3
  lastcommit : t.machine.lastcommit = s.machine.lastcommit
  voteless : ∃ new, t.events = s.events ++ new ∧ ∀ e ∈ new, Voteless e

/-- Whatever is settled stays so. -/
theorem Settled.step {s t u : State Fd} {action : Action Fd} (hSettled : Settled s t)
    (h : Promises.step t action = some u) : Settled s u := by
  obtain ⟨new, hEvents, hVoteless⟩ := hSettled.voteless
  cases action with
  | message now replysfd m =>
      cases h
      have hMachine := t.machine.handleMessage_phase3 now replysfd m hSettled.state
      refine ⟨by rw [hMachine]; exact hSettled.state, by rw [hMachine]; exact hSettled.lastcommit,
        new ++ [_], by rw [hEvents, List.append_assoc], ?_⟩
      intro e he
      rcases List.mem_append.mp he with he | he
      · exact hVoteless e he
      · rw [List.mem_singleton.mp he]
        exact handleMessage_voteless now replysfd m hSettled.state
  | timeout now timeout =>
      cases h
      rcases t.machine.checkTimeout_cases now timeout with hSame | ⟨hState, _⟩
      · rw [hSame]
        exact ⟨hSettled.state, hSettled.lastcommit, hSettled.voteless⟩
      · rw [hSettled.state] at hState
        simp at hState

/-- Over every life of an acceptor: it accepts only the best proposal it
acknowledged since it was created or last timed out, once in that period, and
in `PHASE3` it neither votes again nor changes its commit. -/
theorem accepts_best_promise {now : Time} {name : ServiceName} {version : Nat} {last : Proposal}
    {s : State Fd} (run : Run step Admissible (start now name version last) s) :
    BeforeEach Justified s.events ∧
      ∀ t, s.machine.state = .phase3 → Run step Admissible s t → Settled s t := by
  refine ⟨(run.invariant (inv_start now name version last)
    fun _ _ _ hInv hOk => hInv.step hOk).justified, ?_⟩
  intro t hState rest
  have hStart : Settled s s := ⟨hState, rfl, [], (List.append_nil _).symm, by simp⟩
  exact rest.invariant hStart fun _ _ _ hSettled _ => hSettled.step

/-- A proposal to run on one acceptor. -/
def firstChange : Proposal := .acceptorChangeProposal ⟨1, [localhost]⟩

def voteOnce : List (Action Nat) :=
  [.message 0 7 ⟨1, brokerService, .phase1Proposal firstChange⟩,
    .message 1 7 ⟨1, brokerService, .phase2Request firstChange⟩,
    .message 2 7 ⟨1, brokerService, .phase3Commit firstChange⟩]

/-- One vote, from the creation of the machine to its commit. -/
theorem accepts_best_promise_voteOnce :
    ∃ s, exec step (start 0 brokerService 1 .noProposal) voteOnce = some s ∧
      answered .phase2Ack s.events = [firstChange] ∧ BeforeEach Justified s.events ∧
      ∀ t, Run step Admissible s t → Settled s t := by
  have hOk : ∀ u, ∀ action ∈ voteOnce, Admissible u action := by
    intro u action hAction
    simp only [voteOnce, List.mem_cons, List.not_mem_nil, or_false] at hAction
    rcases hAction with rfl | rfl | rfl
    · exact ⟨by decide, by simp [PaxosMessage.getProposalPtr, Proposal.ScoreInRange, firstChange]⟩
    · exact ⟨by decide, by simp [PaxosMessage.getProposalPtr, Proposal.ScoreInRange, firstChange]⟩
    · exact ⟨by decide, by simp [PaxosMessage.getProposalPtr, Proposal.ScoreInRange, firstChange]⟩
  have hExec : exec step (start 0 brokerService 1 .noProposal) voteOnce = some _ := rfl
  have hAll := accepts_best_promise (Run.of_exec hOk hExec)
  exact ⟨_, hExec, by decide, hAll.1, fun t rest => hAll.2 t rfl rest⟩

end QpidRecovery.Promises
