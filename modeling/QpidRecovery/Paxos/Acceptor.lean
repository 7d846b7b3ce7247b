import QpidRecovery.Paxos.Message

/-! The acceptor's state machine for one service name and voting version. -/
namespace QpidRecovery

/-- The version is not bounded as the `unsigned` of the source is. -/
structure AcceptorStateMachine where
  name : ServiceName
  version : Nat
  lastcommit : Proposal
  state : PaxosState
  timestamp : Time
  promise : Proposal
deriving DecidableEq, Repr

namespace AcceptorStateMachine

/-- The constructor. -/
def new (now : Time) (m : ServiceName) (v : Nat) (last : Proposal) : AcceptorStateMachine where
  name := m
  version := v
  lastcommit := last
  state := .phase1
  timestamp := now
  promise := .noProposal

/-- Acknowledged promises and acceptances are both forgotten here. -/
def checkTimeout (now timeout : Time) (a : AcceptorStateMachine) :
    AcceptorStateMachine × PaxosResult :=
  if now - a.timestamp ≤ timeout then (a, .ignored)
  else match a.state with
    | .initial | .phase3 => (a, .ignored)
    | .phase1 | .phase2 => ({ a with promise := .noProposal, state := .phase1 }, .handled)

variable {Fd : Type}

/-- What a machine in `PHASE3` answers to a phase 1 or phase 2 message. -/
def sendLastcommit (replysfd : Fd) (v : Nat) (a : AcceptorStateMachine) : List (Effect Fd) :=
  if a.state = .phase3 then [.send replysfd ⟨v, a.name, .phase3Commit a.lastcommit⟩] else []

def handlePhase1Message (now : Time) (replysfd : Fd) (p : Proposal) (v : Nat)
    (a : AcceptorStateMachine) : Reaction AcceptorStateMachine Fd :=
  if a.state ≠ .phase1 then ⟨a, a.sendLastcommit replysfd v, .handled⟩
  else if a.promise.compare p > 0 then
    ⟨a, [.send replysfd ⟨v, a.name, .phase1Nack⟩], .handled⟩
  else
    ⟨{ a with promise := p, timestamp := now },
      [.send replysfd ⟨v, a.name, .phase1Ack⟩], .handled⟩

def handlePhase2Message (now : Time) (replysfd : Fd) (p : Proposal) (v : Nat)
    (a : AcceptorStateMachine) : Reaction AcceptorStateMachine Fd :=
  if a.state ≠ .phase1 then ⟨a, a.sendLastcommit replysfd v, .handled⟩
  else if a.promise.compare p ≠ 0 then
    ⟨a, [.send replysfd ⟨v, a.name, .phase2Nack⟩], .handled⟩
  else
    ⟨{ a with timestamp := now, state := .phase2 },
      [.send replysfd ⟨v, a.name, .phase2Ack⟩], .handled⟩

def handlePhase3Message (now : Time) (p : Proposal) (a : AcceptorStateMachine) :
    Reaction AcceptorStateMachine Fd :=
  if a.state = .phase3 then ⟨a, [], .handled⟩
  else ⟨{ a with lastcommit := p, state := .phase3, timestamp := now }, [], .handled⟩

def handleMessage (now : Time) (replysfd : Fd) (m : PaxosMessage) (a : AcceptorStateMachine) :
    Reaction AcceptorStateMachine Fd :=
  if m.name ≠ a.name then ⟨a, [], .ignored⟩
  else if a.version < m.version then ⟨a, [], .handled⟩
  else if a.version > m.version then
    if a.lastcommit.getVersion ≥ m.version then
      ⟨a, [.send replysfd ⟨m.version, a.name, .phase3Commit a.lastcommit⟩], .handled⟩
    else ⟨a, [], .handled⟩
  else match m.body with
    | .phase1Proposal p => a.handlePhase1Message now replysfd p m.version
    | .phase2Request p => a.handlePhase2Message now replysfd p m.version
    | .phase3Commit p => a.handlePhase3Message now p
    | _ => ⟨a, [], .handled⟩

/-- Everything one message can do to an acceptor, with the guards under which
it does it. -/
inductive Outcome (now : Time) (replysfd : Fd) (m : PaxosMessage) (a : AcceptorStateMachine) :
    Reaction AcceptorStateMachine Fd → Prop where
  | ignored (hName : m.name ≠ a.name) : Outcome now replysfd m a ⟨a, [], .ignored⟩
  | dropped (hName : m.name = a.name) : Outcome now replysfd m a ⟨a, [], .handled⟩
  | recalled (hName : m.name = a.name)
      (hWhy : (a.version = m.version ∧ a.state = .phase3) ∨
        (m.version < a.version ∧ m.version ≤ a.lastcommit.getVersion)) :
      Outcome now replysfd m a
        ⟨a, [.send replysfd ⟨m.version, a.name, .phase3Commit a.lastcommit⟩], .handled⟩
  | refused (b : PaxosBody) (hName : m.name = a.name) (hVersion : a.version = m.version)
      (hState : a.state = .phase1) (hNack : b = .phase1Nack ∨ b = .phase2Nack) :
      Outcome now replysfd m a ⟨a, [.send replysfd ⟨m.version, a.name, b⟩], .handled⟩
  | promised (p : Proposal) (hName : m.name = a.name) (hVersion : a.version = m.version)
      (hBody : m.body = .phase1Proposal p) (hState : a.state = .phase1)
      (hBest : a.promise.compare p ≤ 0) :
      Outcome now replysfd m a
        ⟨{ a with promise := p, timestamp := now },
          [.send replysfd ⟨m.version, a.name, .phase1Ack⟩], .handled⟩
  | accepted (p : Proposal) (hName : m.name = a.name) (hVersion : a.version = m.version)
      (hBody : m.body = .phase2Request p) (hState : a.state = .phase1)
      (hEqual : a.promise.compare p = 0) :
      Outcome now replysfd m a
        ⟨{ a with timestamp := now, state := .phase2 },
          [.send replysfd ⟨m.version, a.name, .phase2Ack⟩], .handled⟩
  | learned (p : Proposal) (hName : m.name = a.name) (hVersion : a.version = m.version)
      (hBody : m.body = .phase3Commit p) (hState : a.state ≠ .phase3) :
      Outcome now replysfd m a
        ⟨{ a with lastcommit := p, state := .phase3, timestamp := now }, [], .handled⟩

/-- Only in `PHASE3` there is a commit to answer with. -/
private theorem sendLastcommit_outcome (now : Time) (replysfd : Fd) (m : PaxosMessage)
    (a : AcceptorStateMachine) (hName : m.name = a.name) (hVersion : a.version = m.version) :
    Outcome now replysfd m a ⟨a, a.sendLastcommit replysfd m.version, .handled⟩ := by
  unfold sendLastcommit
  split
  · next hState => exact .recalled hName (.inl ⟨hVersion, hState⟩)
  · exact .dropped hName

/-- There is no other outcome of a message. -/
theorem handleMessage_outcome (now : Time) (replysfd : Fd) (m : PaxosMessage)
    (a : AcceptorStateMachine) :
    Outcome now replysfd m a (a.handleMessage now replysfd m) := by
  unfold handleMessage
  split_ifs with hName hOld hNew hLast
  · exact .ignored hName
  · exact .dropped (not_not.mp hName)
  · exact .recalled (not_not.mp hName) (.inr ⟨hNew, hLast⟩)
  · exact .dropped (not_not.mp hName)
  · have hName := not_not.mp hName
    have hVersion : a.version = m.version := by omega
    have hIdle := sendLastcommit_outcome now replysfd m a hName hVersion
    cases hBody : m.body with
    | phase1Proposal p =>
        simp only [handlePhase1Message]
        split_ifs with hState hBest
        · exact hIdle
        · exact .refused _ hName hVersion (not_not.mp hState) (.inl rfl)
        · exact .promised p hName hVersion hBody (not_not.mp hState) (by omega)
    | phase2Request p =>
        simp only [handlePhase2Message]
        split_ifs with hState hEqual
        · exact hIdle
        · exact .refused _ hName hVersion (not_not.mp hState) (.inr rfl)
        · exact .accepted p hName hVersion hBody (not_not.mp hState) (not_not.mp hEqual)
    | phase3Commit p =>
        simp only [handlePhase3Message]
        split_ifs with hState
        · exact .dropped hName
        · exact .learned p hName hVersion hBody hState
    | _ => exact .dropped hName

/-- A message for another name is ignored. -/
theorem handleMessage_ignored (now : Time) (replysfd : Fd) (m : PaxosMessage)
    (a : AcceptorStateMachine) (h : m.name ≠ a.name) :
    a.handleMessage now replysfd m = ⟨a, [], .ignored⟩ := by
  rw [handleMessage, if_pos h]

/-- A message for its name is handled by the machine. -/
theorem handleMessage_handled (now : Time) (replysfd : Fd) (m : PaxosMessage)
    (a : AcceptorStateMachine) (h : m.name = a.name) :
    (a.handleMessage now replysfd m).result = .handled := by
  generalize hReaction : a.handleMessage now replysfd m = r
  have hOutcome := a.handleMessage_outcome now replysfd m
  rw [hReaction] at hOutcome
  cases hOutcome with
  | ignored hName => exact absurd h hName
  | _ => rfl

/-- A machine is for one name and version. -/
theorem handleMessage_name (now : Time) (replysfd : Fd) (m : PaxosMessage)
    (a : AcceptorStateMachine) :
    (a.handleMessage now replysfd m).machine.name = a.name := by
  generalize hReaction : a.handleMessage now replysfd m = r
  have hOutcome := a.handleMessage_outcome now replysfd m
  rw [hReaction] at hOutcome
  cases hOutcome <;> rfl

/-- A message does not change the version. -/
theorem handleMessage_version (now : Time) (replysfd : Fd) (m : PaxosMessage)
    (a : AcceptorStateMachine) :
    (a.handleMessage now replysfd m).machine.version = a.version := by
  generalize hReaction : a.handleMessage now replysfd m = r
  have hOutcome := a.handleMessage_outcome now replysfd m
  rw [hReaction] at hOutcome
  cases hOutcome <;> rfl

/-- A timeout only takes an acceptor back to an empty `PHASE1`. -/
theorem checkTimeout_cases (now timeout : Time) (a : AcceptorStateMachine) :
    a.checkTimeout now timeout = (a, .ignored) ∨
      ((a.state = .phase1 ∨ a.state = .phase2) ∧ timeout < now - a.timestamp ∧
        a.checkTimeout now timeout =
          ({ a with promise := .noProposal, state := .phase1 }, .handled)) := by
  unfold checkTimeout
  split_ifs with hTime
  · exact .inl rfl
  · cases hState : a.state with
    | initial => exact .inl rfl
    | phase3 => exact .inl rfl
    | phase1 => exact .inr ⟨.inl rfl, Int.not_le.mp hTime, rfl⟩
    | phase2 => exact .inr ⟨.inr rfl, Int.not_le.mp hTime, rfl⟩

theorem checkTimeout_name (now timeout : Time) (a : AcceptorStateMachine) :
    (a.checkTimeout now timeout).1.name = a.name := by
  rcases a.checkTimeout_cases now timeout with hEq | ⟨_, _, hEq⟩ <;> rw [hEq]

/-- Nor does the clock. -/
theorem checkTimeout_version (now timeout : Time) (a : AcceptorStateMachine) :
    (a.checkTimeout now timeout).1.version = a.version := by
  rcases a.checkTimeout_cases now timeout with hEq | ⟨_, _, hEq⟩ <;> rw [hEq]

/-- A machine answers under its own name. -/
theorem handleMessage_speaks {now : Time} {replysfd : Fd} {m : PaxosMessage}
    {a : AcceptorStateMachine} {fd : Fd} {out : PaxosMessage}
    (h : (fd, out) ∈ sends (a.handleMessage now replysfd m).effects) : out.name = a.name := by
  generalize hReaction : a.handleMessage now replysfd m = r at h
  have hOutcome := a.handleMessage_outcome now replysfd m
  rw [hReaction] at hOutcome
  cases hOutcome with
  | ignored | dropped | learned => cases h
  | _ =>
      rw [sends_cons_send, sends_nil, List.mem_singleton] at h
      cases h
      rfl

/-- An acceptor in `PHASE3` is never changed by a message. -/
theorem handleMessage_phase3 (now : Time) (replysfd : Fd) (m : PaxosMessage)
    {a : AcceptorStateMachine} (h : a.state = .phase3) :
    (a.handleMessage now replysfd m).machine = a := by
  generalize hReaction : a.handleMessage now replysfd m = r
  have hOutcome := a.handleMessage_outcome now replysfd m
  rw [hReaction] at hOutcome
  cases hOutcome with
  | promised p hName hVersion hBody hState => simp [h] at hState
  | accepted p hName hVersion hBody hState => simp [h] at hState
  | learned p hName hVersion hBody hState => exact absurd h hState
  | _ => rfl

/-- What was committed is never given up. -/
theorem checkTimeout_phase3 (now timeout : Time) {a : AcceptorStateMachine}
    (h : a.state = .phase3) : (a.checkTimeout now timeout).1 = a := by
  rcases a.checkTimeout_cases now timeout with hEq | ⟨hState, _⟩
  · rw [hEq]
  · simp [h] at hState

end AcceptorStateMachine

end QpidRecovery
