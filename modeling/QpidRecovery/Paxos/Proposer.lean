import QpidRecovery.Paxos.Message
import Mathlib.Order.Basic

/-! The proposer's state machine for one service name and voting version. A
slot of `accsfd` holds the descriptor of the connection to that acceptor, or
nothing where the code has `-1`. -/
namespace QpidRecovery

/-- The version is not bounded as the `unsigned` of the source is, which wraps
after `2 ^ 32` commits. -/
structure ProposerStateMachine (Fd : Type) where
  name : ServiceName
  version : Nat
  lastcommit : Proposal
  state : PaxosState
  timestamp : Time
  proposal : Proposal
  phase1ack : Nat
  phase1nack : Nat
  phase2ack : Nat
  phase2nack : Nat
  nacceptor : Nat
  accsfd : List (Option Fd)
deriving DecidableEq, Repr

namespace ProposerStateMachine

variable {Fd : Type}

/-- The outcome of `tcpconnect` for every slot and its address becomes the
connection table. -/
def connectAcceptors (connect : Nat → IPString → Option Fd) (acceptors : List IPString) :
    List (Option Fd) × List (Effect Fd) :=
  let accsfd := acceptors.mapIdx connect
  (accsfd, accsfd.filterMap fun slot => slot.map .registerFD)

/-- The constructor. -/
def new (now : Time) (connect : Nat → IPString → Option Fd) (m : ServiceName) (v : Nat)
    (last : AcceptorChangeProposal) : ProposerStateMachine Fd × List (Effect Fd) :=
  let (accsfd, effects) := connectAcceptors connect last.getAcceptors
  ({ name := m
     version := v
     lastcommit := .acceptorChangeProposal last
     state := .initial
     timestamp := now
     proposal := .noProposal
     phase1ack := 0
     phase1nack := 0
     phase2ack := 0
     phase2nack := 0
     nacceptor := last.getNumberOfAcceptors
     accsfd := accsfd }, effects)

def initialState (now : Time) (psm : ProposerStateMachine Fd) : ProposerStateMachine Fd :=
  { psm with
    phase1ack := 0
    phase1nack := 0
    phase2ack := 0
    phase2nack := 0
    state := .initial
    timestamp := now }

/-- Unregister and close every open connection; the table is left empty. The
destructor does this as well. -/
def disconnectAcceptors (psm : ProposerStateMachine Fd) :
    ProposerStateMachine Fd × List (Effect Fd) :=
  ({ psm with accsfd := psm.accsfd.map fun _ => none },
    psm.accsfd.flatMap fun slot => match slot with
      | none => []
      | some fd => [.unregisterFD fd, .close fd])

/-- Send one body to every connected acceptor, in slot order. -/
def broadcast (psm : ProposerStateMachine Fd) (body : PaxosBody) : List (Effect Fd) :=
  psm.accsfd.filterMap fun slot =>
    slot.map fun fd => .send fd ⟨psm.version, psm.name, body⟩

def newProposal (now : Time) (newproposal : Proposal) (psm : ProposerStateMachine Fd) :
    Reaction (ProposerStateMachine Fd) Fd :=
  let effects := psm.broadcast (.phase1Proposal newproposal)
  let psm := { psm with proposal := newproposal, timestamp := now }
  if psm.nacceptor ≠ 0 then ⟨{ psm with state := .phase1 }, effects, .handled⟩
  else ⟨{ psm with state := .phase2 }, effects, .committingSelf⟩

def checkTimeout (now timeout : Time) (psm : ProposerStateMachine Fd) :
    ProposerStateMachine Fd × PaxosResult :=
  if now - psm.timestamp ≤ timeout then (psm, .ignored)
  else match psm.state with
    | .initial | .phase3 => (psm, .ignored)
    | .phase1 | .phase2 => (psm.initialState now, .handled)

/-- The `PHASE3COMMIT` with the last committed proposal that a message of
version `v` is answered with. -/
def sendLastcommit (replysfd : Fd) (v : Nat) (psm : ProposerStateMachine Fd) : Effect Fd :=
  .send replysfd ⟨v, psm.name, .phase3Commit psm.lastcommit⟩

/-- After the acknowledgement counters were raised: open phase 2 on a majority. -/
def checkPhase1 (now : Time) (psm : ProposerStateMachine Fd) :
    Reaction (ProposerStateMachine Fd) Fd :=
  if psm.phase1ack * 2 ≤ psm.nacceptor ∧ psm.nacceptor ≠ 0 then ⟨psm, [], .handled⟩
  else
    ⟨{ psm with state := .phase2, timestamp := now },
      psm.broadcast (.phase2Request psm.proposal), .handled⟩

def handlePhase1Message (now : Time) (replysfd : Fd) (t : PaxosBody)
    (psm : ProposerStateMachine Fd) : Reaction (ProposerStateMachine Fd) Fd :=
  if psm.state = .phase3 then ⟨psm, [psm.sendLastcommit replysfd psm.version], .handled⟩
  else if psm.state ≠ .phase1 then ⟨psm, [], .handled⟩
  else match t with
    | .phase1Ack => checkPhase1 now { psm with phase1ack := psm.phase1ack + 1 }
    | .phase1Nack => checkPhase1 now { psm with phase1nack := psm.phase1nack + 1 }
    | _ => ⟨psm, [], .handled⟩

def isReadyToCommit (psm : ProposerStateMachine Fd) : Bool :=
  psm.state = .phase2 ∧ (psm.phase2ack * 2 > psm.nacceptor ∨ psm.nacceptor = 0)

/-- After the acknowledgement counters were raised: report a majority. -/
def checkPhase2 (psm : ProposerStateMachine Fd) : Reaction (ProposerStateMachine Fd) Fd :=
  ⟨psm, [], if psm.isReadyToCommit then .committingSelf else .handled⟩

def handlePhase2Message (replysfd : Fd) (t : PaxosBody) (psm : ProposerStateMachine Fd) :
    Reaction (ProposerStateMachine Fd) Fd :=
  if psm.state = .phase3 then ⟨psm, [psm.sendLastcommit replysfd psm.version], .handled⟩
  else if psm.state ≠ .phase2 then ⟨psm, [], .handled⟩
  else match t with
    | .phase2Ack => checkPhase2 { psm with phase2ack := psm.phase2ack + 1 }
    | .phase2Nack => checkPhase2 { psm with phase2nack := psm.phase2nack + 1 }
    | _ => ⟨psm, [], .handled⟩

/-- `NULL` is `none`. -/
def getCommittingProposal (psm : ProposerStateMachine Fd) : Option Proposal :=
  if psm.isReadyToCommit then some psm.proposal
  else if psm.state = .phase3 then some psm.lastcommit
  else none

def commit (now : Time) (p : Proposal) (psm : ProposerStateMachine Fd) :
    ProposerStateMachine Fd × List (Effect Fd) :=
  let (psm, effects) := psm.disconnectAcceptors
  ({ psm with state := .phase3, timestamp := now, lastcommit := p }, effects)

@[simp] theorem commit_fst (now : Time) (p : Proposal) (psm : ProposerStateMachine Fd) :
    (psm.commit now p).1 =
      { psm with
        accsfd := psm.accsfd.map fun _ => none
        state := .phase3
        timestamp := now
        lastcommit := p } := rfl

def sendCommitment (now : Time) (psm : ProposerStateMachine Fd) :
    ProposerStateMachine Fd × List (Effect Fd) :=
  if psm.isReadyToCommit = false then (psm, [])
  else
    let p := psm.proposal
    let sent := psm.broadcast (.phase3Commit p)
    let (psm, effects) := { psm with proposal := .noProposal }.commit now p
    (psm, sent ++ effects)

def handlePhase3Message (now : Time) (p : Proposal) (psm : ProposerStateMachine Fd) :
    Reaction (ProposerStateMachine Fd) Fd :=
  if psm.state = .phase3 then ⟨psm, [], .handled⟩
  else
    let (psm, effects) := psm.commit now p
    ⟨psm, effects, .committingOther⟩

def handleMessage (now : Time) (replysfd : Fd) (m : PaxosMessage)
    (psm : ProposerStateMachine Fd) : Reaction (ProposerStateMachine Fd) Fd :=
  if m.name ≠ psm.name then ⟨psm, [], .ignored⟩
  else if psm.version < m.version then ⟨psm, [], .handled⟩
  else if psm.version > m.version then ⟨psm, [psm.sendLastcommit replysfd m.version], .handled⟩
  else match m.body with
    | .phase1Ack | .phase1Nack => psm.handlePhase1Message now replysfd m.body
    | .phase2Ack | .phase2Nack => psm.handlePhase2Message replysfd m.body
    | .phase3Commit p => psm.handlePhase3Message now p
    | _ => ⟨psm, [], .ignored⟩

/-- The phase 1 counters after one more reply of body `t`. -/
def CountsPhase1 (t : PaxosBody) (psm : ProposerStateMachine Fd) (ack nack : Nat) : Prop :=
  (t = .phase1Ack ∧ ack = psm.phase1ack + 1 ∧ nack = psm.phase1nack) ∨
    (t = .phase1Nack ∧ ack = psm.phase1ack ∧ nack = psm.phase1nack + 1)

/-- Everything one message can do to a proposer, with the guards under which
it does it. -/
inductive Outcome (now : Time) (replysfd : Fd) (m : PaxosMessage)
    (psm : ProposerStateMachine Fd) : Reaction (ProposerStateMachine Fd) Fd → Prop where
  | ignored : Outcome now replysfd m psm ⟨psm, [], .ignored⟩
  | dropped (hName : m.name = psm.name) : Outcome now replysfd m psm ⟨psm, [], .handled⟩
  | recalled (hName : m.name = psm.name)
      (hWhy : (psm.version = m.version ∧ psm.state = .phase3) ∨ m.version < psm.version) :
      Outcome now replysfd m psm ⟨psm, [psm.sendLastcommit replysfd m.version], .handled⟩
  | counted (ack nack : Nat) (hName : m.name = psm.name) (hVersion : psm.version = m.version)
      (hState : psm.state = .phase1) (hCount : psm.CountsPhase1 m.body ack nack)
      (hFew : ack * 2 ≤ psm.nacceptor) :
      Outcome now replysfd m psm
        ⟨{ psm with phase1ack := ack, phase1nack := nack }, [], .handled⟩
  | opened (ack nack : Nat) (hName : m.name = psm.name) (hVersion : psm.version = m.version)
      (hState : psm.state = .phase1) (hCount : psm.CountsPhase1 m.body ack nack)
      (hMany : psm.nacceptor < ack * 2 ∨ psm.nacceptor = 0) :
      Outcome now replysfd m psm
        ⟨{ psm with phase1ack := ack, phase1nack := nack, state := .phase2, timestamp := now },
          psm.broadcast (.phase2Request psm.proposal), .handled⟩
  | acknowledged (hName : m.name = psm.name) (hVersion : psm.version = m.version)
      (hState : psm.state = .phase2) (hBody : m.body = .phase2Ack) :
      Outcome now replysfd m psm (checkPhase2 { psm with phase2ack := psm.phase2ack + 1 })
  | refused (hName : m.name = psm.name) (hVersion : psm.version = m.version)
      (hState : psm.state = .phase2) (hBody : m.body = .phase2Nack) :
      Outcome now replysfd m psm (checkPhase2 { psm with phase2nack := psm.phase2nack + 1 })
  | learned (p : Proposal) (hName : m.name = psm.name) (hVersion : psm.version = m.version)
      (hState : psm.state ≠ .phase3) (hBody : m.body = .phase3Commit p) :
      Outcome now replysfd m psm
        ⟨(psm.commit now p).1, (psm.commit now p).2, .committingOther⟩

/-- The answers of phase 1, counted. -/
private theorem checkPhase1_outcome {now : Time} {replysfd : Fd} {m : PaxosMessage}
    {psm : ProposerStateMachine Fd} {ack nack : Nat} (hName : m.name = psm.name)
    (hVersion : psm.version = m.version) (hState : psm.state = .phase1)
    (hCount : psm.CountsPhase1 m.body ack nack) :
    Outcome now replysfd m psm
      (checkPhase1 now { psm with phase1ack := ack, phase1nack := nack }) := by
  unfold checkPhase1
  split
  · next hFew => exact .counted ack nack hName hVersion hState hCount hFew.1
  · next hMany =>
      refine .opened ack nack hName hVersion hState hCount ?_
      by_cases hZero : psm.nacceptor = 0
      · exact .inr hZero
      · exact .inl (by simp only [not_and_or, not_not] at hMany; omega)

/-- The cases of an answer of phase 1. -/
private theorem handlePhase1Message_outcome {now : Time} {replysfd : Fd} {m : PaxosMessage}
    {psm : ProposerStateMachine Fd} (hName : m.name = psm.name)
    (hVersion : psm.version = m.version) :
    Outcome now replysfd m psm (psm.handlePhase1Message now replysfd m.body) := by
  unfold handlePhase1Message
  split_ifs with hDone hState
  · rw [hVersion]
    exact .recalled hName (.inl ⟨hVersion, hDone⟩)
  · exact .dropped hName
  · have hState := not_not.mp hState
    cases hBody : m.body with
    | phase1Ack =>
        exact checkPhase1_outcome hName hVersion hState (.inl ⟨hBody, rfl, rfl⟩)
    | phase1Nack =>
        exact checkPhase1_outcome hName hVersion hState (.inr ⟨hBody, rfl, rfl⟩)
    | _ => exact .dropped hName

/-- The cases of an answer of phase 2. -/
private theorem handlePhase2Message_outcome {now : Time} {replysfd : Fd} {m : PaxosMessage}
    {psm : ProposerStateMachine Fd} (hName : m.name = psm.name)
    (hVersion : psm.version = m.version) :
    Outcome now replysfd m psm (psm.handlePhase2Message replysfd m.body) := by
  unfold handlePhase2Message
  split_ifs with hDone hState
  · rw [hVersion]
    exact .recalled hName (.inl ⟨hVersion, hDone⟩)
  · exact .dropped hName
  · have hState := not_not.mp hState
    cases hBody : m.body with
    | phase2Ack => exact .acknowledged hName hVersion hState hBody
    | phase2Nack => exact .refused hName hVersion hState hBody
    | _ => exact .dropped hName

/-- There is no other outcome of a message. -/
theorem handleMessage_outcome (now : Time) (replysfd : Fd) (m : PaxosMessage)
    (psm : ProposerStateMachine Fd) :
    Outcome now replysfd m psm (psm.handleMessage now replysfd m) := by
  unfold handleMessage
  split_ifs with hName hOld hNew
  · exact .ignored
  · exact .dropped (not_not.mp hName)
  · exact .recalled (not_not.mp hName) (.inr hNew)
  · have hName := not_not.mp hName
    have hVersion : psm.version = m.version := by omega
    cases hBody : m.body with
    | phase1Ack =>
        simp only
        rw [← hBody]
        exact handlePhase1Message_outcome hName hVersion
    | phase1Nack =>
        simp only
        rw [← hBody]
        exact handlePhase1Message_outcome hName hVersion
    | phase2Ack =>
        simp only
        rw [← hBody]
        exact handlePhase2Message_outcome hName hVersion
    | phase2Nack =>
        simp only
        rw [← hBody]
        exact handlePhase2Message_outcome hName hVersion
    | phase3Commit p =>
        simp only [handlePhase3Message]
        split_ifs with hDone
        · exact .dropped hName
        · exact .learned p hName hVersion hDone hBody
    | _ => exact .ignored

/-- A timeout only takes a proposer back to `INITIAL`, with its counters reset. -/
theorem checkTimeout_cases (now timeout : Time) (psm : ProposerStateMachine Fd) :
    psm.checkTimeout now timeout = (psm, .ignored) ∨
      ((psm.state = .phase1 ∨ psm.state = .phase2) ∧
        psm.checkTimeout now timeout = (psm.initialState now, .handled)) := by
  unfold checkTimeout
  split_ifs with hTime
  · exact .inl rfl
  · cases hState : psm.state with
    | initial => exact .inl rfl
    | phase3 => exact .inl rfl
    | phase1 => exact .inr ⟨.inl rfl, rfl⟩
    | phase2 => exact .inr ⟨.inr rfl, rfl⟩

/-- A message that is ignored changes nothing. -/
theorem handleMessage_ignored {now : Time} {replysfd : Fd} {m : PaxosMessage}
    {psm : ProposerStateMachine Fd} (h : (psm.handleMessage now replysfd m).result = .ignored) :
    psm.handleMessage now replysfd m = ⟨psm, [], .ignored⟩ := by
  generalize hReaction : psm.handleMessage now replysfd m = r at h
  have hOutcome := psm.handleMessage_outcome now replysfd m
  rw [hReaction] at hOutcome
  cases hOutcome with
  | ignored => rfl
  | acknowledged =>
      simp only [checkPhase2] at h
      split at h <;> cases h
  | refused =>
      simp only [checkPhase2] at h
      split at h <;> cases h
  | _ => cases h

/-- Only the machine of the message's name does not ignore it. -/
theorem handleMessage_recipient {now : Time} {replysfd : Fd} {m : PaxosMessage}
    {psm : ProposerStateMachine Fd} (h : (psm.handleMessage now replysfd m).result ≠ .ignored) :
    m.name = psm.name := by
  by_contra hName
  exact h (by simp [handleMessage, hName])

/-- A commit of its own version is taken over before `PHASE3`. -/
theorem handleMessage_learned (now : Time) (replysfd : Fd) {m : PaxosMessage} {p : Proposal}
    (psm : ProposerStateMachine Fd) (hName : m.name = psm.name) (hVersion : m.version = psm.version)
    (hState : psm.state ≠ .phase3) (hBody : m.body = .phase3Commit p) :
    psm.handleMessage now replysfd m =
      ⟨(psm.commit now p).1, (psm.commit now p).2, .committingOther⟩ := by
  simp [handleMessage, hName, hVersion, hBody, handlePhase3Message, hState]

/-- The commit of another proposer is learned by taking it over. -/
theorem handleMessage_committingOther {now : Time} {replysfd : Fd} {m : PaxosMessage}
    {psm : ProposerStateMachine Fd}
    (h : (psm.handleMessage now replysfd m).result = .committingOther) :
    (psm.handleMessage now replysfd m).machine.state = .phase3 := by
  generalize hReaction : psm.handleMessage now replysfd m = r at h
  have hOutcome := psm.handleMessage_outcome now replysfd m
  rw [hReaction] at hOutcome
  cases hOutcome with
  | learned => rfl
  | acknowledged =>
      simp only [checkPhase2] at h
      split at h <;> cases h
  | refused =>
      simp only [checkPhase2] at h
      split at h <;> cases h
  | _ => cases h

/-- What was learned is what `getCommittingProposal` returns. -/
theorem handleMessage_takes {now : Time} {replysfd : Fd} {m : PaxosMessage}
    {psm : ProposerStateMachine Fd}
    (h : (psm.handleMessage now replysfd m).result = .committingOther) :
    m.name = psm.name ∧ m.version = psm.version ∧ psm.state ≠ .phase3 ∧
      ∃ p, m.body = .phase3Commit p ∧
        (psm.handleMessage now replysfd m).machine.getCommittingProposal = some p := by
  generalize hReaction : psm.handleMessage now replysfd m = r at h
  have hOutcome := psm.handleMessage_outcome now replysfd m
  rw [hReaction] at hOutcome
  cases hOutcome with
  | learned p hName hVersion hState hBody =>
      exact ⟨hName, hVersion.symm, hState, p, hBody,
        by simp [getCommittingProposal, isReadyToCommit]⟩
  | acknowledged =>
      simp only [checkPhase2] at h
      split at h <;> cases h
  | refused =>
      simp only [checkPhase2] at h
      split at h <;> cases h
  | _ => cases h

/-- A machine reports its own commit only when it is ready for it. -/
theorem handleMessage_committingSelf {now : Time} {replysfd : Fd} {m : PaxosMessage}
    {psm : ProposerStateMachine Fd}
    (h : (psm.handleMessage now replysfd m).result = .committingSelf) :
    (psm.handleMessage now replysfd m).machine.isReadyToCommit = true := by
  generalize hReaction : psm.handleMessage now replysfd m = r at h
  have hOutcome := psm.handleMessage_outcome now replysfd m
  rw [hReaction] at hOutcome
  cases hOutcome with
  | acknowledged => simpa [checkPhase2] using h
  | refused => simpa [checkPhase2] using h
  | _ => cases h

/-- A new proposal opens phase 1, or commits at once when there is nobody to
ask. -/
theorem newProposal_cases (now : Time) (p : Proposal) (psm : ProposerStateMachine Fd) :
    (psm.nacceptor ≠ 0 ∧ psm.newProposal now p =
      ⟨{ psm with proposal := p, timestamp := now, state := .phase1 },
        psm.broadcast (.phase1Proposal p), .handled⟩) ∨
    (psm.nacceptor = 0 ∧ psm.newProposal now p =
      ⟨{ psm with proposal := p, timestamp := now, state := .phase2 },
        psm.broadcast (.phase1Proposal p), .committingSelf⟩) := by
  by_cases hSize : psm.nacceptor = 0
  · exact .inr ⟨hSize, by simp [newProposal, hSize]⟩
  · exact .inl ⟨hSize, by simp [newProposal, hSize]⟩

/-- Only a proposal that nobody is asked about is committed at once. -/
theorem newProposal_getCommittingProposal (now : Time) (p : Proposal)
    (psm : ProposerStateMachine Fd) :
    (psm.newProposal now p).machine.getCommittingProposal =
      if psm.nacceptor = 0 then some p else none := by
  by_cases hSize : psm.nacceptor = 0 <;>
    simp [newProposal, getCommittingProposal, isReadyToCommit, hSize]

/-- What a machine was made for stays, and connections are only closed. -/
structure Keeps (psm psm' : ProposerStateMachine Fd) : Prop where
  name : psm'.name = psm.name
  version : psm'.version = psm.version
  nacceptor : psm'.nacceptor = psm.nacceptor
  slots : ∀ fd, some fd ∈ psm'.accsfd → some fd ∈ psm.accsfd

/-- No connection is left, and no majority will ever be counted again. -/
structure Retired (psm : ProposerStateMachine Fd) : Prop where
  closed : ∀ fd, some fd ∉ psm.accsfd
  state : psm.state ≠ .phase2
  size : psm.nacceptor ≠ 0

/-- A machine that has committed is not asked to commit again. -/
theorem Retired.not_ready {psm : ProposerStateMachine Fd} (h : psm.Retired) :
    psm.isReadyToCommit = false := by
  simp [isReadyToCommit, h.state]

/-- A commit retires the machine, unless it had nobody to ask. -/
theorem commit_retired (now : Time) (p : Proposal) {psm : ProposerStateMachine Fd}
    (hSize : psm.nacceptor ≠ 0) : (psm.commit now p).1.Retired := by
  constructor
  · simp
  · simp
  · exact hSize

/-- Learning the commit of another proposer retires a machine. -/
theorem handleMessage_retired {now : Time} {replysfd : Fd} {m : PaxosMessage}
    {psm : ProposerStateMachine Fd} (hSize : psm.nacceptor ≠ 0)
    (h : (psm.handleMessage now replysfd m).result = .committingOther) :
    (psm.handleMessage now replysfd m).machine.Retired := by
  generalize hReaction : psm.handleMessage now replysfd m = r at h
  have hOutcome := psm.handleMessage_outcome now replysfd m
  rw [hReaction] at hOutcome
  cases hOutcome with
  | learned p => exact commit_retired now p hSize
  | acknowledged =>
      simp only [checkPhase2] at h
      split at h <;> cases h
  | refused =>
      simp only [checkPhase2] at h
      split at h <;> cases h
  | _ => cases h

section Frame
variable (now : Time) (psm : ProposerStateMachine Fd)

theorem Keeps.refl : Keeps psm psm := ⟨rfl, rfl, rfl, fun _ h => h⟩

/-- What a commit leaves as it is. -/
theorem commit_keeps (p : Proposal) : Keeps psm (psm.commit now p).1 :=
  ⟨rfl, rfl, rfl, by simp⟩

/-- A message changes neither the name nor the version. -/
theorem handleMessage_keeps (replysfd : Fd) (m : PaxosMessage) :
    Keeps psm (psm.handleMessage now replysfd m).machine := by
  generalize hReaction : psm.handleMessage now replysfd m = r
  have hOutcome := psm.handleMessage_outcome now replysfd m
  rw [hReaction] at hOutcome
  cases hOutcome with
  | learned p => exact psm.commit_keeps now p
  | _ => exact ⟨rfl, rfl, rfl, fun _ h => h⟩

theorem newProposal_keeps (p : Proposal) : Keeps psm (psm.newProposal now p).machine := by
  rcases psm.newProposal_cases now p with ⟨_, hEq⟩ | ⟨_, hEq⟩
  · rw [hEq]
    exact ⟨rfl, rfl, rfl, fun _ h => h⟩
  · rw [hEq]
    exact ⟨rfl, rfl, rfl, fun _ h => h⟩

theorem checkTimeout_keeps (timeout : Time) : Keeps psm (psm.checkTimeout now timeout).1 := by
  rcases psm.checkTimeout_cases now timeout with hEq | ⟨_, hEq⟩
  · rw [hEq]
    exact Keeps.refl psm
  · rw [hEq]
    exact ⟨rfl, rfl, rfl, fun _ h => h⟩

/-- Sending the commitment changes neither of them. -/
theorem sendCommitment_keeps : Keeps psm (psm.sendCommitment now).1 := by
  unfold sendCommitment
  split
  · exact Keeps.refl psm
  · exact ⟨rfl, rfl, rfl, by simp⟩

/-- A proposal wakes nobody: the connections are closed. -/
theorem Retired.newProposal {psm : ProposerStateMachine Fd} (h : psm.Retired) (p : Proposal) :
    (psm.newProposal now p).machine.Retired := by
  rcases psm.newProposal_cases now p with ⟨_, hEq⟩ | ⟨hZero, _⟩
  · rw [hEq]
    exact ⟨h.closed, by simp, h.size⟩
  · exact absurd hZero h.size

/-- Nor does the clock. -/
theorem Retired.checkTimeout {psm : ProposerStateMachine Fd} (h : psm.Retired) (timeout : Time) :
    (psm.checkTimeout now timeout).1.Retired := by
  rcases psm.checkTimeout_cases now timeout with hEq | ⟨_, hEq⟩
  · rw [hEq]
    exact h
  · rw [hEq]
    exact ⟨h.closed, by simp [initialState], h.size⟩

/-- A message takes no machine into a phase, and changes no proposal in one. -/
theorem handleMessage_active (replysfd : Fd) (m : PaxosMessage)
    (h : (psm.handleMessage now replysfd m).machine.state = .phase1 ∨
      (psm.handleMessage now replysfd m).machine.state = .phase2) :
    (psm.state = .phase1 ∨ psm.state = .phase2) ∧
      (psm.handleMessage now replysfd m).machine.proposal = psm.proposal := by
  generalize hReaction : psm.handleMessage now replysfd m = r at h
  have hOutcome := psm.handleMessage_outcome now replysfd m
  rw [hReaction] at hOutcome
  cases hOutcome with
  | opened ack nack hName hVersion hState => exact ⟨.inl hState, rfl⟩
  | learned => simp at h
  | _ => exact ⟨h, rfl⟩

/-- A machine takes over a commit only by entering `PHASE3`. -/
theorem handleMessage_lastcommit (replysfd : Fd) (m : PaxosMessage) :
    (psm.handleMessage now replysfd m).machine.lastcommit = psm.lastcommit ∨
      (psm.handleMessage now replysfd m).machine.state = .phase3 ∧
        m.body = .phase3Commit (psm.handleMessage now replysfd m).machine.lastcommit := by
  generalize hReaction : psm.handleMessage now replysfd m = r
  have hOutcome := psm.handleMessage_outcome now replysfd m
  rw [hReaction] at hOutcome
  cases hOutcome with
  | learned p hName hVersion hState hBody => exact .inr ⟨rfl, hBody⟩
  | _ => exact .inl rfl

/-- Only a commit changes what was committed last. -/
theorem sendCommitment_lastcommit :
    (psm.sendCommitment now).1.lastcommit = psm.lastcommit ∨
      (psm.sendCommitment now).1.state = .phase3 := by
  unfold sendCommitment
  split
  · exact .inl rfl
  · exact .inr rfl

/-- The clock takes nothing committed back. -/
theorem checkTimeout_lastcommit (timeout : Time) :
    (psm.checkTimeout now timeout).1.lastcommit = psm.lastcommit := by
  rcases psm.checkTimeout_cases now timeout with hEq | ⟨_, hEq⟩
  · rw [hEq]
  · rw [hEq]
    rfl

/-- A new proposal is not committed yet. -/
theorem newProposal_lastcommit (p : Proposal) :
    (psm.newProposal now p).machine.lastcommit = psm.lastcommit := by
  simp only [newProposal]
  split <;> rfl

/-- A message adds at most the acknowledgement it carries. -/
theorem handleMessage_phase2ack_le (replysfd : Fd) (m : PaxosMessage) :
    (psm.handleMessage now replysfd m).machine.phase2ack ≤
      psm.phase2ack + if m.body = .phase2Ack ∧ m.version = psm.version then 1 else 0 := by
  generalize hReaction : psm.handleMessage now replysfd m = r
  have hOutcome := psm.handleMessage_outcome now replysfd m
  rw [hReaction] at hOutcome
  cases hOutcome with
  | acknowledged hName hVersion hState hBody => simp [checkPhase2, hBody, hVersion]
  | refused hName hVersion hState hBody => simp [checkPhase2]
  | _ => simp

/-- A timeout gives the answers of phase 2 up. -/
theorem checkTimeout_phase2ack_le (timeout : Time) :
    (psm.checkTimeout now timeout).1.phase2ack ≤ psm.phase2ack := by
  rcases psm.checkTimeout_cases now timeout with hEq | ⟨_, hEq⟩
  · exact Nat.le_of_eq (by rw [hEq])
  · rw [hEq]
    exact Nat.zero_le _

/-- Sending the commitment counts nothing. -/
theorem sendCommitment_phase2ack : (psm.sendCommitment now).1.phase2ack = psm.phase2ack := by
  unfold sendCommitment
  split <;> rfl

/-- A new proposal counts nothing. -/
theorem newProposal_phase2ack (p : Proposal) :
    (psm.newProposal now p).machine.phase2ack = psm.phase2ack := by
  simp only [newProposal]
  split <;> rfl

end Frame

section Sends

/-- A broadcast reaches exactly the connected slots. -/
theorem mem_sends_broadcast {psm : ProposerStateMachine Fd} {body : PaxosBody} {fd : Fd}
    {m : PaxosMessage} :
    (fd, m) ∈ sends (psm.broadcast body) ↔
      some fd ∈ psm.accsfd ∧ m = ⟨psm.version, psm.name, body⟩ := by
  rw [mem_sends, broadcast, List.mem_filterMap]
  constructor
  · rintro ⟨slot, hSlot, hSend⟩
    obtain ⟨f, rfl, hEq⟩ := Option.map_eq_some_iff.mp hSend
    cases hEq
    exact ⟨hSlot, rfl⟩
  · rintro ⟨hSlot, rfl⟩
    exact ⟨some fd, hSlot, rfl⟩

/-- A new machine registers its connections and sends nothing. -/
@[simp] theorem sends_new (now : Time) (connect : Nat → IPString → Option Fd) (m : ServiceName)
    (v : Nat) (last : AcceptorChangeProposal) :
    sends (ProposerStateMachine.new now connect m v last).2 = [] := by
  simp only [new, connectAcceptors]
  rw [sends, List.filterMap_eq_nil_iff]
  intro e he
  obtain ⟨slot, _, hSlot⟩ := List.mem_filterMap.mp he
  obtain ⟨fd, _, rfl⟩ := Option.map_eq_some_iff.mp hSlot
  rfl

/-- Closing connections sends nothing either. -/
@[simp] theorem sends_disconnectAcceptors (psm : ProposerStateMachine Fd) :
    sends psm.disconnectAcceptors.2 = [] := by
  simp only [disconnectAcceptors]
  rw [sends, List.filterMap_eq_nil_iff]
  intro e he
  obtain ⟨slot, _, hSlot⟩ := List.mem_flatMap.mp he
  cases slot with
  | none => cases hSlot
  | some fd =>
      simp only [List.mem_cons, List.not_mem_nil, or_false] at hSlot
      rcases hSlot with rfl | rfl <;> rfl

@[simp] theorem sends_commit (now : Time) (p : Proposal) (psm : ProposerStateMachine Fd) :
    sends (psm.commit now p).2 = [] :=
  psm.sends_disconnectAcceptors

/-- A message under the machine's name that announces no other commit than `p`. -/
structure Speaks (psm : ProposerStateMachine Fd) (p : Proposal) (m : PaxosMessage) : Prop where
  name : m.name = psm.name
  announced : ∀ q, m.body = .phase3Commit q → q = p

/-- What is broadcast goes to the acceptors, in the machine's name. -/
theorem broadcast_speaks {psm : ProposerStateMachine Fd} {body : PaxosBody} {p : Proposal}
    (hBody : ∀ q, body = .phase3Commit q → q = p) {fd : Fd} {out : PaxosMessage}
    (h : (fd, out) ∈ sends (psm.broadcast body)) : some fd ∈ psm.accsfd ∧ psm.Speaks p out := by
  obtain ⟨hSlot, rfl⟩ := mem_sends_broadcast.mp h
  exact ⟨hSlot, rfl, hBody⟩

/-- A message is answered with the last commit, or opens the second phase. -/
theorem handleMessage_speaks {now : Time} {replysfd : Fd} {m : PaxosMessage}
    {psm : ProposerStateMachine Fd} {fd : Fd} {out : PaxosMessage}
    (h : (fd, out) ∈ sends (psm.handleMessage now replysfd m).effects) :
    (fd = replysfd ∨ some fd ∈ psm.accsfd) ∧ psm.Speaks psm.lastcommit out := by
  generalize hReaction : psm.handleMessage now replysfd m = r at h
  have hOutcome := psm.handleMessage_outcome now replysfd m
  rw [hReaction] at hOutcome
  cases hOutcome with
  | recalled =>
      rw [sendLastcommit, sends_cons_send, sends_nil, List.mem_singleton] at h
      cases h
      refine ⟨.inl rfl, rfl, ?_⟩
      intro q hq
      cases hq
      rfl
  | opened =>
      obtain ⟨hSlot, hSpeaks⟩ := broadcast_speaks (p := psm.lastcommit) (by simp) h
      exact ⟨.inr hSlot, hSpeaks⟩
  | learned p =>
      rw [sends_commit] at h
      cases h
  | _ => cases h

/-- A proposal is asked of the acceptors. -/
theorem newProposal_speaks {now : Time} {p q : Proposal} {psm : ProposerStateMachine Fd} {fd : Fd}
    {out : PaxosMessage} (h : (fd, out) ∈ sends (psm.newProposal now p).effects) :
    some fd ∈ psm.accsfd ∧ psm.Speaks q out := by
  rcases psm.newProposal_cases now p with ⟨_, hEq⟩ | ⟨_, hEq⟩
  · rw [hEq] at h
    exact broadcast_speaks (by simp) h
  · rw [hEq] at h
    exact broadcast_speaks (by simp) h

/-- A commitment carries the machine's own proposal. -/
theorem sendCommitment_speaks {now : Time} {psm : ProposerStateMachine Fd} {fd : Fd}
    {out : PaxosMessage} (h : (fd, out) ∈ sends (psm.sendCommitment now).2) :
    some fd ∈ psm.accsfd ∧ psm.Speaks psm.proposal out := by
  unfold sendCommitment at h
  split at h
  · cases h
  · simp only [sends_append, sends_commit, List.append_nil] at h
    refine broadcast_speaks ?_ h
    intro q hq
    cases hq
    rfl

end Sends

end ProposerStateMachine

end QpidRecovery
