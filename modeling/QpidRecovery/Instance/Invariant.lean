import QpidRecovery.Instance.System
import QpidRecovery.Library.Majority

/-! What holds of every machine and every message of an instance, and the
election that a run of the instance carries out: a vote is an acknowledged
phase 2 request, and a candidate is declared when it returns
`COMMITTING_SELF`. -/
namespace QpidRecovery.Instance

open Transition Majority

variable {ι : Type}

/-- The proposal of some decision. -/
def Chosen (decided : List (ι × Proposal)) (p : Proposal) : Prop :=
  ∃ k, (k, p) ∈ decided

/-- A message of the instance on a connection to `address`. Only a decided
proposal is ever announced. -/
structure MessageInv (cfg : Config ι) (decided : List (ι × Proposal)) (address : IPString)
    (m : PaxosMessage) : Prop where
  member : address ∈ cfg.last.acceptor
  version : m.version = cfg.version
  announced : ∀ p, m.body = .phase3Commit p → Chosen decided p

def Packet.address : Packet ι → IPString
  | .toAcceptor _ a _ => a
  | .toProposer a _ _ => a

def Packet.message : Packet ι → PaxosMessage
  | .toAcceptor _ _ m => m
  | .toProposer _ _ m => m

structure AcceptorInv (cfg : Config ι) (decided : List (ι × Proposal))
    (a : AcceptorStateMachine) : Prop where
  name : a.name = cfg.name
  version : a.version = cfg.version
  learned : a.state = .phase3 → Chosen decided a.lastcommit

structure ProposerInv (cfg : Config ι) (decided : List (ι × Proposal)) (given : Option Proposal)
    (j : ι) (psm : ProposerStateMachine IPString) : Prop where
  name : psm.name = cfg.name
  version : psm.version = cfg.version
  size : psm.nacceptor = cfg.last.acceptor.length
  slots : ∀ fd, some fd ∈ psm.accsfd → fd ∈ cfg.last.acceptor
  /-- Nobody acknowledges what was never proposed. -/
  unused : given = none → psm.phase2ack = 0
  active : psm.state = .phase1 ∨ psm.state = .phase2 → given = some psm.proposal
  fresh : psm.state = .phase1 → psm.phase2ack = 0
  ready : psm.isReadyToCommit = true → (j, psm.proposal) ∈ decided
  learned : psm.state = .phase3 → Chosen decided psm.lastcommit

structure Inv (cfg : Config ι) (s : State ι) : Prop where
  acceptor : ∀ a, AcceptorInv cfg s.decided (s.acceptors a)
  proposer : ∀ j, ProposerInv cfg s.decided (s.given j) j (s.proposers j)
  packet : ∀ packet ∈ s.network, MessageInv cfg s.decided packet.address packet.message
  own : ∀ j p, (j, p) ∈ s.decided → s.given j = some p

section Monotone
variable {cfg : Config ι} {decided decided' : List (ι × Proposal)}

/-- What is chosen stays chosen. -/
theorem Chosen.mono {p : Proposal} (h : Chosen decided p) (hSub : decided ⊆ decided') :
    Chosen decided' p :=
  h.imp fun _ hk => hSub hk

theorem MessageInv.mono {address : IPString} {m : PaxosMessage}
    (h : MessageInv cfg decided address m) (hSub : decided ⊆ decided') :
    MessageInv cfg decided' address m :=
  ⟨h.member, h.version, fun p hp => (h.announced p hp).mono hSub⟩

theorem AcceptorInv.mono {a : AcceptorStateMachine} (h : AcceptorInv cfg decided a)
    (hSub : decided ⊆ decided') : AcceptorInv cfg decided' a :=
  ⟨h.name, h.version, fun hs => (h.learned hs).mono hSub⟩

theorem ProposerInv.mono {given : Option Proposal} {j : ι} {psm : ProposerStateMachine IPString}
    (h : ProposerInv cfg decided given j psm) (hSub : decided ⊆ decided') :
    ProposerInv cfg decided' given j psm :=
  { h with
    ready := fun hr => hSub (h.ready hr)
    learned := fun hs => (h.learned hs).mono hSub }

end Monotone

/-- What a call on a proposer's machine owes to the rest of the instance: the
machine keeps its invariant, and what it sends keeps the invariant of
messages. -/
structure ReactionInv (cfg : Config ι) (decided : List (ι × Proposal)) (given : Option Proposal)
    (j : ι) (r : Reaction (ProposerStateMachine IPString) IPString) : Prop where
  machine : ProposerInv cfg (decidedAfter decided j r) given j r.machine
  sent : ∀ fd m, (fd, m) ∈ sends r.effects → MessageInv cfg (decidedAfter decided j r) fd m
  own : r.result = .committingSelf → given = some r.machine.proposal
  ready : r.result = .committingSelf → r.machine.isReadyToCommit = true

section Calls
variable {cfg : Config ι} {decided : List (ι × Proposal)} {given : Option Proposal} {j : ι}
  {psm : ProposerStateMachine IPString}

/-- A broadcast that announces nothing undecided. -/
theorem ProposerInv.broadcast (h : ProposerInv cfg decided given j psm) (body : PaxosBody)
    (hBody : ∀ p, body = .phase3Commit p → Chosen decided p) :
    ∀ fd m, (fd, m) ∈ sends (psm.broadcast body) → MessageInv cfg decided fd m := by
  intro fd m hMem
  obtain ⟨hSlot, rfl⟩ := ProposerStateMachine.mem_sends_broadcast.mp hMem
  exact ⟨h.slots fd hSlot, h.version, hBody⟩

/-- A proposal of its own keeps the invariant. -/
theorem newProposal_inv (now : Time) (p : Proposal) (hNonempty : cfg.last.acceptor ≠ [])
    (h : ProposerInv cfg decided none j psm) :
    ReactionInv cfg decided (some p) j (psm.newProposal now p) := by
  have hSize : psm.nacceptor ≠ 0 := by
    rw [h.size]
    exact fun hZero => hNonempty (List.length_eq_zero_iff.mp hZero)
  have hSent := h.broadcast (.phase1Proposal p) (by simp)
  simp only [ProposerStateMachine.newProposal, if_pos hSize]
  exact {
    machine := {
      name := h.name
      version := h.version
      size := h.size
      slots := h.slots
      unused := by simp
      active := by simp
      fresh := fun _ => h.unused rfl
      ready := by simp [ProposerStateMachine.isReadyToCommit]
      learned := by simp }
    sent := by simpa [decidedAfter] using hSent
    own := by simp
    ready := by simp }

/-- Its commitment keeps it. -/
theorem sendCommitment_inv (now : Time) (h : ProposerInv cfg decided given j psm) :
    ReactionInv cfg decided given j (.void (psm.sendCommitment now)) := by
  unfold ProposerStateMachine.sendCommitment
  split
  · exact ⟨by simpa [decidedAfter] using h, by simp, by simp, by simp⟩
  · next hReady =>
      have hChosen : Chosen decided psm.proposal := ⟨j, h.ready (by simpa using hReady)⟩
      have hSent := h.broadcast (.phase3Commit psm.proposal)
        (by simp only [PaxosBody.phase3Commit.injEq]; rintro _ rfl; exact hChosen)
      exact {
        machine := {
          name := h.name
          version := h.version
          size := h.size
          slots := by simp
          unused := h.unused
          active := by simp
          fresh := by simp
          ready := by simp [ProposerStateMachine.isReadyToCommit]
          learned := fun _ => hChosen }
        sent := by simpa [decidedAfter] using hSent
        own := by simp
        ready := by simp }

/-- A timeout keeps it. -/
theorem checkTimeout_inv (now timeout : Time) (h : ProposerInv cfg decided given j psm) :
    ReactionInv cfg decided given j (.quiet (psm.checkTimeout now timeout)) := by
  rcases psm.checkTimeout_cases now timeout with hEq | ⟨_, hEq⟩
  · rw [hEq]
    exact ⟨by simpa [decidedAfter] using h, by simp, by simp, by simp⟩
  · rw [hEq]
    exact {
      machine := {
        name := h.name
        version := h.version
        size := h.size
        slots := h.slots
        unused := fun _ => rfl
        active := by simp [ProposerStateMachine.initialState]
        fresh := fun _ => rfl
        ready := by simp [ProposerStateMachine.initialState, ProposerStateMachine.isReadyToCommit]
        learned := by simp [ProposerStateMachine.initialState] }
      sent := by simp
      own := by simp
      ready := by simp }

/-- After a phase 2 counter was raised the machine reports exactly the
decisions it is ready for. -/
theorem checkPhase2_inv (h : ProposerInv cfg decided given j psm) (hState : psm.state = .phase2)
    (ack nack : Nat) (psm' : ProposerStateMachine IPString)
    (hEq : psm' = { psm with phase2ack := ack, phase2nack := nack }) :
    ReactionInv cfg decided given j psm'.checkPhase2 := by
  have hGiven := h.active (.inr hState)
  have hSub : decided ⊆ decidedAfter decided j psm'.checkPhase2 := by
    unfold decidedAfter
    split
    · exact List.subset_cons_self _ _
    · exact List.Subset.refl _
  subst hEq
  exact {
    machine := {
      name := h.name
      version := h.version
      size := h.size
      slots := h.slots
      unused := by simp [hGiven]
      active := h.active
      fresh := by simp [ProposerStateMachine.checkPhase2, hState]
      ready := by
        intro hReady
        simp only [ProposerStateMachine.checkPhase2] at hReady ⊢
        simp [decidedAfter, hReady]
      learned := fun hs => (h.learned hs).mono hSub }
    sent := by simp [ProposerStateMachine.checkPhase2]
    own := fun _ => hGiven
    ready := by simp [ProposerStateMachine.checkPhase2] }

/-- A message keeps it. -/
theorem handleMessage_inv (now : Time) {address : IPString} {m : PaxosMessage}
    (hNonempty : cfg.last.acceptor ≠ []) (h : ProposerInv cfg decided given j psm)
    (hMessage : MessageInv cfg decided address m) :
    ReactionInv cfg decided given j (psm.handleMessage now address m) := by
  have hSame (r : PaxosResult) (hr : r ≠ .committingSelf) :
      ReactionInv cfg decided given j (⟨psm, [], r⟩ : Reaction _ IPString) :=
    ⟨by simpa [decidedAfter, hr] using h, by simp, fun he => absurd he hr, fun he => absurd he hr⟩
  generalize hReaction : psm.handleMessage now address m = r
  have hOutcome := psm.handleMessage_outcome now address m
  rw [hReaction] at hOutcome
  cases hOutcome with
  | ignored => exact hSame _ (by simp)
  | dropped => exact hSame _ (by simp)
  | recalled hName hWhy =>
      have hState : psm.state = .phase3 := by
        rcases hWhy with ⟨_, hState⟩ | hOld
        · exact hState
        · rw [h.version, hMessage.version] at hOld
          exact absurd hOld (Nat.lt_irrefl _)
      refine ⟨by simpa [decidedAfter] using h, ?_, by simp, by simp⟩
      intro fd out hMem
      simp only [ProposerStateMachine.sendLastcommit, sends_cons_send, sends_nil,
        List.mem_singleton, Prod.mk.injEq] at hMem
      obtain ⟨rfl, rfl⟩ := hMem
      refine ⟨hMessage.member, hMessage.version, ?_⟩
      rintro p hp
      cases hp
      exact h.learned hState
  | counted ack nack hName hVersion hState =>
      refine ⟨?_, by simp, by simp, by simp⟩
      exact { h with
        ready := by simp [ProposerStateMachine.isReadyToCommit, hState] }
  | opened ack nack hName hVersion hState hCount hMany =>
      have hAck := h.fresh hState
      have hGiven := h.active (.inl hState)
      have hSize : psm.nacceptor ≠ 0 := by
        rw [h.size]
        exact fun hZero => hNonempty (List.length_eq_zero_iff.mp hZero)
      have hSent := h.broadcast (.phase2Request psm.proposal) (by simp)
      exact {
        machine := {
          name := h.name
          version := h.version
          size := h.size
          slots := h.slots
          unused := h.unused
          active := fun _ => hGiven
          fresh := by simp
          ready := by simp [ProposerStateMachine.isReadyToCommit, hAck, hSize]
          learned := by simp }
        sent := by simpa [decidedAfter] using hSent
        own := by simp
        ready := by simp }
  | acknowledged hName hVersion hState hBody =>
      exact checkPhase2_inv h hState (psm.phase2ack + 1) psm.phase2nack _ rfl
  | refused hName hVersion hState hBody =>
      exact checkPhase2_inv h hState psm.phase2ack (psm.phase2nack + 1) _ rfl
  | learned p hName hVersion hState hBody =>
      have hChosen := hMessage.announced p hBody
      exact {
        machine := {
          name := h.name
          version := h.version
          size := h.size
          slots := by simp
          unused := h.unused
          active := by simp
          fresh := by simp
          ready := by simp [ProposerStateMachine.isReadyToCommit]
          learned := fun _ => hChosen }
        sent := by simp
        own := by simp
        ready := by simp }

/-- An acceptor keeps its invariant, and what it answers was either decided
or announces nothing. -/
theorem answer_inv (now : Time) {Fd : Type} (replysfd : Fd) {address : IPString}
    {a : AcceptorStateMachine} {m : PaxosMessage} (h : AcceptorInv cfg decided a)
    (hMessage : MessageInv cfg decided address m) :
    AcceptorInv cfg decided (a.handleMessage now replysfd m).machine ∧
      ∀ fd out, (fd, out) ∈ sends (a.handleMessage now replysfd m).effects →
        MessageInv cfg decided address out := by
  have hPlain (b : PaxosBody) (hBody : ∀ p, b = .phase3Commit p → Chosen decided p) :
      ∀ fd out, (fd, out) ∈ sends [Effect.send replysfd ⟨m.version, a.name, b⟩] →
        MessageInv cfg decided address out := by
    intro fd out hMem
    simp only [sends_cons_send, sends_nil, List.mem_singleton, Prod.mk.injEq] at hMem
    obtain ⟨rfl, rfl⟩ := hMem
    exact ⟨hMessage.member, hMessage.version, hBody⟩
  generalize hReaction : a.handleMessage now replysfd m = r
  have hOutcome := a.handleMessage_outcome now replysfd m
  rw [hReaction] at hOutcome
  cases hOutcome with
  | ignored => exact ⟨h, by simp⟩
  | dropped => exact ⟨h, by simp⟩
  | recalled hName hWhy =>
      have hState : a.state = .phase3 := by
        rcases hWhy with ⟨_, hState⟩ | ⟨hOld, _⟩
        · exact hState
        · rw [h.version, hMessage.version] at hOld
          exact absurd hOld (Nat.lt_irrefl _)
      refine ⟨h, hPlain _ ?_⟩
      rintro p hp
      cases hp
      exact h.learned hState
  | refused b hName hVersion hState hNack =>
      refine ⟨h, hPlain b ?_⟩
      rcases hNack with rfl | rfl <;> simp
  | promised p hName hVersion hBody hState hBest =>
      exact ⟨⟨h.name, h.version, h.learned⟩, hPlain _ (by simp)⟩
  | accepted p hName hVersion hBody hState hEqual =>
      exact ⟨⟨h.name, h.version, by simp⟩, hPlain _ (by simp)⟩
  | learned p hName hVersion hBody hState =>
      exact ⟨⟨h.name, h.version, fun _ => hMessage.announced p hBody⟩, by simp⟩

end Calls

section Step
variable {cfg : Config ι} {s : State ι}

/-- Decisions are only added. -/
theorem decided_subset (decided : List (ι × Proposal)) (j : ι)
    (r : Reaction (ProposerStateMachine IPString) IPString) :
    decided ⊆ decidedAfter decided j r := by
  unfold decidedAfter
  split
  · exact List.subset_cons_self _ _
  · exact List.Subset.refl _

/-- The invariant of the machines before the first proposal. -/
theorem init_inv (cfg : Config ι) : Inv cfg (init cfg) where
  acceptor := fun _ => ⟨rfl, rfl, by simp [init, AcceptorStateMachine.new]⟩
  proposer := fun j => {
    name := rfl
    version := rfl
    size := rfl
    slots := by
      intro fd hMem
      obtain ⟨slot, hSlot, hConnect⟩ := List.mem_mapIdx.mp hMem
      simp only [connect] at hConnect
      split at hConnect
      · cases hConnect
        exact List.getElem_mem hSlot
      · cases hConnect
    unused := fun _ => rfl
    active := by simp [init, ProposerStateMachine.new]
    fresh := fun _ => rfl
    ready := by simp [init, ProposerStateMachine.new, ProposerStateMachine.isReadyToCommit]
    learned := by simp [init, ProposerStateMachine.new] }
  packet := by simp [init]
  own := by simp [init]

variable [DecidableEq ι]

/-- A call on one machine, which may also be the one that gives the machine
its proposal. -/
theorem Inv.reactGiven (h : Inv cfg s) {j : ι} {given : ι → Option Proposal}
    (hOther : ∀ k, k ≠ j → given k = s.given k)
    (hOwn : ∀ q, (j, q) ∈ s.decided → given j = some q)
    {r : Reaction (ProposerStateMachine IPString) IPString}
    (hr : ReactionInv cfg s.decided (given j) j r) :
    Inv cfg ({ s with given := given }.react j r) := by
  have hSub := decided_subset s.decided j r
  have hOld (k : ι) (q : Proposal) (hMem : (k, q) ∈ s.decided) : given k = some q := by
    by_cases hk : k = j
    · subst hk
      exact hOwn q hMem
    · rw [hOther k hk]
      exact h.own k q hMem
  refine ⟨fun a => (h.acceptor a).mono hSub, ?_, ?_, ?_⟩
  · intro k
    by_cases hk : k = j
    · subst hk
      simpa [State.react] using hr.machine
    · simpa [State.react, hk, hOther] using (h.proposer k).mono hSub
  · intro packet hMem
    rcases List.mem_append.mp hMem with hOld | hNew
    · exact (h.packet packet hOld).mono hSub
    · obtain ⟨⟨fd, m⟩, hOut, rfl⟩ := List.mem_map.mp hNew
      exact hr.sent fd m hOut
  · intro k q hMem
    simp only [State.react, decidedAfter] at hMem ⊢
    split at hMem
    · next hSelf =>
        rcases List.mem_cons.mp hMem with hEq | hMem
        · cases hEq
          exact hr.own hSelf
        · exact hOld k q hMem
    · exact hOld k q hMem

/-- A reaction of a proposer keeps the invariant. -/
theorem Inv.react (h : Inv cfg s) {j : ι}
    {r : Reaction (ProposerStateMachine IPString) IPString}
    (hr : ReactionInv cfg s.decided (s.given j) j r) : Inv cfg (s.react j r) :=
  h.reactGiven (fun _ _ => rfl) (h.own j) hr

omit [DecidableEq ι] in
/-- An answer of an acceptor keeps it. -/
theorem Inv.answer (h : Inv cfg s) {a : IPString} {r : Reaction AcceptorStateMachine ι}
    (hMachine : AcceptorInv cfg s.decided r.machine)
    (hSent : ∀ k m, (k, m) ∈ sends r.effects → MessageInv cfg s.decided a m) :
    Inv cfg (s.answer a r) := by
  refine ⟨?_, h.proposer, ?_, h.own⟩
  · intro b
    by_cases hb : b = a
    · subst hb
      simpa [State.answer] using hMachine
    · simpa [State.answer, hb] using h.acceptor b
  · intro packet hMem
    rcases List.mem_append.mp hMem with hOld | hNew
    · exact h.packet packet hOld
    · obtain ⟨⟨k, m⟩, hOut, rfl⟩ := List.mem_map.mp hNew
      exact hSent k m hOut

/-- Taking a message off the network. -/
theorem Inv.consume (h : Inv cfg s) (packet : Packet ι) :
    Inv cfg { s with network := s.network.erase packet } :=
  ⟨h.acceptor, h.proposer, fun q hq => h.packet q (List.mem_of_mem_erase hq), h.own⟩

/-- Giving a machine its proposal does not disturb the others. -/
theorem Inv.give (h : Inv cfg s) {j : ι} {p : Proposal} (hNew : s.given j = none)
    {r : Reaction (ProposerStateMachine IPString) IPString}
    (hr : ReactionInv cfg s.decided (some p) j r) :
    Inv cfg ({ s with given := Function.update s.given j (some p) }.react j r) := by
  apply h.reactGiven
  · intro k hk
    exact Function.update_of_ne hk _ _
  · intro q hq
    rw [h.own j q hq] at hNew
    cases hNew
  · rwa [Function.update_self]

/-- Every step keeps it. -/
theorem step_inv (hNonempty : cfg.last.acceptor ≠ []) {action : Action ι} {t : State ι}
    (h : Inv cfg s) (hStep : step cfg s action = some t) : Inv cfg t := by
  cases action with
  | wait d =>
      cases hStep
      exact ⟨h.acceptor, h.proposer, h.packet, h.own⟩
  | newProposal j p =>
      simp only [step] at hStep
      split at hStep
      · next hGuard =>
          cases hStep
          have hProposer := h.proposer j
          rw [hGuard.1] at hProposer
          exact h.give hGuard.1 (newProposal_inv s.now p hNonempty hProposer)
      · cases hStep
  | deliver packet =>
      simp only [step] at hStep
      split at hStep
      · next hMem =>
          have hPacket := h.packet packet hMem
          cases packet with
          | toAcceptor j a m =>
              cases hStep
              have hAnswer := answer_inv s.now j (h.acceptor a) hPacket
              exact (h.consume _).answer hAnswer.1 hAnswer.2
          | toProposer a j m =>
              cases hStep
              exact (h.consume _).react (handleMessage_inv s.now hNonempty (h.proposer j) hPacket)
      · cases hStep
  | sendCommitment j =>
      cases hStep
      exact h.react (sendCommitment_inv s.now (h.proposer j))
  | proposerTimeout j =>
      cases hStep
      exact h.react (checkTimeout_inv s.now cfg.timeout (h.proposer j))
  | acceptorTimeout a =>
      cases hStep
      refine h.answer ?_ (by simp)
      have hAcceptor := h.acceptor a
      rcases (s.acceptors a).checkTimeout_cases s.now cfg.timeout with hEq | ⟨_, _, hEq⟩
      · rw [hEq]
        exact hAcceptor
      · rw [hEq]
        exact ⟨hAcceptor.name, hAcceptor.version, by simp⟩

end Step

end QpidRecovery.Instance
