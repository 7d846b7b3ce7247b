import QpidRecovery.Instance.Invariant

/-! The instance carries out an election among its proposers: the electorate
is the acceptor list, a vote is cast when an acceptor acknowledges a phase 2
request, and a candidate is declared when it returns `COMMITTING_SELF`. -/
namespace QpidRecovery.Instance

open Transition Majority

variable {ι : Type} [DecidableEq ι]

/-- A phase 2 acknowledgement in flight to `j`. -/
def Packet.isAckTo (j : ι) : Packet ι → Bool
  | .toProposer _ k m => k = j ∧ m.body = .phase2Ack
  | .toAcceptor _ _ _ => false

def acksTo (network : List (Packet ι)) (j : ι) : Nat :=
  network.countP (Packet.isAckTo j)

theorem acksTo_append (first second : List (Packet ι)) (j : ι) :
    acksTo (first ++ second) j = acksTo first j + acksTo second j :=
  List.countP_append

/-- Proposers acknowledge nothing. -/
theorem acksTo_requests (out : List (IPString × PaxosMessage)) (source j : ι) :
    acksTo (out.map fun o => Packet.toAcceptor source o.1 o.2) j = 0 := by
  rw [acksTo, List.countP_map, List.countP_eq_zero]
  intro o _
  simp [Packet.isAckTo]

theorem acksTo_erase {network : List (Packet ι)} {packet : Packet ι} (hMem : packet ∈ network)
    (j : ι) :
    acksTo network j =
      acksTo (network.erase packet) j + if packet.isAckTo j then 1 else 0 := by
  have hPerm := (List.perm_cons_erase hMem).countP_eq (Packet.isAckTo j)
  rw [acksTo, hPerm, List.countP_cons, acksTo]

/-- The state of an instance matches the state of its election. -/
structure Refines (cfg : Config ι) (s : State ι) (b : Ballot IPString ι) : Prop where
  /-- An acceptor that may still acknowledge has not voted. -/
  free : ∀ a, (s.acceptors a).state = .phase1 → b.vote a = none
  /-- Every acknowledgement counted or in flight is a vote of its own. -/
  backed : ∀ j, (s.proposers j).phase2ack + acksTo s.network j ≤
    votesFor cfg.last.acceptor b.vote j
  declared : ∀ j p, (j, p) ∈ s.decided → j ∈ b.elected

theorem init_refines (cfg : Config ι) : Refines cfg (init cfg) Ballot.empty where
  free := fun _ _ => rfl
  backed := fun _ => Nat.zero_le _
  declared := by simp [init]

variable {cfg : Config ι} {s : State ι} {b : Ballot IPString ι}

/-- A call on a proposer's machine casts no vote; it may declare the proposer. -/
theorem Refines.react (h : Refines cfg s b) (hNonempty : cfg.last.acceptor ≠ []) {j : ι}
    {given : Option Proposal} {r : Reaction (ProposerStateMachine IPString) IPString}
    (hr : ReactionInv cfg s.decided given j r)
    (hBacked : r.machine.phase2ack + acksTo s.network j ≤ votesFor cfg.last.acceptor b.vote j) :
    ∃ b', Relation.ReflTransGen (Ballot.Step cfg.last.acceptor) b b' ∧
      Refines cfg (s.react j r) b' := by
  have hCounts (k : ι) : ((s.react j r).proposers k).phase2ack +
      acksTo (s.react j r).network k ≤ votesFor cfg.last.acceptor b.vote k := by
    simp only [State.react, acksTo_append, acksTo_requests, Nat.add_zero]
    by_cases hk : k = j
    · subst hk
      simpa using hBacked
    · simpa [hk] using h.backed k
  by_cases hSelf : r.result = .committingSelf
  · have hMajority : IsMajority cfg.last.acceptor b.vote j := by
      have hReady := hr.ready hSelf
      have hSize : r.machine.nacceptor = cfg.last.acceptor.length := hr.machine.size
      have hPos : 0 < cfg.last.acceptor.length := List.length_pos_iff.mpr hNonempty
      simp only [ProposerStateMachine.isReadyToCommit, decide_eq_true_eq] at hReady
      unfold IsMajority
      omega
    refine ⟨_, .single (.declare b j hMajority), h.free, hCounts, ?_⟩
    intro k p hMem
    simp only [State.react, decidedAfter, if_pos hSelf] at hMem
    rcases List.mem_cons.mp hMem with hEq | hOld
    · cases hEq
      exact List.mem_cons_self
    · exact List.mem_cons_of_mem _ (h.declared k p hOld)
  · refine ⟨b, .refl, h.free, hCounts, ?_⟩
    intro k p hMem
    simp only [State.react, decidedAfter, if_neg hSelf] at hMem
    exact h.declared k p hMem

/-- An acceptor's call that acknowledges nothing leaves the election alone. -/
theorem Refines.answer (h : Refines cfg s b) {a : IPString}
    {r : Reaction AcceptorStateMachine ι}
    (hFree : r.machine.state = .phase1 → b.vote a = none)
    (hSent : ∀ k m, (k, m) ∈ sends r.effects → m.body ≠ .phase2Ack) :
    Refines cfg (s.answer a r) b := by
  refine ⟨?_, ?_, h.declared⟩
  · intro c
    by_cases hc : c = a
    · subst hc
      simpa [State.answer] using hFree
    · simpa [State.answer, hc] using h.free c
  · intro j
    have hNone : acksTo ((sends r.effects).map fun out => Packet.toProposer a out.1 out.2) j = 0 := by
      rw [acksTo, List.countP_map, List.countP_eq_zero]
      rintro ⟨k, m⟩ hMem
      simp [Packet.isAckTo, hSent k m hMem]
    simpa [State.answer, acksTo_append, hNone] using h.backed j

/-- An acknowledgement is the vote of an acceptor that had not voted. -/
theorem Refines.accept (h : Refines cfg s b) {a : IPString} {j : ι} {m : PaxosMessage}
    {acc : AcceptorStateMachine} (hMember : a ∈ cfg.last.acceptor)
    (hState : (s.acceptors a).state = .phase1) (hAcc : acc.state = .phase2)
    (hBody : m.body = .phase2Ack) (result : PaxosResult) :
    ∃ b', Relation.ReflTransGen (Ballot.Step cfg.last.acceptor) b b' ∧
      Refines cfg (s.answer a ⟨acc, [.send j m], result⟩) b' := by
  have hNew := h.free a hState
  refine ⟨_, .single (.cast b a j hNew), ?_, ?_, h.declared⟩
  · intro c
    by_cases hc : c = a
    · subst hc
      simp [State.answer, hAcc]
    · simpa [State.answer, hc] using h.free c
  · intro k
    have hOld := h.backed k
    simp only [State.answer, sends_cons_send, sends_nil, List.map_cons, List.map_nil,
      acksTo_append]
    by_cases hk : k = j
    · subst hk
      rw [votesFor_cast_self hMember hNew]
      simp only [acksTo, List.countP_cons, List.countP_nil, Packet.isAckTo, hBody] at hOld ⊢
      simp only [decide_true, and_self, if_true]
      omega
    · have hLe := votesFor_cast_le cfg.last.acceptor j k hNew
      have hOther : acksTo [Packet.toProposer a j m] k = 0 := by
        simp [acksTo, Packet.isAckTo, Ne.symm hk]
      omega

/-- Taking a message off the network leaves at least as many votes as
acknowledgements. -/
theorem Refines.consume (h : Refines cfg s b) (packet : Packet ι) :
    Refines cfg { s with network := s.network.erase packet } b := by
  refine ⟨h.free, ?_, h.declared⟩
  intro j
  have hLe : acksTo (s.network.erase packet) j ≤ acksTo s.network j :=
    List.Sublist.countP_le List.erase_sublist
  exact Nat.le_trans (Nat.add_le_add_left hLe _) (h.backed j)

theorem deliver_refines (hNonempty : cfg.last.acceptor ≠ []) (hInv : Inv cfg s)
    (h : Refines cfg s b) {packet : Packet ι} {t : State ι}
    (hStep : step cfg s (.deliver packet) = some t) :
    ∃ b', Relation.ReflTransGen (Ballot.Step cfg.last.acceptor) b b' ∧ Refines cfg t b' := by
  simp only [step] at hStep
  split at hStep
  · next hMem =>
      have hPacket := hInv.packet packet hMem
      cases packet with
      | toAcceptor j a m =>
          cases hStep
          have hRest := h.consume (.toAcceptor j a m)
          generalize hReaction : (s.acceptors a).handleMessage s.now j m = r
          have hOutcome := (s.acceptors a).handleMessage_outcome s.now j m
          rw [hReaction] at hOutcome
          have hQuiet (hState : r.machine.state = .phase1 → (s.acceptors a).state = .phase1)
              (hSent : ∀ k out, (k, out) ∈ sends r.effects → out.body ≠ .phase2Ack) :
              ∃ b', Relation.ReflTransGen (Ballot.Step cfg.last.acceptor) b b' ∧
                Refines cfg (State.answer _ a r) b' :=
            ⟨b, Relation.ReflTransGen.refl,
              hRest.answer (fun hs => h.free a (hState hs)) hSent⟩
          cases hOutcome with
          | accepted p hName hVersion hBody hState hEqual =>
              exact hRest.accept hPacket.member hState rfl rfl _
          | learned p hName hVersion hBody hState =>
              exact hQuiet (by simp) (by simp)
          | refused body hName hVersion hState hNack =>
              refine hQuiet (fun hs => hs) ?_
              rcases hNack with rfl | rfl <;> simp
          | _ => exact hQuiet (fun hs => hs) (by simp)
      | toProposer a j m =>
          cases hStep
          have hReaction : ReactionInv cfg s.decided (s.given j) j
              ((s.proposers j).handleMessage s.now a m) :=
            handleMessage_inv s.now hNonempty (hInv.proposer j) hPacket
          apply (h.consume _).react hNonempty hReaction
          have hAck := (s.proposers j).handleMessage_phase2ack_le s.now a m
          have hCount := acksTo_erase hMem j
          have hBacked := h.backed j
          have hVersion : m.version = (s.proposers j).version :=
            hPacket.version.trans (hInv.proposer j).version.symm
          simp only [hVersion, and_true] at hAck
          simp only [Packet.isAckTo, true_and, decide_eq_true_eq] at hCount
          dsimp only
          omega
  · cases hStep

/-- Every step of the instance that forgets no acknowledgement is matched by
steps of the election. -/
theorem step_refines (hNonempty : cfg.last.acceptor ≠ []) (hInv : Inv cfg s)
    (h : Refines cfg s b) {action : Action ι} {t : State ι} (hOk : KeepsAcceptance cfg s action)
    (hStep : step cfg s action = some t) :
    ∃ b', Relation.ReflTransGen (Ballot.Step cfg.last.acceptor) b b' ∧ Refines cfg t b' := by
  cases action with
  | wait d =>
      cases hStep
      exact ⟨b, .refl, h.free, h.backed, h.declared⟩
  | newProposal j p =>
      simp only [step] at hStep
      split at hStep
      · next hGuard =>
          cases hStep
          have hProposer := hInv.proposer j
          rw [hGuard.1] at hProposer
          have hGiven : Refines cfg { s with given := Function.update s.given j (some p) } b :=
            ⟨h.free, h.backed, h.declared⟩
          apply hGiven.react hNonempty (newProposal_inv s.now p hNonempty hProposer)
          rw [ProposerStateMachine.newProposal_phase2ack]
          exact h.backed j
      · cases hStep
  | deliver packet => exact deliver_refines hNonempty hInv h hStep
  | sendCommitment j =>
      cases hStep
      apply h.react hNonempty (sendCommitment_inv s.now (hInv.proposer j))
      rw [Reaction.void_machine, ProposerStateMachine.sendCommitment_phase2ack]
      exact h.backed j
  | proposerTimeout j =>
      cases hStep
      apply h.react hNonempty (checkTimeout_inv s.now cfg.timeout (hInv.proposer j))
      have hLe := (s.proposers j).checkTimeout_phase2ack_le s.now cfg.timeout
      have hBacked := h.backed j
      rw [Reaction.quiet_machine]
      omega
  | acceptorTimeout a =>
      cases hStep
      refine ⟨b, .refl, h.answer ?_ (by simp)⟩
      rcases (s.acceptors a).checkTimeout_cases s.now cfg.timeout with hEq | ⟨hState, _, hEq⟩
      · rw [hEq]
        exact h.free a
      · intro _
        rcases hState with hPromise | hAccepted
        · exact h.free a hPromise
        · exact absurd (congrArg Prod.snd hEq) (hOk hAccepted)

/-- A run in which no acceptor forgets an acknowledgement carries out one
election. -/
theorem run_refines (hNonempty : cfg.last.acceptor ≠ []) {t : State ι}
    (run : Run (step cfg) (KeepsAcceptance cfg) (init cfg) t) :
    Inv cfg t ∧ ∃ b, Ballot.Reachable cfg.last.acceptor b ∧ Refines cfg t b := by
  refine Run.invariant (P := fun u => Inv cfg u ∧ ∃ b, Ballot.Reachable cfg.last.acceptor b ∧
    Refines cfg u b) run ⟨init_inv cfg, Ballot.empty, .refl, init_refines cfg⟩ ?_
  rintro u action v ⟨hInv, b, hReach, h⟩ hOk hStep
  obtain ⟨b', hSteps, hNext⟩ := step_refines hNonempty hInv h hOk hStep
  exact ⟨step_inv hNonempty hInv hStep, b', hReach.trans hSteps, hNext⟩

end QpidRecovery.Instance
