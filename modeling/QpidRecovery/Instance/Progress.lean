import QpidRecovery.Instance.Agreement
import QpidRecovery.Instance.Proposing

/-! An instance that comes to rest. While no timeout fires and every message
is delivered, each acceptor ends at the side of one proposer, and a proposer
without a majority holds half of them at most. -/
namespace QpidRecovery.Instance

open Transition Fifo

variable {ι : Type} [DecidableEq ι]

/-- Nothing is decided so far, and every acceptor that acknowledged a proposer
stands at the side of the last one. -/
structure Standing (cfg : Config ι) (holder : IPString → Option ι) (s : State ι) : Prop where
  proposer : ∀ j, ProposerStanding cfg holder s.acceptors s.network (s.given j) j (s.proposers j)
  proper : ∀ j p, s.given j = some p → Proposal.noProposal.compare p ≤ 0
  phase : ∀ a ∈ members cfg, (s.acceptors a).state = .phase1 ∨ (s.acceptors a).state = .phase2
  free : ∀ a ∈ members cfg, holder a = none →
    (s.acceptors a).state = .phase1 ∧ (s.acceptors a).promise = .noProposal

section Machines
variable {cfg : Config ι} {holder : IPString → Option ι} {s : State ι} {j : ι} {a : IPString}
  {m : PaxosMessage}

theorem init_standing (hConnected : ∀ j slot, cfg.connected j slot = true) :
    Standing cfg (fun _ => none) (init cfg) where
  proposer := fun j => {
    slots := by
      show cfg.last.acceptor.mapIdx (connect cfg j) = cfg.last.acceptor.map some
      apply List.ext_getElem
      · simp
      · simp [connect, hConnected]
    idle := fun _ => ⟨rfl, rfl⟩
    busy := fun hGiven => absurd rfl hGiven
    few := fun hState => by cases hState
    outgoing := fun _ _ => rfl
    replies := fun _ _ hMem => by cases hMem
    unread := fun _ _ _ hGiven => absurd rfl hGiven
    asked := fun _ _ hHolder => by cases hHolder
    held := fun _ _ hHolder => by cases hHolder
    chosen := fun _ _ hHolder => by cases hHolder
    promised := fun hState => by cases hState
    voted := fun hState => by cases hState }
  proper := fun _ _ hGiven => by cases hGiven
  phase := fun _ _ => .inl rfl
  free := fun _ _ _ => ⟨rfl, rfl⟩

/-- A call on one proposer's machine is nothing to the others. -/
theorem Standing.react (h : Standing cfg holder s) {u : State ι}
    {r : Reaction (ProposerStateMachine IPString) IPString} (hAcceptors : u.acceptors = s.acceptors)
    (hProposers : u.proposers = s.proposers) (hGiven : ∀ k, k ≠ j → u.given k = s.given k)
    (hNetwork : ∀ k, k ≠ j → Unseen k s.network u.network)
    (hProper : ∀ p, u.given j = some p → Proposal.noProposal.compare p ≤ 0)
    (hSelf : ProposerStanding cfg holder s.acceptors
      (u.network ++ (sends r.effects).map fun out => .toAcceptor j out.1 out.2) (u.given j) j
      r.machine) :
    Standing cfg holder (u.react j r) where
  proposer := fun k => by
    simp only [State.react, hAcceptors]
    by_cases hSame : k = j
    · rw [hSame, Function.update_self]
      exact hSelf
    · rw [Function.update_of_ne hSame, hProposers, hGiven k hSame]
      apply (h.proposer k).unseen
      apply (hNetwork k hSame).trans
      apply unseen_append
      · simp [Ne.symm hSame]
      · simp
  proper := fun k p hp => by
    by_cases hSame : k = j
    · rw [hSame] at hp
      exact hProper p hp
    · exact h.proper k p ((hGiven k hSame).symm.trans hp)
  phase := fun a ha => by
    simp only [State.react, hAcceptors]
    exact h.phase a ha
  free := fun a ha hNone => by
    simp only [State.react, hAcceptors]
    exact h.free a ha hNone

omit [DecidableEq ι] in
theorem sends_replies (j : ι) (out : List PaxosMessage) :
    (sends (out.map (Effect.send j ·))).map (fun reply => Packet.toProposer a reply.1 reply.2) =
      out.map fun m => .toProposer a j m := by
  induction out with
  | nil => rfl
  | cons m rest ih => rw [List.map_cons, sends_cons_send, List.map_cons, ih, List.map_cons]

/-- What an acceptor reads and replies is between it and one proposer. -/
theorem unseen_answer {k : ι} (hOther : k ≠ j) (hMem : .toAcceptor j a m ∈ s.network)
    (out : List PaxosMessage) :
    Unseen k s.network
      (s.network.erase (.toAcceptor j a m) ++ out.map fun m => .toProposer a j m) := by
  have hErase : Unseen k s.network (s.network.erase (.toAcceptor j a m)) := by
    apply unseen_erase hMem
    · exact fun b => toward_other (fun hSame => absurd hSame.symm hOther) m
    · exact fun _ => rfl
  apply hErase.trans
  apply unseen_append
  · simp
  · simp [Ne.symm hOther]

/-- An acceptor that keeps its state has read a message of a proposer. -/
theorem Standing.read (h : Standing cfg holder s) (hMem : .toAcceptor j a m ∈ s.network)
    (hHead : (queue (toward j a) s.network).head? = some m) (out : List PaxosMessage)
    (hOut : ∀ m ∈ out, Reply cfg (s.proposers j) m) (hHolder : holder a ≠ none)
    (hOther : holder a = some j → (s.acceptors a).state = .phase2) (result : PaxosResult) :
    Standing cfg holder ({ s with network := s.network.erase (.toAcceptor j a m) }.answer a
      ⟨s.acceptors a, out.map (.send j ·), result⟩) := by
  constructor
  · intro k
    simp only [State.answer, Function.update_eq_self, sends_replies]
    by_cases hSame : k = j
    · rw [hSame]
      exact (h.proposer j).read (answered_deliver hMem hHead out) hOut hHolder hOther
    · exact (h.proposer k).unseen (unseen_answer hSame hMem out)
  · exact h.proper
  · simpa [State.answer] using h.phase
  · simpa [State.answer] using h.free

/-- An acceptor has acknowledged a message of a proposer. -/
theorem Standing.acknowledge (h : Standing cfg holder s) (hMem : .toAcceptor j a m ∈ s.network)
    {acc : AcceptorStateMachine} (out : List PaxosMessage)
    (hSelf : ProposerStanding cfg (Function.update holder a (some j))
      (Function.update s.acceptors a acc)
      (s.network.erase (.toAcceptor j a m) ++ out.map fun m => .toProposer a j m) (s.given j) j
      (s.proposers j))
    (hState : acc.state = .phase1 ∨ acc.state = .phase2) (result : PaxosResult) :
    Standing cfg (Function.update holder a (some j))
      ({ s with network := s.network.erase (.toAcceptor j a m) }.answer a
        ⟨acc, out.map (.send j ·), result⟩) := by
  constructor
  · intro k
    simp only [State.answer, sends_replies]
    by_cases hSame : k = j
    · rw [hSame]
      exact hSelf
    · exact ((h.proposer k).taken (Ne.symm hSame) a acc).unseen (unseen_answer hSame hMem out)
  · exact h.proper
  · intro b hb
    by_cases hSame : b = a
    · simpa [State.answer, hSame] using hState
    · simpa [State.answer, hSame] using h.phase b hb
  · intro b hb hNone
    by_cases hSame : b = a
    · rw [hSame, Function.update_self] at hNone
      cases hNone
    · rw [Function.update_of_ne hSame] at hNone
      simpa [State.answer, hSame] using h.free b hb hNone

section Acceptor
variable (h : Standing cfg holder s) (hInv : Inv cfg s) (ha : a ∈ members cfg)
include h hInv ha

/-- The first message of a proposal is refused only for a better promise. -/
theorem Standing.answer_ask (hMem : .toAcceptor j a m ∈ s.network)
    (hHead : (queue (toward j a) s.network).head? = some m)
    (hAsk : m = ask cfg (s.proposers j).proposal) (hFirst : (s.acceptors a).state = .phase1)
    (hProper : Proposal.noProposal.compare (s.proposers j).proposal ≤ 0) :
    ∃ holder', Standing cfg holder'
      ({ s with network := s.network.erase (.toAcceptor j a m) }.answer a
        ((s.acceptors a).handleMessage s.now j m)) := by
  have hName := (hInv.acceptor a).name
  have hVersion := (hInv.acceptor a).version
  have hEq : (s.acceptors a).handleMessage s.now j m =
      (s.acceptors a).handlePhase1Message s.now j (s.proposers j).proposal cfg.version := by
    simp [AcceptorStateMachine.handleMessage, hAsk, ask, hName, hVersion]
  rw [hEq, AcceptorStateMachine.handlePhase1Message, if_neg (not_not.mpr hFirst), hName]
  split
  next hBest =>
    refine ⟨holder, h.read hMem hHead [⟨cfg.version, cfg.name, .phase1Nack⟩] ?_ ?_ ?_ _⟩
    · intro m hOut
      rw [List.mem_singleton.mp hOut]
      exact ⟨rfl, rfl, .inr (.inl rfl)⟩
    · intro hNone
      rw [(h.free a ha hNone).2] at hBest
      omega
    · intro hHolder
      rw [((h.proposer j).held a ha hHolder hFirst).1, Proposal.compare_self] at hBest
      omega
  next =>
    refine ⟨Function.update holder a (some j), ?_⟩
    apply h.acknowledge hMem [⟨cfg.version, cfg.name, .phase1Ack⟩]
    · exact (h.proposer j).promise (answered_deliver hMem hHead _) ha (hAsk ▸ hHead) hFirst rfl
    · exact .inl hFirst

/-- The request for a vote is refused only by an acceptor that promised
another proposal. -/
theorem Standing.answer_request (hMem : .toAcceptor j a m ∈ s.network)
    (hHead : (queue (toward j a) s.network).head? = some m)
    (hRequest : m = request cfg (s.proposers j).proposal) (hFirst : (s.acceptors a).state = .phase1)
    (hGiven : s.given j ≠ none) (hState : (s.proposers j).state = .phase2) :
    ∃ holder', Standing cfg holder'
      ({ s with network := s.network.erase (.toAcceptor j a m) }.answer a
        ((s.acceptors a).handleMessage s.now j m)) := by
  have hName := (hInv.acceptor a).name
  have hVersion := (hInv.acceptor a).version
  have hEq : (s.acceptors a).handleMessage s.now j m =
      (s.acceptors a).handlePhase2Message s.now j (s.proposers j).proposal cfg.version := by
    simp [AcceptorStateMachine.handleMessage, hRequest, request, hName, hVersion]
  rw [hEq, AcceptorStateMachine.handlePhase2Message, if_neg (not_not.mpr hFirst), hName]
  split
  next hOther =>
    refine ⟨holder, h.read hMem hHead [⟨cfg.version, cfg.name, .phase2Nack⟩] ?_ ?_ ?_ _⟩
    · intro m hOut
      rw [List.mem_singleton.mp hOut]
      exact ⟨rfl, rfl, .inr (.inr ⟨hState, .inr rfl⟩)⟩
    · intro hNone
      rw [(h.proposer j).unread a ha hNone hGiven, hRequest] at hHead
      cases hHead
    · intro hHolder
      rw [((h.proposer j).held a ha hHolder hFirst).1, Proposal.compare_self] at hOther
      exact absurd rfl hOther
  next =>
    refine ⟨Function.update holder a (some j), ?_⟩
    apply h.acknowledge hMem [⟨cfg.version, cfg.name, .phase2Ack⟩]
    · exact (h.proposer j).vote (answered_deliver hMem hHead _) ha (hRequest ▸ hHead) rfl
    · exact .inr rfl

end Acceptor

/-- What a proposer sends an acceptor that has voted is dropped. -/
theorem Standing.deliver (h : Standing cfg holder s) (hInv : Inv cfg s)
    (hMem : .toAcceptor j a m ∈ s.network)
    (hHead : (queue (toward j a) s.network).head? = some m) :
    ∃ holder', Standing cfg holder'
      ({ s with network := s.network.erase (.toAcceptor j a m) }.answer a
        ((s.acceptors a).handleMessage s.now j m)) := by
  have ha : a ∈ members cfg := List.mem_toFinset.mpr (hInv.packet _ hMem).member
  obtain ⟨hGiven, hKind⟩ := (h.proposer j).head ha hHead
  cases h.phase a ha with
  | inl hFirst =>
      rcases hKind with ⟨hAsk, _⟩ | ⟨hRequest, hState⟩
      · apply h.answer_ask hInv ha hMem hHead hAsk hFirst
        exact h.proper j _ ((hInv.proposer j).active ((h.proposer j).busy hGiven))
      · exact h.answer_request hInv ha hMem hHead hRequest hFirst hGiven hState
  | inr hSecond =>
      have hName := (hInv.acceptor a).name
      have hVersion := (hInv.acceptor a).version
      have hEq : (s.acceptors a).handleMessage s.now j m = ⟨s.acceptors a, [], .handled⟩ := by
        rcases hKind with ⟨rfl, _⟩ | ⟨rfl, _⟩
        · simp [AcceptorStateMachine.handleMessage, AcceptorStateMachine.handlePhase1Message,
            AcceptorStateMachine.sendLastcommit, ask, hName, hVersion, hSecond]
        · simp [AcceptorStateMachine.handleMessage, AcceptorStateMachine.handlePhase2Message,
            AcceptorStateMachine.sendLastcommit, request, hName, hVersion, hSecond]
      rw [hEq]
      refine ⟨holder, h.read hMem hHead [] (by simp) ?_ (fun _ => hSecond) _⟩
      intro hNone
      rw [(h.free a ha hNone).1] at hSecond
      cases hSecond

end Machines

/-- No timeout fires, every connection delivers in the order of sending, and
nothing is proposed that an acceptor without a promise would refuse. -/
def Undisturbed (cfg : Config ι) (s : State ι) : Action ι → Prop
  | .newProposal _ p => Proposal.noProposal.compare p ≤ 0
  | .deliver (.toAcceptor j a m) => (queue (toward j a) s.network).head? = some m
  | .proposerTimeout j => ((s.proposers j).checkTimeout s.now cfg.timeout).2 ≠ .handled
  | .acceptorTimeout a => ¬ Fires cfg s a
  | _ => True

section Step
variable {cfg : Config ι} {holder : IPString → Option ι} {s t : State ι}

/-- A call that does nothing but report a result. -/
theorem react_same (s : State ι) (j : ι) {result : PaxosResult}
    (hResult : result ≠ .committingSelf) :
    s.react j ⟨s.proposers j, [], result⟩ = s := by
  simp [State.react, decidedAfter, hResult]

omit [DecidableEq ι] in
theorem answer_same (s : State ι) (a : IPString) (result : PaxosResult) :
    s.answer a ⟨s.acceptors a, [], result⟩ = s := by
  simp [State.answer]

omit [DecidableEq ι] in
/-- Who is ready has decided. -/
theorem Inv.unready (hInv : Inv cfg s) (hUndecided : s.decided = []) (j : ι) :
    (s.proposers j).isReadyToCommit = false := by
  rw [← Bool.not_eq_true]
  intro hReady
  have hDecided := (hInv.proposer j).ready hReady
  rw [hUndecided] at hDecided
  cases hDecided

/-- An undisturbed step moves at most one acceptor to another side. -/
theorem step_standing (hDistinct : cfg.last.acceptor.Nodup) (hNonempty : cfg.last.acceptor ≠ [])
    (hInv : Inv cfg s) (h : Standing cfg holder s) (hUndecided : s.decided = []) {action : Action ι}
    (hOk : Undisturbed cfg s action) (hStep : step cfg s action = some t) :
    ∃ holder', Standing cfg holder' t := by
  have hSize (j : ι) : (s.proposers j).nacceptor ≠ 0 := by
    rw [(hInv.proposer j).size]
    exact fun hZero => hNonempty (List.length_eq_zero_iff.mp hZero)
  cases action with
  | wait d =>
      cases hStep
      exact ⟨holder, h.proposer, h.proper, h.phase, h.free⟩
  | newProposal j p =>
      simp only [step] at hStep
      split at hStep
      next hGuard =>
        cases hStep
        refine ⟨holder, h.react rfl rfl ?_ ?_ ?_ ?_⟩
        · exact fun k hk => Function.update_of_ne hk _ _
        · exact fun k _ => ⟨fun _ => rfl, fun _ _ hMem => hMem, fun _ => rfl⟩
        · intro q hq
          simp only [Function.update_self] at hq
          cases hq
          exact hOk
        · have hSelf := h.proposer j
          rw [hGuard.1] at hSelf
          simp only [Function.update_self, ProposerStateMachine.newProposal, if_pos (hSize j)]
          apply hSelf.propose
          rw [ask, ← (hInv.proposer j).name, ← (hInv.proposer j).version]
          exact asked_broadcast hDistinct hSelf.slots _
      · cases hStep
  | deliver packet =>
      simp only [step] at hStep
      split at hStep
      next hMem =>
        cases packet with
        | toAcceptor j a m =>
            cases hStep
            exact h.deliver hInv hMem hOk
        | toProposer a j m =>
            cases hStep
            have hPsm := hInv.proposer j
            refine ⟨holder, h.react rfl rfl (fun _ _ => rfl) ?_ (h.proper j) ?_⟩
            · intro k hk
              apply unseen_erase hMem
              · exact fun _ => rfl
              · simp [Packet.answers, Ne.symm hk]
            · exact (h.proposer j).receive hDistinct (hSize j) hPsm.name hPsm.version hMem s.now
      · cases hStep
  | sendCommitment j =>
      cases hStep
      rw [ProposerStateMachine.sendCommitment, if_pos (hInv.unready hUndecided j), Reaction.void,
        react_same s j (by simp)]
      exact ⟨holder, h⟩
  | proposerTimeout j =>
      cases hStep
      cases (s.proposers j).checkTimeout_cases s.now cfg.timeout with
      | inl hEq =>
          rw [hEq, Reaction.quiet, react_same s j (by simp)]
          exact ⟨holder, h⟩
      | inr hFired => exact absurd (congrArg Prod.snd hFired.2) hOk
  | acceptorTimeout a =>
      cases hStep
      cases (s.acceptors a).checkTimeout_cases s.now cfg.timeout with
      | inl hEq =>
          rw [hEq, Reaction.quiet, answer_same]
          exact ⟨holder, h⟩
      | inr hFired => exact absurd (congrArg Prod.snd hFired.2.2) hOk

/-- Where nothing is decided yet, an undisturbed run has lost nothing. -/
theorem run_standing (hDistinct : cfg.last.acceptor.Nodup) (hNonempty : cfg.last.acceptor ≠ [])
    (hConnected : ∀ j slot, cfg.connected j slot = true)
    (run : Run (step cfg) (Undisturbed cfg) (init cfg) t) :
    Inv cfg t ∧ (t.decided = [] → ∃ holder, Standing cfg holder t) := by
  apply Run.invariant (P := fun u => Inv cfg u ∧ (u.decided = [] → ∃ holder, Standing cfg holder u))
    run ⟨init_inv cfg, fun _ => ⟨_, init_standing hConnected⟩⟩
  intro u action v hu hOk hStep
  obtain ⟨hInv, hStanding⟩ := hu
  refine ⟨step_inv hNonempty hInv hStep, fun hNone => ?_⟩
  have hBefore : u.decided = [] := by
    have hSub := step_decided_subset hStep
    rw [hNone] at hSub
    exact List.subset_nil.mp hSub
  obtain ⟨holder, h⟩ := hStanding hBefore
  exact step_standing hDistinct hNonempty hInv h hBefore hOk hStep

/-- Nothing is under way and nothing is decided: every acceptor is at the side
of a proposer, and no proposer has more than half of them. -/
theorem Standing.share (h : Standing cfg holder s) (hInv : Inv cfg s) (hQuiescent : s.network = [])
    (hUndecided : s.decided = []) {j : ι} (hSent : s.given j ≠ none) :
    (∀ a ∈ members cfg, ∃ k, holder a = some k ∧ s.given k ≠ none) ∧
      ∀ k, s.given k ≠ none → ((members cfg).filter fun a => holder a = some k).card ≤
        cfg.last.acceptor.length / 2 := by
  constructor
  · intro a ha
    cases hHolder : holder a with
    | some k => exact ⟨k, rfl, (h.proposer k).asked a ha hHolder⟩
    | none =>
        have hUnread := (h.proposer j).unread a ha hHolder hSent
        rw [hQuiescent] at hUnread
        cases hUnread
  · intro k hGiven
    have hStanding := h.proposer k
    have hSize := (hInv.proposer k).size
    rw [hQuiescent] at hStanding
    cases hStanding.busy hGiven with
    | inl hFirst =>
        have hBound := hStanding.promised hFirst
        have hFew := hStanding.few hFirst
        have hGone : answers .phase1Ack k ([] : List (Packet ι)) = 0 := rfl
        omega
    | inr hSecond =>
        have hVotes : ((members cfg).filter fun a => holder a = some k) ⊆
            (members cfg).filter fun a => holder a = some k ∧ (s.acceptors a).state = .phase2 := by
          intro a hMem
          obtain ⟨ha, hHolder⟩ := Finset.mem_filter.mp hMem
          apply Finset.mem_filter.mpr
          refine ⟨ha, hHolder, (h.phase a ha).resolve_left fun hFirst => ?_⟩
          cases (hStanding.held a ha hHolder hFirst).2 hSecond
        have hBound := (Finset.card_le_card hVotes).trans (hStanding.voted hSecond)
        have hUnready := hInv.unready hUndecided k
        have hGone : answers .phase2Ack k ([] : List (Packet ι)) = 0 := rfl
        simp only [ProposerStateMachine.isReadyToCommit, hSecond, true_and, decide_eq_false_iff_not,
          not_or] at hUnready
        omega

end Step

/-- An undisturbed instance does not come to rest without a decision while the
proposers are too few to hold half of the acceptors each. -/
theorem quiescent_decided (cfg : Config ι) (hConnected : ∀ j slot, cfg.connected j slot = true)
    (hDistinct : cfg.last.acceptor.Nodup) {s : State ι}
    (run : Run (step cfg) (Undisturbed cfg) (init cfg) s) (hQuiescent : s.network = [])
    (proposers : Finset ι) (hProposers : ∀ j, s.given j ≠ none → j ∈ proposers)
    (hSent : ∃ j, s.given j ≠ none)
    (hFew : proposers.card * (cfg.last.acceptor.length / 2) < cfg.last.acceptor.length) :
    s.decided ≠ [] := by
  intro hUndecided
  obtain ⟨j, hGiven⟩ := hSent
  have hNonempty : cfg.last.acceptor ≠ [] := by
    intro hNil
    rw [hNil] at hFew
    exact Nat.not_lt_zero _ hFew
  obtain ⟨hInv, hStanding⟩ := run_standing hDistinct hNonempty hConnected run
  obtain ⟨holder, h⟩ := hStanding hUndecided
  obtain ⟨hHeld, hShare⟩ := h.share hInv hQuiescent hUndecided hGiven
  have hSides : ∀ a ∈ members cfg, holder a ∈ proposers.image some := by
    intro a ha
    obtain ⟨k, hHolder, hProposed⟩ := hHeld a ha
    rw [hHolder]
    exact Finset.mem_image_of_mem some (hProposers k hProposed)
  have hCount := Finset.card_le_mul_card_image_of_maps_to hSides (cfg.last.acceptor.length / 2) (by
    intro side hSide
    obtain ⟨k, hk, rfl⟩ := Finset.mem_image.mp hSide
    by_cases hProposed : s.given k = none
    · have hNobody : (members cfg).filter (fun a => holder a = some k) = ∅ := by
        apply Finset.filter_false_of_mem
        exact fun a ha hHolder => (h.proposer k).asked a ha hHolder hProposed
      rw [hNobody]
      exact Nat.zero_le _
    · exact hShare k hProposed)
  have hMembers : (members cfg).card = cfg.last.acceptor.length :=
    List.toFinset_card_of_nodup hDistinct
  have hImage : (proposers.image some).card ≤ proposers.card := Finset.card_image_le
  have hBound := Nat.mul_le_mul_left (cfg.last.acceptor.length / 2) hImage
  rw [Nat.mul_comm] at hFew
  omega

instance (cfg : Config ι) (s : State ι) (action : Action ι) : Decidable (Undisturbed cfg s action) :=
  match action with
  | .newProposal _ p => inferInstanceAs (Decidable (Proposal.noProposal.compare p ≤ 0))
  | .deliver (.toAcceptor j a m) =>
      inferInstanceAs (Decidable ((queue (toward j a) s.network).head? = some m))
  | .proposerTimeout j => inferInstanceAs
      (Decidable (((s.proposers j).checkTimeout s.now cfg.timeout).2 ≠ .handled))
  | .acceptorTimeout a => inferInstanceAs
      (Decidable (¬ ((s.acceptors a).checkTimeout s.now cfg.timeout).2 = .handled))
  | .wait _ => inferInstanceAs (Decidable True)
  | .deliver (.toProposer _ _ _) => inferInstanceAs (Decidable True)
  | .sendCommitment _ => inferInstanceAs (Decidable True)

theorem undisturbed_run {cfg : Config ι} {s t : State ι} {actions : List (Action ι)}
    (h : exec (guarded (step cfg) fun u a => decide (Undisturbed cfg u a)) s actions = some t) :
    Run (step cfg) (Undisturbed cfg) s t :=
  Run.of_guarded (fun _ _ hCheck => of_decide_eq_true hCheck) h

/-- A lone proposer decides. -/
theorem quiescent_oneAcceptor : ∃ s : State Nat, s.network = [] ∧ s.decided ≠ [] := by
  have hExec : (exec (guarded (step oneAcceptor) fun u a => decide (Undisturbed oneAcceptor u a))
      (init oneAcceptor) (proposeAlone 0 (recoverTo 5673))).map
        (fun s => (s.network, s.given)) =
      some ([], Function.update (fun _ => none) 0 (some (recoverTo 5673))) := by rfl
  obtain ⟨s, hs, hEnd⟩ := Option.map_eq_some_iff.mp hExec
  obtain ⟨hQuiescent, hGiven⟩ := Prod.mk.inj hEnd
  refine ⟨s, hQuiescent, ?_⟩
  apply quiescent_decided oneAcceptor (fun _ _ => rfl) (by decide) (undisturbed_run hs)
    hQuiescent {0}
  · intro j hj
    by_contra hOther
    rw [hGiven, Function.update_of_ne (by simpa using hOther)] at hj
    exact hj rfl
  · exact ⟨0, by rw [hGiven, Function.update_self]; simp⟩
  · decide

section TwoAcceptors

/-- The address `127.0.0.2`. -/
def neighbour : IPString := ⟨[49, 50, 55, 46, 48, 46, 48, 46, 50], by decide, by decide⟩

def twoAcceptors : Config Nat := { oneAcceptor with last := ⟨1, [localhost, neighbour]⟩ }

/-- Two machines propose the same and are promised everything. Each gets the
vote of the acceptor that its request reaches first. -/
def splitVote (p : Proposal) : List (Action Nat) :=
  let message (body : PaxosBody) : PaxosMessage := ⟨2, twoAcceptors.name, body⟩
  let links : List (Nat × IPString) :=
    [(0, localhost), (1, neighbour), (0, neighbour), (1, localhost)]
  [.newProposal 0 p, .newProposal 1 p] ++
    links.map (fun link => .deliver (.toAcceptor link.1 link.2 (message (.phase1Proposal p)))) ++
    links.map (fun link => .deliver (.toProposer link.2 link.1 (message .phase1Ack))) ++
    links.map (fun link => .deliver (.toAcceptor link.1 link.2 (message (.phase2Request p)))) ++
    (links.take 2).map fun link => .deliver (.toProposer link.2 link.1 (message .phase2Ack))

/-- Two proposers of one recovery hold one of two acceptors each, and nothing
is under way any more. -/
theorem quiescent_undecided :
    ¬ ∀ (cfg : Config Nat) (s : State Nat), (∀ j slot, cfg.connected j slot = true) →
      cfg.last.acceptor.Nodup → cfg.last.acceptor ≠ [] →
      Run (step cfg) (Undisturbed cfg) (init cfg) s → s.network = [] →
      ∀ j k p, j ≠ k → s.given j = some p → s.given k = some p → s.decided ≠ [] := by
  intro h
  have hExec : (exec (guarded (step twoAcceptors) fun u a => decide (Undisturbed twoAcceptors u a))
      (init twoAcceptors) (splitVote (recoverTo 5673))).map
        (fun s => (s.network, s.given 0, s.given 1, s.decided)) =
      some ([], some (recoverTo 5673), some (recoverTo 5673), []) := by decide
  obtain ⟨s, hs, hEnd⟩ := Option.map_eq_some_iff.mp hExec
  simp only [Prod.mk.injEq] at hEnd
  obtain ⟨hQuiescent, hFirst, hSecond, hUndecided⟩ := hEnd
  exact h twoAcceptors s (fun _ _ => rfl) (by decide) (by decide) (undisturbed_run hs) hQuiescent
    0 1 (recoverTo 5673) (by decide) hFirst hSecond hUndecided

end TwoAcceptors

end QpidRecovery.Instance
