import QpidRecovery.Instance.Standing

/-! What a proposer does for its standing: it asks every acceptor, counts the
replies, and asks for the votes on a majority of promises. -/
namespace QpidRecovery.Instance

open Fifo

variable {ι : Type} [DecidableEq ι]

section Proposers
variable {cfg : Config ι} {holder : IPString → Option ι}
  {acceptors : IPString → AcceptorStateMachine} {network network' : List (Packet ι)}
  {given : Option Proposal} {j : ι} {psm : ProposerStateMachine IPString} {a : IPString}
  {m : PaxosMessage}

/-- A proposer has sent one message to every acceptor. -/
structure Asked (cfg : Config ι) (j : ι) (m : PaxosMessage)
    (network network' : List (Packet ι)) : Prop where
  outgoing : ∀ a ∈ members cfg, queue (toward j a) network' = queue (toward j a) network ++ [m]
  replies : ∀ b m', .toProposer b j m' ∈ network' → .toProposer b j m' ∈ network

theorem queue_toward_all {acceptor : List IPString} (hDistinct : acceptor.Nodup)
    (ha : a ∈ acceptor) :
    queue (toward j a) (acceptor.map fun b => .toAcceptor j b m) = [m] := by
  induction acceptor with
  | nil => cases ha
  | cons b rest ih =>
      obtain ⟨hFirst, hRest⟩ := List.nodup_cons.mp hDistinct
      rw [List.map_cons, queue]
      by_cases hSame : b = a
      · rw [hSame] at hFirst ⊢
        have hNone : queue (toward j a) (rest.map fun b => Packet.toAcceptor j b m) = [] := by
          apply queue_none
          intro m' hMem
          obtain ⟨b, hb, hEq⟩ := List.mem_map.mp hMem
          cases hEq
          exact hFirst hb
        rw [List.filterMap_cons_some (toward_self j a m), ← queue, hNone]
      · rw [List.filterMap_cons_none (toward_other (fun _ => hSame) m), ← queue]
        exact ih hRest ((List.mem_cons.mp ha).resolve_left (Ne.symm hSame))

omit [DecidableEq ι] in
/-- A broadcast over a full table. -/
theorem sends_broadcast (hSlots : psm.accsfd = cfg.last.acceptor.map some) (body : PaxosBody) :
    sends (psm.broadcast body) =
      cfg.last.acceptor.map fun fd => (fd, ⟨psm.version, psm.name, body⟩) := by
  simp [ProposerStateMachine.broadcast, hSlots, sends]

theorem asked_broadcast (hDistinct : cfg.last.acceptor.Nodup)
    (hSlots : psm.accsfd = cfg.last.acceptor.map some) (body : PaxosBody) :
    Asked cfg j ⟨psm.version, psm.name, body⟩ network
      (network ++ (sends (psm.broadcast body)).map fun out => .toAcceptor j out.1 out.2) where
  outgoing := fun a ha => by
    rw [queue_append, sends_broadcast hSlots, List.map_map]
    congr 1
    exact queue_toward_all hDistinct (List.mem_toFinset.mp ha)
  replies := fun b m' hMem => by simpa using hMem

/-- Nobody has acknowledged a machine that proposed nothing. -/
theorem ProposerStanding.propose
    (h : ProposerStanding cfg holder acceptors network none j psm) (now : Time) (p : Proposal)
    (hNet : Asked cfg j (ask cfg p) network network') :
    ProposerStanding cfg holder acceptors network' (some p) j
      { psm with proposal := p, timestamp := now, state := .phase1 } := by
  have hState := (h.idle rfl).1
  have hNobody (a : IPString) (ha : a ∈ members cfg) : holder a ≠ some j :=
    fun hHolder => h.asked a ha hHolder rfl
  have hQuiet (a : IPString) (ha : a ∈ members cfg) :
      queue (toward j a) network' = [ask cfg p] := by
    have hEmpty := h.outgoing a ha
    rw [Outgoing, hState] at hEmpty
    rw [hNet.outgoing a ha, hEmpty]
    rfl
  exact {
    slots := h.slots
    idle := by simp
    busy := fun _ => .inl rfl
    few := fun _ => by
      show psm.phase1ack * 2 ≤ psm.nacceptor
      rw [(h.idle rfl).2]
      omega
    outgoing := fun a ha => .inr (hQuiet a ha)
    replies := fun b m hMem => by
      have hReply := h.replies b m (hNet.replies b m hMem)
      have hBody := hReply.body
      rw [hState] at hBody
      exact ⟨hReply.version, hReply.name, by simpa using hBody⟩
    unread := fun a ha _ _ => by rw [hQuiet a ha, List.head?_cons]
    asked := fun a ha hHolder => absurd hHolder (hNobody a ha)
    held := fun a ha hHolder => absurd hHolder (hNobody a ha)
    chosen := fun a ha hHolder => absurd hHolder (hNobody a ha)
    promised := fun _ => by
      rw [Finset.filter_false_of_mem hNobody, Finset.card_empty]
      exact Nat.zero_le _
    voted := by simp }

/-- A majority of promises asks every acceptor for its vote. None that holds
its promise for this machine has voted. -/
theorem ProposerStanding.opened (h : ProposerStanding cfg holder acceptors network given j psm)
    (hState : psm.state = .phase1) (now : Time) (ack nack : Nat)
    (hNet : Asked cfg j (request cfg psm.proposal) network network') :
    ProposerStanding cfg holder acceptors network' given j
      { psm with phase1ack := ack, phase1nack := nack, state := .phase2, timestamp := now } := by
  have hActive : given ≠ none := by
    intro hNone
    have hInitial := (h.idle hNone).1
    rw [hState] at hInitial
    cases hInitial
  have hUnvoted (a : IPString) (ha : a ∈ members cfg) :
      ¬(holder a = some j ∧ (acceptors a).state = .phase2) := by
    rintro ⟨hHolder, hVote⟩
    have hPhase := h.chosen a ha hHolder hVote
    rw [hState] at hPhase
    cases hPhase
  exact {
    slots := h.slots
    idle := fun hNone => absurd hNone hActive
    busy := fun _ => .inr rfl
    few := by simp
    outgoing := fun a ha => by
      have hOut := h.outgoing a ha
      rw [Outgoing, hState] at hOut
      rw [hNet.outgoing a ha]
      cases hOut with
      | inl hEmpty => exact .inr (.inl (by rw [hEmpty]; rfl))
      | inr hAsk => exact .inr (.inr (by rw [hAsk]; rfl))
    replies := fun b m hMem => by
      have hReply := h.replies b m (hNet.replies b m hMem)
      exact ⟨hReply.version, hReply.name, hReply.body.imp_right fun hBody =>
        hBody.imp_right fun hVote => ⟨rfl, hVote.2⟩⟩
    unread := fun a ha hNone hGiven => by
      rw [hNet.outgoing a ha, List.head?_append, h.unread a ha hNone hGiven]
      rfl
    asked := h.asked
    held := fun a ha hHolder hPromise => by
      constructor
      · exact (h.held a ha hHolder hPromise).1
      · intro _
        rw [hNet.outgoing a ha]
        exact List.mem_append_right _ List.mem_cons_self
    chosen := fun _ _ _ _ => rfl
    promised := by simp
    voted := fun _ => by
      rw [Finset.filter_false_of_mem hUnvoted, Finset.card_empty]
      exact Nat.zero_le _ }

/-- A reply is counted where it belongs, and is gone from the network. -/
theorem ProposerStanding.counted (h : ProposerStanding cfg holder acceptors network given j psm)
    (hMem : .toProposer a j m ∈ network) (ack1 nack1 ack2 nack2 : Nat)
    (hIdle : psm.state = .initial → ack1 = psm.phase1ack)
    (hFew : psm.state = .phase1 → ack1 * 2 ≤ psm.nacceptor)
    (hAck1 : psm.state = .phase1 → psm.phase1ack + (if m.body = .phase1Ack then 1 else 0) ≤ ack1)
    (hAck2 : psm.state = .phase2 → psm.phase2ack + (if m.body = .phase2Ack then 1 else 0) ≤ ack2) :
    ProposerStanding cfg holder acceptors (network.erase (.toProposer a j m)) given j
      { psm with phase1ack := ack1, phase1nack := nack1, phase2ack := ack2, phase2nack := nack2 } := by
  have hQueue (b : IPString) :
      queue (toward j b) (network.erase (.toProposer a j m)) = queue (toward j b) network :=
    queue_erase_other rfl
  have hGone (body : PaxosBody) : answers body j network =
      answers body j (network.erase (.toProposer a j m)) + if m.body = body then 1 else 0 := by
    rw [answers_erase hMem body j]
    simp [Packet.answers]
  exact {
    slots := h.slots
    idle := fun hNone => by
      obtain ⟨hInitial, hZero⟩ := h.idle hNone
      exact ⟨hInitial, (hIdle hInitial).trans hZero⟩
    busy := h.busy
    few := hFew
    outgoing := fun b hb => by
      rw [hQueue]
      exact h.outgoing b hb
    replies := fun b m' hMem' => by
      have hReply := h.replies b m' (List.mem_of_mem_erase hMem')
      exact ⟨hReply.version, hReply.name, hReply.body⟩
    unread := fun b hb hNone hGiven => by
      rw [hQueue]
      exact h.unread b hb hNone hGiven
    asked := h.asked
    held := fun b hb hHolder hPromise => by
      rw [hQueue]
      exact h.held b hb hHolder hPromise
    chosen := h.chosen
    promised := fun hState => by
      have hBound := h.promised hState
      have hCount := hAck1 hState
      have hLess := hGone .phase1Ack
      dsimp only
      omega
    voted := fun hState => by
      have hBound := h.voted hState
      have hCount := hAck2 hState
      have hLess := hGone .phase2Ack
      dsimp only
      omega }

omit [DecidableEq ι] in
theorem Reply.phase1 (h : Reply cfg psm m) (hName : psm.name = cfg.name)
    (hVersion : psm.version = cfg.version) (hBody : m.body = .phase1Ack ∨ m.body = .phase1Nack)
    (now : Time) :
    psm.handleMessage now a m = psm.handlePhase1Message now a m.body := by
  rcases hBody with hBody | hBody <;>
    simp [ProposerStateMachine.handleMessage, h.name, hName, h.version, hVersion, hBody]

omit [DecidableEq ι] in
theorem Reply.phase2 (h : Reply cfg psm m) (hName : psm.name = cfg.name)
    (hVersion : psm.version = cfg.version) (hBody : m.body = .phase2Ack ∨ m.body = .phase2Nack)
    (now : Time) :
    psm.handleMessage now a m = psm.handlePhase2Message a m.body := by
  rcases hBody with hBody | hBody <;>
    simp [ProposerStateMachine.handleMessage, h.name, hName, h.version, hVersion, hBody]

theorem Asked.erase {out : PaxosMessage}
    (h : Asked cfg j out (network.erase (.toProposer a j m)) network') :
    Asked cfg j out network network' where
  outgoing := fun b hb => by rw [h.outgoing b hb, queue_erase_other rfl]
  replies := fun b m' hMem => List.mem_of_mem_erase (h.replies b m' hMem)

theorem ProposerStanding.state (h : ProposerStanding cfg holder acceptors network given j psm) :
    psm.state = .initial ∨ psm.state = .phase1 ∨ psm.state = .phase2 := by
  cases given with
  | none => exact .inl (h.idle rfl).1
  | some p => exact .inr (h.busy (by simp))

/-- A reply of the first phase. -/
theorem ProposerStanding.receive_phase1
    (h : ProposerStanding cfg holder acceptors network given j psm)
    (hDistinct : cfg.last.acceptor.Nodup) (hSize : psm.nacceptor ≠ 0) (hName : psm.name = cfg.name)
    (hVersion : psm.version = cfg.version) (hMem : .toProposer a j m ∈ network)
    (hBody : m.body = .phase1Ack ∨ m.body = .phase1Nack) (now : Time) :
    ProposerStanding cfg holder acceptors
      (network.erase (.toProposer a j m) ++
        (sends (psm.handlePhase1Message now a m.body).effects).map fun out =>
          .toAcceptor j out.1 out.2)
      given j (psm.handlePhase1Message now a m.body).machine := by
  have hNot : m.body ≠ .phase2Ack := by
    rcases hBody with hBody | hBody <;> simp [hBody]
  have hCounted (ack nack : Nat) (hState : psm.state = .phase1) (hFew : ack * 2 ≤ psm.nacceptor)
      (hAck : psm.phase1ack + (if m.body = .phase1Ack then 1 else 0) ≤ ack) :
      ProposerStanding cfg holder acceptors (network.erase (.toProposer a j m)) given j
        { psm with phase1ack := ack, phase1nack := nack } := by
    apply h.counted hMem ack nack psm.phase2ack psm.phase2nack
    · simp [hState]
    · exact fun _ => hFew
    · exact fun _ => hAck
    · simp [hState]
  have hDone : psm.state ≠ .phase3 := by
    rcases h.state with hState | hState | hState <;> simp [hState]
  by_cases hState : psm.state = .phase1
  · cases hBody with
    | inl hAck =>
        have hEq : psm.handlePhase1Message now a m.body =
            ProposerStateMachine.checkPhase1 now { psm with phase1ack := psm.phase1ack + 1 } := by
          simp [ProposerStateMachine.handlePhase1Message, hAck, hState]
        rw [hEq, ProposerStateMachine.checkPhase1]
        split
        next hFew =>
          simpa using hCounted _ psm.phase1nack hState hFew.1 (by simp [hAck])
        next =>
          apply h.opened hState now _ psm.phase1nack
          apply Asked.erase
          rw [request, ← hName, ← hVersion]
          exact asked_broadcast hDistinct h.slots _
    | inr hNack =>
        have hFew := h.few hState
        have hEq : psm.handlePhase1Message now a m.body =
            ProposerStateMachine.checkPhase1 now { psm with phase1nack := psm.phase1nack + 1 } := by
          simp [ProposerStateMachine.handlePhase1Message, hNack, hState]
        rw [hEq, ProposerStateMachine.checkPhase1, if_pos (And.intro hFew hSize)]
        simpa using hCounted psm.phase1ack _ hState hFew (by simp [hNack])
  · have hEq : psm.handlePhase1Message now a m.body = ⟨psm, [], .handled⟩ := by
      simp only [ProposerStateMachine.handlePhase1Message, if_neg hDone, if_pos hState]
    have hSame := h.counted hMem psm.phase1ack psm.phase1nack psm.phase2ack psm.phase2nack
      (fun _ => rfl) h.few (fun hPhase => absurd hPhase hState) (by simp [hNot])
    rw [hEq]
    simpa using hSame

/-- A reply of the second phase. -/
theorem ProposerStanding.receive_phase2
    (h : ProposerStanding cfg holder acceptors network given j psm)
    (hMem : .toProposer a j m ∈ network) (hState : psm.state = .phase2)
    (hBody : m.body = .phase2Ack ∨ m.body = .phase2Nack) :
    ProposerStanding cfg holder acceptors
      (network.erase (.toProposer a j m) ++
        (sends (psm.handlePhase2Message a m.body).effects).map fun out =>
          .toAcceptor j out.1 out.2)
      given j (psm.handlePhase2Message a m.body).machine := by
  have hCounted (ack nack : Nat)
      (hAck : psm.phase2ack + (if m.body = .phase2Ack then 1 else 0) ≤ ack) :
      ProposerStanding cfg holder acceptors (network.erase (.toProposer a j m)) given j
        { psm with phase2ack := ack, phase2nack := nack } := by
    apply h.counted hMem psm.phase1ack psm.phase1nack ack nack
    · exact fun _ => rfl
    · exact h.few
    · simp [hState]
    · exact fun _ => hAck
  rcases hBody with hBody | hBody
  · simpa [ProposerStateMachine.handlePhase2Message, ProposerStateMachine.checkPhase2, hState,
      hBody] using hCounted (psm.phase2ack + 1) psm.phase2nack (by simp [hBody])
  · simpa [ProposerStateMachine.handlePhase2Message, ProposerStateMachine.checkPhase2, hState,
      hBody] using hCounted psm.phase2ack (psm.phase2nack + 1) (by simp [hBody])

/-- What a proposer does with a reply. -/
theorem ProposerStanding.receive (h : ProposerStanding cfg holder acceptors network given j psm)
    (hDistinct : cfg.last.acceptor.Nodup) (hSize : psm.nacceptor ≠ 0) (hName : psm.name = cfg.name)
    (hVersion : psm.version = cfg.version) (hMem : .toProposer a j m ∈ network) (now : Time) :
    ProposerStanding cfg holder acceptors
      (network.erase (.toProposer a j m) ++
        (sends (psm.handleMessage now a m).effects).map fun out => .toAcceptor j out.1 out.2)
      given j (psm.handleMessage now a m).machine := by
  have hReply := h.replies a m hMem
  by_cases hBody : m.body = .phase1Ack ∨ m.body = .phase1Nack
  · rw [hReply.phase1 hName hVersion hBody now]
    exact h.receive_phase1 hDistinct hSize hName hVersion hMem hBody now
  · have hLater := (or_assoc.mpr hReply.body).resolve_left hBody
    rw [hReply.phase2 hName hVersion hLater.2 now]
    exact h.receive_phase2 hMem hLater.1 hLater.2

end Proposers

end QpidRecovery.Instance
