import QpidRecovery.Acceptor.Process

/-! How the version registered under a service name moves. `createAcceptor`
takes the version of the last request as it is, so everything here rests on
the order of the requests. -/
namespace QpidRecovery.Acceptor

open Transition

variable {Fd : Type}

/-- The machine under a name. -/
def State.machine (s : State Fd) (name : ServiceName) : Option AcceptorStateMachine :=
  registered s.accname name

/-- The machine registered under a name has sent a `PHASE2ACK` or is in
`PHASE3`. -/
def State.Voted (s : State Fd) (name : ServiceName) (a : AcceptorStateMachine) : Prop :=
  a.state = .phase3 ∨ ∃ k ∈ s.acked, k.name = name ∧ k.machine = s.born name

/-- A request for a name carries no earlier version than the machine registered
under it, and a later one if that machine has voted. -/
def Increasing (s : State Fd) : Event Fd → Prop
  | .request r => ∀ a, s.machine r.name = some a →
      a.version ≤ r.votingversion ∧ (s.Voted r.name a → a.version < r.votingversion)
  | _ => True

structure Inv (s : State Fd) : Prop where
  registry : Registry s.accname
  /-- An acknowledgement is the registered machine's own, or of an older
  version than that machine's. -/
  acked : ∀ k ∈ s.acked, ∃ a, s.machine k.name = some a ∧
    (k.version < a.version ∨ k.version = a.version ∧ k.machine = s.born k.name)
  single : ∀ k ∈ s.acked, ∀ l ∈ s.acked, k.name = l.name → k.version = l.version →
    k.machine = l.machine

/-- What became of a machine: there is one of its version or a later one, and
one that has voted is still the same, or one of a later version took its place. -/
def Kept (s t : State Fd) (name : ServiceName) (a : AcceptorStateMachine) : Prop :=
  ∃ b, t.machine name = some b ∧ a.version ≤ b.version ∧
    (s.Voted name a → (t.born name = s.born name ∧ t.Voted name b) ∨ a.version < b.version)

/-- Nothing happens to a machine. -/
theorem Kept.refl {s : State Fd} {name : ServiceName} {a : AcceptorStateMachine}
    (h : s.machine name = some a) : Kept s s name a :=
  ⟨a, h, Nat.le_refl _, fun hVoted => .inl ⟨rfl, hVoted⟩⟩

/-- What is kept in two parts of a run is kept in the whole. -/
theorem Kept.trans {s t u : State Fd} {name : ServiceName} {a : AcceptorStateMachine}
    (first : Kept s t name a) (second : ∀ b, t.machine name = some b → Kept t u name b) :
    Kept s u name a := by
  obtain ⟨b, hb, hLe, hOld⟩ := first
  obtain ⟨c, hc, hLe', hOld'⟩ := second b hb
  refine ⟨c, hc, Nat.le_trans hLe hLe', ?_⟩
  intro hVoted
  rcases hOld hVoted with ⟨hBorn, hStill⟩ | hLt
  · rcases hOld' hStill with ⟨hBorn', hStill'⟩ | hLt'
    · exact .inl ⟨hBorn'.trans hBorn, hStill'⟩
    · exact .inr (Nat.lt_of_le_of_lt hLe hLt')
  · exact .inr (Nat.lt_of_lt_of_le hLt hLe')

/-- A machine that a call left at its version and number, and in `PHASE3` if it
was there. -/
theorem Kept.of_same {s t : State Fd} {name : ServiceName} {a b : AcceptorStateMachine}
    (h : t.machine name = some b) (hVersion : b.version = a.version)
    (hBorn : t.born name = s.born name) (hAcked : s.acked ⊆ t.acked)
    (hPhase : a.state = .phase3 → b.state = .phase3) : Kept s t name a := by
  refine ⟨b, h, Nat.le_of_eq hVersion.symm, fun hVoted => .inl ⟨hBorn, ?_⟩⟩
  rcases hVoted with hThird | ⟨k, hk, hName, hMachine⟩
  · exact .inl (hPhase hThird)
  · exact .inr ⟨k, hAcked hk, hName, hMachine.trans hBorn.symm⟩

/-- A further acknowledgement takes no vote back. -/
theorem Kept.acknowledge {s t : State Fd} {name : ServiceName} {a : AcceptorStateMachine}
    (h : Kept s t name a) {acked : List Acknowledgement} (hAcked : t.acked ⊆ acked) :
    Kept s { t with acked := acked } name a := by
  obtain ⟨b, hb, hLe, hVote⟩ := h
  refine ⟨b, hb, hLe, ?_⟩
  intro hVoted
  refine (hVote hVoted).imp_left (And.imp_right ?_)
  exact Or.imp_right fun ⟨k, hk, hOwn⟩ => ⟨k, hAcked hk, hOwn⟩

/-- Acknowledgements stay behind the machines that take over. -/
theorem Inv.of_kept {s t : State Fd} (h : Inv s) (hRegistry : Registry t.accname)
    (hKept : ∀ name a, s.machine name = some a → Kept s t name a)
    (hAcked : t.acked = s.acked) : Inv t where
  registry := hRegistry
  acked := by
    intro k hk
    rw [hAcked] at hk
    obtain ⟨a, ha, hOld⟩ := h.acked k hk
    obtain ⟨b, hb, hLe, hVote⟩ := hKept k.name a ha
    refine ⟨b, hb, ?_⟩
    rcases hOld with hLt | ⟨hVersion, hMachine⟩
    · exact .inl (Nat.lt_of_lt_of_le hLt hLe)
    · rcases hVote (.inr ⟨k, hk, rfl, hMachine⟩) with ⟨hBorn, _⟩ | hLater
      · rw [hBorn]
        omega
      · exact .inl (hVersion ▸ hLater)
  single := by
    rw [hAcked]
    exact h.single

/-- Only a machine at the message's version acknowledges it. -/
theorem acknowledged_version {now : Time} {ready : Fd} {m : PaxosMessage}
    {a : AcceptorStateMachine} {p : Proposal}
    (h : acknowledged m (a.handleMessage now ready m).effects = some p) :
    m.version = a.version := by
  generalize hReaction : a.handleMessage now ready m = r at h
  have hOutcome := a.handleMessage_outcome now ready m
  rw [hReaction] at hOutcome
  cases hOutcome with
  | accepted q hName hVersion => exact hVersion.symm
  | promised q hName hVersion => exact hVersion.symm
  | refused body hName hVersion => exact hVersion.symm
  | _ =>
      unfold acknowledged at h
      split at h <;> simp at h

/-- A new acknowledgement comes from the registered machine at its version. -/
theorem Inv.acknowledge {s : State Fd} (h : Inv s) {k : Acknowledgement}
    {a : AcceptorStateMachine} (ha : s.machine k.name = some a) (hVersion : k.version = a.version)
    (hMachine : k.machine = s.born k.name) : Inv { s with acked := k :: s.acked } where
  registry := h.registry
  acked := by
    intro l hl
    rcases List.mem_cons.mp hl with rfl | hl
    · exact ⟨a, ha, Or.inr ⟨hVersion, hMachine⟩⟩
    · exact h.acked l hl
  single := by
    have hOld : ∀ l ∈ s.acked, l.name = k.name → l.version = k.version →
        l.machine = k.machine := by
      intro l hl hName hSame
      obtain ⟨b, hb, hOld⟩ := h.acked l hl
      rw [hName, ha] at hb
      cases hb
      rw [hName] at hOld
      rcases hOld with hLt | ⟨_, hBorn⟩
      · omega
      · rw [hBorn, hMachine]
    intro l hl l' hl' hName hSame
    rcases List.mem_cons.mp hl with hNew | hPast <;>
      rcases List.mem_cons.mp hl' with hNew' | hPast'
    · rw [hNew, hNew']
    · subst hNew
      exact (hOld l' hPast' hName.symm hSame.symm).symm
    · subst hNew'
      exact hOld l hPast hName hSame
    · exact h.single l hPast l' hPast' hName hSame

/-- The machines after a message, before its acknowledgement is recorded. -/
theorem message_kept {s : State Fd} (h : Inv s) (ready : Fd) (m : PaxosMessage) (regfd : List Fd) :
    let t : State Fd :=
      { s with accname := (handlePaxosMessage s.now ready m s.accname).accname, regfd := regfd }
    Inv t ∧ (∀ name a, s.machine name = some a → Kept s t name a) ∧
      ∀ p, acknowledged m (handlePaxosMessage s.now ready m s.accname).effects = some p →
        ∃ b, t.machine m.name = some b ∧ m.version = b.version := by
  intro t
  obtain ⟨hRegistry, hLookup, hEffects⟩ := h.registry.handlePaxosMessage s.now ready m
  have hKept : ∀ name a, s.machine name = some a → Kept s t name a := by
    intro name a ha
    by_cases hName : name = m.name
    · subst hName
      have hb : t.machine m.name = some (a.handleMessage s.now ready m).machine :=
        ((hLookup m.name).trans (if_pos rfl)).trans (congrArg _ ha)
      refine Kept.of_same hb (a.handleMessage_version _ _ _) rfl (List.Subset.refl _) ?_
      intro hThird
      rw [a.handleMessage_phase3 s.now ready m hThird]
      exact hThird
    · exact Kept.of_same (((hLookup name).trans (if_neg hName)).trans ha) rfl rfl
        (List.Subset.refl _) id
  refine ⟨h.of_kept hRegistry hKept rfl, hKept, ?_⟩
  intro p hp
  rw [hEffects] at hp
  cases ha : registered s.accname m.name with
  | none =>
      rw [ha] at hp
      unfold acknowledged at hp
      split at hp <;> simp at hp
  | some a =>
      rw [ha] at hp
      refine ⟨(a.handleMessage s.now ready m).machine, ?_, ?_⟩
      · exact ((hLookup m.name).trans (if_pos rfl)).trans (congrArg _ ha)
      · rw [a.handleMessage_version]
        exact acknowledged_version hp

section Runs
variable [DecidableEq Fd]

/-- One iteration of the main loop. -/
theorem step_kept {s t : State Fd} {event : Event Fd} (h : Inv s) (hOk : Increasing s event)
    (hStep : step s event = some t) :
    Inv t ∧ ∀ name a, s.machine name = some a → Kept s t name a := by
  have hQuiet (hAccname : t.accname = s.accname) (hBorn : t.born = s.born)
      (hAcked : t.acked = s.acked) :
      Inv t ∧ ∀ name a, s.machine name = some a → Kept s t name a := by
    have hKept : ∀ name a, s.machine name = some a → Kept s t name a := by
      intro name a ha
      refine Kept.of_same (b := a) ?_ rfl (by rw [hBorn]) ?_ id
      · rw [State.machine, hAccname]
        exact ha
      · rw [hAcked]
        exact List.Subset.refl _
    exact ⟨h.of_kept (hAccname ▸ h.registry) hKept hAcked, hKept⟩
  cases event with
  | wait d =>
      cases hStep
      exact hQuiet rfl rfl rfl
  | request r =>
      obtain ⟨hRegistry, hLookup⟩ := h.registry.createAcceptor s.now r
      have hNext := Option.some.inj hStep
      have hKept : ∀ name a, s.machine name = some a → Kept s t name a := by
        intro name a ha
        subst hNext
        by_cases hName : name = r.name
        · subst hName
          obtain ⟨hLe, hLater⟩ := hOk a ha
          exact ⟨_, (hLookup r.name).trans (if_pos rfl), hLe, fun hVoted => .inr (hLater hVoted)⟩
        · exact Kept.of_same (((hLookup name).trans (if_neg hName)).trans ha) rfl
            (Function.update_of_ne hName _ _) (List.Subset.refl _) id
      subst hNext
      exact ⟨h.of_kept hRegistry hKept rfl, hKept⟩
  | connection newpaxossfd =>
      cases hStep
      exact hQuiet rfl rfl rfl
  | message ready m =>
      simp only [step] at hStep
      split at hStep
      next hReady =>
        have hNext := Option.some.inj hStep
        obtain ⟨hInv, hKept, hSent⟩ := message_kept h ready m t.regfd
        cases hAck : acknowledged m (handlePaxosMessage s.now ready m s.accname).effects with
        | none =>
            rw [hAck] at hNext
            subst hNext
            exact ⟨⟨hInv.registry, hInv.acked, hInv.single⟩, hKept⟩
        | some p =>
            obtain ⟨b, hb, hVersion⟩ := hSent p hAck
            rw [hAck] at hNext
            subst hNext
            have hNew := hInv.acknowledge (k := ⟨m.name, m.version, s.born m.name, p⟩) hb
              hVersion rfl
            refine ⟨⟨hNew.registry, hNew.acked, hNew.single⟩, ?_⟩
            exact fun name a ha => (hKept name a ha).acknowledge (List.subset_cons_self _ _)
      · cases hStep
  | receiveError ready =>
      simp only [step] at hStep
      split at hStep
      · cases hStep
        exact hQuiet rfl rfl rfl
      · cases hStep
  | timeout =>
      obtain ⟨hRegistry, hLookup⟩ := h.registry.map
        (fun a => (a.checkTimeout s.now (seconds 4)).1) (fun a => a.checkTimeout_name _ _)
      have hNext := Option.some.inj hStep
      have hKept : ∀ name a, s.machine name = some a → Kept s t name a := by
        intro name a ha
        subst hNext
        refine Kept.of_same ((hLookup name).trans (congrArg _ ha)) ?_ rfl (List.Subset.refl _) ?_
        · exact a.checkTimeout_version s.now (seconds 4)
        · intro hThird
          have hSame := a.checkTimeout_phase3 s.now (seconds 4) hThird
          exact (congrArg AcceptorStateMachine.state hSame).trans hThird
      subst hNext
      exact ⟨h.of_kept hRegistry hKept rfl, hKept⟩

omit [DecidableEq Fd] in
theorem init_inv (start : Time) : Inv (State.init start : State Fd) where
  registry := ⟨by simp [State.init], List.nodup_nil⟩
  acked := by simp [State.init]
  single := by simp [State.init]

theorem run_kept {s t : State Fd} (h : Inv s) (run : Run step Increasing s t) :
    Inv t ∧ ∀ name a, s.machine name = some a → Kept s t name a := by
  refine Run.invariant (P := fun u => Inv u ∧ ∀ name a, s.machine name = some a → Kept s u name a)
    run ⟨h, fun _ _ ha => Kept.refl ha⟩ ?_
  rintro u event v ⟨hInv, hKept⟩ hOk hStep
  obtain ⟨hInv', hKept'⟩ := step_kept hInv hOk hStep
  exact ⟨hInv', fun name a ha => (hKept name a ha).trans fun b hb => hKept' name b hb⟩

/-- As long as requests come with versions that do not decrease, and increase
once the machine has voted, a registered version never decreases, a machine that
has voted is replaced only by one of a later version, and all acknowledgements
for one name and version are one machine's. -/
theorem version_never_decreases (start : Time) (s t : State Fd)
    (before : Run step Increasing (State.init start) s) (after : Run step Increasing s t) :
    (∀ name a, s.machine name = some a → ∃ b, t.machine name = some b ∧
      a.version ≤ b.version ∧
      (s.Voted name a → t.born name ≠ s.born name → a.version < b.version)) ∧
    ∀ k ∈ t.acked, ∀ l ∈ t.acked, k.name = l.name → k.version = l.version →
      k.machine = l.machine := by
  have hInv := (run_kept (init_inv start) before).1
  obtain ⟨hInv', hKept⟩ := run_kept hInv after
  refine ⟨?_, hInv'.single⟩
  intro name a ha
  obtain ⟨b, hb, hLe, hVote⟩ := hKept name a ha
  refine ⟨b, hb, hLe, ?_⟩
  intro hVoted hNew
  rcases hVote hVoted with ⟨hBorn, _⟩ | hLt
  · exact absurd hBorn hNew
  · exact hLt

end Runs

section Restart

/-- What the requestor of the service sends when its committed version is `v`. -/
def requestAt (v : Nat) : ParticipateRequest :=
  ⟨brokerService, localhost, 5672, v + 1, v, [localhost]⟩

def recoverTo (port : UInt32) : Proposal :=
  .recoveryProposal ⟨2, localhost, 5672, localhost, port, 100⟩

/-- Both phases of a proposal of version 2. -/
def propose (p : Proposal) : List (Event Nat) :=
  [.message 0 ⟨2, brokerService, .phase1Proposal p⟩, .message 0 ⟨2, brokerService, .phase2Request p⟩]

/-- The first request arrives again after an acknowledgement; later the
requestor has changed its acceptors. -/
def repeated : List (Event Nat) :=
  [.connection 0, .request (requestAt 1)] ++ propose (recoverTo 5673) ++
    [.request (requestAt 1)] ++ propose (recoverTo 5674) ++ [.request (requestAt 2)]

/-- A repeated request makes the process acknowledge two unequal proposals of
one version, and a requestor that starts over takes the version back. -/
theorem version_decreases_after_restart :
    ∃ s t : State Nat,
      Run step (fun _ _ => True) (State.init 0) s ∧ Run step (fun _ _ => True) s t ∧
      (∃ a b, s.machine brokerService = some a ∧ t.machine brokerService = some b ∧
        b.version < a.version) ∧
      ∃ k ∈ t.acked, ∃ l ∈ t.acked, k.name = l.name ∧ k.version = l.version ∧
        k.machine ≠ l.machine ∧ k.proposal.compare l.proposal ≠ 0 := by
  have hExec : (exec step (State.init 0) repeated).map
      (fun s => (s.machine brokerService, s.acked)) =
      some (some (.new 0 brokerService 3 (.acceptorChangeProposal ⟨2, [localhost]⟩)),
        [⟨brokerService, 2, 2, recoverTo 5674⟩, ⟨brokerService, 2, 1, recoverTo 5673⟩]) := by
    decide
  obtain ⟨s, hs, hState⟩ := Option.map_eq_some_iff.mp hExec
  obtain ⟨hMachine, hAcked⟩ := Prod.mk.inj hState
  have hExec' : (exec step (State.init 0) (repeated ++ [.request (requestAt 1)])).map
      (fun t => (t.machine brokerService, t.acked)) =
      some (some (.new 0 brokerService 2 (.acceptorChangeProposal ⟨1, [localhost]⟩)),
        [⟨brokerService, 2, 2, recoverTo 5674⟩, ⟨brokerService, 2, 1, recoverTo 5673⟩]) := by
    decide
  rw [exec_append hs] at hExec'
  obtain ⟨t, ht, hState'⟩ := Option.map_eq_some_iff.mp hExec'
  obtain ⟨hMachine', hAcked'⟩ := Prod.mk.inj hState'
  refine ⟨s, t, Run.of_exec (fun _ _ _ => trivial) hs, Run.of_exec (fun _ _ _ => trivial) ht,
    ⟨_, _, hMachine, hMachine', by decide⟩, ?_⟩
  rw [hAcked']
  exact ⟨_, List.mem_cons_self, _, List.mem_cons_of_mem _ List.mem_cons_self, by decide⟩

/-- A request that is repeated in time does no harm. -/
theorem version_never_decreases_requestAt :
    ∃ s t : State Nat, s.acked = [⟨brokerService, 2, 2, recoverTo 5673⟩] ∧
      (∀ name a, s.machine name = some a → ∃ b, t.machine name = some b ∧
        a.version ≤ b.version ∧
        (s.Voted name a → t.born name ≠ s.born name → a.version < b.version)) ∧
      t.born brokerService ≠ s.born brokerService := by
  obtain ⟨u, hu⟩ : ∃ u : State Nat,
      exec step (State.init 0) [.connection 0, .request (requestAt 1)] = some u := ⟨_, rfl⟩
  obtain ⟨v, hv⟩ : ∃ v, step u (.request (requestAt 1)) = some v := ⟨_, rfl⟩
  have hFirst : Run step Increasing (State.init 0) u := by
    cases hu
    exact ((Run.refl _).tail (a := .connection 0) trivial rfl).tail
      (a := .request (requestAt 1)) (fun a ha => by cases ha) rfl
  have hAgain : Run step Increasing (State.init 0) v := by
    refine hFirst.tail (a := .request (requestAt 1)) ?_ hv
    cases hu
    intro a ha
    cases ha
    refine ⟨Nat.le_refl _, ?_⟩
    rintro (hThird | ⟨k, hk, _⟩)
    · cases hThird
    · cases hk
  have hBoth : (exec step v (propose (recoverTo 5673))).map
      (fun s => (s.acked, s.born brokerService, s.created,
        (s.machine brokerService).map AcceptorStateMachine.version)) =
      some ([⟨brokerService, 2, 2, recoverTo 5673⟩], 2, 2, some 2) := by
    cases hu
    cases hv
    decide
  obtain ⟨s, hs, hState⟩ := Option.map_eq_some_iff.mp hBoth
  simp only [Prod.mk.injEq] at hState
  obtain ⟨hAcked, hBorn, hCreated, hVersion⟩ := hState
  have hMessages : Run step Increasing v s := by
    refine Run.of_exec ?_ hs
    intro w event hMem
    simp only [propose, List.mem_cons, List.not_mem_nil, or_false] at hMem
    rcases hMem with rfl | rfl <;> trivial
  obtain ⟨t, ht⟩ : ∃ t, step s (.request (requestAt 2)) = some t := ⟨_, rfl⟩
  have hNext : Run step Increasing s t := by
    refine (Run.refl s).tail (a := .request (requestAt 2)) ?_ ht
    intro a ha
    have hMachine : s.machine brokerService = some a := ha
    have hOld : a.version = 2 := by simpa [hMachine] using hVersion
    have hLater : a.version < (requestAt 2).votingversion := by
      rw [hOld]
      decide
    exact ⟨hLater.le, fun _ => hLater⟩
  refine ⟨s, t, hAcked, (version_never_decreases 0 s t (hAgain.trans hMessages) hNext).1, ?_⟩
  have hReborn : t.born brokerService = s.created + 1 := by
    cases ht
    simp [requestAt]
  rw [hReborn, hBorn, hCreated]
  decide

end Restart

end QpidRecovery.Acceptor
