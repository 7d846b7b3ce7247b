import QpidRecovery.Proposer.Branches

/-! The records and the trace of the proposer process, and the single changes
that can be made to them. -/
namespace QpidRecovery.Proposer

variable {Fd : Type}

structure Ledger (Fd : Type) where
  monitor : List (Monitored Fd)
  trace : List (Output Fd)

def State.ledger {Id : Type} (s : State Fd Id) : Ledger Fd := ⟨s.monitor, s.trace⟩

/-- The inputs that a run is restricted to: the services that a request may
name, the records that it may replace, the messages that a record may be given
on a connection, the connections that a machine of a name may be started with
when it takes over an acceptor list, the records that may be checked for a
timeout, and the answers of a backup. -/
structure Condition (Fd : Type) where
  created : ServiceName → Prop := fun _ => True
  replaced : Monitored Fd → Prop := fun _ => True
  given : Monitored Fd → Fd → PaxosMessage → Prop := fun _ _ _ => True
  dialled : ServiceName → (Nat → IPString → Option Fd) → Prop := fun _ _ => True
  checked : Time → Monitored Fd → Prop := fun _ _ => True
  answered : BrokerReply → Prop := fun _ => True

/-- No restriction. -/
def anyInput : Condition Fd := {}

/-- The entries that are no calls of their own. -/
def Output.Marks : Output Fd → Prop
  | .subscribed _ _ | .committed _ _ _ _ | .changed _ _ _ => True
  | _ => False

/-- A call that sends no message of a state machine. -/
def Output.Silent (e : Output Fd) : Prop := ¬ e.Marks ∧ ∀ fd m, e ≠ .effect (.send fd m)

/-- A call of a state machine marks nothing. -/
theorem effects_quiet (effects : List (Effect Fd)) :
    ∀ e ∈ effects.map Output.effect, ¬ e.Marks := by
  intro e he
  obtain ⟨call, _, rfl⟩ := List.mem_map.mp he
  exact id

theorem calls_quiet (calls : List RecoveryCall) :
    ∀ e ∈ (calls.map Output.recovery : List (Output Fd)), ¬ e.Marks := by
  intro e he
  obtain ⟨call, _, rfl⟩ := List.mem_map.mp he
  exact id

/-- Nor does an answer. -/
theorem informs_quiet (written : Fd → Bool) (r : ReplyAddress) (sockets : List Fd) :
    ∀ e ∈ informs written r sockets, ¬ e.Marks := by
  intro e he
  obtain ⟨sfd, _, hMem⟩ := List.mem_flatMap.mp he
  rcases List.mem_cons.mp hMem with rfl | hClose
  · exact id
  · split at hClose
    · cases hClose
    · rw [List.mem_singleton.mp hClose]
      exact id

/-- Calls that send nothing are silent. -/
theorem silent_effects {effects : List (Effect Fd)} (h : sends effects = []) :
    ∀ e ∈ effects.map Output.effect, e.Silent := by
  intro e he
  refine ⟨effects_quiet effects e he, ?_⟩
  rintro fd m rfl
  obtain ⟨call, hCall, hSend⟩ := List.mem_map.mp he
  cases hSend
  have hMem := mem_sends.mpr hCall
  rw [h] at hMem
  cases hMem

theorem silent_calls (calls : List RecoveryCall) :
    ∀ e ∈ (calls.map Output.recovery : List (Output Fd)), e.Silent := by
  intro e he
  refine ⟨calls_quiet calls e he, ?_⟩
  rintro fd m rfl
  obtain ⟨call, _, hSend⟩ := List.mem_map.mp he
  cases hSend

/-- Answers to queries are no messages of Paxos. -/
theorem silent_informs (written : Fd → Bool) (r : ReplyAddress) (sockets : List Fd) :
    ∀ e ∈ informs written r sockets, e.Silent := by
  intro e he
  refine ⟨informs_quiet written r sockets e he, ?_⟩
  rintro fd m rfl
  obtain ⟨sfd, _, hMem⟩ := List.mem_flatMap.mp he
  rcases List.mem_cons.mp hMem with hInform | hClose
  · cases hInform
  · split at hClose
    · cases hClose
    · cases List.mem_singleton.mp hClose

/-- One change of one record, with what it adds to the trace. -/
inductive Change (Id : Type) [DecidableEq Id] (ok : Condition Fd) (mon : Monitored Fd) :
    Monitored Fd → List (Output Fd) → Prop where
  | beat (hbc hbc' : HeartbeatClient Fd) (hClient : mon.hbc = some hbc) :
      Change Id ok mon { mon with hbc := some hbc' } []
  | timeout (now : Time) (hOk : ok.checked now mon) :
      Change Id ok mon { mon with psm := (mon.psm.checkTimeout now (seconds 4)).1 } []
  | message (now : Time) (ready : Fd) (m : PaxosMessage) (hOk : ok.given mon ready m)
      (hReceivable : receivable m = true) :
      Change Id ok mon { mon with psm := (mon.psm.handleMessage now ready m).machine }
        ((mon.psm.handleMessage now ready m).effects.map .effect)
  | inform (written : Fd → Bool) :
      Change Id ok mon { mon with informlist := mon.informlist.filter written }
        (informs written mon.address mon.informlist)
  | subscribe (newsfd : Fd) :
      Change Id ok mon { mon with informlist := mon.informlist ++ [newsfd] }
        [.inform newsfd mon.address true, .subscribed mon.name newsfd]
  | propose (now : Time) (hbc : HeartbeatClient Fd) (backupip : IPString) (backupport : UInt32)
      (r : Reaction (ProposerStateMachine Fd) Fd) (hClient : mon.hbc = some hbc)
      (hProposal : r = mon.psm.newProposal now
        (.recoveryProposal ⟨mon.psm.version, mon.ip, mon.port, backupip, backupport, 100⟩)) :
      Change Id ok mon { mon with hbc := none, psm := r.machine } (r.effects.map .effect)
  | commitSelf (now : Time) (rp : RecoveryProposal) (rm : RecoveryManager Id) (reply : BrokerReply)
      (calls : List RecoveryCall) (returned : Int) (written : Fd → Bool)
      (hOk : ok.answered reply) (hReady : mon.psm.isReadyToCommit = true)
      (hProposal : mon.psm.proposal = .recoveryProposal rp)
      (hCopied : rm.copyObjects rp.failip rp.failport rp.backupip rp.backupport reply =
        some (calls, returned)) :
      Change Id ok mon
        { mon with
          ip := rp.backupip
          port := rp.backupport
          psm := (mon.psm.sendCommitment now).1
          informlist := mon.informlist.filter written }
        (.committed mon.name rp .committingSelf
            (rm.storedCreations (IPPortToUrl rp.failip rp.failport)) ::
          (calls.map .recovery ++ (mon.psm.sendCommitment now).2.map .effect ++
            informs written ⟨mon.name, rp.backupip, rp.backupport⟩ mon.informlist))
  | commitOther (rp : RecoveryProposal) (stored : List Operation) (written : Fd → Bool)
      (hState : mon.psm.state = .phase3)
      (hProposal : mon.psm.getCommittingProposal = some (.recoveryProposal rp)) :
      Change Id ok mon
        { mon with
          ip := rp.backupip
          port := rp.backupport
          informlist := mon.informlist.filter written }
        (.committed mon.name rp .committingOther stored ::
          informs written ⟨mon.name, rp.backupip, rp.backupport⟩ mon.informlist)
  | commitAcceptors (now : Time) (r : PaxosResult) (connect : Nat → IPString → Option Fd)
      (ap : AcceptorChangeProposal) (effects : List (Effect Fd))
      (hOk : ok.dialled mon.psm.name connect)
      (hProposal : mon.psm.getCommittingProposal = some (.acceptorChangeProposal ap))
      (hResult : r = .committingSelf → mon.psm.isReadyToCommit = true)
      (hSilent : sends effects = []) :
      Change Id ok mon
        { mon with
          psm := (ProposerStateMachine.new now connect mon.name (ap.newversion + 1)
            ⟨ap.newversion, ap.acceptor⟩).1 }
        (.changed mon.name ap r :: effects.map .effect)

/-- Several changes of one record. -/
inductive Changes (Id : Type) [DecidableEq Id] (ok : Condition Fd) (mon : Monitored Fd) :
    Monitored Fd → List (Output Fd) → Prop where
  | nil : Changes Id ok mon mon []
  | snoc {mon' mon'' : Monitored Fd} {new new' : List (Output Fd)}
      (first : Changes Id ok mon mon' new) (last : Change Id ok mon' mon'' new') :
      Changes Id ok mon mon'' (new ++ new')

/-- A change of one record, of the vector, or of nothing but the trace. -/
inductive Move (Id : Type) [DecidableEq Id] (ok : Condition Fd) :
    Ledger Fd → Ledger Fd → Prop where
  | quiet (l : Ledger Fd) (new : List (Output Fd)) (hSilent : ∀ e ∈ new, e.Silent) :
      Move Id ok l ⟨l.monitor, l.trace ++ new⟩
  | change (l : Ledger Fd) (j : Nat) {mon mon' : Monitored Fd} {new : List (Output Fd)}
      (hMon : l.monitor[j]? = some mon) (hChange : Change Id ok mon mon' new) :
      Move Id ok l ⟨l.monitor.set j mon', l.trace ++ new⟩
  | replace (l : Ledger Fd) (mon' : Monitored Fd) (new : List (Output Fd))
      (hCreated : ok.created mon'.name)
      (hReplaced : ∀ mon ∈ l.monitor, mon.name = mon'.name → ok.replaced mon)
      (hClient : mon'.hbc.isSome) (hOwn : mon'.psm.name = mon'.name)
      (hList : mon'.informlist = []) (hSilent : ∀ e ∈ new, e.Silent) :
      Move Id ok l
        ⟨(l.monitor.eraseP fun mon => mon.name = mon'.name) ++ [mon'], l.trace ++ new⟩

def Moves (Id : Type) [DecidableEq Id] (ok : Condition Fd) : Ledger Fd → Ledger Fd → Prop :=
  Relation.ReflTransGen (Move Id ok)

section Moves
variable {Id : Type} [DecidableEq Id] {ok : Condition Fd}

/-- An invariant of single moves holds after any number of them. -/
theorem Moves.invariant {P : Ledger Fd → Prop} {l l' : Ledger Fd} (moves : Moves Id ok l l')
    (hStart : P l) (hMove : ∀ u v, P u → Move Id ok u v → P v) : P l' := by
  induction moves with
  | refl => exact hStart
  | tail _ last ih => exact hMove _ _ ih last

/-- One change is a change. -/
theorem Change.single {mon mon' : Monitored Fd} {new : List (Output Fd)}
    (h : Change Id ok mon mon' new) : Changes Id ok mon mon' new := by
  have hSnoc := Changes.snoc .nil h
  rwa [List.nil_append] at hSnoc

/-- Changes follow each other. -/
theorem Changes.trans {mon mon' mon'' : Monitored Fd} {new new' : List (Output Fd)}
    (first : Changes Id ok mon mon' new) (second : Changes Id ok mon' mon'' new') :
    Changes Id ok mon mon'' (new ++ new') := by
  induction second with
  | nil => rwa [List.append_nil]
  | snoc _ last ih =>
      rw [← List.append_assoc]
      exact .snoc ih last

/-- The changes of a record in its place in the vector. -/
theorem Changes.moves {mon mon' : Monitored Fd} {new : List (Output Fd)} {l : Ledger Fd} {j : Nat}
    (hMon : l.monitor[j]? = some mon) (changes : Changes Id ok mon mon' new) :
    Moves Id ok l ⟨l.monitor.set j mon', l.trace ++ new⟩ := by
  induction changes with
  | nil =>
      have hSame : l.monitor.set j mon = l.monitor := set_getElem? hMon
      rw [hSame, List.append_nil]
      exact .refl
  | @snoc mon' _ new _ _ last ih =>
      refine .tail ih ?_
      have hBound : j < l.monitor.length := (List.getElem?_eq_some_iff.mp hMon).1
      have hMove := Move.change ⟨l.monitor.set j mon', l.trace ++ new⟩ j
        (List.getElem?_set_self hBound) last
      rwa [List.set_set, List.append_assoc] at hMove

end Moves

section Names
variable {Id : Type} [DecidableEq Id] {ok : Condition Fd}

/-- Every service has one record, and its state machine carries its name. -/
structure WellNamed (l : Ledger Fd) : Prop where
  nodup : (l.monitor.map Monitored.name).Nodup
  own : ∀ mon ∈ l.monitor, mon.psm.name = mon.name

/-- No change renames a record. -/
theorem Change.name {mon mon' : Monitored Fd} {new : List (Output Fd)}
    (h : Change Id ok mon mon' new) : mon'.name = mon.name := by
  cases h <;> rfl

/-- The machine keeps the name of its record. -/
theorem Change.own {mon mon' : Monitored Fd} {new : List (Output Fd)}
    (h : Change Id ok mon mon' new) (hOwn : mon.psm.name = mon.name) :
    mon'.psm.name = mon'.name := by
  cases h with
  | timeout now => exact (mon.psm.checkTimeout_keeps now (seconds 4)).name.trans hOwn
  | message now ready m => exact (mon.psm.handleMessage_keeps now ready m).name.trans hOwn
  | propose now _ _ _ _ _ hProposal =>
      rw [hProposal]
      exact (mon.psm.newProposal_keeps now _).name.trans hOwn
  | commitSelf now => exact (mon.psm.sendCommitment_keeps now).name.trans hOwn
  | commitAcceptors => rfl
  | _ => exact hOwn

theorem eraseP_name (monitor : List (Monitored Fd)) (name : ServiceName) :
    (monitor.eraseP fun mon => mon.name = name).map Monitored.name =
      (monitor.map Monitored.name).erase name := by
  rw [List.erase_eq_eraseP, List.eraseP_map]
  congr 2
  funext mon
  rw [Function.comp_apply, beq_eq_decide]
  exact decide_eq_decide.mpr eq_comm

/-- Names stay distinct and the machines keep theirs. -/
theorem WellNamed.move {l l' : Ledger Fd} (h : WellNamed l) (hMove : Move Id ok l l') :
    WellNamed l' := by
  cases hMove with
  | quiet => exact ⟨h.nodup, h.own⟩
  | change j hMon hChange =>
      constructor
      · rw [List.map_set, hChange.name, set_getElem? (by rw [List.getElem?_map, hMon]; rfl)]
        exact h.nodup
      · intro mon hMem
        rcases List.mem_or_eq_of_mem_set hMem with hOld | rfl
        · exact h.own mon hOld
        · exact hChange.own (h.own _ (List.mem_of_getElem? hMon))
  | replace mon' new _ _ _ hOwn =>
      constructor
      · rw [List.map_append, eraseP_name]
        refine (h.nodup.erase _).append (List.nodup_singleton _) ?_
        rw [List.map_singleton, List.disjoint_singleton]
        exact h.nodup.not_mem_erase
      · intro mon hMem
        rcases List.mem_append.mp hMem with hOld | hNew
        · exact h.own mon (List.mem_of_mem_eraseP hOld)
        · rw [List.mem_singleton.mp hNew]
          exact hOwn

/-- Two records of one name are the same. -/
theorem WellNamed.eq {l : Ledger Fd} (h : WellNamed l) {mon mon' : Monitored Fd}
    (hMem : mon ∈ l.monitor) (hMem' : mon' ∈ l.monitor) (hName : mon.name = mon'.name) :
    mon = mon' :=
  List.inj_on_of_nodup_map h.nodup hMem hMem' hName

end Names

end QpidRecovery.Proposer
