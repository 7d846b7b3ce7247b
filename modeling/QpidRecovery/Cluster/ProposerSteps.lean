import QpidRecovery.Cluster.System
import QpidRecovery.Cluster.Succession
import QpidRecovery.Proposer.Refinement

/-! What one iteration of a proposer does to its machine for the service. The
records of other services are passed over. -/
namespace QpidRecovery.Proposer

variable {Fd : Type}

section Trace
variable (name : ServiceName)

theorem filterMap_sent_effects (effects : List (Effect Fd)) :
    (effects.map Output.effect).filterMap Output.sent = sends effects := by
  rw [List.filterMap_map, sends]
  congr 1
  funext e
  cases e <;> rfl

theorem filterMap_committedSelf_effects (effects : List (Effect Fd)) :
    (effects.map Output.effect).filterMap (Output.committedSelf name) = [] := by
  rw [List.filterMap_map, List.filterMap_eq_nil_iff]
  exact fun _ _ => rfl

theorem filterMap_sent_silent {new : List (Output Fd)} (h : ∀ e ∈ new, e.Silent) :
    new.filterMap Output.sent = [] := by
  rw [List.filterMap_eq_nil_iff]
  intro e he
  obtain ⟨_, hSend⟩ := h e he
  cases e with
  | effect e =>
      cases e with
      | send fd m => exact absurd rfl (hSend fd m)
      | _ => rfl
  | _ => rfl

theorem filterMap_committedSelf_silent {new : List (Output Fd)} (h : ∀ e ∈ new, e.Silent) :
    new.filterMap (Output.committedSelf name) = [] := by
  rw [List.filterMap_eq_nil_iff]
  intro e he
  obtain ⟨hMark, _⟩ := h e he
  cases e with
  | committed => exact absurd trivial hMark
  | changed => exact absurd trivial hMark
  | _ => rfl

end Trace

section Records
variable {name : ServiceName} {monitor : List (Monitored Fd)} {mon mon' : Monitored Fd} {j : Nat}

theorem record_mem (h : record name monitor = some mon) : mon ∈ monitor ∧ mon.name = name :=
  ⟨List.mem_of_find?_eq_some h, by simpa using List.find?_some h⟩

/-- The record of a service is the only one of its name. -/
theorem record_eq (hNodup : (monitor.map Monitored.name).Nodup) (hMem : mon ∈ monitor)
    (hName : mon.name = name) : record name monitor = some mon := by
  cases hRecord : record name monitor with
  | none =>
      have hOther := List.find?_eq_none.mp hRecord mon hMem
      simp [hName] at hOther
  | some found =>
      obtain ⟨hFound, hSame⟩ := record_mem hRecord
      rw [List.inj_on_of_nodup_map hNodup hFound hMem (hSame.trans hName.symm)]

theorem record_set_self (hNodup : (monitor.map Monitored.name).Nodup)
    (hMon : monitor[j]? = some mon) (hName : mon.name = name) (hSame : mon'.name = mon.name) :
    record name (monitor.set j mon') = some mon' := by
  apply record_eq
  · rw [List.map_set, hSame, set_getElem? (by rw [List.getElem?_map, hMon]; rfl)]
    exact hNodup
  · exact List.mem_of_getElem? (List.getElem?_set_self (List.getElem?_eq_some_iff.mp hMon).1)
  · exact hSame.trans hName

theorem record_set_of_ne (hMon : monitor[j]? = some mon) (hName : mon.name ≠ name)
    (hSame : mon'.name = mon.name) : record name (monitor.set j mon') = record name monitor := by
  induction monitor generalizing j with
  | nil => cases hMon
  | cons head rest ih =>
      cases j with
      | zero =>
          cases Option.some.inj hMon
          simp [record, hName, hSame]
      | succ j =>
          rw [List.set_cons_succ]
          unfold record at ih ⊢
          rw [List.find?_cons, List.find?_cons, ih hMon]

theorem record_replace_self (hNodup : (monitor.map Monitored.name).Nodup)
    (hName : mon'.name = name) :
    record name ((monitor.eraseP fun mon => mon.name = name) ++ [mon']) = some mon' := by
  have hGone : record name (monitor.eraseP fun mon => mon.name = name) = none := by
    apply List.find?_eq_none.mpr
    intro mon hMem hOwn
    have hErased : mon.name ∈ (monitor.map Monitored.name).erase name := by
      rw [← eraseP_name]
      exact List.mem_map_of_mem hMem
    rw [of_decide_eq_true hOwn] at hErased
    exact hNodup.not_mem_erase hErased
  unfold record at hGone ⊢
  rw [List.find?_append, hGone]
  simp [hName]

theorem record_replace_of_ne {other : ServiceName} (hOther : other ≠ name)
    (hName : mon'.name = other) :
    record name ((monitor.eraseP fun mon => mon.name = other) ++ [mon']) = record name monitor := by
  have hKept : record name (monitor.eraseP fun mon => mon.name = other) = record name monitor := by
    induction monitor with
    | nil => rfl
    | cons head rest ih =>
        by_cases hHead : head.name = other
        · rw [List.eraseP_cons_of_pos (by simpa using hHead)]
          simp [record, hHead, hOther]
        · rw [List.eraseP_cons_of_neg (by simpa using hHead)]
          unfold record at ih ⊢
          rw [List.find?_cons, List.find?_cons, ih]
  have hLast : List.find? (fun mon => decide (mon.name = name)) [mon'] = none := by
    simp [hName, hOther]
  unfold record at hKept ⊢
  rw [List.find?_append, hKept, hLast, Option.or_none]

end Records

section Changes
variable {Id : Type} [DecidableEq Id] {ok : Condition Fd} {mon mon' : Monitored Fd}
  {new : List (Output Fd)}

/-- The machine of a record sends messages under its own name. -/
theorem Change.speaks (h : Change Id ok mon mon' new) :
    ∀ o ∈ new.filterMap Output.sent, o.2.name = mon.psm.name := by
  rintro ⟨fd, m⟩ hMem
  cases h with
  | beat | timeout | subscribe => cases hMem
  | message now ready m' =>
      rw [filterMap_sent_effects] at hMem
      exact (ProposerStateMachine.handleMessage_speaks hMem).2.name
  | inform written =>
      rw [filterMap_sent_silent (silent_informs _ _ _)] at hMem
      cases hMem
  | propose now _ _ _ _ _ hProposal =>
      rw [hProposal, filterMap_sent_effects] at hMem
      exact (ProposerStateMachine.newProposal_speaks (q := .noProposal) hMem).2.name
  | commitSelf now rp rm reply calls returned written =>
      rw [List.filterMap_cons_none (by exact rfl), List.filterMap_append, List.filterMap_append,
        filterMap_sent_silent (silent_calls _), filterMap_sent_silent (silent_informs _ _ _),
        filterMap_sent_effects, List.nil_append, List.append_nil] at hMem
      exact (ProposerStateMachine.sendCommitment_speaks hMem).2.name
  | commitOther rp stored written =>
      rw [List.filterMap_cons_none (by exact rfl), filterMap_sent_silent (silent_informs _ _ _)]
        at hMem
      cases hMem
  | commitAcceptors now r connect ap effects _ _ _ hSilent =>
      rw [List.filterMap_cons_none (by exact rfl), filterMap_sent_effects, hSilent] at hMem
      cases hMem

/-- The machine of another service decides nothing for this one. -/
theorem Change.decides {name : ServiceName} (h : Change Id ok mon mon' new)
    (hName : mon.name ≠ name) : new.filterMap (Output.committedSelf name) = [] := by
  cases h with
  | beat | timeout | subscribe => rfl
  | message | propose => exact filterMap_committedSelf_effects name _
  | inform => exact filterMap_committedSelf_silent name (silent_informs _ _ _)
  | commitSelf =>
      rw [List.filterMap_cons_none (by exact if_neg hName), List.filterMap_append,
        List.filterMap_append, filterMap_committedSelf_silent name (silent_calls _),
        filterMap_committedSelf_silent name (silent_informs _ _ _),
        filterMap_committedSelf_effects]
      rfl
  | commitOther =>
      rw [List.filterMap_cons_none (by exact rfl)]
      exact filterMap_committedSelf_silent name (silent_informs _ _ _)
  | commitAcceptors now r =>
      rw [List.filterMap_cons_none, filterMap_committedSelf_effects]
      cases r with
      | committingSelf => exact if_neg hName
      | _ => rfl

end Changes

end QpidRecovery.Proposer

namespace QpidRecovery.Cluster

open Proposer (Change Condition Ledger Monitored Move Moves WellNamed record)

variable {Id : Type} [DecidableEq Id] {name : ServiceName} {ip : IPString} {bound : Nat}

/-- The machines took part in what a proposer wrote to its trace, and its record
of the service is now `mon`. -/
structure Follows (name : ServiceName) (ip : IPString) (bound : Nat)
    (new : List (Proposer.Output Conn)) (mon : Option (Monitored Conn)) (t t' : Machines) :
    Prop where
  own : (t'.proposer (some ip)).map Numbered.psm = mon.map Monitored.psm
  others : ∀ x, x ≠ some ip → t'.proposer x = t.proposer x
  acceptor : t'.acceptor = t.acceptor
  requests : t'.requests = t.requests
  network : t'.network = t.network ++
    (ofService name (new.filterMap Proposer.Output.sent)).map fun out => .toAcceptor out.1 out.2
  decided : t'.decided.map Decision.entry = t.decided.map Decision.entry ++
    (new.filterMap (Proposer.Output.committedSelf name)).map fun p => (some ip, p)
  next : t'.next ≤ bound

namespace Follows
variable {t t' t'' : Machines} {new new' : List (Proposer.Output Conn)}
  {mon mon' : Option (Monitored Conn)}

/-- Nothing was written about the service. -/
theorem refl (hOwn : (t.proposer (some ip)).map Numbered.psm = mon.map Monitored.psm)
    (hSent : ofService name (new.filterMap Proposer.Output.sent) = [])
    (hDecided : new.filterMap (Proposer.Output.committedSelf name) = []) (hNext : t.next ≤ bound) :
    Follows name ip bound new mon t t where
  own := hOwn
  others := fun _ _ => rfl
  acceptor := rfl
  requests := rfl
  network := by rw [hSent, List.map_nil, List.append_nil]
  decided := by rw [hDecided, List.map_nil, List.append_nil]
  next := hNext

theorem trans (first : Follows name ip bound new mon t t')
    (second : Follows name ip bound new' mon' t' t'') :
    Follows name ip bound (new ++ new') mon' t t'' where
  own := second.own
  others := fun x hx => (second.others x hx).trans (first.others x hx)
  acceptor := second.acceptor.trans first.acceptor
  requests := second.requests.trans first.requests
  network := by
    rw [second.network, first.network, List.filterMap_append, ofService, ofService, ofService,
      List.filter_append, List.map_append, List.append_assoc]
  decided := by
    rw [second.decided, first.decided, List.filterMap_append, List.map_append, List.append_assoc]
  next := second.next

/-- A call of the machine, with what it sent. -/
theorem react {m : Monitored Conn} {r : Reaction (ProposerStateMachine Conn) Conn} (k : Nat)
    (hMachine : m.psm = r.machine)
    (hSent : new.filterMap Proposer.Output.sent = sends r.effects)
    (hNames : ∀ o ∈ new.filterMap Proposer.Output.sent, o.2.name = name)
    (hDecided : new.filterMap (Proposer.Output.committedSelf name) = []) (hNext : t.next ≤ bound) :
    Follows name ip bound new (some m) t (t.react (some ip) k r) where
  own := by simp [Machines.react, hMachine]
  others := fun x hx => Function.update_of_ne hx _ _
  acceptor := rfl
  requests := rfl
  network := by rw [ofService_all hNames, hSent]; rfl
  decided := by rw [hDecided, List.map_nil, List.append_nil]; rfl
  next := hNext

/-- A `COMMITTING_SELF` of the machine. -/
theorem decide (k : Nat) (p : Proposal)
    (hOwn : (t.proposer (some ip)).map Numbered.psm = mon.map Monitored.psm)
    (hSent : new.filterMap Proposer.Output.sent = [])
    (hDecided : new.filterMap (Proposer.Output.committedSelf name) = [p]) (hNext : t.next ≤ bound) :
    Follows name ip bound new mon t (t.decide ⟨k, some ip, p⟩) where
  own := hOwn
  others := fun _ _ => rfl
  acceptor := rfl
  requests := rfl
  network := by
    rw [hSent]
    exact (List.append_nil _).symm
  decided := by
    rw [hDecided, Machines.decide, List.map_append]
    rfl
  next := hNext

/-- A new machine in place of the old one. -/
theorem start {m : Monitored Conn} {number : Nat} (hBound : number < bound)
    (hSent : ofService name (new.filterMap Proposer.Output.sent) = [])
    (hDecided : new.filterMap (Proposer.Output.committedSelf name) = []) :
    Follows name ip bound new (some m) t (t.start (some ip) number m.psm) where
  own := by simp [Machines.start]
  others := fun x hx => Function.update_of_ne hx _ _
  acceptor := rfl
  requests := rfl
  network := by rw [hSent, List.map_nil, List.append_nil]; rfl
  decided := by rw [hDecided, List.map_nil, List.append_nil]; rfl
  next := hBound

end Follows

/-- What one change of the record of the service amounts to. -/
theorem change_follows {ok : Condition Conn} {t : Machines} {b : Council} {number : Nat}
    {mon mon' : Monitored Conn} {new : List (Proposer.Output Conn)} (hInv : Inv name t b)
    (hOwn : (t.proposer (some ip)).map Numbered.psm = some mon.psm) (hName : mon.name = name)
    (hGiven : ∀ mon fd m, ok.given mon fd m → m.name ≠ name)
    (hDialled : ∀ connect, ok.dialled name connect → Dials number connect ∧ number < bound)
    (hNumber : t.next ≤ number) (hBound : t.next ≤ bound) (h : Change Id ok mon mon' new) :
    ∃ t', Reaches name t t' ∧ Follows name ip bound new (some mon') t t' := by
  obtain ⟨⟨k, psm⟩, hMachine, hPsm⟩ := Option.map_eq_some_iff.mp hOwn
  dsimp only at hPsm
  subst hPsm
  have hOwned := (hInv.machine _ _ _ hMachine).name
  have hNames := h.speaks
  rw [hOwned] at hNames
  cases h with
  | beat hbc hbc' => exact ⟨t, .refl, .refl hOwn rfl rfl hBound⟩
  | subscribe newsfd => exact ⟨t, .refl, .refl hOwn rfl rfl hBound⟩
  | inform written =>
      refine ⟨t, .refl, .refl hOwn ?_ ?_ hBound⟩
      · rw [Proposer.filterMap_sent_silent (Proposer.silent_informs _ _ _)]
        rfl
      · exact Proposer.filterMap_committedSelf_silent name (Proposer.silent_informs _ _ _)
  | timeout now =>
      refine ⟨_, .single (.timeout now (seconds 4) hMachine), ?_⟩
      exact .react k rfl rfl hNames rfl hBound
  | message now ready m hOk =>
      have hOther : m.name ≠ mon.psm.name := by
        rw [hOwned]
        exact hGiven mon ready m hOk
      have hIgnored : mon.psm.handleMessage now ready m = ⟨mon.psm, [], .ignored⟩ := by
        rw [ProposerStateMachine.handleMessage, if_pos hOther]
      rw [hIgnored]
      exact ⟨t, .refl, .refl hOwn rfl rfl hBound⟩
  | propose now hbc backupip backupport r hClient hProposal =>
      subst hProposal
      have hProper : Proper mon.psm (.recoveryProposal
          ⟨mon.psm.version, mon.ip, mon.port, backupip, backupport, 100⟩) (some ip) :=
        ⟨_, rfl, rfl⟩
      refine ⟨_, .single (.propose now hMachine hProper), ?_⟩
      exact .react k rfl (Proposer.filterMap_sent_effects _) hNames
        (Proposer.filterMap_committedSelf_effects name _) hBound
  | commitSelf now rp rm reply calls returned written hOk hReady hProposal hCopied =>
      refine ⟨_, .single (.commitRecovery now hMachine hReady hProposal), ?_⟩
      let d : Decision := ⟨k, some ip, .recoveryProposal rp⟩
      let mon' : Monitored Conn := { mon with
        ip := rp.backupip
        port := rp.backupport
        psm := (mon.psm.sendCommitment now).1
        informlist := mon.informlist.filter written }
      have hDecide : Follows name ip bound [.committed mon.name rp .committingSelf
          (rm.storedCreations (IPPortToUrl rp.failip rp.failport))] (some mon) t (t.decide d) :=
        .decide k _ hOwn rfl (List.filterMap_cons_some (if_pos hName)) hBound
      have hReact : Follows name ip bound (calls.map .recovery ++
          (mon.psm.sendCommitment now).2.map .effect ++
          Proposer.informs written ⟨mon.name, rp.backupip, rp.backupport⟩ mon.informlist)
          (some mon') (t.decide d)
          ((t.decide d).react (some ip) k (.void (mon.psm.sendCommitment now))) := by
        refine .react k rfl ?_ ?_ ?_ hBound
        · simp only [List.filterMap_append, Proposer.filterMap_sent_effects,
            Proposer.filterMap_sent_silent (Proposer.silent_calls _),
            Proposer.filterMap_sent_silent (Proposer.silent_informs _ _ _), List.nil_append,
            List.append_nil]
          rfl
        · exact fun o ho => hNames o (by rwa [List.filterMap_cons_none (by exact rfl)])
        · simp only [List.filterMap_append, Proposer.filterMap_committedSelf_effects,
            Proposer.filterMap_committedSelf_silent name (Proposer.silent_calls _),
            Proposer.filterMap_committedSelf_silent name (Proposer.silent_informs _ _ _),
            List.append_nil]
      exact hDecide.trans hReact
  | commitOther rp stored written =>
      refine ⟨t, .refl, .refl hOwn ?_ ?_ hBound⟩
      · rw [List.filterMap_cons_none (by exact rfl),
          Proposer.filterMap_sent_silent (Proposer.silent_informs _ _ _)]
        rfl
      · rw [List.filterMap_cons_none (by exact rfl)]
        exact Proposer.filterMap_committedSelf_silent name (Proposer.silent_informs _ _ _)
  | commitAcceptors now r connect ap effects hOk hProposal hResult hSilent =>
      obtain ⟨hDials, hLast⟩ := hDialled connect (hOwned ▸ hOk)
      have hOther : r ≠ .committingSelf :=
        fun hSelf => (hInv.machine _ _ _ hMachine).not_ready hProposal (hResult hSelf)
      refine ⟨_, .single (.adopt now hMachine hProposal hNumber hDials), ?_⟩
      subst hName
      refine .start hLast ?_ ?_
      · rw [List.filterMap_cons_none (by exact rfl), Proposer.filterMap_sent_effects, hSilent]
        rfl
      · rw [List.filterMap_cons_none, Proposer.filterMap_committedSelf_effects]
        cases r with
        | committingSelf => exact absurd rfl hOther
        | _ => rfl

/-- The inputs that concern other services. -/
def elsewhere (name : ServiceName) : Condition Conn where
  created := fun created => created ≠ name
  given := fun _ _ m => m.name ≠ name
  dialled := fun dialled _ => dialled ≠ name

section Moves
variable {t : Machines} {b : Council} {l l' : Ledger Conn}

theorem move_follows (hInv : Inv name t b) (hNamed : WellNamed l)
    (hOwn : (t.proposer (some ip)).map Numbered.psm = (record name l.monitor).map Monitored.psm)
    (hBound : t.next ≤ bound) (hMove : Move Id (elsewhere name) l l') :
    ∃ new t', l'.trace = l.trace ++ new ∧ Reaches name t t' ∧
      Follows name ip bound new (record name l'.monitor) t t' := by
  cases hMove with
  | quiet new hSilent =>
      refine ⟨new, t, rfl, .refl, .refl hOwn ?_ ?_ hBound⟩
      · rw [Proposer.filterMap_sent_silent hSilent]
        rfl
      · exact Proposer.filterMap_committedSelf_silent name hSilent
  | @change j mon mon' new hMon hChange =>
      have hMem := List.mem_of_getElem? hMon
      by_cases hName : mon.name = name
      · rw [Proposer.record_eq hNamed.nodup hMem hName] at hOwn
        obtain ⟨t', hReaches, hFollows⟩ := change_follows hInv hOwn hName
          (fun _ _ _ hOther => hOther) (fun _ hOther => absurd rfl hOther) (Nat.le_refl t.next)
          hBound hChange
        refine ⟨new, t', rfl, hReaches, ?_⟩
        rwa [Proposer.record_set_self hNamed.nodup hMon hName hChange.name]
      · refine ⟨new, t, rfl, .refl, .refl ?_ ?_ (hChange.decides hName) hBound⟩
        · rw [hOwn, Proposer.record_set_of_ne hMon hName hChange.name]
        · apply ofService_none
          intro o ho
          rwa [hChange.speaks o ho, hNamed.own mon hMem]
  | replace mon' new hCreated _ _ _ _ hSilent =>
      refine ⟨new, t, rfl, .refl, .refl ?_ ?_ ?_ hBound⟩
      · rw [hOwn, Proposer.record_replace_of_ne hCreated rfl]
      · rw [Proposer.filterMap_sent_silent hSilent]
        rfl
      · exact Proposer.filterMap_committedSelf_silent name hSilent

theorem moves_follow (hInv : Inv name t b) (hNamed : WellNamed l)
    (hOwn : (t.proposer (some ip)).map Numbered.psm = (record name l.monitor).map Monitored.psm)
    (hBound : t.next ≤ bound) (hMoves : Moves Id (elsewhere name) l l') :
    ∃ new t', l'.trace = l.trace ++ new ∧ WellNamed l' ∧ Reaches name t t' ∧
      Follows name ip bound new (record name l'.monitor) t t' := by
  induction hMoves with
  | refl => exact ⟨[], t, (List.append_nil _).symm, hNamed, .refl, .refl hOwn rfl rfl hBound⟩
  | tail _ last ih =>
      obtain ⟨new, t', hTrace, hNamed', hReaches, hFollows⟩ := ih
      obtain ⟨b', _, hInv'⟩ := hInv.reaches hReaches
      obtain ⟨new', t'', hTrace', hReaches', hFollows'⟩ :=
        move_follows hInv' hNamed' hFollows.own hFollows.next last
      refine ⟨new ++ new', t'', ?_, hNamed'.move last, hReaches.trans hReaches',
        hFollows.trans hFollows'⟩
      rw [hTrace', hTrace, List.append_assoc]

end Moves

section Iterations
variable {t : Machines} {b : Council} {number : Nat} {s p : Proposer.State Conn Id}
  {o : Proposer.Outcomes Conn}

omit [DecidableEq Id] in
/-- A request for the service is read. -/
theorem request_follows (fromip : IPString) {r : ParticipateRequest} (hNamed : WellNamed s.ledger)
    (hRequest : ⟨ip, .requestProposer, r⟩ ∈ t.requests) (hName : r.name = name)
    (hDials : Dials number o.paxos) (hNumber : t.next ≤ number) (hBound : number < bound) :
    ∃ new t', (Proposer.handleRequest o fromip r s).trace = s.trace ++ new ∧ Reaches name t t' ∧
      Follows name ip bound new (record name (Proposer.handleRequest o fromip r s).monitor)
        (t.read ⟨ip, .requestProposer, r⟩) t' := by
  obtain ⟨now, mon', effects, hMachine, _, hOwn, _, _, _, hSends, hLedger⟩ :=
    Proposer.handleRequest_ledger o fromip r s
  have hMonitor : (Proposer.handleRequest o fromip r s).monitor =
      (s.monitor.eraseP fun mon => mon.name = r.name) ++ [mon'] := congrArg Ledger.monitor hLedger
  have hRecord : record name (Proposer.handleRequest o fromip r s).monitor = some mon' := by
    rw [hMonitor, hName]
    exact Proposer.record_replace_self hNamed.nodup (hOwn.trans hName)
  have hStep : Step name t _ := .recruit now hRequest rfl hNumber hDials
  rw [← hMachine] at hStep
  refine ⟨effects.map .effect, _, congrArg Ledger.trace hLedger, .single hStep, ?_⟩
  rw [hRecord]
  refine .start hBound ?_ (Proposer.filterMap_committedSelf_effects name _)
  rw [Proposer.filterMap_sent_effects, hSends]
  rfl

/-- A message for the service is read by its machine. -/
theorem message_follows {ready : Conn} {m : PaxosMessage} {mon : Monitored Conn}
    (hInv : Inv name t b) (hNamed : WellNamed s.ledger)
    (hRecord : record name s.monitor = some mon)
    (hOwn : (t.proposer (some ip)).map Numbered.psm = some mon.psm)
    (hPacket : .toProposer ready m ∈ t.network) (hOpen : some ready ∈ mon.psm.accsfd)
    (hName : m.name = name) (hDials : Dials number o.paxos) (hNumber : t.next ≤ number)
    (hBound : number < bound)
    (h : Proposer.handlePaxosMessage o ready m s.monitor.length 0 s = some p) :
    ∃ new t', p.trace = s.trace ++ new ∧ Reaches name t t' ∧
      Follows name ip bound new (record name p.monitor) (t.consume (.toProposer ready m)) t' := by
  have hNext : t.next ≤ bound := by omega
  obtain ⟨⟨k, psm⟩, hMachine, hPsm⟩ := Option.map_eq_some_iff.mp hOwn
  dsimp only at hPsm
  subst hPsm
  rcases Proposer.handlePaxosMessage_cases h with ⟨rfl, _⟩ | ⟨j, mon', r, hMon, hReaction, hRest⟩
  · refine ⟨[], _, (List.append_nil _).symm, .single (.lose (.toProposer ready m)), ?_⟩
    rw [hRecord]
    exact .refl hOwn rfl rfl hNext
  · have hMem := List.mem_of_getElem? hMon
    have hHandled : (mon'.psm.handleMessage s.now ready m).result ≠ .ignored := by
      rw [← hReaction]
      rcases hRest with ⟨hResult, _⟩ | ⟨hResult | hResult, _⟩
      · simp [hResult]
      · simp [hResult]
      · simp [hResult]
    have hRecipient := ProposerStateMachine.handleMessage_recipient hHandled
    have hOwned : mon'.name = name := by rw [← hNamed.own mon' hMem, ← hRecipient, hName]
    have hSame : mon' = mon :=
      Option.some.inj ((Proposer.record_eq hNamed.nodup hMem hOwned).symm.trans hRecord)
    subst hSame
    let mon₁ : Monitored Conn := { mon' with psm := r.machine }
    have hMessage : Step name t _ := .message s.now hMachine hOpen hPacket
    rw [← hReaction] at hMessage
    have hFirst : Follows name ip bound (r.effects.map .effect) (some mon₁)
        (t.consume (.toProposer ready m))
        ((t.consume (.toProposer ready m)).react (some ip) k r) := by
      refine .react k rfl (Proposer.filterMap_sent_effects _) ?_
        (Proposer.filterMap_committedSelf_effects name _) hNext
      rw [Proposer.filterMap_sent_effects, hReaction]
      intro out hOut
      rw [(ProposerStateMachine.handleMessage_speaks hOut).2.name, ← hRecipient, hName]
    have hStored : record name (s.monitor.set j mon₁) = some mon₁ :=
      Proposer.record_set_self hNamed.nodup hMon hOwned rfl
    rcases hRest with ⟨_, rfl⟩ | ⟨hResult, mon₂, s₂, hCommit, rfl⟩
    · refine ⟨_, _, rfl, .single hMessage, ?_⟩
      change Follows name ip bound _ (record name (s.monitor.set j mon₁)) _ _
      rwa [hStored]
    · let ok : Condition Conn := { given := fun _ _ _ => False, dialled := fun _ => Dials number }
      have hCommitted : Proposer.Committed r.result r.machine := by
        rw [hReaction]
        exact Proposer.handleMessage_committed s.now ready m mon'.psm
      have hChange : _ ∨ Proposer.ActsOnce ok mon₁ _ mon₂ s₂ :=
        Proposer.handleCommit_change trivial (fun _ _ => hDials) hCommitted hCommit
      rcases hChange with hSame | hOnce
      · cases hSame
        refine ⟨_, _, rfl, .single hMessage, ?_⟩
        change Follows name ip bound _ (record name ((s.monitor.set j mon₁).set j mon₁)) _ _
        rwa [List.set_set, hStored]
      · obtain ⟨new, hTrace, hChange⟩ := hOnce.change
        obtain ⟨b', _, hInv'⟩ := hInv.reaches (.single hMessage)
        obtain ⟨t', hReaches, hSecond⟩ := change_follows hInv' hFirst.own hOwned
          (fun _ _ _ => False.elim) (fun _ hDials => ⟨hDials, hBound⟩) hNumber hNext hChange
        refine ⟨r.effects.map .effect ++ new, t', ?_, .trans (.single hMessage) hReaches, ?_⟩
        · rw [← List.append_assoc]
          exact hTrace
        · have hLast : record name (s₂.monitor.set j mon₂) = some mon₂ := by
            rw [hOnce.monitor]
            change record name ((s.monitor.set j mon₁).set j mon₂) = some mon₂
            rw [List.set_set]
            exact Proposer.record_set_self hNamed.nodup hMon hOwned hChange.name
          change Follows name ip bound _ (record name (s₂.monitor.set j mon₂)) _ _
          rw [hLast]
          exact hFirst.trans hSecond

end Iterations

end QpidRecovery.Cluster
