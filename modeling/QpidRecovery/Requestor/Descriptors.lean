import Mathlib.Tactic.Abel
import QpidRecovery.Paxos.Connections
import QpidRecovery.Requestor.Iterations

/-! The descriptors of the requestor. The heartbeat clients of a new acceptor
list are registered whether or not they are connected. A socket that is opened
and closed again before anything else is done with descriptors is left out. -/
namespace QpidRecovery.Requestor

variable {Fd : Type}

section Calls

def deleteHBCCalls (i : Nat) (v : List (HeartbeatClient Fd)) : List (Call Fd) :=
  match v[i]? with
  | some hbc => Call.deleted hbc.sfd
  | none => []

def deleteExpiredCalls (now : Time) (v : List (HeartbeatClient Fd)) : List (Call Fd) :=
  (v.filter (HeartbeatClient.isExpired now (HEARTBEAT_PERIOD * 2))).flatMap fun hbc =>
    Call.deleted hbc.sfd

/-- The clients that `changeAcceptor` makes. -/
def recruited (now : Time) (o : Outcomes Fd) (acc : List IPString) : List (HeartbeatClient Fd) :=
  acc.mapIdx fun i ip => HeartbeatClient.new now (o.heartbeat i) ip

def changeAcceptorCalls (o : Outcomes Fd) (acc : List IPString) (s : State Fd) : List (Call Fd) :=
  (s.acceptors.flatMap fun hbc => Call.deleted hbc.sfd) ++
    (recruited s.now o acc).flatMap fun hbc => Call.unchecked hbc.sfd

def commitAcceptorsCalls (cfg : Config) (o : Outcomes Fd) (ap : AcceptorChangeProposal)
    (s : State Fd) : List (Call Fd) :=
  changeAcceptorCalls o ap.acceptor s ++
    ((s.psm.sendCommitment s.now).2.flatMap Effect.calls ++
      (ProposerStateMachine.new s.now o.paxos cfg.servicename (ap.newversion + 1)
        ⟨ap.newversion, ap.acceptor⟩).2.flatMap Effect.calls)

def handleCommitCalls (cfg : Config) (o : Outcomes Fd) (r : PaxosResult) (s : State Fd) :
    List (Call Fd) :=
  if r = .committingSelf then
    match s.psm.getCommittingProposal with
    | some (.acceptorChangeProposal ap) => commitAcceptorsCalls cfg o ap s
    | some (.recoveryProposal _) | some .noProposal | none => []
  else []

variable [DecidableEq Fd]

/-- The calls of the state machine's reaction and of the commit after it. -/
def reactCalls (cfg : Config) (o : Outcomes Fd) (r : Reaction (ProposerStateMachine Fd) Fd)
    (s : State Fd) : List (Call Fd) :=
  r.effects.flatMap Effect.calls ++ handleCommitCalls cfg o r.result (s.react r)

def addAcceptorsCalls (cfg : Config) (o : Outcomes Fd) (s : State Fd) : List (Call Fd) :=
  match newAcceptors cfg s with
  | none => []
  | some (acc, rest) =>
      reactCalls cfg o
        (s.psm.newProposal s.now (.acceptorChangeProposal ⟨s.currentversion + 1, acc⟩))
        { s with
          needchangeacceptor := false
          ischangingacceptor := true
          acceptorIPs := rest }

def addProposerCalls (o : Outcomes Fd) (s : State Fd) : List (Call Fd) :=
  match s.proposerIPs with
  | [] => []
  | _ :: _ =>
      if o.request 0 then
        Call.connected (o.heartbeat 0) ++ (s.replysfd.filter fun sfd => !o.reply sfd).map .close
      else []

def handleReadyCalls (cfg : Config) (sfd : Fd) (heartbeat : Bool) (message : Option PaxosMessage)
    (o : Outcomes Fd) (s : State Fd) : List (Call Fd) :=
  match receiver sfd s.proposers with
  | some i => if heartbeat then [] else deleteHBCCalls i s.proposers
  | none =>
      match receiver sfd s.acceptors with
      | some i => if heartbeat then [] else deleteHBCCalls i s.acceptors
      | none =>
          match message with
          | some m => reactCalls cfg o (s.psm.handleMessage s.now sfd m) s
          | none => [.unregister (some sfd)]

/-- The calls of one iteration. -/
def calls (cfg : Config) (s : State Fd) : Action Fd → List (Call Fd)
  | .wait _ => []
  | .addAcceptors o => addAcceptorsCalls cfg o s
  | .addProposer o => addProposerCalls o s
  | .timeout => deleteExpiredCalls s.now s.proposers ++ deleteExpiredCalls s.now s.acceptors
  | .query newsfd replied =>
      newsfd.toList.flatMap fun fd => .opened fd :: if replied then [] else [.close fd]
  | .ready sfd heartbeat message o => handleReadyCalls cfg sfd heartbeat message o s

end Calls

/-- The descriptors of some heartbeat clients. -/
def clients (v : List (HeartbeatClient Fd)) : Holding Fd :=
  ((↑(v.filterMap HeartbeatClient.sfd) : Multiset Fd), 0)

/-- The descriptors of all objects of the process. -/
def State.holding (s : State Fd) : Holding Fd :=
  clients s.proposers + clients s.acceptors + ((↑s.psm.connections : Multiset Fd), 0) +
    (0, (↑s.replysfd : Multiset Fd))

section Clients
variable {may : Option Fd → Prop} {l : Holding Fd}

theorem clients_append (v w : List (HeartbeatClient Fd)) :
    clients (v ++ w) = clients v + clients w := by
  unfold clients
  rw [List.filterMap_append, ← Multiset.coe_add, Prod.mk_add_mk, add_zero]

theorem clients_perm {v w : List (HeartbeatClient Fd)} (h : v.Perm w) : clients v = clients w := by
  unfold clients
  rw [Multiset.coe_eq_coe.mpr (h.filterMap HeartbeatClient.sfd)]

theorem clients_singleton (hbc : HeartbeatClient Fd) :
    clients [hbc] = ((↑hbc.sfd.toList : Multiset Fd), 0) := by
  unfold clients
  cases hSfd : hbc.sfd with
  | none => rw [List.filterMap_cons_none hSfd, List.filterMap_nil, Option.toList_none]
  | some fd => rw [List.filterMap_cons_some hSfd, List.filterMap_nil, Option.toList_some]

/-- Several clients are deleted. -/
theorem deleted_accounted (hNone : may none) (v : List (HeartbeatClient Fd)) (l : Holding Fd) :
    Accounted may (v.flatMap fun hbc => Call.deleted hbc.sfd) (l + clients v) l := by
  induction v generalizing l with
  | nil => exact Accounted.of_eq (.nil l) (add_zero l) rfl
  | cons hbc rest ih =>
      have hFirst := Accounted.deleted hNone hbc.sfd (l + clients rest)
      rw [← clients_singleton] at hFirst
      apply (hFirst.trans (ih l)).of_eq
      · rw [← List.singleton_append, clients_append, add_assoc, add_comm (clients rest)]
      · rfl

/-- Deleting a client gives its descriptor back. -/
theorem deleteHBC_accounted (hNone : may none) {i : Nat} {v : List (HeartbeatClient Fd)}
    (hBound : i < v.length) (l : Holding Fd) :
    Accounted may (deleteHBCCalls i v) (l + clients v) (l + clients (v.eraseIdx i)) := by
  unfold deleteHBCCalls
  rw [List.getElem?_eq_getElem hBound]
  have hPerm : (v[i] :: v.eraseIdx i).Perm v := List.getElem_cons_eraseIdx_perm hBound
  have hDelete := Accounted.deleted hNone v[i].sfd (l + clients (v.eraseIdx i))
  rw [← clients_singleton] at hDelete
  apply hDelete.of_eq
  · rw [← clients_perm hPerm, ← List.singleton_append, clients_append, add_assoc,
      add_comm (clients _) (clients [_])]
  · rfl

/-- Deleting what is expired gives those descriptors back. -/
theorem deleteExpired_accounted (hNone : may none) (now : Time) (v : List (HeartbeatClient Fd))
    (l : Holding Fd) :
    Accounted may (deleteExpiredCalls now v) (l + clients v)
      (l + clients (v.filter fun hbc => !hbc.isExpired now (HEARTBEAT_PERIOD * 2))) := by
  have hPerm := List.filter_append_perm (HeartbeatClient.isExpired now (HEARTBEAT_PERIOD * 2)) v
  have hDelete := deleted_accounted hNone
    (v.filter (HeartbeatClient.isExpired now (HEARTBEAT_PERIOD * 2)))
    (l + clients (v.filter fun hbc => !hbc.isExpired now (HEARTBEAT_PERIOD * 2)))
  apply hDelete.of_eq
  · rw [← clients_perm hPerm, clients_append, add_assoc, add_comm (clients (v.filter _))]
  · rfl

/-- Several connected clients are registered. -/
theorem registered_accounted {v : List (HeartbeatClient Fd)} (h : ∀ hbc ∈ v, hbc.sfd ≠ none)
    (l : Holding Fd) :
    Accounted may (v.flatMap fun hbc => Call.unchecked hbc.sfd) l (l + clients v) := by
  induction v generalizing l with
  | nil => exact Accounted.of_eq (.nil l) rfl (add_zero l)
  | cons hbc rest ih =>
      have hRest := ih fun other hOther => h other (List.mem_cons_of_mem _ hOther)
      have hFirst : Accounted may (Call.unchecked hbc.sfd) l (l + clients [hbc]) := by
        rw [clients_singleton]
        cases hSfd : hbc.sfd with
        | none => exact absurd hSfd (h hbc List.mem_cons_self)
        | some fd => exact .acquire fd l
      apply (hFirst.trans (hRest _)).of_eq rfl
      rw [add_assoc, ← clients_append]
      rfl

end Clients

/-- With the server socket. -/
def owned (querysfd : Fd) (s : State Fd) : Holding Fd := ((↑[querysfd] : Multiset Fd), 0) + s.holding

/-- The state before the main loop. `main` does not check whether its server
socket was made. -/
def started [DecidableEq Fd] (cfg : Config) (start : Time) (querysfd : Fd) (made : Bool)
    (landmark : Option (IPString × Fd)) (acceptorIPs proposerIPs : List IPString) : State Fd :=
  let s := State.init cfg start querysfd landmark acceptorIPs proposerIPs
  if made then s
  else { s with
    fs := (FileSelector.new.registerFD none).perform
      (landmark.toList.map fun l => .registerFD l.2) }

/-- Whenever an iteration commits an acceptor list of its own, every client of
the list is connected. -/
def Connects (cfg : Config) [DecidableEq Fd] (s : State Fd) (action : Action Fd) : Prop :=
  ∀ o r s' ap, CommitCall cfg s action o r s' → r = .committingSelf →
    s'.psm.getCommittingProposal = some (.acceptorChangeProposal ap) →
    ∀ i < ap.acceptor.length, o.heartbeat i ≠ none

section Selector
variable [DecidableEq Fd] {cfg : Config} {s t : State Fd} {fs : FileSelector Fd}

/-- The selector after the clients of a vector were deleted. -/
theorem deleted_selects (v : List (HeartbeatClient Fd)) (fs : FileSelector Fd) :
    Call.selects (v.flatMap fun hbc => Call.deleted hbc.sfd) fs =
      v.foldl (fun fs hbc => fs.unregisterFD hbc.sfd) fs := by
  induction v generalizing fs with
  | nil => rfl
  | cons hbc rest ih =>
      rw [List.flatMap_cons, Call.selects_append, Call.selects_deleted, ih]
      rfl

/-- The selector after the clients of a vector were registered unchecked. -/
theorem registered_selects (v : List (HeartbeatClient Fd)) (fs : FileSelector Fd) :
    Call.selects (v.flatMap fun hbc => Call.unchecked hbc.sfd) fs =
      v.foldl (fun fs hbc => fs.registerFD hbc.sfd) fs := by
  induction v generalizing fs with
  | nil => rfl
  | cons hbc rest ih =>
      rw [List.flatMap_cons, Call.selects_append, Call.selects_unchecked, ih]
      rfl

omit [DecidableEq Fd] in
/-- Where no list is installed, no call is made. -/
theorem handleCommitCalls_noted {o : Outcomes Fd} {r : PaxosResult} {p : Proposal}
    (hProposal : s.psm.getCommittingProposal = some p)
    (hOther : ∀ ap, p ≠ .acceptorChangeProposal ap) : handleCommitCalls cfg o r s = [] := by
  unfold handleCommitCalls
  rw [hProposal]
  cases p with
  | acceptorChangeProposal ap => exact absurd rfl (hOther ap)
  | recoveryProposal rp => exact ite_self []
  | noProposal => exact ite_self []

/-- The calls that a commit makes are those its selector shows. -/
theorem handleCommit_selects {o : Outcomes Fd} {r : PaxosResult} {returned : Int}
    (h : handleCommit cfg o r s = some (t, returned)) :
    t.fs = Call.selects (handleCommitCalls cfg o r s) s.fs := by
  cases handleCommit_commit h with
  | nothing hSelf hOther =>
      unfold handleCommitCalls
      rw [if_neg hSelf]
      rfl
  | adopted ap hProposal => rfl
  | installed ap hProposal =>
      unfold handleCommitCalls
      rw [if_pos rfl, hProposal]
      dsimp only
      unfold commitAcceptorsCalls changeAcceptorCalls
      rw [Call.selects_append, Call.selects_append, Call.selects_append, deleted_selects,
        registered_selects, ← FileSelector.perform_eq, ← FileSelector.perform_eq]
      rfl
  | noted p _ _ hProposal hOther =>
      rw [handleCommitCalls_noted hProposal hOther]
      rfl

/-- The same with the effects of the machine before it. -/
theorem react_selects {o : Outcomes Fd} {r : Reaction (ProposerStateMachine Fd) Fd} {returned : Int}
    (h : handleCommit cfg o r.result (s.react r) = some (t, returned)) :
    t.fs = Call.selects (reactCalls cfg o r s) s.fs := by
  rw [handleCommit_selects h, reactCalls, Call.selects_append, ← FileSelector.perform_eq]
  rfl

theorem deleteHBC_selects (i : Nat) (v : List (HeartbeatClient Fd)) (fs : FileSelector Fd) :
    (deleteHBC i v fs).2 = Call.selects (deleteHBCCalls i v) fs := by
  unfold deleteHBC deleteHBCCalls
  cases v[i]? with
  | none => rfl
  | some hbc => exact (Call.selects_deleted hbc.sfd fs).symm

/-- In each iteration the selector changes by the calls listed for it. -/
theorem step_selects {action : Action Fd} (h : step cfg s action = some t) :
    t.fs = Call.selects (calls cfg s action) s.fs := by
  cases step_branch h with
  | proposed acc rest hDue hList hCommit =>
      unfold calls addAcceptorsCalls
      rw [hList]
      exact react_selects hCommit
  | @recruited o newip rest hDue hList hRequest =>
      unfold calls addProposerCalls
      rw [hList]
      dsimp only
      rw [if_pos hRequest, Call.selects_append, Call.selects_close]
      cases o.heartbeat 0 with
      | none => rfl
      | some fd => rfl
  | unreached newip rest hList hRequest =>
      unfold calls addProposerCalls
      rw [hList]
      dsimp only
      rw [if_neg hRequest]
      rfl
  | expired hIdle =>
      unfold calls deleteExpiredCalls
      rw [Call.selects_append, deleted_selects, deleted_selects]
      rfl
  | accepted newsfd replied hFull =>
      cases replied with
      | true => rfl
      | false => rfl
  | proposerBeat i hProposer =>
      simp only [calls, handleReadyCalls, hProposer]
      rfl
  | proposerLost i hProposer =>
      simp only [calls, handleReadyCalls, hProposer]
      exact deleteHBC_selects i s.proposers s.fs
  | acceptorBeat i hProposers hAcceptor =>
      simp only [calls, handleReadyCalls, hProposers, hAcceptor]
      rfl
  | acceptorLost i hProposers hAcceptor =>
      simp only [calls, handleReadyCalls, hProposers, hAcceptor]
      exact deleteHBC_selects i s.acceptors s.fs
  | received hProposers hAcceptors hCommit =>
      simp only [calls, handleReadyCalls, hProposers, hAcceptors]
      exact react_selects hCommit
  | unread hProposers hAcceptors =>
      simp only [calls, handleReadyCalls, hProposers, hAcceptors]
      rfl
  | wait | unaccepted => rfl

end Selector

section Accounts
variable [DecidableEq Fd] {cfg : Config} {s t : State Fd} {may : Option Fd → Prop}

omit [DecidableEq Fd] in
/-- A recruited client has the connection made for its position. -/
theorem mem_recruited {now : Time} {o : Outcomes Fd} {acc : List IPString}
    {hbc : HeartbeatClient Fd} (h : hbc ∈ recruited now o acc) :
    ∃ i < acc.length, hbc.sfd = o.heartbeat i := by
  obtain ⟨i, hBound, rfl⟩ := List.mem_mapIdx.mp h
  exact ⟨i, hBound, rfl⟩

/-- The clients of the old list are deleted, those of the new one are
registered, and the old machine is disconnected when the next one connects. -/
theorem commitAcceptors_accounted (hNone : may none) (o : Outcomes Fd) (ap : AcceptorChangeProposal)
    (hReady : s.psm.isReadyToCommit = true) (hVersion : s.currentversion = ap.newversion)
    (hConnected : ∀ i < ap.acceptor.length, o.heartbeat i ≠ none) :
    Accounted may (commitAcceptorsCalls cfg o ap s) s.holding
      (commitAcceptors cfg o ap s).holding := by
  have hDelete := deleted_accounted hNone s.acceptors (clients s.proposers +
    ((↑s.psm.connections : Multiset Fd), 0) + (0, (↑s.replysfd : Multiset Fd)))
  have hRegister : Accounted may _ _ _ := registered_accounted (v := recruited s.now o ap.acceptor)
    (fun hbc hMem => by
      obtain ⟨i, hBound, hSfd⟩ := mem_recruited hMem
      rw [hSfd]
      exact hConnected i hBound)
    (clients s.proposers + ((↑s.psm.connections : Multiset Fd), 0) +
      (0, (↑s.replysfd : Multiset Fd)))
  have hCommit : Accounted may _ _ _ := s.psm.sendCommitment_accounted
    (l := clients s.proposers + clients (recruited s.now o ap.acceptor) +
      (0, (↑s.replysfd : Multiset Fd))) s.now
  have hNew : Accounted may _ _ _ := ProposerStateMachine.new_accounted
    (l := clients s.proposers + clients (recruited s.now o ap.acceptor) +
      (0, (↑s.replysfd : Multiset Fd))) s.now o.paxos cfg.servicename (ap.newversion + 1)
    ⟨ap.newversion, ap.acceptor⟩
  have hEmpty : (((↑([] : List Fd) : Multiset Fd), 0) : Holding Fd) = 0 := rfl
  rw [ProposerStateMachine.connections_sendCommitment s.now hReady, hEmpty, add_zero] at hCommit
  have hSwap := (hCommit.of_eq (m := clients s.proposers + ((↑s.psm.connections : Multiset Fd), 0) +
    (0, (↑s.replysfd : Multiset Fd)) + clients (recruited s.now o ap.acceptor)) (by abel) rfl).trans
    hNew
  apply ((hDelete.trans hRegister).trans hSwap).of_eq
  · unfold State.holding
    abel
  · unfold commitAcceptors changeAcceptor
    dsimp only [State.perform, State.react, Reaction.void]
    rw [hVersion]
    unfold State.holding recruited
    dsimp only
    abel

/-- A commit accounts for its descriptors if it can connect to all acceptors. -/
theorem handleCommit_accounted (hNone : may none) {o : Outcomes Fd} {r : PaxosResult} {returned : Int}
    (hReady : r = .committingSelf → s.psm.isReadyToCommit = true)
    (hConnected : ∀ ap, r = .committingSelf →
      s.psm.getCommittingProposal = some (.acceptorChangeProposal ap) →
      ∀ i < ap.acceptor.length, o.heartbeat i ≠ none)
    (h : handleCommit cfg o r s = some (t, returned)) :
    Accounted may (handleCommitCalls cfg o r s) s.holding t.holding := by
  cases handleCommit_commit h with
  | nothing hSelf hOther =>
      unfold handleCommitCalls
      rw [if_neg hSelf]
      exact .nil _
  | adopted ap hProposal => exact .nil _
  | installed ap hProposal =>
      unfold handleCommitCalls
      rw [if_pos rfl, hProposal]
      exact commitAcceptors_accounted (s := { s with
        currentversion := ap.newversion
        trace := s.trace ++ [.committed (.acceptorChangeProposal ap) .committingSelf]
        committed := (ap.newversion, ap.acceptor) :: s.committed }) hNone o ap (hReady rfl) rfl
        (hConnected ap rfl hProposal)
  | noted p _ _ hProposal hOther =>
      rw [handleCommitCalls_noted hProposal hOther]
      exact .nil _

/-- The reaction of the machine, and the commit after it. -/
theorem react_accounted (hNone : may none) {o : Outcomes Fd}
    {r : Reaction (ProposerStateMachine Fd) Fd} {returned : Int}
    (hEffects : ∀ l : Holding Fd, Accounted may (r.effects.flatMap Effect.calls)
      (l + ((↑s.psm.connections : Multiset Fd), 0)) (l + ((↑r.machine.connections : Multiset Fd), 0)))
    (hReady : r.result = .committingSelf → r.machine.isReadyToCommit = true)
    (hConnected : ∀ ap, r.result = .committingSelf →
      r.machine.getCommittingProposal = some (.acceptorChangeProposal ap) →
      ∀ i < ap.acceptor.length, o.heartbeat i ≠ none)
    (h : handleCommit cfg o r.result (s.react r) = some (t, returned)) :
    Accounted may (reactCalls cfg o r s) s.holding t.holding := by
  have hReact : Accounted may (r.effects.flatMap Effect.calls) s.holding (s.react r).holding := by
    apply (hEffects (clients s.proposers + clients s.acceptors +
      (0, (↑s.replysfd : Multiset Fd)))).of_eq
    · unfold State.holding
      abel
    · unfold State.react State.perform State.holding
      dsimp only
      abel
  exact hReact.trans (handleCommit_accounted hNone hReady hConnected h)

omit [DecidableEq Fd] in
/-- The new client is registered, and the subscribers that could not be told are
closed. -/
theorem recruited_accounted (o : Outcomes Fd) {newip : IPString}
    (hProposers : t.proposers =
      s.proposers ++ [HeartbeatClient.new s.now (o.heartbeat 0) newip])
    (hReplies : t.replysfd = s.replysfd.filter o.reply) (hAcceptors : t.acceptors = s.acceptors)
    (hPsm : t.psm = s.psm) :
    Accounted may (Call.connected (o.heartbeat 0) ++
      (s.replysfd.filter fun sfd => !o.reply sfd).map .close) s.holding t.holding := by
  have hConnect : Accounted may _ _ _ := .connected (o.heartbeat 0) s.holding
  have hPerm := List.filter_append_perm o.reply s.replysfd
  have hSplit : ((0, (↑s.replysfd : Multiset Fd)) : Holding Fd) =
      (0, (↑(s.replysfd.filter o.reply) : Multiset Fd)) +
        (0, (↑(s.replysfd.filter fun sfd => !o.reply sfd) : Multiset Fd)) := by
    rw [Prod.mk_add_mk, add_zero, Multiset.coe_add, Multiset.coe_eq_coe.mpr hPerm]
  have hClose : Accounted may _ _ _ := .dropAll (s.replysfd.filter fun sfd => !o.reply sfd)
    (clients s.proposers + clients s.acceptors + ((↑s.psm.connections : Multiset Fd), 0) +
      (0, (↑(s.replysfd.filter o.reply) : Multiset Fd)) +
      ((↑(o.heartbeat 0).toList : Multiset Fd), 0))
  apply (hConnect.trans (hClose.of_eq _ rfl)).of_eq rfl
  · unfold State.holding
    rw [hProposers, hReplies, hAcceptors, hPsm, clients_append, clients_singleton]
    unfold HeartbeatClient.new
    dsimp only
    abel
  · unfold State.holding
    rw [hSplit]
    abel

omit [DecidableEq Fd] in
/-- A heartbeat leaves the connection as it is. -/
theorem clients_readMessage (now : Time) (i : Nat) (v : List (HeartbeatClient Fd)) :
    clients (v.modify i (HeartbeatClient.readMessage now)) = clients v := by
  have hSame : (v.modify i (HeartbeatClient.readMessage now)).map HeartbeatClient.sfd =
      v.map HeartbeatClient.sfd := by
    apply List.ext_getElem
    · simp
    · intro j _ _
      simp only [List.getElem_map, List.getElem_modify]
      split
      · rfl
      · rfl
  have hSfds : ∀ w : List (HeartbeatClient Fd), w.filterMap HeartbeatClient.sfd =
      (w.map HeartbeatClient.sfd).filterMap id := by
    intro w
    rw [List.filterMap_map]
    rfl
  unfold clients
  rw [hSfds, hSame, ← hSfds]

theorem CommitCall.ready {action : Action Fd} {o : Outcomes Fd} {r : PaxosResult} {s' : State Fd}
    (hCall : CommitCall cfg s action o r s') (hSelf : r = .committingSelf) :
    s'.psm.isReadyToCommit = true := by
  cases hCall with
  | proposed acc rest hDue hList =>
      rcases s.psm.newProposal_cases s.now (.acceptorChangeProposal ⟨s.currentversion + 1, acc⟩) with
        ⟨_, hEq⟩ | ⟨hSize, hEq⟩
      · rw [hEq] at hSelf
        cases hSelf
      · rw [hEq]
        simp [State.react, ProposerStateMachine.isReadyToCommit, hSize]
  | received sfd heartbeat m hProposers hAcceptors =>
      exact ProposerStateMachine.handleMessage_committingSelf hSelf

theorem receiver_lt {sfd : Fd} {i : Nat} {v : List (HeartbeatClient Fd)}
    (h : receiver sfd v = some i) : i < v.length := by
  obtain ⟨hBound, _⟩ := List.findIdx?_eq_some_iff_getElem.mp h
  exact hBound

/-- Every iteration whose clients are connected keeps its accounts. -/
theorem step_accounted (hAny : ∀ fd, may fd) {action : Action Fd} (hOk : Connects cfg s action)
    (h : step cfg s action = some t) : Accounted may (calls cfg s action) s.holding t.holding := by
  cases step_branch h with
  | @proposed o _ returned acc rest hDue hList hCommit =>
      unfold calls addAcceptorsCalls
      rw [hList]
      have hCall : CommitCall cfg s (.addAcceptors o) o _ _ := .proposed acc rest hDue hList
      exact react_accounted (s := { s with
        needchangeacceptor := false
        ischangingacceptor := true
        acceptorIPs := rest }) (hAny none) (fun _ => s.psm.newProposal_accounted s.now _)
        hCall.ready (fun ap => hOk _ _ _ ap hCall) hCommit
  | recruited newip rest hDue hList hRequest =>
      unfold calls addProposerCalls
      rw [hList]
      dsimp only
      rw [if_pos hRequest]
      exact recruited_accounted _ rfl rfl rfl rfl
  | unreached newip rest hList hRequest =>
      unfold calls addProposerCalls
      rw [hList]
      dsimp only
      rw [if_neg hRequest]
      exact .nil _
  | expired hIdle =>
      have hProposers := deleteExpired_accounted (hAny none) s.now s.proposers
        (clients s.acceptors + ((↑s.psm.connections : Multiset Fd), 0) +
          (0, (↑s.replysfd : Multiset Fd)))
      have hAcceptors := deleteExpired_accounted (hAny none) s.now s.acceptors
        (clients (s.proposers.filter fun hbc => !hbc.isExpired s.now (HEARTBEAT_PERIOD * 2)) +
          ((↑s.psm.connections : Multiset Fd), 0) + (0, (↑s.replysfd : Multiset Fd)))
      apply (hProposers.trans (hAcceptors.of_eq _ rfl)).of_eq
      · unfold State.holding
        abel
      · unfold State.holding deleteExpired
        dsimp only
        abel
      · abel
  | accepted newsfd replied hFull =>
      cases replied with
      | true =>
          apply (Accounted.hold newsfd s.holding).of_eq rfl
          have hReplies : ((0, (↑(s.replysfd ++ [newsfd]) : Multiset Fd)) : Holding Fd) =
              (0, (↑s.replysfd : Multiset Fd)) + (0, {newsfd}) := by
            rw [← Multiset.coe_add, Prod.mk_add_mk, add_zero, Multiset.coe_singleton]
          show _ + (0, (↑(s.replysfd ++ [newsfd]) : Multiset Fd)) = _
          unfold State.holding
          rw [hReplies]
          dsimp only
          abel
      | false => exact (Accounted.hold newsfd _).trans (.drop newsfd _)
  | proposerBeat i hProposer =>
      simp only [calls, handleReadyCalls, hProposer]
      unfold State.holding
      dsimp only
      rw [clients_readMessage]
      exact .nil _
  | proposerLost i hProposer =>
      simp only [calls, handleReadyCalls, hProposer]
      have hDelete := deleteHBC_accounted (hAny none) (receiver_lt hProposer) (clients s.acceptors +
        ((↑s.psm.connections : Multiset Fd), 0) + (0, (↑s.replysfd : Multiset Fd)))
      apply hDelete.of_eq
      · unfold State.holding
        abel
      · unfold State.holding deleteHBC
        dsimp only
        abel
  | acceptorBeat i hProposers hAcceptor =>
      simp only [calls, handleReadyCalls, hProposers, hAcceptor]
      unfold State.holding
      dsimp only
      rw [clients_readMessage]
      exact .nil _
  | acceptorLost i hProposers hAcceptor =>
      simp only [calls, handleReadyCalls, hProposers, hAcceptor]
      have hDelete := deleteHBC_accounted (hAny none) (receiver_lt hAcceptor)
        (clients s.proposers + ((↑s.psm.connections : Multiset Fd), 0) +
          (0, (↑s.replysfd : Multiset Fd)))
      apply hDelete.of_eq
      · unfold State.holding
        abel
      · unfold State.holding deleteHBC
        dsimp only
        abel
  | @received sfd heartbeat m o _ _ hProposers hAcceptors hCommit =>
      simp only [calls, handleReadyCalls, hProposers, hAcceptors]
      have hCall : CommitCall cfg s (.ready sfd heartbeat (some m) o) o _ _ :=
        .received sfd heartbeat m hProposers hAcceptors
      exact react_accounted (hAny none) (fun _ => s.psm.handleMessage_accounted s.now sfd m)
        hCall.ready (fun ap => hOk _ _ _ ap hCall) hCommit
  | unread hProposers hAcceptors =>
      simp only [calls, handleReadyCalls, hProposers, hAcceptors]
      exact .forget _ _ (hAny _)
  | wait | unaccepted => exact .nil _

end Accounts

section Unconnected
variable [DecidableEq Fd] {cfg : Config} {s t : State Fd} {action : Action Fd}

/-- The calls of a commit are the last of its iteration. -/
theorem CommitCall.calls {o : Outcomes Fd} {r : PaxosResult} {s' : State Fd}
    (hCall : CommitCall cfg s action o r s') :
    ∃ before, calls cfg s action = before ++ handleCommitCalls cfg o r s' := by
  cases hCall with
  | proposed acc rest hDue hList =>
      refine ⟨(s.psm.newProposal s.now
        (.acceptorChangeProposal ⟨s.currentversion + 1, acc⟩)).effects.flatMap Effect.calls, ?_⟩
      unfold Requestor.calls addAcceptorsCalls
      rw [hList]
      rfl
  | received sfd heartbeat m hProposers hAcceptors =>
      refine ⟨(s.psm.handleMessage s.now sfd m).effects.flatMap Effect.calls, ?_⟩
      simp only [Requestor.calls, handleReadyCalls, hProposers, hAcceptors]
      rfl

/-- A client that is not connected leaves its -1 behind. -/
theorem registered_none {v : List (HeartbeatClient Fd)} {hbc : HeartbeatClient Fd} (hMem : hbc ∈ v)
    (hNone : hbc.sfd = none) (fs : FileSelector Fd) :
    none ∈ (Call.selects (v.flatMap fun hbc => Call.unchecked hbc.sfd) fs).regfd := by
  obtain ⟨before, after, rfl⟩ := List.append_of_mem hMem
  rw [List.flatMap_append, List.flatMap_cons, Call.selects_append, Call.selects_append, hNone,
    Call.selects_unchecked]
  apply Call.selects_none
  · exact FileSelector.registered_self
  · intro hUnregister
    obtain ⟨other, _, hCall⟩ := List.mem_flatMap.mp hUnregister
    simp [Call.unchecked] at hCall

/-- If no -1 is registered afterwards, a commit could connect to all
acceptors. -/
theorem connects_of_registered (h : step cfg s action = some t) (hNone : none ∉ t.fs.regfd) :
    Connects cfg s action := by
  intro o r s' ap hCall hSelf hProposal i hBound hFailed
  apply hNone
  obtain ⟨before, hCalls⟩ := hCall.calls
  rw [step_selects h, hCalls, Call.selects_append]
  unfold handleCommitCalls
  rw [if_pos hSelf, hProposal]
  dsimp only
  unfold commitAcceptorsCalls changeAcceptorCalls
  have hMem : HeartbeatClient.new s'.now (o.heartbeat i) ap.acceptor[i] ∈
      recruited s'.now o ap.acceptor := List.mem_mapIdx.mpr ⟨i, hBound, rfl⟩
  rw [Call.selects_append, Call.selects_append]
  apply Call.selects_none _ (Effect.calls_some _)
  apply Call.selects_none _ (Effect.calls_some _)
  rw [Call.selects_append]
  exact registered_none hMem hFailed _

/-- The server socket and the landmark are registered and open. -/
theorem init_consistent (cfg : Config) (start : Time) {querysfd : Fd}
    {landmark : Option (IPString × Fd)} (acceptorIPs proposerIPs : List IPString)
    {before live : List Fd} (hBefore : before.Nodup)
    (hKernel : Call.openedAfter ((querysfd :: landmark.toList.map Prod.snd).map .opened) before =
      some live) :
    Consistent (owned querysfd (State.init cfg start querysfd landmark acceptorIPs proposerIPs)) live
      (State.init cfg start querysfd landmark acceptorIPs proposerIPs).fs := by
  have hStart := consistent_start _ hBefore hKernel
  cases landmark with
  | none => exact hStart
  | some l => exact hStart

/-- A missing server socket is registered all the same. -/
theorem started_none (cfg : Config) (start : Time) (querysfd : Fd)
    (landmark : Option (IPString × Fd)) (acceptorIPs proposerIPs : List IPString) :
    none ∈ (started cfg start querysfd false landmark acceptorIPs proposerIPs).fs.regfd := by
  unfold started
  rw [if_neg (by simp)]
  dsimp only
  rw [FileSelector.perform_eq]
  exact Call.selects_none (List.mem_singleton_self none) (Effect.calls_some _)

end Unconnected

end QpidRecovery.Requestor
