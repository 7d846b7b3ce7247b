import QpidRecovery.Cluster.RequestorSteps
import QpidRecovery.Cluster.ProposerSteps

/-! The processes carry out steps of the machines, and so a succession. -/
namespace QpidRecovery.Cluster

open Requestor (Called Config SentRequest)

variable {Id : Type} {cfg : Config}

/-- The machines that the processes keep for the service of the requestor. -/
structure View (cfg : Config) (t : Machines) (s : State Id) : Prop where
  requestor : ∃ k, t.proposer none = some ⟨k, s.requestor.psm⟩
  lockstep : s.requestor.psm.version = s.requestor.currentversion + 1 ∨ s.requestor.psm.Retired
  proposers : ∀ ip, (t.proposer (some ip)).map Numbered.psm =
    (Proposer.record cfg.servicename (s.proposers ip).monitor).map Proposer.Monitored.psm
  named : ∀ ip, Proposer.WellNamed (s.proposers ip).ledger
  acceptors : ∀ ip, t.acceptor ip =
    Acceptor.registered (s.acceptors ip).accname cfg.servicename
  registry : ∀ ip, Acceptor.Registry (s.acceptors ip).accname
  requests : t.requests = s.requests
  network : t.network = s.network
  decided : t.decided.map Decision.entry = s.decided
  next : t.next ≤ s.opened

namespace View
variable {t : Machines} {s : State Id}

theorem read (h : View cfg t s) (q : SentRequest) :
    View cfg (t.read q) { s with requests := s.requests.erase q } :=
  { h with requests := congrArg (List.erase · q) h.requests }

theorem consume (h : View cfg t s) (packet : Packet) :
    View cfg (t.consume packet) { s with network := s.network.erase packet } :=
  { h with network := congrArg (List.erase · packet) h.network }

/-- The connections that the reader's machine has. -/
theorem holds (h : View cfg t s) {x : Owner} {c : Conn} (hHolds : s.holds cfg x c = true) :
    ∃ k psm, t.proposer x = some ⟨k, psm⟩ ∧ some c ∈ psm.accsfd := by
  cases x with
  | none =>
      obtain ⟨k, hMachine⟩ := h.requestor
      exact ⟨k, _, hMachine, of_decide_eq_true hHolds⟩
  | some ip =>
      obtain ⟨mon, hRecord, hOpen⟩ := (Option.any_eq_true ..).mp hHolds
      have hMachine := h.proposers ip
      rw [hRecord] at hMachine
      obtain ⟨⟨k, psm⟩, hOwn, rfl⟩ := Option.map_eq_some_iff.mp hMachine
      exact ⟨k, _, hOwn, of_decide_eq_true hOpen⟩

/-- An iteration of the requestor. -/
theorem leads (h : View cfg t s) {action : Requestor.Action Conn} {r : Requestor.State Conn}
    {t' : Machines} (hLeads : Leads cfg (s.opened + 1) s.requestor r t t')
    (hDelivered : delivered s.decided (r.sent.drop s.requestor.sent.length) action =
      r.sent.drop s.requestor.sent.length) :
    View cfg t' (s.putRequestor cfg action r) where
  requestor := hLeads.own
  lockstep := hLeads.lockstep
  proposers := fun ip => by
    rw [hLeads.others]
    exact h.proposers ip
  named := h.named
  acceptors := fun ip => by
    rw [hLeads.acceptor]
    exact h.acceptors ip
  registry := h.registry
  requests := by
    obtain ⟨new, hSent, hNew⟩ := hLeads.requests
    rw [State.putRequestor, hNew, hDelivered, hSent, List.drop_left, h.requests]
  network := by
    obtain ⟨new, hTrace, hNew, _⟩ := hLeads.log
    rw [State.putRequestor, hNew, hTrace, List.drop_left, h.network]
  decided := by
    obtain ⟨new, hTrace, _, hNew⟩ := hLeads.log
    rw [State.putRequestor, hNew, hTrace, List.drop_left, h.decided]
  next := hLeads.next

/-- An iteration of a proposer. -/
theorem follows (h : View cfg t s) {ip : IPString} {p : Proposer.State Conn Id} {t' : Machines}
    {new : List (Proposer.Output Conn)} (hNamed : Proposer.WellNamed p.ledger)
    (hTrace : p.trace = (s.proposers ip).trace ++ new)
    (hFollows : Follows cfg.servicename ip (s.opened + 1) new
      (Proposer.record cfg.servicename p.monitor) t t') :
    View cfg t' (s.putProposer cfg ip p) where
  requestor := by
    rw [hFollows.others none (by simp)]
    exact h.requestor
  lockstep := h.lockstep
  proposers := by
    intro ip'
    dsimp only [State.putProposer, State.putAcceptor]
    by_cases hSame : ip' = ip
    · subst hSame
      rw [Function.update_self]
      exact hFollows.own
    · rw [Function.update_of_ne hSame, hFollows.others _ (by simpa using hSame)]
      exact h.proposers ip'
  named := by
    intro ip'
    dsimp only [State.putProposer, State.putAcceptor]
    by_cases hSame : ip' = ip
    · subst hSame
      rwa [Function.update_self]
    · rw [Function.update_of_ne hSame]
      exact h.named ip'
  acceptors := fun ip' => by
    rw [hFollows.acceptor]
    exact h.acceptors ip'
  registry := h.registry
  requests := hFollows.requests.trans h.requests
  network := by rw [State.putProposer, hFollows.network, hTrace, List.drop_left, h.network]
  decided := by rw [State.putProposer, hFollows.decided, hTrace, List.drop_left, h.decided]
  next := hFollows.next

/-- An event of an acceptor. -/
theorem replies (h : View cfg t s) {ip : IPString} {a : Acceptor.State Conn} {t' : Machines}
    {out : List (Conn × PaxosMessage)} (hRegistry : Acceptor.Registry a.accname)
    (hOwn : t'.acceptor ip = Acceptor.registered a.accname cfg.servicename)
    (hOthers : ∀ ip', ip' ≠ ip → t'.acceptor ip' = t.acceptor ip')
    (hProposer : t'.proposer = t.proposer) (hRequests : t'.requests = t.requests)
    (hNetwork : t'.network = t.network ++
      (ofService cfg.servicename out).map fun o => .toProposer o.1 o.2)
    (hDecided : t'.decided = t.decided) (hNext : t'.next = t.next) :
    View cfg t' (s.putAcceptor cfg ip out a) where
  requestor := hProposer ▸ h.requestor
  lockstep := h.lockstep
  proposers := hProposer ▸ h.proposers
  named := h.named
  acceptors := by
    intro ip'
    dsimp only [State.putProposer, State.putAcceptor]
    by_cases hSame : ip' = ip
    · subst hSame
      rw [Function.update_self]
      exact hOwn
    · rw [Function.update_of_ne hSame, hOthers ip' hSame]
      exact h.acceptors ip'
  registry := by
    intro ip'
    dsimp only [State.putProposer, State.putAcceptor]
    by_cases hSame : ip' = ip
    · subst hSame
      rwa [Function.update_self]
    · rw [Function.update_of_ne hSame]
      exact h.registry ip'
  requests := hRequests.trans h.requests
  network := by rw [State.putAcceptor, hNetwork, h.network]
  decided := by rw [hDecided, h.decided]; rfl
  next := by
    rw [hNext]
    exact Nat.le_succ_of_le h.next

end View

theorem dials_dial (number : Nat) (connect : Nat → IPString → Option Conn) :
    Dials number (dial number connect) := by
  intro i ip c hConnect
  obtain ⟨_, _, rfl⟩ := Option.map_eq_some_iff.mp hConnect
  rfl

/-- What is read is about another service, or is taken off the network. -/
theorem arrive_cases {s u : State Id} {arrival : Option Arrival}
    (h : s.arrive cfg arrival = some u) :
    (u = s ∧ ∀ a, arrival = some a → a.name ≠ cfg.servicename) ∨
      ∃ a, arrival = some a ∧ a.name = cfg.servicename ∧ s.read cfg a = some u := by
  cases arrival with
  | none => exact .inl ⟨(Option.some.inj h).symm, by simp⟩
  | some a =>
      simp only [State.arrive] at h
      split at h
      next hName => exact .inr ⟨a, rfl, hName, h⟩
      next hName =>
        refine .inl ⟨(Option.some.inj h).symm, ?_⟩
        intro a' hArrival
        cases hArrival
        exact hName

theorem read_toOwner {s u : State Id} {x : Owner} {c : Conn} {m : PaxosMessage}
    (h : s.read cfg (.toOwner x c m) = some u) :
    .toProposer c m ∈ s.network ∧ s.holds cfg x c = true ∧
      u = { s with network := s.network.erase (.toProposer c m) } := by
  simp only [State.read] at h
  split at h
  next hBoth =>
    cases h
    exact ⟨hBoth.1, hBoth.2, rfl⟩
  · cases h

theorem read_request {s u : State Id} {q : SentRequest}
    (h : s.read cfg (.request q) = some u) :
    q ∈ s.requests ∧ u = { s with requests := s.requests.erase q } := by
  simp only [State.read] at h
  split at h
  next hMem =>
    cases h
    exact ⟨hMem, rfl⟩
  · cases h

theorem read_toAcceptor {s u : State Id} {ip : IPString} {c : Conn} {m : PaxosMessage}
    (h : s.read cfg (.toAcceptor ip c m) = some u) :
    .toAcceptor c m ∈ s.network ∧ c.peer = ip ∧
      u = { s with network := s.network.erase (.toAcceptor c m) } := by
  simp only [State.read] at h
  split at h
  next hBoth =>
    cases h
    exact ⟨hBoth.1, hBoth.2, rfl⟩
  · cases h

section Requestor
variable {t : Machines} {b : Council} {s : State Id} {o : Requestor.Outcomes Conn}
  {r s' : Requestor.State Conn} {re : Reaction (ProposerStateMachine Conn) Conn} {returned : Int}

theorem delivered_nil (decided : List (Owner × Proposal)) (action : Requestor.Action Conn) :
    delivered decided [] action = [] := by
  cases action <;> rfl

theorem message_leads (hInv : Inv cfg.servicename t b) (h : View cfg t s) {c : Conn}
    {m : PaxosMessage} (hPacket : .toProposer c m ∈ s.network)
    (hHolds : s.holds cfg none c = true) (hDials : Dials s.opened o.paxos)
    (hSame : Requestor.Alike s.requestor s')
    (hCommit : Requestor.handleCommit cfg o
      (s.requestor.psm.handleMessage s.requestor.now c m).result
      (s'.react (s.requestor.psm.handleMessage s.requestor.now c m)) = some (r, returned)) :
    ∃ t', Reaches cfg.servicename t t' ∧
      Leads cfg (s.opened + 1) s.requestor r (t.consume (.toProposer c m)) t' := by
  obtain ⟨k, hMachine⟩ := h.requestor
  obtain ⟨k', psm, hOwn, hOpen⟩ := h.holds hHolds
  rw [hMachine] at hOwn
  cases hOwn
  have hMachineInv := hInv.machine _ _ _ hMachine
  have hSize : s.requestor.psm.nacceptor ≠ 0 := by
    rcases hMachineInv.standing with ⟨_, _, _, hSize, _⟩ | ⟨_, _, _, hClosed⟩
    · exact hSize
    · exact absurd hOpen (hClosed c)
  have hStep : Step cfg.servicename t _ := .message s.requestor.now hMachine hOpen
    (h.network ▸ hPacket)
  obtain ⟨b', _, hInv'⟩ := hInv.reaches (.single hStep)
  have hLockstep : (s.requestor.psm.handleMessage s.requestor.now c m).machine.version =
      s'.currentversion + 1 := by
    rw [(s.requestor.psm.handleMessage_keeps s.requestor.now c m).version, hSame.version]
    exact h.lockstep.resolve_right fun hRetired => hRetired.closed c hOpen
  have hNames : ∀ out ∈ sends (s.requestor.psm.handleMessage s.requestor.now c m).effects,
      out.2.name = cfg.servicename := by
    intro out hOut
    rw [(ProposerStateMachine.handleMessage_speaks hOut).2.name, hMachineInv.name]
  obtain ⟨t', hReaches, hLeads⟩ := call_leads (t := t.consume (.toProposer c m))
    hInv' hNames (.inl hLockstep)
    ProposerStateMachine.handleMessage_committingSelf
    (ProposerStateMachine.handleMessage_retired hSize) hDials h.next (Nat.lt_add_one s.opened) hCommit
  exact ⟨t', .trans (.single hStep) hReaches, hLeads.alike hSame⟩

theorem propose_leads (hInv : Inv cfg.servicename t b) (h : View cfg t s) {acc : List IPString}
    (hSome : acc ≠ []) (hNodup : acc.Nodup) (hDials : Dials s.opened o.paxos)
    (hSame : Requestor.Alike s.requestor s')
    (hReaction : re = s.requestor.psm.newProposal s.requestor.now
      (.acceptorChangeProposal ⟨s.requestor.currentversion + 1, acc⟩))
    (hCommit : Requestor.handleCommit cfg o re.result (s'.react re) = some (r, returned)) :
    ∃ t', Reaches cfg.servicename t t' ∧ Leads cfg (s.opened + 1) s.requestor r t t' := by
  obtain ⟨k, hMachine⟩ := h.requestor
  have hProper : Proper s.requestor.psm
      (.acceptorChangeProposal ⟨s.requestor.currentversion + 1, acc⟩) none :=
    ⟨_, rfl, hSome, hNodup, h.lockstep.imp_left Eq.symm⟩
  have hStep : Step cfg.servicename t _ := .propose s.requestor.now hMachine hProper
  rw [← hReaction] at hStep
  obtain ⟨b', _, hInv'⟩ := hInv.reaches (.single hStep)
  have hLockstep : re.machine.version = s'.currentversion + 1 ∨ re.machine.Retired := by
    rw [hReaction, (s.requestor.psm.newProposal_keeps s.requestor.now _).version, hSame.version]
    exact h.lockstep.imp_right fun hRetired => hRetired.newProposal s.requestor.now _
  have hNames : ∀ out ∈ sends re.effects, out.2.name = cfg.servicename := by
    intro out hOut
    rw [hReaction] at hOut
    rw [(ProposerStateMachine.newProposal_speaks (q := .noProposal) hOut).2.name,
      (hInv.machine _ _ _ hMachine).name]
  have hCommitted : Proposer.Committed re.result re.machine := by
    rw [hReaction]
    exact Proposer.newProposal_committed s.requestor.now _ s.requestor.psm
  have hOther : re.result ≠ .committingOther := by
    rw [hReaction]
    rcases s.requestor.psm.newProposal_cases s.requestor.now (.acceptorChangeProposal
      ⟨s.requestor.currentversion + 1, acc⟩) with ⟨_, hEq⟩ | ⟨_, hEq⟩
    · simp [hEq]
    · simp [hEq]
  obtain ⟨t', hReaches, hLeads⟩ := call_leads hInv' hNames hLockstep
    hCommitted.self (fun hAbsurd => absurd hAbsurd hOther) hDials h.next (Nat.lt_add_one s.opened)
    hCommit
  exact ⟨t', .trans (.single hStep) hReaches, hLeads.alike hSame⟩

theorem dialRequestor_ready {number : Nat} {a : Requestor.Action Conn} {sfd : Conn}
    {heartbeat : Bool} {message : Option PaxosMessage}
    (h : dialRequestor number a = .ready sfd heartbeat message o) :
    Dials number o.paxos ∧ ∃ o', a = .ready sfd heartbeat message o' := by
  cases a with
  | ready sfd heartbeat message o' =>
      cases h
      exact ⟨dials_dial number _, o', rfl⟩
  | _ => cases h

theorem dialRequestor_addAcceptors {number : Nat} {a : Requestor.Action Conn}
    (h : dialRequestor number a = .addAcceptors o) :
    Dials number o.paxos ∧ ∃ o', a = .addAcceptors o' := by
  cases a with
  | addAcceptors o' =>
      cases h
      exact ⟨dials_dial number _, o', rfl⟩
  | _ => cases h

theorem dialRequestor_addProposer {number : Nat} {a : Requestor.Action Conn}
    (h : dialRequestor number a = .addProposer o) : a = .addProposer o := by
  cases a with
  | addProposer o' => exact h
  | _ => cases h

/-- What recruits a proposer and is delivered carries a committed list. -/
theorem View.recruits_committed (h : View cfg t s) {new : List SentRequest}
    (hRecruited : Requestor.Recruited cfg s.requestor r new) {q : SentRequest}
    (hq : q ∈ new.filter (announces s.decided)) : q.port = .requestProposer ∧
      ∃ d ∈ t.decided, ∃ ap, d.proposal = .acceptorChangeProposal ap ∧
        Carries cfg.servicename ap q := by
  obtain ⟨hNew, hAnnounces⟩ := List.mem_filter.mp hq
  obtain ⟨hPort, hRequest⟩ := hRecruited.carried q hNew
  obtain ⟨entry, hEntry, hList⟩ := List.any_eq_true.mp hAnnounces
  rw [← h.decided] at hEntry
  obtain ⟨d, hd, rfl⟩ := List.mem_map.mp hEntry
  refine ⟨hPort, d, hd, _, of_decide_eq_true hList, ?_, ?_, rfl, rfl⟩
  · rw [hRequest]
    rfl
  · rw [hRequest]
    rfl

/-- A message to the requestor that no machine reads is lost. -/
theorem View.skip (h : View cfg t s) {a : Requestor.Action Conn} {u : State Id}
    (hArrive : s.arrive cfg (.requestor a : Action Id).arrival = some u) :
    ∃ t', Reaches cfg.servicename t t' ∧ View cfg t' u := by
  rcases arrive_cases hArrive with ⟨rfl, _⟩ | ⟨arrival, hArrival, _, hTaken⟩
  · exact ⟨t, .refl, h⟩
  · cases a with
    | ready sfd heartbeat message o =>
        obtain ⟨m, _, rfl⟩ := Option.map_eq_some_iff.mp hArrival
        obtain ⟨_, _, rfl⟩ := read_toOwner hTaken
        exact ⟨_, .single (.lose _), h.consume _⟩
    | _ => cases hArrival

/-- Every iteration of the requestor is matched by its machine. -/
theorem View.requestor_step [DecidableEq Id] {a : Requestor.Action Conn} {v : State Id}
    (hInv : Inv cfg.servicename t b) (h : View cfg t s) (hOk : Allowed cfg s (.requestor a))
    (hStep : step cfg s (.requestor a) = some v) :
    ∃ t', Reaches cfg.servicename t t' ∧ View cfg t' v := by
  obtain ⟨u, hArrive, hIterate⟩ := Option.bind_eq_some_iff.mp hStep
  obtain ⟨r, hRun, rfl⟩ := Option.map_eq_some_iff.mp hIterate
  obtain ⟨t₀, hSkip, hView⟩ := h.skip hArrive
  obtain ⟨k, hMachine⟩ := hView.requestor
  have hBound := Nat.le_succ_of_le hView.next
  generalize hAction : dialRequestor u.opened a = action at hRun
  rcases Requestor.step_cases hRun with (hSame | ⟨o, new, rfl, hRecruited⟩) |
    ⟨o, re, s', returned, hCalled, hSame, hCommit⟩
  · refine ⟨t₀, hSkip, hView.leads (.refl hSame hMachine hView.lockstep hBound) ?_⟩
    rw [hSame.sent, List.drop_length, delivered_nil]
  · cases dialRequestor_addProposer hAction
    have hLeads : Leads cfg (u.opened + 1) u.requestor _ t₀ t₀ :=
      .refl hRecruited.alike hMachine hView.lockstep hBound
    have hNext : View cfg t₀ (u.putRequestor cfg .timeout _) := hView.leads hLeads rfl
    have hAdd := Step.addProposer fun q hq => hView.recruits_committed hRecruited hq
    refine ⟨_, hSkip.tail hAdd, { hNext with requests := ?_ }⟩
    rw [State.putRequestor, hRecruited.sent, List.drop_left, ← hView.requests]
    rfl
  · cases hCalled with
    | message sfd heartbeat m =>
        obtain ⟨hDials, o', rfl⟩ := dialRequestor_ready hAction
        rcases arrive_cases hArrive with ⟨rfl, hOther⟩ | ⟨arrival, hArrival, hName, hTaken⟩
        · have hForeign : m.name ≠ u.requestor.psm.name := by
            obtain ⟨k', hOwn⟩ := h.requestor
            rw [(hInv.machine _ _ _ hOwn).name]
            exact hOther _ rfl
          have hIgnored : u.requestor.psm.handleMessage u.requestor.now sfd m =
              ⟨u.requestor.psm, [], .ignored⟩ := by
            rw [ProposerStateMachine.handleMessage, if_pos hForeign]
          rw [hIgnored, Requestor.handleCommit_handled o (by simp) (by simp)] at hCommit
          cases hCommit
          have hSame' : Requestor.Alike u.requestor
              (s'.react ⟨u.requestor.psm, [], .ignored⟩) :=
            ⟨rfl, hSame.version, (List.append_nil _).trans hSame.trace, hSame.sent⟩
          exact ⟨t₀, hSkip, hView.leads (.refl hSame' hMachine hView.lockstep hBound) rfl⟩
        · cases hArrival
          obtain ⟨hPacket, hHolds, rfl⟩ := read_toOwner hTaken
          obtain ⟨t', hReaches, hLeads⟩ := message_leads hInv h hPacket hHolds hDials hSame hCommit
          exact ⟨t', hReaches, (h.consume _).leads hLeads rfl⟩
    | propose acc rest o hList =>
        obtain ⟨hDials, o', rfl⟩ := dialRequestor_addAcceptors hAction
        cases hArrive
        obtain ⟨hSome, hNodup⟩ := hOk acc rest hList
        obtain ⟨t', hReaches, hLeads⟩ := propose_leads hInv h hSome hNodup hDials hSame rfl hCommit
        exact ⟨t', hReaches, h.leads hLeads rfl⟩

end Requestor

section Proposer
variable [DecidableEq Id] {t : Machines} {b : Council} {s v : State Id} {ip : IPString}
  {a : Proposer.Action Conn Id} {p p' : Proposer.State Conn Id}

omit [DecidableEq Id] in
theorem paxosMessage_message {sfd : Conn} {input : Proposer.Input} {m : PaxosMessage}
    (h : Proposer.paxosMessage sfd input p = some m) : input.message = some m := by
  unfold Proposer.paxosMessage at h
  split at h
  · exact (Option.filter_eq_some_iff.mp h).1
  · cases h

omit [DecidableEq Id] in
/-- An iteration that reads nothing about the service. -/
theorem permits_elsewhere {name : ServiceName} (number : Nat)
    (hOther : ∀ arrival, (.proposer ip a : Action Id).arrival = some arrival → arrival.name ≠ name) :
    Proposer.Permits (elsewhere name) p (dialProposer number a) := by
  cases a with
  | request fromip r o => exact ⟨hOther _ rfl, fun _ _ _ => trivial⟩
  | ready sfd input o =>
      refine ⟨trivial, fun m hMessage => ?_⟩
      have hName : m.name ≠ name := by
        refine hOther (.toOwner (some ip) sfd m) ?_
        simp [Action.arrival, paxosMessage_message hMessage]
      exact ⟨hName, fun _ _ => hName⟩
  | timeout o => exact ⟨fun _ => trivial, fun _ _ => trivial⟩
  | _ => trivial

theorem wellNamed_step (h : Proposer.WellNamed p.ledger) {a : Proposer.Action Conn Id}
    (hStep : Proposer.step p a = some p') : Proposer.WellNamed p'.ledger := by
  have hOk : Proposer.Permits Proposer.anyInput p a := by
    cases a with
    | request => exact ⟨trivial, fun _ _ _ => trivial⟩
    | ready => exact ⟨trivial, fun _ _ => ⟨trivial, fun _ _ => trivial⟩⟩
    | timeout => exact ⟨fun _ => trivial, fun _ _ => trivial⟩
    | _ => trivial
  exact (Proposer.step_moves hOk hStep).invariant h fun _ _ hNamed hMove => hNamed.move hMove

/-- Every iteration of a proposer is matched by its machine. -/
theorem View.proposer_step (hInv : Inv cfg.servicename t b) (h : View cfg t s)
    (hStep : step cfg s (.proposer ip a) = some v) :
    ∃ t', Reaches cfg.servicename t t' ∧ View cfg t' v := by
  obtain ⟨u, hArrive, hIterate⟩ := Option.bind_eq_some_iff.mp hStep
  obtain ⟨p, hRun, rfl⟩ := Option.map_eq_some_iff.mp hIterate
  -- the machine takes no part in what is about other services
  have hElsewhere {t₀ : Machines} {b₀ : Council} (hReaches : Reaches cfg.servicename t t₀)
      (hInv₀ : Inv cfg.servicename t₀ b₀) (hView : View cfg t₀ u)
      (hPermits : Proposer.Permits (elsewhere cfg.servicename) (u.proposers ip)
        (dialProposer u.opened a)) : ∃ t', Reaches cfg.servicename t t' ∧
        View cfg t' (u.putProposer cfg ip p) := by
    obtain ⟨new, t', hTrace, hNamed, hMore, hFollows⟩ := moves_follow hInv₀ (hView.named ip)
      (hView.proposers ip) (Nat.le_succ_of_le hView.next) (Proposer.step_moves hPermits hRun)
    exact ⟨t', hReaches.trans hMore, hView.follows hNamed hTrace hFollows⟩
  rcases arrive_cases hArrive with ⟨rfl, hOther⟩ | ⟨arrival, hArrival, hName, hTaken⟩
  · exact hElsewhere .refl hInv h (permits_elsewhere u.opened hOther)
  · cases a with
    | request fromip r o =>
        cases hArrival
        obtain ⟨hMem, rfl⟩ := read_request hTaken
        have hNamed := wellNamed_step (h.named ip) hRun
        cases hRun
        obtain ⟨new, t', hTrace, hReaches, hFollows⟩ :=
          request_follows (o := { o with paxos := dial s.opened o.paxos }) fromip (h.named ip)
            (h.requests ▸ hMem) hName (dials_dial s.opened o.paxos) h.next
            (Nat.lt_add_one s.opened)
        exact ⟨t', hReaches, (h.read _).follows hNamed hTrace hFollows⟩
    | ready sfd input o =>
        obtain ⟨m, hInput, rfl⟩ := Option.map_eq_some_iff.mp hArrival
        obtain ⟨hPacket, hHolds, rfl⟩ := read_toOwner hTaken
        have hNamed := wellNamed_step (h.named ip) hRun
        have hRun' : Proposer.handleReady { o with paxos := dial s.opened o.paxos } sfd input
          (s.proposers ip) = some p := hRun
        cases hMessage : Proposer.paxosMessage sfd input (s.proposers ip) with
        | none =>
            have hLose : Step cfg.servicename t (t.consume (.toProposer sfd m)) := .lose _
            refine hElsewhere (.single hLose) (hInv.consume _) (h.consume _) ⟨trivial, ?_⟩
            intro m' hSome
            rw [show Proposer.paxosMessage sfd input (s.proposers ip) = some m' from hSome]
              at hMessage
            cases hMessage
        | some m' =>
            have hSame := paxosMessage_message hMessage
            rw [hInput] at hSame
            cases hSame
            obtain ⟨k, psm, hMachine, hOpen⟩ := h.holds hHolds
            have hOwn := h.proposers ip
            rw [hMachine] at hOwn
            obtain ⟨mon, hRecord, rfl⟩ := Option.map_eq_some_iff.mp hOwn.symm
            rw [Proposer.handleReady_paxosMessage hMessage] at hRun'
            obtain ⟨new, t', hTrace, hReaches, hFollows⟩ :=
              message_follows hInv (h.named ip) hRecord (by rw [hMachine]; rfl)
                (h.network ▸ hPacket) hOpen hName (dials_dial s.opened o.paxos) h.next
                (Nat.lt_add_one s.opened) hRun'
            exact ⟨t', hReaches, (h.consume _).follows hNamed hTrace hFollows⟩
    | _ => cases hArrival

end Proposer

section Acceptor
variable [DecidableEq Id] {t : Machines} {b : Council} {s v : State Id} {ip : IPString}
  {e : Acceptor.Event Conn}

omit [DecidableEq Id] in
/-- An event that leaves the machine of the service alone, and says nothing
about it. -/
theorem View.bystander (h : View cfg t s) {a : Acceptor.State Conn}
    {out : List (Conn × PaxosMessage)} (hRegistry : Acceptor.Registry a.accname)
    (hSame : Acceptor.registered a.accname cfg.servicename =
      Acceptor.registered (s.acceptors ip).accname cfg.servicename)
    (hOut : ofService cfg.servicename out = []) : View cfg t (s.putAcceptor cfg ip out a) := by
  refine h.replies hRegistry ?_ (fun _ _ => rfl) rfl rfl ?_ rfl rfl
  · rw [hSame]
    exact h.acceptors ip
  · rw [hOut, List.map_nil, List.append_nil]

/-- Every event of an acceptor is matched by its machine. -/
theorem View.acceptor_step (h : View cfg t s) (hOk : Allowed cfg s (.acceptor ip e))
    (hStep : step cfg s (.acceptor ip e) = some v) :
    ∃ t', Reaches cfg.servicename t t' ∧ View cfg t' v := by
  obtain ⟨u, hArrive, hIterate⟩ := Option.bind_eq_some_iff.mp hStep
  obtain ⟨a, hRun, rfl⟩ := Option.map_eq_some_iff.mp hIterate
  have hRegistry := h.registry ip
  cases e with
  | wait d =>
      cases hArrive
      cases hRun
      exact ⟨t, .refl, h.bystander hRegistry rfl rfl⟩
  | connection newpaxossfd =>
      cases hArrive
      cases hRun
      exact ⟨t, .refl, h.bystander hRegistry rfl rfl⟩
  | receiveError ready =>
      cases hArrive
      simp only [Acceptor.step] at hRun
      split at hRun
      · cases hRun
        exact ⟨t, .refl, h.bystander hRegistry rfl rfl⟩
      · cases hRun
  | timeout =>
      cases hArrive
      cases hRun
      obtain ⟨hNext, hLookup⟩ := hRegistry.map
        (fun a => (a.checkTimeout (s.acceptors ip).now (seconds 4)).1)
        (AcceptorStateMachine.checkTimeout_name _ _)
      refine ⟨t, .refl, h.bystander hNext ?_ rfl⟩
      refine (hLookup cfg.servicename).trans ?_
      cases hMachine : Acceptor.registered (s.acceptors ip).accname cfg.servicename with
      | none => rfl
      | some a =>
          have hQuiet := hOk a hMachine
          rcases a.checkTimeout_cases (s.acceptors ip).now (seconds 4) with hEq | ⟨_, _, hEq⟩
          · rw [Option.map_some, hEq]
          · rw [hEq] at hQuiet
            cases hQuiet
  | request r =>
      obtain ⟨hNext, hLookup⟩ := hRegistry.createAcceptor (s.acceptors ip).now r
      rcases arrive_cases hArrive with ⟨rfl, hOther⟩ | ⟨arrival, hArrival, hName, hTaken⟩
      · have hName : r.name ≠ cfg.servicename := hOther _ rfl
        cases hRun
        exact ⟨t, .refl, h.bystander hNext ((hLookup _).trans (if_neg hName.symm)) rfl⟩
      · cases hArrival
        obtain ⟨hMem, rfl⟩ := read_request hTaken
        cases hRun
        have hCreate : Step cfg.servicename t _ :=
          .create (q := ⟨ip, .requestAcceptor, r⟩) (s.acceptors ip).now (h.requests ▸ hMem) rfl
        refine ⟨_, .single hCreate, (h.read _).replies hNext ?_
          (fun _ hNe => Function.update_of_ne hNe _ _) rfl rfl (List.append_nil _).symm rfl rfl⟩
        exact (Function.update_self ..).trans
          ((hLookup cfg.servicename).trans (if_pos hName.symm)).symm
  | message ready m =>
      have hRun' : Acceptor.step (u.acceptors ip) (.message ready m) = some a := hRun
      simp only [Acceptor.step] at hRun'
      split at hRun'
      · rcases arrive_cases hArrive with ⟨rfl, hOther⟩ | ⟨arrival, hArrival, hName, hTaken⟩
        · have hForeign : m.name ≠ cfg.servicename := hOther _ rfl
          obtain ⟨hNext, hLookup, _⟩ := hRegistry.handlePaxosMessage (u.acceptors ip).now ready m
          cases hRun'
          refine ⟨t, .refl, h.bystander hNext ((hLookup _).trans (if_neg hForeign.symm)) ?_⟩
          apply ofService_none
          intro out hOut
          rwa [hRegistry.speaks hOut]
        · cases hArrival
          obtain ⟨hPacket, hPeer, rfl⟩ := read_toAcceptor hTaken
          obtain ⟨hNext, hLookup, hEffects⟩ :=
            hRegistry.handlePaxosMessage (s.acceptors ip).now ready m
          replace hName : m.name = cfg.servicename := hName
          have hAll : ofService cfg.servicename (answers (s.acceptors ip) (.message ready m)) =
              answers (s.acceptors ip) (.message ready m) :=
            ofService_all fun out hOut => (hRegistry.speaks hOut).trans hName
          have hOwn := hLookup cfg.servicename
          rw [if_pos hName.symm] at hOwn
          rw [hName] at hEffects
          cases hRun'
          cases hMachine : Acceptor.registered (s.acceptors ip).accname cfg.servicename with
          | none =>
              rw [hMachine] at hOwn hEffects
              refine ⟨_, .single (.lose (.toAcceptor ready m)),
                (h.consume _).bystander hNext (hOwn.trans hMachine.symm) ?_⟩
              rw [hAll]
              exact congrArg sends hEffects
          | some a =>
              rw [hMachine] at hOwn hEffects
              have hAnswer : Step cfg.servicename t _ := .answer (s.acceptors ip).now
                ((h.acceptors ip).trans hMachine) hPeer (h.network ▸ hPacket)
              refine ⟨_, .single hAnswer, (h.consume _).replies hNext ?_
                (fun _ hNe => Function.update_of_ne hNe _ _) rfl rfl ?_ rfl rfl⟩
              · exact (Function.update_self ..).trans hOwn.symm
              · rw [hAll]
                exact congrArg (fun effects => t.network.erase (.toAcceptor ready m) ++
                  (sends effects).map fun o => .toProposer o.1 o.2) hEffects.symm
      · cases hRun'

end Acceptor

end QpidRecovery.Cluster
