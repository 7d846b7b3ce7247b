import QpidRecovery.Cluster.System
import QpidRecovery.Cluster.Succession
import QpidRecovery.Requestor.Configuration

/-! What one iteration of the requestor does to its machine, and the requests
that it sends after a commit. -/
namespace QpidRecovery.Requestor

open Cluster (Recruits)

variable {Fd : Type}

theorem mem_sendRequests_address {o : Outcomes Fd} {port : Port} {r : ParticipateRequest}
    {first : Nat} {ips : List IPString} {q : SentRequest}
    (h : q ∈ sendRequests o port r first ips) : q.port = port ∧ q.ip ∈ ips := by
  induction ips generalizing first with
  | nil => cases h
  | cons ip rest ih =>
      rcases List.mem_append.mp h with hHead | hTail
      · split at hHead
        · rw [List.mem_singleton.mp hHead]
          exact ⟨rfl, List.mem_cons_self⟩
        · cases hHead
      · exact ⟨(ih hTail).1, List.mem_cons_of_mem _ (ih hTail).2⟩

theorem sendRequests_addresses (o : Outcomes Fd) (port : Port) (r : ParticipateRequest)
    (first : Nat) (ips : List IPString) :
    ((sendRequests o port r first ips).map SentRequest.ip).Sublist ips := by
  induction ips generalizing first with
  | nil => exact List.Sublist.refl _
  | cons ip rest ih =>
      rw [sendRequests, List.map_append]
      split
      · exact (ih (first + 1)).cons_cons ip
      · exact (ih (first + 1)).cons ip

/-- What `changeAcceptor` sends about a list without repetition. -/
theorem changeAcceptor_recruits [DecidableEq Fd] (cfg : Config) (o : Outcomes Fd)
    (ap : AcceptorChangeProposal) (s : State Fd) (hVersion : s.currentversion = ap.newversion)
    (hNodup : ap.acceptor.Nodup) :
    ∃ requests, (changeAcceptor cfg o ap.acceptor s).sent = s.sent ++ requests ∧
      Recruits cfg.servicename ap requests := by
  let r := participateRequest cfg s.currentversion
    (ap.acceptor.mapIdx fun i ip => HeartbeatClient.new s.now (o.heartbeat i) ip)
  have hList : r.acceptor = ap.acceptor := copyIPArray_new s.now o.heartbeat ap.acceptor
  refine ⟨sendRequests o .requestAcceptor r 0 ap.acceptor ++
    sendRequests o .requestProposer r ap.acceptor.length (copyIPArray s.proposers), ?_, ?_⟩
  · exact List.append_assoc _ _ _
  · constructor
    · intro q hq
      have hRequest : q.request = r := by
        rcases List.mem_append.mp hq with hAcceptor | hProposer
        · exact mem_sendRequests hAcceptor
        · exact mem_sendRequests hProposer
      refine ⟨?_, ?_, ?_, ?_⟩
      · rw [hRequest]
        rfl
      · rw [hRequest, ← hVersion]
        rfl
      · rw [hRequest, ← hVersion]
        rfl
      · rw [hRequest, hList]
    · intro q hq hPort
      rcases List.mem_append.mp hq with hAcceptor | hProposer
      · exact (mem_sendRequests_address hAcceptor).2
      · rw [(mem_sendRequests_address hProposer).1] at hPort
        cases hPort
    · refine List.pairwise_append.mpr ⟨?_, ?_, ?_⟩
      · have hAddresses := (sendRequests_addresses o .requestAcceptor r 0 ap.acceptor).nodup hNodup
        exact (List.pairwise_map.mp hAddresses).imp fun hNe _ _ => hNe
      · refine List.pairwise_of_forall_mem_list ?_
        intro q hq q' _ hPort
        rw [(mem_sendRequests_address hq).1] at hPort
        cases hPort
      · intro q _ q' hq' _ hPort
        rw [(mem_sendRequests_address hq').1] at hPort
        cases hPort

theorem filterMap_sent_effects (effects : List (Effect Fd)) :
    (effects.map Output.effect).filterMap Output.sent = sends effects := by
  rw [List.filterMap_map, sends]
  congr 1
  funext e
  cases e <;> rfl

theorem filterMap_committedSelf_effects (effects : List (Effect Fd)) :
    (effects.map Output.effect).filterMap Output.committedSelf = [] := by
  rw [List.filterMap_map, List.filterMap_eq_nil_iff]
  exact fun _ _ => rfl

section Calls
variable [DecidableEq Fd]

/-- A commit that is taken note of. The machine stays as it is. -/
structure Noted (p : Proposal) (r : PaxosResult) (s t : State Fd) : Prop where
  psm : t.psm = s.psm
  version : t.currentversion = p.getVersion
  trace : t.trace = s.trace ++ [.committed p r]
  sent : t.sent = s.sent

/-- A commit that recruits a list and starts the next machine. -/
structure Renewed (cfg : Config) (o : Outcomes Fd) (ap : AcceptorChangeProposal)
    (s t : State Fd) : Prop where
  psm : t.psm = (ProposerStateMachine.new s.now o.paxos cfg.servicename (ap.newversion + 1)
    ⟨ap.newversion, ap.acceptor⟩).1
  version : t.currentversion = ap.newversion
  trace : ∃ effects, sends effects = sends (s.psm.sendCommitment s.now).2 ∧
    t.trace = s.trace ++
      (.committed (.acceptorChangeProposal ap) .committingSelf :: effects.map .effect)
  sent : ap.acceptor.Nodup → ∃ requests, t.sent = s.sent ++ requests ∧
    Recruits cfg.servicename ap requests

theorem handleCommit_cases {cfg : Config} {o : Outcomes Fd} {r : PaxosResult} {s t : State Fd}
    {returned : Int} (h : handleCommit cfg o r s = some (t, returned)) :
    t = s ∨ ∃ p, s.psm.getCommittingProposal = some p ∧
      ((Noted p r s t ∧ (r = .committingOther ∨
          r = .committingSelf ∧ ∀ ap, p ≠ .acceptorChangeProposal ap)) ∨
        ∃ ap, p = .acceptorChangeProposal ap ∧ r = .committingSelf ∧ Renewed cfg o ap s t) := by
  cases handleCommit_commit h with
  | nothing => exact .inl rfl
  | adopted ap hProposal => exact .inr ⟨_, hProposal, .inl ⟨⟨rfl, rfl, rfl, rfl⟩, .inl rfl⟩⟩
  | installed ap hProposal =>
      refine .inr ⟨_, hProposal, .inr ⟨ap, rfl, rfl, rfl, rfl, ?_, ?_⟩⟩
      · refine ⟨(s.psm.sendCommitment s.now).2 ++ (ProposerStateMachine.new s.now o.paxos
          cfg.servicename (ap.newversion + 1) ⟨ap.newversion, ap.acceptor⟩).2, by simp, ?_⟩
        rw [List.map_append]
        simp only [commitAcceptors, State.perform, State.react, changeAcceptor, Reaction.void,
          List.append_assoc, List.cons_append, List.nil_append]
      · exact fun hNodup => changeAcceptor_recruits cfg o ap _ rfl hNodup
  | noted p _ hResult hProposal hOther =>
      exact .inr ⟨p, hProposal, .inl ⟨⟨rfl, rfl, rfl, rfl⟩,
        hResult.symm.imp_right fun hSelf => ⟨hSelf, hOther⟩⟩⟩

/-- The call on the machine that an action makes. -/
inductive Called (cfg : Config) (s : State Fd) :
    Action Fd → Outcomes Fd → Reaction (ProposerStateMachine Fd) Fd → Prop where
  | message (ready : Fd) (heartbeat : Bool) (m : PaxosMessage) (o : Outcomes Fd) :
      Called cfg s (.ready ready heartbeat (some m) o) o (s.psm.handleMessage s.now ready m)
  | propose (acc rest : List IPString) (o : Outcomes Fd)
      (hList : newAcceptors cfg s = some (acc, rest)) :
      Called cfg s (.addAcceptors o) o
        (s.psm.newProposal s.now (.acceptorChangeProposal ⟨s.currentversion + 1, acc⟩))

/-- The machine and what was said about it are the same. -/
structure Alike (s t : State Fd) : Prop where
  psm : t.psm = s.psm
  version : t.currentversion = s.currentversion
  trace : t.trace = s.trace
  sent : t.sent = s.sent

/-- A proposer is recruited, unless it cannot be reached. -/
structure Recruited (cfg : Config) (s t : State Fd) (new : List SentRequest) : Prop where
  alike : Alike s { t with sent := s.sent }
  sent : t.sent = s.sent ++ new
  carried : ∀ q ∈ new, q.port = .requestProposer ∧
    q.request = participateRequest cfg s.currentversion s.acceptors

/-- An iteration calls the machine once at most, and commits what it returns. -/
theorem step_cases {cfg : Config} {s t : State Fd} {action : Action Fd}
    (h : step cfg s action = some t) :
    (Alike s t ∨ ∃ o new, action = .addProposer o ∧ Recruited cfg s t new) ∨
      ∃ o r s' returned, Called cfg s action o r ∧ Alike s s' ∧
        handleCommit cfg o r.result (s'.react r) = some (t, returned) := by
  cases step_branch h with
  | @proposed o _ returned acc rest hDue hList hCommit =>
      let s' := { s with
        needchangeacceptor := false
        ischangingacceptor := true
        acceptorIPs := rest }
      exact .inr ⟨o, _, s', returned, .propose acc rest o hList, ⟨rfl, rfl, rfl, rfl⟩, hCommit⟩
  | recruited newip =>
      refine .inl (.inr ⟨_, _, rfl, ⟨rfl, rfl, rfl, rfl⟩, rfl, ?_⟩)
      intro q hq
      rw [List.mem_singleton.mp hq]
      exact ⟨rfl, rfl⟩
  | received hProposers hAcceptors hCommit =>
      exact .inr ⟨_, _, s, _, .message _ _ _ _, ⟨rfl, rfl, rfl, rfl⟩, hCommit⟩
  | wait | unreached | expired | unaccepted | accepted | proposerBeat | proposerLost |
    acceptorBeat | acceptorLost | unread => exact .inl (.inl ⟨rfl, rfl, rfl, rfl⟩)

end Calls

end QpidRecovery.Requestor

namespace QpidRecovery.Cluster

open Requestor (Alike Called Config Noted Renewed)

/-- The machines took part in what the requestor did from `s` to `r`. -/
structure Leads (cfg : Config) (bound : Nat) (s r : Requestor.State Conn) (t t' : Machines) :
    Prop where
  own : ∃ k, t'.proposer none = some ⟨k, r.psm⟩
  lockstep : r.psm.version = r.currentversion + 1 ∨ r.psm.Retired
  others : ∀ ip, t'.proposer (some ip) = t.proposer (some ip)
  acceptor : t'.acceptor = t.acceptor
  log : ∃ new, r.trace = s.trace ++ new ∧
    t'.network = t.network ++
      (ofService cfg.servicename (new.filterMap Requestor.Output.sent)).map
        (fun out => .toAcceptor out.1 out.2) ∧
    t'.decided.map Decision.entry = t.decided.map Decision.entry ++
      (new.filterMap Requestor.Output.committedSelf).map fun p => (none, p)
  requests : ∃ new, r.sent = s.sent ++ new ∧ t'.requests = t.requests ++ new
  next : t'.next ≤ bound

theorem Leads.trans {cfg : Config} {bound : Nat} {s r u : Requestor.State Conn}
    {t t' t'' : Machines} (first : Leads cfg bound s r t t') (second : Leads cfg bound r u t' t'') :
    Leads cfg bound s u t t'' where
  own := second.own
  lockstep := second.lockstep
  others := fun ip => (second.others ip).trans (first.others ip)
  acceptor := second.acceptor.trans first.acceptor
  log := by
    obtain ⟨new, hTrace, hNetwork, hDecided⟩ := first.log
    obtain ⟨new', hTrace', hNetwork', hDecided'⟩ := second.log
    refine ⟨new ++ new', ?_, ?_, ?_⟩
    · rw [hTrace', hTrace, List.append_assoc]
    · rw [hNetwork', hNetwork, List.filterMap_append, ofService, ofService, ofService,
        List.filter_append, List.map_append, List.append_assoc]
    · rw [hDecided', hDecided, List.filterMap_append, List.map_append, List.append_assoc]
  requests := by
    obtain ⟨new, hSent, hRequests⟩ := first.requests
    obtain ⟨new', hSent', hRequests'⟩ := second.requests
    exact ⟨new ++ new', by rw [hSent', hSent, List.append_assoc],
      by rw [hRequests', hRequests, List.append_assoc]⟩
  next := second.next

/-- Nothing happened to the machine. -/
theorem Leads.refl {cfg : Config} {bound k : Nat} {s r : Requestor.State Conn} {t : Machines}
    (hSame : Alike s r) (hOwn : t.proposer none = some ⟨k, s.psm⟩)
    (hLockstep : s.psm.version = s.currentversion + 1 ∨ s.psm.Retired) (hNext : t.next ≤ bound) :
    Leads cfg bound s r t t where
  own := ⟨k, by rw [hSame.psm, hOwn]⟩
  lockstep := by
    rw [hSame.psm, hSame.version]
    exact hLockstep
  others := fun _ => rfl
  acceptor := rfl
  log := ⟨[], by rw [hSame.trace, List.append_nil], (List.append_nil _).symm,
    (List.append_nil _).symm⟩
  requests := ⟨[], by rw [hSame.sent, List.append_nil], (List.append_nil _).symm⟩
  next := hNext

theorem Leads.alike {cfg : Config} {bound : Nat} {s s' r : Requestor.State Conn} {t t' : Machines}
    (hSame : Alike s s') (h : Leads cfg bound s' r t t') : Leads cfg bound s r t t' :=
  { h with
    log := hSame.trace ▸ h.log
    requests := hSame.sent ▸ h.requests }

/-- A call of the machine. -/
theorem Leads.react {cfg : Config} {bound : Nat} {s : Requestor.State Conn} {t : Machines}
    {r : Reaction (ProposerStateMachine Conn) Conn} (k : Nat)
    (hLockstep : r.machine.version = s.currentversion + 1 ∨ r.machine.Retired)
    (hNames : ∀ o ∈ sends r.effects, o.2.name = cfg.servicename) (hNext : t.next ≤ bound) :
    Leads cfg bound s (s.react r) t (t.react none k r) where
  own := ⟨k, by simp [Machines.react, Requestor.State.react]⟩
  lockstep := hLockstep
  others := fun ip => by simp [Machines.react]
  acceptor := rfl
  log := by
    refine ⟨r.effects.map .effect, rfl, ?_, ?_⟩
    · rw [Requestor.filterMap_sent_effects, ofService_all hNames]
      rfl
    · rw [Requestor.filterMap_committedSelf_effects, List.map_nil, List.append_nil]
      rfl
  requests := ⟨[], (List.append_nil _).symm, (List.append_nil _).symm⟩
  next := hNext

section Commit
variable {cfg : Config} {t : Machines} {b : Council} {s r : Requestor.State Conn}
  {o : Requestor.Outcomes Conn} {k number bound : Nat}

/-- A commit that is taken note of, which leaves a machine of another version
retired. -/
theorem Leads.noted {p : Proposal} {result : PaxosResult} (hNoted : Noted p result s r)
    (hOwn : t.proposer none = some ⟨k, s.psm⟩) (hResult : result ≠ .committingSelf)
    (hRetired : s.psm.Retired) (hNext : t.next ≤ bound) : Leads cfg bound s r t t where
  own := ⟨k, by rw [hNoted.psm, hOwn]⟩
  lockstep := .inr (hNoted.psm ▸ hRetired)
  others := fun _ => rfl
  acceptor := rfl
  log := by
    refine ⟨_, hNoted.trace, (List.append_nil _).symm, ?_⟩
    cases result with
    | committingSelf => exact absurd rfl hResult
    | _ => exact (List.append_nil _).symm
  requests := ⟨[], by rw [hNoted.sent, List.append_nil], (List.append_nil _).symm⟩
  next := hNext

/-- The commit of an acceptor list of its own. -/
theorem commitAcceptors_leads {ap : AcceptorChangeProposal} (hInv : Inv cfg.servicename t b)
    (hOwn : t.proposer none = some ⟨k, s.psm⟩) (hReady : s.psm.isReadyToCommit = true)
    (hProposal : s.psm.getCommittingProposal = some (.acceptorChangeProposal ap))
    (hRenewed : Renewed cfg o ap s r) (hDials : Dials number o.paxos) (hNumber : t.next ≤ number)
    (hBound : number < bound) :
    ∃ t', Reaches cfg.servicename t t' ∧ Leads cfg bound s r t t' := by
  have hMachine := hInv.machine none k s.psm hOwn
  rw [ProposerStateMachine.getCommittingProposal, if_pos hReady] at hProposal
  have hProposal := Option.some.inj hProposal
  obtain ⟨_, ⟨ap', hSame, _, hNodup, _⟩, _⟩ := hMachine.ready (hInv.backed _ _ _ hOwn) hReady
  rw [hProposal] at hSame
  cases hSame
  obtain ⟨requests, hSent, hRequests⟩ := hRenewed.sent hNodup
  obtain ⟨effects, hEffects, hTrace⟩ := hRenewed.trace
  have hStep := Step.commitAcceptors s.now hOwn hReady hProposal hRequests hNumber hDials
  rw [← hRenewed.psm] at hStep
  refine ⟨_, .single hStep, ?_⟩
  have hNames : ∀ out ∈ sends (s.psm.sendCommitment s.now).2, out.2.name = cfg.servicename := by
    intro out hOut
    rw [(ProposerStateMachine.sendCommitment_speaks hOut).2.name, hMachine.name]
  exact {
    own := ⟨number, by simp [Machines.start]⟩
    lockstep := .inl (by rw [hRenewed.psm, hRenewed.version]; rfl)
    others := fun ip => by simp [Machines.start, Machines.react, Machines.decide]
    acceptor := rfl
    log := by
      refine ⟨_, hTrace, ?_, ?_⟩
      · rw [List.filterMap_cons_none (by exact rfl), Requestor.filterMap_sent_effects, hEffects,
          ofService_all hNames]
        rfl
      · rw [List.filterMap_cons_some (by exact rfl), Requestor.filterMap_committedSelf_effects]
        exact List.map_append
    requests := ⟨requests, hSent, rfl⟩
    next := hBound }

/-- What follows a call of the machine. -/
theorem commit_leads {result : PaxosResult} {returned : Int} (hInv : Inv cfg.servicename t b)
    (hOwn : t.proposer none = some ⟨k, s.psm⟩)
    (hLockstep : s.psm.version = s.currentversion + 1 ∨ s.psm.Retired)
    (hSelf : result = .committingSelf → s.psm.isReadyToCommit = true)
    (hOther : result = .committingOther → s.psm.Retired) (hDials : Dials number o.paxos)
    (hNumber : t.next ≤ number) (hBound : number < bound)
    (h : Requestor.handleCommit cfg o result s = some (r, returned)) :
    ∃ t', Reaches cfg.servicename t t' ∧ Leads cfg bound s r t t' := by
  have hNext : t.next ≤ bound := by omega
  rcases Requestor.handleCommit_cases h with rfl | ⟨p, hProposal, hRest⟩
  · exact ⟨t, .refl, .refl ⟨rfl, rfl, rfl, rfl⟩ hOwn hLockstep hNext⟩
  · rcases hRest with ⟨hNoted, rfl | ⟨rfl, hList⟩⟩ | ⟨ap, rfl, rfl, hRenewed⟩
    · exact ⟨t, .refl, .noted hNoted hOwn (by simp) (hOther rfl) hNext⟩
    · have hReady := hSelf rfl
      have hMachine := hInv.machine none k s.psm hOwn
      obtain ⟨_, ⟨ap, hAcceptors, _⟩, _⟩ := hMachine.ready (hInv.backed _ _ _ hOwn) hReady
      rw [ProposerStateMachine.getCommittingProposal, if_pos hReady] at hProposal
      exact absurd ((Option.some.inj hProposal).symm.trans hAcceptors) (hList ap)
    · exact commitAcceptors_leads hInv hOwn (hSelf rfl) hProposal hRenewed hDials hNumber hBound

/-- A call of the machine with what follows it. -/
theorem call_leads {re : Reaction (ProposerStateMachine Conn) Conn} {returned : Int}
    (hInv : Inv cfg.servicename (t.react none k re) b)
    (hNames : ∀ out ∈ sends re.effects, out.2.name = cfg.servicename)
    (hLockstep : re.machine.version = s.currentversion + 1 ∨ re.machine.Retired)
    (hSelf : re.result = .committingSelf → re.machine.isReadyToCommit = true)
    (hOther : re.result = .committingOther → re.machine.Retired) (hDials : Dials number o.paxos)
    (hNumber : t.next ≤ number) (hBound : number < bound)
    (h : Requestor.handleCommit cfg o re.result (s.react re) = some (r, returned)) :
    ∃ t', Reaches cfg.servicename (t.react none k re) t' ∧ Leads cfg bound s r t t' := by
  have hOwn : (t.react none k re).proposer none = some ⟨k, (s.react re).psm⟩ := by
    simp [Machines.react, Requestor.State.react]
  have hFirst : Leads cfg bound s (s.react re) t (t.react none k re) :=
    .react k hLockstep hNames (by omega)
  obtain ⟨t', hReaches, hSecond⟩ :=
    commit_leads hInv hOwn hLockstep hSelf hOther hDials hNumber hBound h
  exact ⟨t', hReaches, hFirst.trans hSecond⟩

end Commit

end QpidRecovery.Cluster
