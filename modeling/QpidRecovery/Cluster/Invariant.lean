import QpidRecovery.Library.Succession
import QpidRecovery.Cluster.Machines

/-! The machines of a service carry out a succession of elections. The term is
the voting version, a vote is an acknowledged phase 2 request, and a candidate
is a machine that returns `COMMITTING_SELF`: for an acceptor change it appoints
the acceptors of the next version, for a recovery it closes the succession. -/
namespace QpidRecovery.Cluster

open Majority
open Requestor (SentRequest)

abbrev Council := Succession.State IPString Nat

def Decision.election (d : Decision) : Succession.Election IPString Nat where
  term := d.proposal.getVersion
  candidate := d.machine
  successor := match d.proposal with
    | .acceptorChangeProposal ap => some ap.acceptor
    | _ => none

/-- An acceptor list of a proposal is the one that was committed. -/
def Known (b : Council) (p : Proposal) : Prop :=
  ∀ ap, p = .acceptorChangeProposal ap → b.electorate (ap.newversion + 1) = some ap.acceptor

/-- A phase 2 acknowledgement of version `v` in flight to machine `k`. -/
def Packet.isAckTo (k v : Nat) : Packet → Bool
  | .toProposer c m => c.machine = k ∧ m.version = v ∧ m.body = .phase2Ack
  | .toAcceptor _ _ => false

def acksTo (network : List Packet) (k v : Nat) : Nat := network.countP (Packet.isAckTo k v)

section Acks

theorem acksTo_append (first second : List Packet) (k v : Nat) :
    acksTo (first ++ second) k v = acksTo first k v + acksTo second k v :=
  List.countP_append

/-- Proposers acknowledge nothing. -/
theorem acksTo_requests (out : List (Conn × PaxosMessage)) (k v : Nat) :
    acksTo (out.map fun o => .toAcceptor o.1 o.2) k v = 0 := by
  rw [acksTo, List.countP_map, List.countP_eq_zero]
  intro o _
  simp [Packet.isAckTo]

theorem acksTo_erase {network : List Packet} {packet : Packet} (hMem : packet ∈ network)
    (k v : Nat) :
    acksTo network k v =
      acksTo (network.erase packet) k v + if packet.isAckTo k v then 1 else 0 := by
  have hPerm := (List.perm_cons_erase hMem).countP_eq (Packet.isAckTo k v)
  rw [acksTo, hPerm, List.countP_cons, acksTo]

theorem acksTo_erase_le (network : List Packet) (packet : Packet) (k v : Nat) :
    acksTo (network.erase packet) k v ≤ acksTo network k v :=
  List.erase_sublist.countP_le

/-- Nothing is in flight to a machine that does not exist yet. -/
theorem acksTo_eq_zero {network : List Packet} {k : Nat}
    (h : ∀ c m, .toProposer c m ∈ network → c.machine ≠ k) (v : Nat) : acksTo network k v = 0 := by
  rw [acksTo, List.countP_eq_zero]
  intro packet hMem
  cases packet with
  | toAcceptor c m => simp [Packet.isAckTo]
  | toProposer c m => simp [Packet.isAckTo, h c m hMem]

end Acks

structure MachineInv (b : Council) (name : ServiceName) (x : Owner) (k : Nat)
    (psm : ProposerStateMachine Conn) : Prop where
  name : psm.name = name
  slots : ∀ c, some c ∈ psm.accsfd → c.machine = k
  /-- The machine votes among the acceptors appointed for its version, or is the
  one with which the requestor starts. -/
  standing : (∃ l, b.electorate psm.version = some l ∧ psm.nacceptor = l.length ∧
      psm.nacceptor ≠ 0 ∧ Known b psm.lastcommit) ∨
    (x = none ∧ b.elected = [] ∧ psm.nacceptor = 0 ∧ ∀ c, some c ∉ psm.accsfd)
  active : psm.state = .phase1 ∨ psm.state = .phase2 → Proper psm psm.proposal x
  spent : ∀ e ∈ b.elected, e.candidate = k → psm.Retired

/-- Every acknowledgement counted or in flight is a vote of its own. -/
def Backed (b : Council) (network : List Packet) (k : Nat) (psm : ProposerStateMachine Conn) :
    Prop :=
  ∀ l, b.electorate psm.version = some l →
    psm.phase2ack + acksTo network k psm.version ≤ votesFor l (b.vote psm.version) k

structure AcceptorInv (b : Council) (name : ServiceName) (ip : IPString)
    (a : AcceptorStateMachine) : Prop where
  name : a.name = name
  member : ∃ l, b.electorate a.version = some l ∧ ip ∈ l
  free : a.state = .phase1 → b.vote a.version ip = none
  learned : Known b a.lastcommit

def Packet.conn : Packet → Conn
  | .toAcceptor c _ => c
  | .toProposer c _ => c

def Packet.message : Packet → PaxosMessage
  | .toAcceptor _ m => m
  | .toProposer _ m => m

structure PacketInv (b : Council) (next : Nat) (packet : Packet) : Prop where
  number : packet.conn.machine < next
  announced : ∀ p, packet.message.body = .phase3Commit p → Known b p

/-- A request to an acceptor finds it without a machine of that version, so no
machine is ever replaced by another one of its version. -/
structure RequestInv (b : Council) (acceptor : IPString → Option AcceptorStateMachine)
    (name : ServiceName) (q : SentRequest) : Prop where
  name : q.request.name = name
  committed : q.request.votingversion = q.request.committedversion + 1 ∧
    b.electorate q.request.votingversion = some q.request.acceptor
  member : q.port = .requestAcceptor → q.ip ∈ q.request.acceptor
  unused : q.port = .requestAcceptor → b.vote q.request.votingversion q.ip = none ∧
    ∀ a, acceptor q.ip = some a → a.version ≠ q.request.votingversion

/-- Two requests do not reach one acceptor for one version. -/
def Apart (q q' : SentRequest) : Prop :=
  q.port = .requestAcceptor → q'.port = .requestAcceptor → q.ip = q'.ip →
    q.request.votingversion ≠ q'.request.votingversion

structure Inv (name : ServiceName) (s : Machines) (b : Council) : Prop where
  succession : Succession.Inv b
  nonempty : ∀ v l, b.electorate v = some l → l ≠ []
  decided : b.elected = s.decided.map Decision.election
  candidates : ∀ e ∈ b.elected, e.candidate < s.next
  numbers : ∀ x k psm, s.proposer x = some ⟨k, psm⟩ → k < s.next
  distinct : ∀ x y k psm psm', s.proposer x = some ⟨k, psm⟩ → s.proposer y = some ⟨k, psm'⟩ →
    x = y
  machine : ∀ x k psm, s.proposer x = some ⟨k, psm⟩ → MachineInv b name x k psm
  backed : ∀ x k psm, s.proposer x = some ⟨k, psm⟩ → Backed b s.network k psm
  acceptor : ∀ ip a, s.acceptor ip = some a → AcceptorInv b name ip a
  packet : ∀ packet ∈ s.network, PacketInv b s.next packet
  request : ∀ q ∈ s.requests, RequestInv b s.acceptor name q
  apart : s.requests.Pairwise Apart

section Calls
variable {b : Council} {name : ServiceName} {x : Owner} {k : Nat} {psm : ProposerStateMachine Conn}

theorem Proper.of_keeps {psm' : ProposerStateMachine Conn} {p : Proposal} (h : Proper psm p x)
    (hKeeps : psm.Keeps psm') (hRetired : psm.Retired → psm'.Retired) : Proper psm' p x := by
  cases x with
  | some ip =>
      obtain ⟨rp, hProposal, hVersion⟩ := h
      exact ⟨rp, hProposal, hVersion.trans hKeeps.version.symm⟩
  | none =>
      obtain ⟨ap, hProposal, hSome, hNodup, hVersion⟩ := h
      refine ⟨ap, hProposal, hSome, hNodup, ?_⟩
      rw [hKeeps.version]
      exact hVersion.imp_right hRetired

/-- A call that keeps the machine's place, with what it owes to the rest. -/
theorem MachineInv.of_keeps (h : MachineInv b name x k psm) {psm' : ProposerStateMachine Conn}
    (hKeeps : psm.Keeps psm') (hLast : Known b psm.lastcommit → Known b psm'.lastcommit)
    (hActive : psm'.state = .phase1 ∨ psm'.state = .phase2 → Proper psm' psm'.proposal x)
    (hRetired : psm.Retired → psm'.Retired) : MachineInv b name x k psm' where
  name := hKeeps.name.trans h.name
  slots := fun c hSlot => h.slots c (hKeeps.slots c hSlot)
  standing := by
    rw [hKeeps.version, hKeeps.nacceptor]
    rcases h.standing with ⟨l, hElectorate, hSize, hSome, hKnown⟩ | ⟨hOwner, hFirst, hSize, hSlots⟩
    · exact .inl ⟨l, hElectorate, hSize, hSome, hLast hKnown⟩
    · exact .inr ⟨hOwner, hFirst, hSize, fun c hSlot => hSlots c (hKeeps.slots c hSlot)⟩
  active := hActive
  spent := fun e he hCandidate => hRetired (h.spent e he hCandidate)

theorem MachineInv.handleMessage (h : MachineInv b name x k psm) (now : Time) {c : Conn}
    {m : PaxosMessage} (hOpen : some c ∈ psm.accsfd)
    (hAnnounced : ∀ p, m.body = .phase3Commit p → Known b p) :
    MachineInv b name x k (psm.handleMessage now c m).machine := by
  have hRetired : psm.Retired → (psm.handleMessage now c m).machine.Retired :=
    fun hRetired => absurd hOpen (hRetired.closed c)
  refine h.of_keeps (psm.handleMessage_keeps now c m) ?_ ?_ hRetired
  · intro hKnown
    rcases psm.handleMessage_lastcommit now c m with hSame | ⟨_, hBody⟩
    · rw [hSame]
      exact hKnown
    · exact hAnnounced _ hBody
  · intro hState
    obtain ⟨hBefore, hProposal⟩ := psm.handleMessage_active now c m hState
    rw [hProposal]
    exact (h.active hBefore).of_keeps (psm.handleMessage_keeps now c m) hRetired

theorem MachineInv.newProposal (h : MachineInv b name x k psm) (now : Time) {p : Proposal}
    (hProper : Proper psm p x) : MachineInv b name x k (psm.newProposal now p).machine := by
  have hRetired (h : psm.Retired) : (psm.newProposal now p).machine.Retired :=
    ProposerStateMachine.Retired.newProposal now h p
  refine h.of_keeps (psm.newProposal_keeps now p) ?_ ?_ hRetired
  · rw [psm.newProposal_lastcommit now p]
    exact id
  · intro _
    have hProposal : (psm.newProposal now p).machine.proposal = p := by
      rcases psm.newProposal_cases now p with ⟨_, hEq⟩ | ⟨_, hEq⟩ <;> rw [hEq]
    rw [hProposal]
    exact hProper.of_keeps (psm.newProposal_keeps now p) hRetired

theorem MachineInv.checkTimeout (h : MachineInv b name x k psm) (now timeout : Time) :
    MachineInv b name x k (psm.checkTimeout now timeout).1 := by
  rcases psm.checkTimeout_cases now timeout with hEq | ⟨_, hEq⟩
  · rw [hEq]
    exact h
  · have hKeeps := psm.checkTimeout_keeps now timeout
    have hRetired (h : psm.Retired) := ProposerStateMachine.Retired.checkTimeout now h timeout
    rw [hEq] at hKeeps hRetired ⊢
    exact h.of_keeps hKeeps id (by simp [ProposerStateMachine.initialState]) hRetired

/-- A machine ready to commit has a majority of its acceptors, and was not
declared before. -/
theorem MachineInv.ready (h : MachineInv b name x k psm) {network : List Packet}
    (hBacked : Backed b network k psm) (hReady : psm.isReadyToCommit = true) :
    ((∃ l, b.electorate psm.version = some l ∧ IsMajority l (b.vote psm.version) k ∧
        psm.nacceptor ≠ 0) ∨
      (x = none ∧ b.elected = [] ∧ psm.nacceptor = 0 ∧ ∀ c, some c ∉ psm.accsfd)) ∧
      Proper psm psm.proposal x ∧ ∀ e ∈ b.elected, e.candidate ≠ k := by
  have hState : psm.state = .phase2 ∧ (psm.phase2ack * 2 > psm.nacceptor ∨ psm.nacceptor = 0) := by
    simpa [ProposerStateMachine.isReadyToCommit] using hReady
  refine ⟨?_, h.active (.inr hState.1), ?_⟩
  · rcases h.standing with ⟨l, hElectorate, hSize, hSome, _⟩ | hFirst
    · refine .inl ⟨l, hElectorate, ?_, hSome⟩
      have hVotes := hBacked l hElectorate
      have hMany : psm.phase2ack * 2 > psm.nacceptor := hState.2.resolve_right hSome
      unfold IsMajority
      omega
    · exact .inr hFirst
  · intro e he hCandidate
    rw [(h.spent e he hCandidate).not_ready] at hReady
    cases hReady

/-- A proposer process never carries out an acceptor change of its own. -/
theorem MachineInv.not_ready {ip : IPString} (h : MachineInv b name (some ip) k psm)
    {ap : AcceptorChangeProposal}
    (hProposal : psm.getCommittingProposal = some (.acceptorChangeProposal ap)) :
    psm.isReadyToCommit ≠ true := by
  intro hReady
  have hState : psm.state = .phase2 := by
    simp only [ProposerStateMachine.isReadyToCommit, decide_eq_true_eq] at hReady
    exact hReady.1
  obtain ⟨rp, hRecovery, _⟩ := h.active (.inr hState)
  rw [ProposerStateMachine.getCommittingProposal, if_pos hReady, hRecovery] at hProposal
  cases hProposal

/-- A list that a proposer process takes over was committed. -/
theorem MachineInv.adoptable {ip : IPString} (h : MachineInv b name (some ip) k psm)
    {ap : AcceptorChangeProposal}
    (hProposal : psm.getCommittingProposal = some (.acceptorChangeProposal ap)) :
    b.electorate (ap.newversion + 1) = some ap.acceptor := by
  have hReady := h.not_ready hProposal
  rw [ProposerStateMachine.getCommittingProposal, if_neg hReady] at hProposal
  split at hProposal
  · rcases h.standing with ⟨_, _, _, _, hKnown⟩ | ⟨hRequestor, _⟩
    · exact hKnown ap (Option.some.inj hProposal)
    · cases hRequestor
  · cases hProposal

/-- A commit of its own retires a machine. -/
theorem sendCommitment_retired (now : Time) (hReady : psm.isReadyToCommit = true)
    (hSize : psm.nacceptor ≠ 0) :
    (psm.sendCommitment now).1.Retired ∧ (psm.sendCommitment now).1.state = .phase3 ∧
      (psm.sendCommitment now).1.lastcommit = psm.proposal := by
  rw [ProposerStateMachine.sendCommitment, hReady, if_neg (by decide)]
  refine ⟨⟨?_, ?_, hSize⟩, rfl, rfl⟩
  · simp
  · simp

end Calls

end QpidRecovery.Cluster
