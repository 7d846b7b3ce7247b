import QpidRecovery.Cluster.Invariant

/-! Every step of the machines is matched by steps of the succession. -/
namespace QpidRecovery.Cluster

open Majority
open Requestor (SentRequest)

variable {name : ServiceName} {s : Machines} {b : Council}

/-- The machines without the one of a process. -/
def Machines.stop (s : Machines) (x : Owner) : Machines :=
  { s with proposer := Function.update s.proposer x none }

theorem Machines.react_stop (s : Machines) (x : Owner) (k : Nat)
    (r : Reaction (ProposerStateMachine Conn) Conn) : (s.stop x).react x k r = s.react x k r := by
  simp [react, stop]

theorem update_cases {ι α : Type} [DecidableEq ι] {f : ι → Option α} {x y : ι} {n n' : α}
    (h : Function.update f x (some n) y = some n') :
    (y = x ∧ n' = n) ∨ (y ≠ x ∧ f y = some n') := by
  by_cases hOwner : y = x
  · subst hOwner
    rw [Function.update_self] at h
    exact .inl ⟨rfl, (Option.some.inj h).symm⟩
  · rw [Function.update_of_ne hOwner] at h
    exact .inr ⟨hOwner, h⟩

namespace Inv

/-- Taking a message off the network. -/
theorem consume (h : Inv name s b) (packet : Packet) : Inv name (s.consume packet) b :=
  { h with
    backed := by
      intro x k psm hMachine l hElectorate
      have hVotes := h.backed x k psm hMachine l hElectorate
      have hLe := acksTo_erase_le s.network packet k psm.version
      dsimp only [Machines.consume]
      omega
    packet := fun p hp => h.packet p (List.mem_of_mem_erase hp) }

theorem read (h : Inv name s b) (q : SentRequest) : Inv name (s.read q) b :=
  { h with
    request := fun q' hq' => h.request q' (List.mem_of_mem_erase hq')
    apart := h.apart.sublist List.erase_sublist }

theorem renumber (h : Inv name s b) {n : Nat} (hLe : s.next ≤ n) :
    Inv name { s with next := n } b :=
  { h with
    candidates := fun e he => Nat.lt_of_lt_of_le (h.candidates e he) hLe
    numbers := fun x k psm hMachine => Nat.lt_of_lt_of_le (h.numbers x k psm hMachine) hLe
    packet := fun p hp =>
      ⟨Nat.lt_of_lt_of_le (h.packet p hp).number hLe, (h.packet p hp).announced⟩ }

/-- What proposer machines send. -/
theorem send (h : Inv name s b) (out : List (Conn × PaxosMessage))
    (hOut : ∀ c m, (c, m) ∈ out → c.machine < s.next ∧
      ∀ p, m.body = .phase3Commit p → Known b p) :
    Inv name { s with network := s.network ++ out.map fun o => .toAcceptor o.1 o.2 } b :=
  { h with
    backed := by
      intro x k psm hMachine l hElectorate
      rw [acksTo_append, acksTo_requests, Nat.add_zero]
      exact h.backed x k psm hMachine l hElectorate
    packet := by
      intro packet hMem
      rcases List.mem_append.mp hMem with hOld | hNew
      · exact h.packet packet hOld
      · obtain ⟨⟨c, m⟩, hSent, rfl⟩ := List.mem_map.mp hNew
        exact ⟨(hOut c m hSent).1, (hOut c m hSent).2⟩ }

/-- A machine takes a place where no other has its number. -/
theorem install (h : Inv name s b) {x : Owner} {k : Nat} {psm : ProposerStateMachine Conn}
    (hNumber : k < s.next) (hOthers : ∀ y psm', s.proposer y = some ⟨k, psm'⟩ → y = x)
    (hMachine : MachineInv b name x k psm) (hBacked : Backed b s.network k psm) :
    Inv name { s with proposer := Function.update s.proposer x (some ⟨k, psm⟩) } b :=
  { h with
    numbers := by
      intro y k' psm' hOwn
      rcases update_cases hOwn with ⟨_, hEq⟩ | ⟨_, hOld⟩
      · cases hEq
        exact hNumber
      · exact h.numbers y k' psm' hOld
    distinct := by
      intro y z k' psm' psm'' hOwn hOwn'
      rcases update_cases hOwn with ⟨hy, hEq⟩ | ⟨_, hOld⟩ <;>
        rcases update_cases hOwn' with ⟨hz, hEq'⟩ | ⟨_, hOld'⟩
      · exact hy.trans hz.symm
      · cases hEq
        exact hy.trans (hOthers z psm'' hOld').symm
      · cases hEq'
        exact (hOthers y psm' hOld).trans hz.symm
      · exact h.distinct y z k' psm' psm'' hOld hOld'
    machine := by
      intro y k' psm' hOwn
      rcases update_cases hOwn with ⟨rfl, hEq⟩ | ⟨_, hOld⟩
      · cases hEq
        exact hMachine
      · exact h.machine y k' psm' hOld
    backed := by
      intro y k' psm' hOwn
      rcases update_cases hOwn with ⟨_, hEq⟩ | ⟨_, hOld⟩
      · cases hEq
        exact hBacked
      · exact h.backed y k' psm' hOld }

/-- A machine after a call, in a place where no other has its number. -/
theorem place (h : Inv name s b) {x : Owner} {k : Nat}
    {r : Reaction (ProposerStateMachine Conn) Conn} (hNumber : k < s.next)
    (hOthers : ∀ y psm', s.proposer y = some ⟨k, psm'⟩ → y = x)
    (hMachine : MachineInv b name x k r.machine) (hBacked : Backed b s.network k r.machine)
    (hSends : ∀ c m, (c, m) ∈ sends r.effects → c.machine = k ∧
      ∀ p, m.body = .phase3Commit p → Known b p) :
    Inv name (s.react x k r) b := by
  have hSent := h.send (sends r.effects) fun c m hMem => by
    obtain ⟨hOwn, hAnnounced⟩ := hSends c m hMem
    exact ⟨hOwn ▸ hNumber, hAnnounced⟩
  refine hSent.install hNumber hOthers hMachine ?_
  intro l hElectorate
  rw [acksTo_append, acksTo_requests, Nat.add_zero]
  exact hBacked l hElectorate

/-- A call on a machine that keeps its place. -/
theorem react (h : Inv name s b) {x : Owner} {k : Nat} {psm : ProposerStateMachine Conn}
    (hOld : s.proposer x = some ⟨k, psm⟩) {r : Reaction (ProposerStateMachine Conn) Conn}
    (hMachine : MachineInv b name x k r.machine) (hBacked : Backed b s.network k r.machine)
    (hSends : ∀ c m, (c, m) ∈ sends r.effects → some c ∈ psm.accsfd ∧
      ∀ p, m.body = .phase3Commit p → Known b p) :
    Inv name (s.react x k r) b := by
  refine h.place (h.numbers x k psm hOld) ?_ hMachine hBacked ?_
  · exact fun y psm' hOwn => h.distinct y x k psm' psm hOwn hOld
  · intro c m hMem
    obtain ⟨hSlot, hAnnounced⟩ := hSends c m hMem
    exact ⟨(h.machine x k psm hOld).slots c hSlot, hAnnounced⟩

/-- A new machine votes among the acceptors appointed for its version. -/
theorem start (h : Inv name s b) (x : Owner) (now : Time) {number v : Nat} {l : List IPString}
    {connect : Nat → IPString → Option Conn} (hNumber : s.next ≤ number)
    (hDials : Dials number connect) (hElectorate : b.electorate (v + 1) = some l) :
    Inv name (s.start x number (ProposerStateMachine.new now connect name (v + 1) ⟨v, l⟩).1) b := by
  have hUnused (y : Owner) (psm : ProposerStateMachine Conn) :
      s.proposer y ≠ some ⟨number, psm⟩ := by
    intro hOwn
    have hLt := h.numbers y number psm hOwn
    omega
  refine (h.renumber (show s.next ≤ number + 1 by omega)).install (Nat.lt_succ_self number) ?_ ?_ ?_
  · exact fun y psm hOwn => absurd hOwn (hUnused y psm)
  · exact {
      name := rfl
      slots := by
        intro c hSlot
        obtain ⟨slot, _, hConnect⟩ := List.mem_mapIdx.mp hSlot
        exact hDials slot _ c hConnect
      standing := by
        refine .inl ⟨l, hElectorate, rfl, ?_, ?_⟩
        · exact fun hZero => h.nonempty _ l hElectorate (List.length_eq_zero_iff.mp hZero)
        · intro ap hProposal
          cases hProposal
          exact hElectorate
      active := by simp [ProposerStateMachine.new]
      spent := by
        intro e he hCandidate
        have hLt := h.candidates e he
        omega }
  · intro l' _
    have hNone : acksTo s.network number (v + 1) = 0 := by
      apply acksTo_eq_zero
      intro c m hMem hNew
      have hLt : c.machine < s.next := (h.packet _ hMem).number
      omega
    change 0 + acksTo s.network number (v + 1) ≤ _
    rw [hNone]
    exact Nat.zero_le _

/-- A declared machine leaves its place, and the others see a later term. -/
theorem declare (h : Inv name s b) {d : Decision} {psm : ProposerStateMachine Conn}
    (hMachine : s.proposer d.owner = some ⟨d.machine, psm⟩)
    (hTerm : ∀ f ∈ b.elected, f.term ≠ d.election.term)
    (hLegitimate : (∃ l, b.electorate d.election.term = some l ∧
      IsMajority l (b.vote d.election.term) d.machine) ∨ b.elected = [])
    (hStart : b.elected = [] → d.owner = none)
    (hSome : ∀ l, d.election.successor = some l → l ≠ []) :
    Inv name ((s.decide d).stop d.owner) (b.declare d.election) := by
  have hFresh := h.succession.fresh_electorate hTerm
  have hElectorate {v : Nat} {l : List IPString} (hl : b.electorate v = some l) :
      (b.declare d.election).electorate v = some l :=
    b.declare_electorate hFresh hl
  have hKnown {p : Proposal} (hp : Known b p) : Known (b.declare d.election) p :=
    fun ap hProposal => hElectorate (hp ap hProposal)
  have hOther {y : Owner} {n : Numbered}
      (hOwn : ((s.decide d).stop d.owner).proposer y = some n) :
      y ≠ d.owner ∧ s.proposer y = some n := by
    by_cases hOwner : y = d.owner
    · rw [hOwner] at hOwn
      change Function.update s.proposer d.owner none d.owner = some n at hOwn
      rw [Function.update_self] at hOwn
      cases hOwn
    · change Function.update s.proposer d.owner none y = some n at hOwn
      rw [Function.update_of_ne hOwner] at hOwn
      exact ⟨hOwner, hOwn⟩
  constructor
  · exact h.succession.declare hTerm hLegitimate
  · intro v l hl
    simp only [Succession.State.declare] at hl
    split at hl
    · exact hSome l hl
    · exact h.nonempty v l hl
  · change b.elected ++ [d.election] = (s.decided ++ [d]).map Decision.election
    rw [h.decided, List.map_append, List.map_singleton]
  · intro e he
    rcases List.mem_append.mp he with hOld | hNew
    · exact h.candidates e hOld
    · rw [List.mem_singleton.mp hNew]
      exact h.numbers _ _ _ hMachine
  · exact fun y k psm' hOwn => h.numbers y k psm' (hOther hOwn).2
  · exact fun y z k psm' psm'' hOwn hOwn' =>
      h.distinct y z k psm' psm'' (hOther hOwn).2 (hOther hOwn').2
  · intro y k psm' hOwn
    obtain ⟨hOwner, hOwn⟩ := hOther hOwn
    have hInv := h.machine y k psm' hOwn
    refine ⟨hInv.name, hInv.slots, ?_, hInv.active, ?_⟩
    · rcases hInv.standing with ⟨l, hl, hSize, hPositive, hLast⟩ | ⟨hRequestor, hFirst, _⟩
      · exact .inl ⟨l, hElectorate hl, hSize, hPositive, hKnown hLast⟩
      · exact absurd (hRequestor.trans (hStart hFirst).symm) hOwner
    · intro e he hCandidate
      rcases List.mem_append.mp he with hOld | hNew
      · exact hInv.spent e hOld hCandidate
      · rw [List.mem_singleton.mp hNew] at hCandidate
        change d.machine = k at hCandidate
        subst hCandidate
        exact absurd (h.distinct y d.owner _ psm' psm hOwn hMachine) hOwner
  · intro y k psm' hOwn l hl
    obtain ⟨hOwner, hOwn⟩ := hOther hOwn
    rcases (h.machine y k psm' hOwn).standing with ⟨l', hl', _⟩ | ⟨hRequestor, hFirst, _⟩
    · rw [hElectorate hl'] at hl
      cases hl
      exact h.backed y k psm' hOwn l hl'
    · exact absurd (hRequestor.trans (hStart hFirst).symm) hOwner
  · intro ip a ha
    have hInv := h.acceptor ip a ha
    obtain ⟨l, hl, hMember⟩ := hInv.member
    exact ⟨hInv.name, ⟨l, hElectorate hl, hMember⟩, hInv.free, hKnown hInv.learned⟩
  · exact fun p hp => ⟨(h.packet p hp).number, fun q hq => hKnown ((h.packet p hp).announced q hq)⟩
  · intro q hq
    have hInv := h.request q hq
    exact ⟨hInv.name, hInv.committed.imp_right hElectorate, hInv.member, hInv.unused⟩
  · exact h.apart

/-- What was committed is the list of the acceptors of the next version. -/
theorem committed (h : Inv name s b) {d : Decision} (hd : d ∈ s.decided)
    {ap : AcceptorChangeProposal} (hProposal : d.proposal = .acceptorChangeProposal ap) :
    b.electorate (ap.newversion + 1) = some ap.acceptor := by
  have hElected : d.election ∈ b.elected := by
    rw [h.decided]
    exact List.mem_map_of_mem hd
  have hAppointed := h.succession.successor _ hElected ap.acceptor (by
    rw [Decision.election, hProposal])
  have hTerm : d.election.term = ap.newversion := by
    rw [Decision.election, hProposal]
    rfl
  rwa [hTerm] at hAppointed

/-- The requests that recruit a proposer with a committed list. -/
theorem addProposer (h : Inv name s b) {requests : List SentRequest}
    (hRequests : ∀ q ∈ requests, q.port = .requestProposer ∧
      ∃ d ∈ s.decided, ∃ ap, d.proposal = .acceptorChangeProposal ap ∧ Carries name ap q) :
    Inv name { s with requests := s.requests ++ requests } b :=
  { h with
    request := by
      intro q hq
      rcases List.mem_append.mp hq with hBefore | hNew
      · exact h.request q hBefore
      · obtain ⟨hPort, d, hd, ap, hProposal, hName, hVoting, hCommitted, hList⟩ := hRequests q hNew
        have hElectorate := h.committed hd hProposal
        rw [← hVoting, ← hList] at hElectorate
        refine ⟨hName, ⟨hVoting.trans (by rw [hCommitted]), hElectorate⟩, ?_, ?_⟩
        · intro hAcceptor
          rw [hPort] at hAcceptor
          cases hAcceptor
        · intro hAcceptor
          rw [hPort] at hAcceptor
          cases hAcceptor
    apart := by
      refine List.pairwise_append.mpr ⟨h.apart, ?_, ?_⟩
      · refine List.pairwise_of_forall_mem_list ?_
        intro q hq q' _ hPort
        rw [(hRequests q hq).1] at hPort
        cases hPort
      · intro q _ q' hq' _ hPort
        rw [(hRequests q' hq').1] at hPort
        cases hPort }

/-- The requests for a version that nobody knows of yet. -/
theorem recruits (h : Inv name s b) {ap : AcceptorChangeProposal} {requests : List SentRequest}
    (hRequests : Recruits name ap requests)
    (hElectorate : b.electorate (ap.newversion + 1) = some ap.acceptor)
    (hVotes : ∀ ip, b.vote (ap.newversion + 1) ip = none)
    (hMachines : ∀ ip a, s.acceptor ip = some a → a.version ≠ ap.newversion + 1)
    (hOld : ∀ q ∈ s.requests, q.request.votingversion ≠ ap.newversion + 1) :
    Inv name { s with requests := s.requests ++ requests } b :=
  { h with
    request := by
      intro q hq
      rcases List.mem_append.mp hq with hBefore | hNew
      · exact h.request q hBefore
      · obtain ⟨hName, hVoting, hCommitted, hList⟩ := hRequests.carried q hNew
        refine ⟨hName, ?_, ?_, ?_⟩
        · rw [hVoting, hCommitted, hList]
          exact ⟨rfl, hElectorate⟩
        · rw [hList]
          exact hRequests.member q hNew
        · rw [hVoting]
          exact fun _ => ⟨hVotes q.ip, hMachines q.ip⟩
    apart := by
      refine List.pairwise_append.mpr ⟨h.apart, ?_, ?_⟩
      · refine hRequests.once.imp ?_
        intro q q' hOnce hPort hPort' hSame
        exact absurd hSame (hOnce hPort hPort')
      · intro q hq q' hq' _ _ _
        rw [(hRequests.carried q' hq').2.1]
        exact hOld q hq }

theorem message (h : Inv name s b) {x : Owner} {k : Nat} {psm : ProposerStateMachine Conn}
    {c : Conn} {m : PaxosMessage} (now : Time) (hMachine : s.proposer x = some ⟨k, psm⟩)
    (hOpen : some c ∈ psm.accsfd) (hPacket : .toProposer c m ∈ s.network) :
    Inv name ((s.consume (.toProposer c m)).react x k (psm.handleMessage now c m)) b := by
  have hInv := h.machine x k psm hMachine
  refine (h.consume _).react hMachine ?_ ?_ ?_
  · exact hInv.handleMessage now hOpen (h.packet _ hPacket).announced
  · intro l hElectorate
    have hVersion := (psm.handleMessage_keeps now c m).version
    rw [hVersion] at hElectorate ⊢
    have hVotes := h.backed x k psm hMachine l hElectorate
    have hCount := acksTo_erase hPacket k psm.version
    have hAck := psm.handleMessage_phase2ack_le now c m
    have hOwn := hInv.slots c hOpen
    have hCounted : (Packet.toProposer c m).isAckTo k psm.version =
        decide (m.body = .phase2Ack ∧ m.version = psm.version) := by
      simp [Packet.isAckTo, hOwn, and_comm]
    simp only [hCounted, decide_eq_true_eq] at hCount
    dsimp only [Machines.consume]
    omega
  · intro c' out hMem
    obtain ⟨hSlot, hSpeaks⟩ := ProposerStateMachine.handleMessage_speaks hMem
    constructor
    · rcases hSlot with rfl | hSlot
      · exact hOpen
      · exact hSlot
    · intro p hBody
      rw [hSpeaks.announced p hBody]
      rcases hInv.standing with ⟨_, _, _, _, hKnown⟩ | ⟨_, _, _, hSlots⟩
      · exact hKnown
      · exact absurd hOpen (hSlots c)

theorem propose (h : Inv name s b) {x : Owner} {k : Nat} {psm : ProposerStateMachine Conn}
    {p : Proposal} (now : Time) (hMachine : s.proposer x = some ⟨k, psm⟩)
    (hProper : Proper psm p x) : Inv name (s.react x k (psm.newProposal now p)) b := by
  refine h.react hMachine ((h.machine x k psm hMachine).newProposal now hProper) ?_ ?_
  · intro l hElectorate
    rw [(psm.newProposal_keeps now p).version] at hElectorate ⊢
    rw [psm.newProposal_phase2ack]
    exact h.backed x k psm hMachine l hElectorate
  · intro c out hMem
    obtain ⟨hSlot, hSpeaks⟩ := ProposerStateMachine.newProposal_speaks (q := .noProposal) hMem
    refine ⟨hSlot, ?_⟩
    intro q hBody ap hProposal
    rw [hSpeaks.announced q hBody] at hProposal
    cases hProposal

theorem timeout (h : Inv name s b) {x : Owner} {k : Nat} {psm : ProposerStateMachine Conn}
    (now timeout : Time) (hMachine : s.proposer x = some ⟨k, psm⟩) :
    Inv name (s.react x k (.quiet (psm.checkTimeout now timeout))) b := by
  refine h.react hMachine ((h.machine x k psm hMachine).checkTimeout now timeout) ?_ (by simp)
  intro l hElectorate
  have hVersion := (psm.checkTimeout_keeps now timeout).version
  rw [Reaction.quiet_machine, hVersion] at hElectorate ⊢
  have hVotes := h.backed x k psm hMachine l hElectorate
  have hLe := psm.checkTimeout_phase2ack_le now timeout
  omega

/-- A proposer process commits its recovery, and closes the succession. -/
theorem commitRecovery (h : Inv name s b) {ip : IPString} {k : Nat}
    {psm : ProposerStateMachine Conn} {rp : RecoveryProposal} (now : Time)
    (hMachine : s.proposer (some ip) = some ⟨k, psm⟩) (hReady : psm.isReadyToCommit = true)
    (hProposal : psm.proposal = .recoveryProposal rp) :
    ∃ b', Succession.Step b b' ∧
      Inv name ((s.decide ⟨k, some ip, .recoveryProposal rp⟩).react (some ip) k
        (.void (psm.sendCommitment now))) b' := by
  have hInv := h.machine (some ip) k psm hMachine
  obtain ⟨hMajority, hProper, hOnce⟩ := hInv.ready (h.backed _ k psm hMachine) hReady
  obtain ⟨l, hElectorate, hVotes, hSize⟩ := hMajority.resolve_right (by simp)
  obtain ⟨rp', hSame, hVersion⟩ := hProper
  rw [hProposal] at hSame
  cases hSame
  let d : Decision := ⟨k, some ip, .recoveryProposal rp⟩
  have hTerm : d.election.term = psm.version := hVersion
  have hFresh : ∀ f ∈ b.elected, f.term ≠ d.election.term :=
    h.succession.fresh_term (e := d.election) (l := l) (hTerm ▸ hElectorate) (hTerm ▸ hVotes) hOnce
  have hStep : Succession.Step b (b.declare d.election) :=
    .declare b d.election l (hTerm ▸ hElectorate) (hTerm ▸ hVotes) hOnce
  have hAppointed : (b.declare d.election).electorate psm.version = some l :=
    b.declare_electorate (h.succession.fresh_electorate hFresh) hElectorate
  refine ⟨_, hStep, ?_⟩
  have hDeclared : Inv name ((s.decide d).stop (some ip)) (b.declare d.election) :=
    h.declare (d := d) hMachine hFresh (.inl ⟨l, hTerm ▸ hElectorate, hTerm ▸ hVotes⟩)
      (fun hEmpty => by
        obtain ⟨e, he, _⟩ := h.succession.appointed _ l hElectorate
        rw [hEmpty] at he
        cases he)
      (fun l' hl' => by cases hl')
  rw [← Machines.react_stop]
  obtain ⟨hRetired, hState, hLast⟩ := sendCommitment_retired now hReady hSize
  have hKeeps := psm.sendCommitment_keeps now
  refine hDeclared.place (h.numbers _ k psm hMachine) ?_ ?_ ?_ ?_
  · intro y psm' hOwn
    by_contra hOwner
    change Function.update s.proposer (some ip) none y = _ at hOwn
    rw [Function.update_of_ne hOwner] at hOwn
    exact hOwner (h.distinct y (some ip) k psm' psm hOwn hMachine)
  · exact {
      name := hKeeps.name.trans hInv.name
      slots := fun c hSlot => hInv.slots c (hKeeps.slots c hSlot)
      standing := by
        rw [Reaction.void_machine, hKeeps.version, hKeeps.nacceptor, hLast, hProposal]
        rcases hInv.standing with ⟨l', hElectorate', hLength, _⟩ | ⟨_, _, hZero, _⟩
        · rw [hElectorate] at hElectorate'
          cases hElectorate'
          exact .inl ⟨l, hAppointed, hLength, hSize, fun ap hNone => by cases hNone⟩
        · exact absurd hZero hSize
      active := by
        rw [Reaction.void_machine, hState]
        simp
      spent := fun _ _ _ => hRetired }
  · intro l' hElectorate'
    rw [Reaction.void_machine, hKeeps.version] at hElectorate' ⊢
    rw [hAppointed] at hElectorate'
    cases hElectorate'
    rw [psm.sendCommitment_phase2ack]
    exact h.backed _ k psm hMachine l hElectorate
  · intro c out hMem
    obtain ⟨hSlot, hSpeaks⟩ := ProposerStateMachine.sendCommitment_speaks hMem
    refine ⟨hInv.slots c hSlot, ?_⟩
    intro p hBody ap hAcceptors
    rw [hSpeaks.announced p hBody, hProposal] at hAcceptors
    cases hAcceptors

/-- The requestor commits a list, which appoints the next acceptors, and
goes on with a machine of the next version. -/
theorem commitAcceptors (h : Inv name s b) {k : Nat} {psm : ProposerStateMachine Conn}
    {ap : AcceptorChangeProposal} (now : Time) {requests : List SentRequest} {number : Nat}
    {connect : Nat → IPString → Option Conn} (hMachine : s.proposer none = some ⟨k, psm⟩)
    (hReady : psm.isReadyToCommit = true) (hProposal : psm.proposal = .acceptorChangeProposal ap)
    (hRequests : Recruits name ap requests) (hNumber : s.next ≤ number)
    (hDials : Dials number connect) :
    ∃ b', Succession.Step b b' ∧ Inv name
      (({ s.decide ⟨k, none, .acceptorChangeProposal ap⟩ with
            requests := s.requests ++ requests }.react none k
          (.void (psm.sendCommitment now))).start none number
        (ProposerStateMachine.new now connect name (ap.newversion + 1)
          ⟨ap.newversion, ap.acceptor⟩).1) b' := by
  have hInv := h.machine none k psm hMachine
  obtain ⟨hMajority, hProper, hOnce⟩ := hInv.ready (h.backed _ k psm hMachine) hReady
  obtain ⟨ap', hSame, hSome, _, hVersion⟩ := hProper
  rw [hProposal] at hSame
  cases hSame
  let d : Decision := ⟨k, none, .acceptorChangeProposal ap⟩
  have hTerm : d.election.term = psm.version := by
    refine hVersion.resolve_right fun hRetired => ?_
    rw [hRetired.not_ready] at hReady
    cases hReady
  have hFresh : ∀ f ∈ b.elected, f.term ≠ d.election.term := by
    rcases hMajority with ⟨l, hElectorate, hVotes, _⟩ | ⟨_, hEmpty, _⟩
    · exact h.succession.fresh_term (e := d.election) (l := l) (hTerm ▸ hElectorate)
        (hTerm ▸ hVotes) hOnce
    · simp [hEmpty]
  have hStep : Succession.Step b (b.declare d.election) := by
    rcases hMajority with ⟨l, hElectorate, hVotes, _⟩ | ⟨_, hEmpty, _⟩
    · exact .declare b d.election l (hTerm ▸ hElectorate) (hTerm ▸ hVotes) hOnce
    · exact .found b d.election hEmpty
  have hNone : b.electorate (ap.newversion + 1) = none := h.succession.fresh_electorate hFresh
  have hAppointed : (b.declare d.election).electorate (ap.newversion + 1) = some ap.acceptor :=
    if_pos ⟨rfl, rfl⟩
  refine ⟨_, hStep, ?_⟩
  have hDeclared : Inv name ((s.decide d).stop none) (b.declare d.election) := by
    refine h.declare (d := d) hMachine hFresh ?_ (fun _ => rfl) ?_
    · rcases hMajority with ⟨l, hElectorate, hVotes, _⟩ | ⟨_, hEmpty, _⟩
      · exact .inl ⟨l, hTerm ▸ hElectorate, hTerm ▸ hVotes⟩
      · exact .inr hEmpty
    · rintro l hl
      cases hl
      exact hSome
  have hRecruited := hDeclared.recruits hRequests hAppointed ?_ ?_ ?_
  · have hSent := hRecruited.send (sends (psm.sendCommitment now).2) fun c out hMem => by
      obtain ⟨hSlot, hSpeaks⟩ := ProposerStateMachine.sendCommitment_speaks hMem
      refine ⟨hInv.slots c hSlot ▸ h.numbers none k psm hMachine, ?_⟩
      intro p hBody ap' hAcceptors
      rw [hSpeaks.announced p hBody, hProposal] at hAcceptors
      cases hAcceptors
      exact hAppointed
    have hStarted := hSent.start none now hNumber hDials hAppointed
    convert hStarted using 1
    simp [Machines.start, Machines.react, Machines.stop, Machines.decide, d]
  · intro ip
    cases hVote : b.vote (ap.newversion + 1) ip with
    | none => exact hVote
    | some c =>
        obtain ⟨l, hElectorate⟩ := h.succession.voters _ ip c hVote
        rw [hNone] at hElectorate
        cases hElectorate
  · intro ip a ha hSame
    obtain ⟨l, hElectorate, _⟩ := (h.acceptor ip a ha).member
    rw [hSame, hNone] at hElectorate
    cases hElectorate
  · intro q hq hSame
    have hElectorate := (h.request q hq).committed.2
    rw [hSame, hNone] at hElectorate
    cases hElectorate

/-- An acceptor machine takes the place of the one at its address. -/
theorem register (h : Inv name s b) {ip : IPString} {a : AcceptorStateMachine}
    (hMachine : AcceptorInv b name ip a)
    (hUnused : ∀ q ∈ s.requests, q.port = .requestAcceptor → q.ip = ip →
      a.version ≠ q.request.votingversion) : Inv name (s.register ip a) b :=
  { h with
    acceptor := by
      intro ip' a' hOwn
      rcases update_cases hOwn with ⟨rfl, rfl⟩ | ⟨_, hOld⟩
      · exact hMachine
      · exact h.acceptor ip' a' hOld
    request := by
      intro q hq
      have hInv := h.request q hq
      refine ⟨hInv.name, hInv.committed, hInv.member, ?_⟩
      intro hPort
      refine ⟨(hInv.unused hPort).1, ?_⟩
      intro a' hOwn
      rcases update_cases hOwn with ⟨hSame, rfl⟩ | ⟨_, hOld⟩
      · exact hUnused q hq hPort hSame
      · exact (hInv.unused hPort).2 a' hOld }

/-- A request to an acceptor is read. -/
theorem create (h : Inv name s b) {q : SentRequest} (now : Time) (hRequest : q ∈ s.requests)
    (hPort : q.port = .requestAcceptor) :
    Inv name ((s.read q).register q.ip
      (AcceptorStateMachine.new now q.request.name q.request.votingversion
        (.acceptorChangeProposal ⟨q.request.committedversion, q.request.acceptor⟩))) b := by
  have hInv := h.request q hRequest
  have hApart : ∀ q' ∈ s.requests.erase q, Apart q q' := by
    have hPairwise := ((List.perm_cons_erase hRequest).pairwise_iff
      (fun {q q'} hApart hPort hPort' hSame hVersion =>
        hApart hPort' hPort hSame.symm hVersion.symm)).mp h.apart
    exact (List.pairwise_cons.mp hPairwise).1
  refine (h.read q).register ?_ ?_
  · refine ⟨hInv.name, ⟨_, hInv.committed.2, hInv.member hPort⟩, ?_, ?_⟩
    · exact fun _ => (hInv.unused hPort).1
    · intro ap hLast
      cases hLast
      rw [← hInv.committed.1]
      exact hInv.committed.2
  · exact fun q' hq' hPort' hSame => hApart q' hq' hPort hPort' hSame.symm

/-- Answers that are no acceptances. -/
theorem reply (h : Inv name s b) {out : List (Conn × PaxosMessage)}
    (hOut : ∀ c m, (c, m) ∈ out → c.machine < s.next ∧ m.body ≠ .phase2Ack ∧
      ∀ p, m.body = .phase3Commit p → Known b p) :
    Inv name { s with network := s.network ++ out.map fun o => .toProposer o.1 o.2 } b :=
  { h with
    backed := by
      intro x k psm hMachine l hElectorate
      have hNone : acksTo (out.map fun o => .toProposer o.1 o.2) k psm.version = 0 := by
        rw [acksTo, List.countP_map, List.countP_eq_zero]
        intro o hMem
        simp [Packet.isAckTo, (hOut o.1 o.2 hMem).2.1]
      rw [acksTo_append, hNone, Nat.add_zero]
      exact h.backed x k psm hMachine l hElectorate
    packet := by
      intro packet hMem
      rcases List.mem_append.mp hMem with hOld | hNew
      · exact h.packet packet hOld
      · obtain ⟨⟨c, m⟩, hSent, rfl⟩ := List.mem_map.mp hNew
        exact ⟨(hOut c m hSent).1, (hOut c m hSent).2.2⟩ }

/-- An acceptance is a vote for the machine that asked. -/
theorem accept (h : Inv name s b) {ip : IPString} {a : AcceptorStateMachine}
    (a' : AcceptorStateMachine) {c : Conn}
    (hMachine : s.acceptor ip = some a) (hState : a.state = .phase1) (hNumber : c.machine < s.next)
    (hName : a'.name = a.name) (hVersion : a'.version = a.version) (hNext : a'.state ≠ .phase1)
    (hLast : a'.lastcommit = a.lastcommit) :
    ∃ b', Succession.Step b b' ∧ Inv name
      { s.register ip a' with
        network := s.network ++ [.toProposer c ⟨a.version, a.name, .phase2Ack⟩] } b' := by
  have hInv := h.acceptor ip a hMachine
  obtain ⟨l, hElectorate, hMember⟩ := hInv.member
  have hNew := hInv.free hState
  have hVote {v : Nat} {ip' : IPString} (hOther : v = a.version → ip' ≠ ip) :
      (b.cast a.version ip c.machine).vote v ip' = b.vote v ip' := by
    rw [Succession.State.vote_cast]
    split
    next hSame => rw [Function.update_of_ne (hOther hSame), hSame]
    · rfl
  refine ⟨b.cast a.version ip c.machine, .cast b a.version l ip c.machine hElectorate hMember hNew,
    ?_⟩
  exact { h with
    succession := h.succession.cast c.machine hElectorate hNew
    machine := by
      intro x k psm hOwn
      have hInv' := h.machine x k psm hOwn
      exact ⟨hInv'.name, hInv'.slots, hInv'.standing, hInv'.active, hInv'.spent⟩
    backed := by
      intro x k psm hOwn l' hl
      replace hl : b.electorate psm.version = some l' := hl
      have hVotes := h.backed x k psm hOwn l' hl
      rw [acksTo_append, Succession.State.vote_cast]
      split
      next hSame =>
        rw [hSame, hElectorate] at hl
        cases hl
        rw [hSame] at hVotes ⊢
        by_cases hCandidate : c.machine = k
        · subst hCandidate
          rw [votesFor_cast_self hMember hNew]
          have hOne : acksTo [.toProposer c ⟨a.version, a.name, .phase2Ack⟩] c.machine
              a.version = 1 := by
            simp [acksTo, Packet.isAckTo]
          omega
        · have hLe := votesFor_cast_le l c.machine k hNew
          have hZero : acksTo [.toProposer c ⟨a.version, a.name, .phase2Ack⟩] k a.version = 0 := by
            simp [acksTo, Packet.isAckTo, hCandidate]
          omega
      next hOther =>
        have hZero : acksTo [.toProposer c ⟨a.version, a.name, .phase2Ack⟩] k psm.version = 0 := by
          simp [acksTo, Packet.isAckTo, Ne.symm hOther]
        omega
    acceptor := by
      intro ip' a'' hOwn
      rcases update_cases hOwn with ⟨rfl, rfl⟩ | ⟨hip, hOld⟩
      · refine ⟨hName.trans hInv.name, ⟨l, hVersion ▸ hElectorate, hMember⟩, ?_, ?_⟩
        · exact fun hState' => absurd hState' hNext
        · rw [hLast]
          exact hInv.learned
      · have hInv' := h.acceptor ip' a'' hOld
        refine ⟨hInv'.name, hInv'.member, ?_, hInv'.learned⟩
        rw [hVote fun _ => hip]
        exact hInv'.free
    packet := by
      intro packet hMem
      rcases List.mem_append.mp hMem with hOld | hLast
      · exact ⟨(h.packet packet hOld).number, (h.packet packet hOld).announced⟩
      · rw [List.mem_singleton.mp hLast]
        exact ⟨hNumber, fun p hBody => by cases hBody⟩
    request := by
      intro q hq
      have hInv' := h.request q hq
      refine ⟨hInv'.name, hInv'.committed, hInv'.member, ?_⟩
      intro hPort
      obtain ⟨hFree, hUnused⟩ := hInv'.unused hPort
      constructor
      · rw [hVote, hFree]
        rintro hSame rfl
        exact hUnused a hMachine hSame.symm
      · intro a'' hOwn
        rcases update_cases hOwn with ⟨hip, rfl⟩ | ⟨_, hOld⟩
        · rw [hVersion]
          exact hUnused a (hip ▸ hMachine)
        · exact hUnused a'' hOld }

/-- A message to an acceptor is a vote when it is accepted, and nothing to the
succession otherwise. -/
theorem answer (h : Inv name s b) {ip : IPString} {a : AcceptorStateMachine} {c : Conn}
    {m : PaxosMessage} (now : Time) (hMachine : s.acceptor ip = some a)
    (hPacket : .toAcceptor c m ∈ s.network) :
    ∃ b', Relation.ReflTransGen Succession.Step b b' ∧
      Inv name ((s.consume (.toAcceptor c m)).answer ip (a.handleMessage now c m)) b' := by
  have hInv := h.acceptor ip a hMachine
  have hSource := h.packet _ hPacket
  have hConsumed := h.consume (.toAcceptor c m)
  have hQuiet (a' : AcceptorStateMachine) (effects : List (Effect Conn)) (result : PaxosResult)
      (hNew : AcceptorInv b name ip a') (hVersion : a'.version = a.version)
      (hSends : ∀ c' out, (c', out) ∈ sends effects → c' = c ∧ out.body ≠ .phase2Ack ∧
        ∀ p, out.body = .phase3Commit p → Known b p) :
      ∃ b', Relation.ReflTransGen Succession.Step b b' ∧
        Inv name ((s.consume (.toAcceptor c m)).answer ip ⟨a', effects, result⟩) b' := by
    refine ⟨b, .refl, (hConsumed.register hNew ?_).reply ?_⟩
    · intro q hq hPort hSame
      rw [hVersion]
      exact ((h.request q hq).unused hPort).2 a (hSame ▸ hMachine)
    · intro c' out hMem
      obtain ⟨rfl, hRest⟩ := hSends c' out hMem
      exact ⟨hSource.number, hRest⟩
  have hOne (body : PaxosBody) (hAck : body ≠ .phase2Ack)
      (hAnnounced : ∀ p, body = .phase3Commit p → Known b p) (c' : Conn) (out : PaxosMessage)
      (hMem : (c', out) ∈ sends [Effect.send c ⟨m.version, a.name, body⟩]) :
      c' = c ∧ out.body ≠ .phase2Ack ∧ ∀ p, out.body = .phase3Commit p → Known b p := by
    rw [sends_cons_send, sends_nil, List.mem_singleton] at hMem
    cases hMem
    exact ⟨rfl, hAck, hAnnounced⟩
  generalize hReaction : a.handleMessage now c m = r
  have hOutcome := a.handleMessage_outcome now c m
  rw [hReaction] at hOutcome
  cases hOutcome with
  | ignored => exact hQuiet a [] _ hInv rfl (by simp)
  | dropped => exact hQuiet a [] _ hInv rfl (by simp)
  | recalled =>
      refine hQuiet a _ _ hInv rfl (hOne _ (by simp) ?_)
      intro p hBody
      cases hBody
      exact hInv.learned
  | refused body hName hVersion hState hNack =>
      refine hQuiet a _ _ hInv rfl (hOne body ?_ ?_)
      · rcases hNack with rfl | rfl <;> simp
      · rcases hNack with rfl | rfl <;> simp
  | promised p hName hVersion hBody hState =>
      exact hQuiet _ _ _ ⟨hInv.name, hInv.member, hInv.free, hInv.learned⟩ rfl
        (hOne _ (by simp) (by simp))
  | accepted p hName hVersion hBody hState =>
      obtain ⟨b', hVote, hNext⟩ := hConsumed.accept { a with timestamp := now, state := .phase2 }
        hMachine hState hSource.number rfl rfl (by simp) rfl
      refine ⟨b', .single hVote, ?_⟩
      rw [← hVersion]
      exact hNext
  | learned p hName hVersion hBody =>
      refine hQuiet _ _ _ ⟨hInv.name, hInv.member, by simp, ?_⟩ rfl (by simp)
      exact hSource.announced p hBody

/-- One step of the machines. -/
theorem step (h : Inv name s b) {t : Machines} (hStep : Step name s t) :
    ∃ b', Relation.ReflTransGen Succession.Step b b' ∧ Inv name t b' := by
  cases hStep with
  | message now hMachine hOpen hPacket => exact ⟨b, .refl, h.message now hMachine hOpen hPacket⟩
  | propose now hMachine hProper => exact ⟨b, .refl, h.propose now hMachine hProper⟩
  | timeout now timeout hMachine => exact ⟨b, .refl, h.timeout now timeout hMachine⟩
  | commitRecovery now hMachine hReady hProposal =>
      obtain ⟨b', hDeclare, hNext⟩ := h.commitRecovery now hMachine hReady hProposal
      exact ⟨b', .single hDeclare, hNext⟩
  | commitAcceptors now hMachine hReady hProposal hRequests hNumber hDials =>
      obtain ⟨b', hDeclare, hNext⟩ :=
        h.commitAcceptors now hMachine hReady hProposal hRequests hNumber hDials
      exact ⟨b', .single hDeclare, hNext⟩
  | addProposer hRequests => exact ⟨b, .refl, h.addProposer hRequests⟩
  | adopt now hMachine hProposal hNumber hDials =>
      have hElectorate := (h.machine _ _ _ hMachine).adoptable hProposal
      exact ⟨b, .refl, h.start _ now hNumber hDials hElectorate⟩
  | @recruit q now number connect hRequest hPort hNumber hDials =>
      have hInv := h.request q hRequest
      have hElectorate := hInv.committed.2
      refine ⟨b, .refl, ?_⟩
      rw [hInv.committed.1] at hElectorate ⊢
      rw [hInv.name]
      exact (h.read q).start _ now hNumber hDials hElectorate
  | create now hRequest hPort => exact ⟨b, .refl, h.create now hRequest hPort⟩
  | answer now hMachine hPeer hPacket => exact h.answer now hMachine hPacket
  | lose packet => exact ⟨b, .refl, h.consume packet⟩

end Inv

/-- Steps of the machines are matched by steps of the succession. -/
theorem Inv.reaches {t : Machines} (h : Inv name s b) (hSteps : Reaches name s t) :
    ∃ b', Relation.ReflTransGen Succession.Step b b' ∧ Inv name t b' := by
  induction hSteps with
  | refl => exact ⟨b, .refl, h⟩
  | tail _ last ih =>
      obtain ⟨b', hFirst, hInv⟩ := ih
      obtain ⟨b'', hLast, hNext⟩ := hInv.step last
      exact ⟨b'', hFirst.trans hLast, hNext⟩

end QpidRecovery.Cluster
