import QpidRecovery.Cluster.HandOver
import QpidRecovery.Proposer.Addresses
import QpidRecovery.Requestor.Branches

/-! What the proposers of a service tell about it. A recovery that reaches a
proposer as committed was committed by one of them, so all of them act on the
same one, and no subscriber ever hears of a third address. -/
namespace QpidRecovery

namespace AcceptorStateMachine

/-- A machine takes over what a commit carries. -/
theorem handleMessage_lastcommit {Fd : Type} (now : Time) (replysfd : Fd) (m : PaxosMessage)
    (a : AcceptorStateMachine) :
    (a.handleMessage now replysfd m).machine.lastcommit = a.lastcommit ∨
      m.body = .phase3Commit (a.handleMessage now replysfd m).machine.lastcommit := by
  generalize hReaction : a.handleMessage now replysfd m = r
  have hOutcome := a.handleMessage_outcome now replysfd m
  rw [hReaction] at hOutcome
  cases hOutcome with
  | learned p hName hVersion hBody hState => exact .inr hBody
  | _ => exact .inl rfl

/-- The only commit that it announces is its last. -/
theorem handleMessage_announces {Fd : Type} {now : Time} {replysfd fd : Fd} {m out : PaxosMessage}
    {a : AcceptorStateMachine} {p : Proposal}
    (h : (fd, out) ∈ sends (a.handleMessage now replysfd m).effects)
    (hBody : out.body = .phase3Commit p) : p = a.lastcommit := by
  generalize hReaction : a.handleMessage now replysfd m = r at h
  have hOutcome := a.handleMessage_outcome now replysfd m
  rw [hReaction] at hOutcome
  cases hOutcome with
  | ignored | dropped | learned => cases h
  | refused b hName hVersion hState hNack =>
      rw [sends_cons_send, sends_nil, List.mem_singleton] at h
      cases h
      rcases hNack with rfl | rfl <;> cases hBody
  | recalled =>
      rw [sends_cons_send, sends_nil, List.mem_singleton] at h
      cases h
      cases hBody
      rfl
  | promised | accepted =>
      rw [sends_cons_send, sends_nil, List.mem_singleton] at h
      cases h
      cases hBody

end AcceptorStateMachine

/-- A request tells where the requestor's own broker is. -/
def Requestor.SentRequest.Own (cfg : Requestor.Config) (q : Requestor.SentRequest) : Prop :=
  q.request.brokerip = noAddress ∧ q.request.brokerport = cfg.brokerport

namespace Requestor

variable {Fd : Type} [DecidableEq Fd] {cfg : Config} {s t : State Fd}

theorem handleCommit_own {o : Outcomes Fd} {r : PaxosResult} {returned : Int}
    (h : ∀ q ∈ s.sent, q.Own cfg) (hCommit : handleCommit cfg o r s = some (t, returned)) :
    ∀ q ∈ t.sent, q.Own cfg := by
  cases handleCommit_commit hCommit with
  | installed ap _ =>
      intro q hq
      rcases List.mem_append.mp hq with hFirst | hProposer
      · rcases List.mem_append.mp hFirst with hOld | hAcceptor
        · exact h q hOld
        · rw [SentRequest.Own, mem_sendRequests hAcceptor]
          exact ⟨rfl, rfl⟩
      · rw [SentRequest.Own, mem_sendRequests hProposer]
        exact ⟨rfl, rfl⟩
  | _ => exact h

/-- Every request that an iteration writes is about the requestor's broker. -/
theorem step_own {action : Action Fd} (h : ∀ q ∈ s.sent, q.Own cfg)
    (hStep : step cfg s action = some t) : ∀ q ∈ t.sent, q.Own cfg := by
  cases step_branch hStep with
  | proposed acc rest _ _ hCommit =>
      refine handleCommit_own ?_ hCommit
      exact h
  | received _ _ hCommit =>
      refine handleCommit_own ?_ hCommit
      exact h
  | recruited newip rest =>
      intro q hq
      rcases List.mem_append.mp hq with hOld | hNew
      · exact h q hOld
      · rw [List.mem_singleton.mp hNew]
        exact ⟨rfl, rfl⟩
  | _ => exact h

end Requestor

namespace Cluster

open Requestor (Config SentRequest oneAndOne)
open Transition
open Proposer (Sourced Sources WellNamed)

section Machines
variable {name : ServiceName} {s t : Machines} {b : Council}

/-- Somebody committed the recovery. -/
def Machines.Decided (s : Machines) (rp : RecoveryProposal) : Prop :=
  ∃ d ∈ s.decided, d.proposal = .recoveryProposal rp

/-- Whatever is taken for a committed recovery is one. -/
structure Announced (s : Machines) : Prop where
  proposer : ∀ x k psm rp, s.proposer x = some ⟨k, psm⟩ →
    psm.lastcommit = .recoveryProposal rp → s.Decided rp
  acceptor : ∀ ip a rp, s.acceptor ip = some a → a.lastcommit = .recoveryProposal rp →
    s.Decided rp
  packet : ∀ packet ∈ s.network, ∀ rp,
    packet.message.body = .phase3Commit (.recoveryProposal rp) → s.Decided rp

namespace Announced

theorem initial (psm : ProposerStateMachine Conn) (hLast : ∀ rp, psm.lastcommit ≠ .recoveryProposal rp) :
    Announced (.initial psm) where
  proposer := by
    intro x k psm' rp hMachine hCommit
    cases x with
    | none =>
        cases hMachine
        exact absurd hCommit (hLast rp)
    | some ip => cases hMachine
  acceptor := by simp [Machines.initial]
  packet := by simp [Machines.initial]

/-- Fewer packets and other requests. -/
theorem keep (h : Announced s) (hProposer : t.proposer = s.proposer)
    (hAcceptor : t.acceptor = s.acceptor) (hNetwork : t.network ⊆ s.network)
    (hDecided : s.decided ⊆ t.decided) : Announced t := by
  have hGrow {rp : RecoveryProposal} (hOld : s.Decided rp) : t.Decided rp := by
    obtain ⟨d, hMem, hProposal⟩ := hOld
    exact ⟨d, hDecided hMem, hProposal⟩
  constructor
  · intro x k psm rp hMachine hLast
    rw [hProposer] at hMachine
    exact hGrow (h.proposer x k psm rp hMachine hLast)
  · intro ip a rp hMachine hLast
    rw [hAcceptor] at hMachine
    exact hGrow (h.acceptor ip a rp hMachine hLast)
  · exact fun packet hMem rp hBody => hGrow (h.packet packet (hNetwork hMem) rp hBody)

/-- A proposer machine after a call, and what it sent. -/
theorem react (h : Announced s) (x : Owner) (k : Nat)
    {r : Reaction (ProposerStateMachine Conn) Conn}
    (hMachine : ∀ rp, r.machine.lastcommit = .recoveryProposal rp → s.Decided rp)
    (hSends : ∀ c m, (c, m) ∈ sends r.effects → ∀ rp,
      m.body = .phase3Commit (.recoveryProposal rp) → s.Decided rp) :
    Announced (s.react x k r) where
  proposer := by
    intro y k' psm rp hOwn hLast
    rcases update_cases hOwn with ⟨_, hEq⟩ | ⟨_, hOld⟩
    · cases hEq
      exact hMachine rp hLast
    · exact h.proposer y k' psm rp hOld hLast
  acceptor := h.acceptor
  packet := by
    intro packet hMem rp hBody
    rcases List.mem_append.mp hMem with hOld | hNew
    · exact h.packet packet hOld rp hBody
    · obtain ⟨⟨c, m⟩, hSent, rfl⟩ := List.mem_map.mp hNew
      exact hSends c m hSent rp hBody

/-- A new machine knows of no recovery. -/
theorem start (h : Announced s) (x : Owner) (number : Nat) {psm : ProposerStateMachine Conn}
    (hLast : ∀ rp, psm.lastcommit ≠ .recoveryProposal rp) : Announced (s.start x number psm) where
  proposer := by
    intro y k psm' rp hOwn hCommit
    rcases update_cases hOwn with ⟨_, hEq⟩ | ⟨_, hOld⟩
    · cases hEq
      exact absurd hCommit (hLast rp)
    · exact h.proposer y k psm' rp hOld hCommit
  acceptor := h.acceptor
  packet := h.packet

/-- An acceptor machine after a call, and what it answered. -/
theorem answer (h : Announced s) (ip : IPString) {r : Reaction AcceptorStateMachine Conn}
    (hMachine : ∀ rp, r.machine.lastcommit = .recoveryProposal rp → s.Decided rp)
    (hSends : ∀ c m, (c, m) ∈ sends r.effects → ∀ rp,
      m.body = .phase3Commit (.recoveryProposal rp) → s.Decided rp) :
    Announced (s.answer ip r) where
  proposer := h.proposer
  acceptor := by
    intro ip' a rp hOwn hLast
    rcases update_cases hOwn with ⟨_, rfl⟩ | ⟨_, hOld⟩
    · exact hMachine rp hLast
    · exact h.acceptor ip' a rp hOld hLast
  packet := by
    intro packet hMem rp hBody
    rcases List.mem_append.mp hMem with hOld | hNew
    · exact h.packet packet hOld rp hBody
    · obtain ⟨⟨c, m⟩, hSent, rfl⟩ := List.mem_map.mp hNew
      exact hSends c m hSent rp hBody

theorem step (h : Announced s) (hStep : Step name s t) : Announced t := by
  cases hStep with
  | @message x k psm c m now hMachine hOpen hPacket =>
      have hKept : Announced (s.consume (.toProposer c m)) :=
        h.keep rfl rfl List.erase_subset (List.Subset.refl _)
      refine hKept.react x k ?_ ?_
      · intro rp hLast
        rcases psm.handleMessage_lastcommit now c m with hSame | ⟨_, hBody⟩
        · exact h.proposer x k psm rp hMachine (hSame ▸ hLast)
        · exact h.packet _ hPacket rp (hLast ▸ hBody)
      · intro c' out hSent rp hBody
        have hSpeaks := (ProposerStateMachine.handleMessage_speaks hSent).2
        exact h.proposer x k psm rp hMachine (hSpeaks.announced _ hBody).symm
  | @propose x k psm p now hMachine =>
      refine h.react x k ?_ ?_
      · rw [psm.newProposal_lastcommit now p]
        exact fun rp => h.proposer x k psm rp hMachine
      · intro c out hSent rp hBody
        have hSpeaks := (ProposerStateMachine.newProposal_speaks (q := .noProposal) hSent).2
        cases hSpeaks.announced _ hBody
  | @timeout x k psm now timeout hMachine =>
      refine h.react x k ?_ (by simp)
      rw [Reaction.quiet_machine, psm.checkTimeout_lastcommit now timeout]
      exact fun rp => h.proposer x k psm rp hMachine
  | @commitRecovery ip k psm rp now hMachine hReady hProposal =>
      let d : Decision := ⟨k, some ip, .recoveryProposal rp⟩
      have hKept : Announced (s.decide d) :=
        h.keep rfl rfl (List.Subset.refl _) (List.subset_append_left _ _)
      have hOwn : (s.decide d).Decided rp := ⟨d, by simp [Machines.decide], rfl⟩
      refine hKept.react (some ip) k ?_ ?_
      · intro rp' hLast
        rw [Reaction.void_machine, Proposer.sendCommitment_lastcommit_of_ready now hReady,
          hProposal] at hLast
        cases hLast
        exact hOwn
      · intro c out hSent rp' hBody
        have hSpeaks := (ProposerStateMachine.sendCommitment_speaks hSent).2
        have hSame := hSpeaks.announced _ hBody
        rw [hProposal] at hSame
        cases hSame
        exact hOwn
  | @commitAcceptors k psm ap now requests number connect hMachine hReady hProposal =>
      let d : Decision := ⟨k, none, .acceptorChangeProposal ap⟩
      have hKept : Announced { s.decide d with requests := s.requests ++ requests } :=
        h.keep rfl rfl (List.Subset.refl _) (List.subset_append_left _ _)
      refine (hKept.react none k ?_ ?_).start none number ?_
      · intro rp' hLast
        rw [Reaction.void_machine, Proposer.sendCommitment_lastcommit_of_ready now hReady,
          hProposal] at hLast
        cases hLast
      · intro c out hSent rp' hBody
        have hSpeaks := (ProposerStateMachine.sendCommitment_speaks hSent).2
        have hSame := hSpeaks.announced _ hBody
        rw [hProposal] at hSame
        cases hSame
      · simp [ProposerStateMachine.new]
  | addProposer => exact h.keep rfl rfl (List.Subset.refl _) (List.Subset.refl _)
  | adopt => exact h.start _ _ (by simp [ProposerStateMachine.new])
  | @recruit q =>
      have hKept : Announced (s.read q) :=
        h.keep rfl rfl (List.Subset.refl _) (List.Subset.refl _)
      exact hKept.start _ _ (by simp [ProposerStateMachine.new])
  | @create q =>
      constructor
      · exact h.proposer
      · intro ip a rp hOwn hLast
        rcases update_cases hOwn with ⟨_, rfl⟩ | ⟨_, hOld⟩
        · cases hLast
        · exact h.acceptor ip a rp hOld hLast
      · exact h.packet
  | @answer ip a c m now hMachine hPeer hPacket =>
      have hKept : Announced (s.consume (.toAcceptor c m)) :=
        h.keep rfl rfl List.erase_subset (List.Subset.refl _)
      refine hKept.answer ip ?_ ?_
      · intro rp hLast
        rcases a.handleMessage_lastcommit now c m with hSame | hBody
        · exact h.acceptor ip a rp hMachine (hSame ▸ hLast)
        · exact h.packet _ hPacket rp (hLast ▸ hBody)
      · intro c' out hSent rp hBody
        exact h.acceptor ip a rp hMachine
          (AcceptorStateMachine.handleMessage_announces hSent hBody).symm
  | lose packet => exact h.keep rfl rfl List.erase_subset (List.Subset.refl _)

theorem reaches (h : Announced s) (hSteps : Reaches name s t) : Announced t := by
  induction hSteps with
  | refl => exact h
  | tail _ last ih => exact ih.step last

end Announced

end Machines

section Processes
variable {Id : Type} {cfg : Config} {s u v : State Id}

/-- What the processes know about the service comes from `asked` addresses and
from recoveries that were committed. -/
def sources (cfg : Config) (asked : IPString → UInt32 → Prop) (s : State Id) : Sources where
  asked := fun r => r.name = cfg.servicename → asked r.ip r.port
  learned := fun name rp => name = cfg.servicename → ∃ x, (x, .recoveryProposal rp) ∈ s.decided

structure Told (cfg : Config) (asked : IPString → UInt32 → Prop) (s : State Id) : Prop where
  sent : ∀ q ∈ s.requestor.sent, q.Own cfg
  requests : ∀ q ∈ s.requests, q.Own cfg
  named : ∀ ip, WellNamed (s.proposers ip).ledger
  sourced : ∀ ip, Sourced (sources cfg asked s) (s.proposers ip).ledger
  carried : ∀ ip rp stored,
    .committed cfg.servicename rp .committingSelf stored ∈ (s.proposers ip).trace →
      (some ip, .recoveryProposal rp) ∈ s.decided

/-- Allowed, and the requests for the service come from an address that is asked
for. -/
def From (cfg : Config) (asked : IPString → UInt32 → Prop) (s : State Id) (action : Action Id) :
    Prop :=
  Allowed cfg s action ∧ ∀ ip fromip r o, action = .proposer ip (.request fromip r o) →
    r.name = cfg.servicename → asked fromip cfg.brokerport

/-- Taking what is read off the network leaves the processes alone. -/
structure Arrived (s u : State Id) : Prop where
  requestor : u.requestor = s.requestor
  proposers : u.proposers = s.proposers
  requests : u.requests ⊆ s.requests
  decided : u.decided = s.decided

theorem arrive_arrived {arrival : Option Arrival} (h : s.arrive cfg arrival = some u) :
    Arrived s u := by
  rcases arrive_cases h with ⟨rfl, _⟩ | ⟨a, _, _, hTaken⟩
  · exact ⟨rfl, rfl, List.Subset.refl _, rfl⟩
  · cases a with
    | request q =>
        obtain ⟨_, rfl⟩ := read_request hTaken
        exact ⟨rfl, rfl, List.erase_subset, rfl⟩
    | toOwner x c m =>
        obtain ⟨_, _, rfl⟩ := read_toOwner hTaken
        exact ⟨rfl, rfl, List.Subset.refl _, rfl⟩
    | toAcceptor ip c m =>
        obtain ⟨_, _, rfl⟩ := read_toAcceptor hTaken
        exact ⟨rfl, rfl, List.Subset.refl _, rfl⟩

namespace Told
variable {asked : IPString → UInt32 → Prop}

theorem initial (h : Initial cfg s) : Told cfg asked s where
  sent := by
    obtain ⟨_, _, _, _, _, hRequestor⟩ := h.requestor
    rw [hRequestor]
    simp [Requestor.State.init]
  requests := by simp [h.requests]
  named := fun ip => by
    obtain ⟨_, _, _, _, _, hProposer⟩ := h.proposers ip
    rw [hProposer]
    exact ⟨List.nodup_nil, by simp [Proposer.State.ledger, Proposer.State.init]⟩
  sourced := fun ip => by
    obtain ⟨_, _, _, _, _, hProposer⟩ := h.proposers ip
    rw [hProposer]
    constructor <;> simp [Proposer.State.ledger, Proposer.State.init]
  carried := fun ip => by
    obtain ⟨_, _, _, _, _, hProposer⟩ := h.proposers ip
    rw [hProposer]
    simp [Proposer.State.init]

/-- A step that leaves the proposers alone. -/
theorem keep (h : Told cfg asked s) (hProposers : v.proposers = s.proposers)
    (hSent : ∀ q ∈ v.requestor.sent, q.Own cfg) (hRequests : ∀ q ∈ v.requests, q.Own cfg)
    (hDecided : s.decided ⊆ v.decided) : Told cfg asked v where
  sent := hSent
  requests := hRequests
  named := fun ip => hProposers ▸ h.named ip
  sourced := fun ip => by
    rw [hProposers]
    exact (h.sourced ip).mono (fun _ => id) fun name rp hLearned hName =>
      (hLearned hName).imp fun _ hMem => hDecided hMem
  carried := fun ip rp stored hMem => hDecided (h.carried ip rp stored (hProposers ▸ hMem))

theorem requestor (h : Told cfg asked s) (hArrived : Arrived s u)
    {action a : Requestor.Action Conn} {r : Requestor.State Conn}
    (hRun : Requestor.step cfg u.requestor a = some r) :
    Told cfg asked (u.putRequestor cfg action r) := by
  have hSent : ∀ q ∈ r.sent, q.Own cfg :=
    Requestor.step_own (by rw [hArrived.requestor]; exact h.sent) hRun
  refine h.keep hArrived.proposers hSent ?_ ?_
  · intro q hq
    rcases List.mem_append.mp hq with hOld | hNew
    · exact h.requests q (hArrived.requests hOld)
    · apply hSent
      cases action with
      | addProposer => exact List.mem_of_mem_drop (List.mem_filter.mp hNew).1
      | _ => exact List.mem_of_mem_drop hNew
  · rw [← hArrived.decided]
    exact List.subset_append_left _ _

variable [DecidableEq Id]

/-- An iteration of a proposer whose reads have their sources. -/
theorem proposer (h : Told cfg asked s) (hArrived : Arrived s u) {ip : IPString}
    {a : Proposer.Action Conn Id} {p : Proposer.State Conn Id}
    (hReads : Proposer.Reads (sources cfg asked s) (u.proposers ip) a)
    (hRun : Proposer.step (u.proposers ip) a = some p) :
    Told cfg asked (u.putProposer cfg ip p) := by
  have hDecided : s.decided ⊆ (u.putProposer cfg ip p).decided := by
    rw [← hArrived.decided]
    exact List.subset_append_left _ _
  have hSame : u.proposers ip = s.proposers ip := by rw [hArrived.proposers]
  have hGrow {l : Proposer.Ledger Conn} (hOld : Sourced (sources cfg asked s) l) :
      Sourced (sources cfg asked (u.putProposer cfg ip p)) l :=
    hOld.mono (fun _ => id) fun name rp hLearned hName =>
      (hLearned hName).imp fun _ hMem => hDecided hMem
  have hNamed : WellNamed (u.proposers ip).ledger := hSame ▸ h.named ip
  have hSourced : Sourced (sources cfg asked s) (u.proposers ip).ledger := hSame ▸ h.sourced ip
  have hOther {ip' : IPString} (hNe : ip' ≠ ip) :
      (u.putProposer cfg ip p).proposers ip' = s.proposers ip' := by
    rw [← hArrived.proposers]
    exact Function.update_of_ne hNe _ _
  have hOwn : (u.putProposer cfg ip p).proposers ip = p := Function.update_self ..
  constructor
  · intro q hq
    exact h.sent q (hArrived.requestor ▸ hq)
  · exact fun q hq => h.requests q (hArrived.requests hq)
  · intro ip'
    by_cases hIP : ip' = ip
    · rw [hIP, hOwn]
      exact wellNamed_step hNamed hRun
    · rw [hOther hIP]
      exact h.named ip'
  · intro ip'
    by_cases hIP : ip' = ip
    · rw [hIP, hOwn]
      exact hGrow (hSourced.step hNamed hReads hRun)
    · rw [hOther hIP]
      exact hGrow (h.sourced ip')
  · intro ip' rp stored hMem
    by_cases hIP : ip' = ip
    · rw [hIP, hOwn] at hMem
      obtain ⟨new, hTrace⟩ := Proposer.step_trace hRun
      rw [hIP]
      rw [hTrace] at hMem
      rcases List.mem_append.mp hMem with hOld | hNew
      · rw [hSame] at hOld
        exact hDecided (h.carried ip rp stored hOld)
      · refine List.mem_append_right _ (List.mem_map_of_mem ?_)
        rw [hTrace, List.drop_left]
        exact List.mem_filterMap.mpr ⟨_, hNew, if_pos rfl⟩
    · rw [hOther hIP] at hMem
      exact hDecided (h.carried ip' rp stored hMem)

end Told

/-- What a proposer reads about the service was sent by the requestor, or is a
packet of a machine. -/
theorem dialled_reads {t : Machines} {asked : IPString → UInt32 → Prop}
    (h : Told cfg asked s) (hAnnounced : Announced t) (hView : View cfg t s) {ip : IPString}
    {a : Proposer.Action Conn Id} (hFrom : From cfg asked s (.proposer ip a)) (number : Nat)
    (hArrive : s.arrive cfg (.proposer ip a : Action Id).arrival = some u) :
    Proposer.Reads (sources cfg asked s) (u.proposers ip) (dialProposer number a) := by
  cases a with
  | request fromip r o =>
      intro hName
      rcases arrive_cases hArrive with ⟨_, hOther⟩ | ⟨arrival, hArrival, _, hTaken⟩
      · exact absurd hName (hOther _ rfl)
      · cases hArrival
        obtain ⟨hIP, hPort⟩ := h.requests _ (read_request hTaken).1
        have hAsked := hFrom.2 ip fromip r o rfl hName
        have hEmpty : r.brokerip.bytes = [] := congrArg CString.bytes hIP
        dsimp only
        rw [if_pos hEmpty, show r.brokerport = cfg.brokerport from hPort]
        exact hAsked
  | ready sfd input o =>
      intro m hMessage rp hBody hName
      have hInput := paxosMessage_message hMessage
      rcases arrive_cases hArrive with ⟨_, hOther⟩ | ⟨arrival, hArrival, _, hTaken⟩
      · refine absurd hName (hOther (.toOwner (some ip) sfd m) ?_)
        simp [Action.arrival, hInput]
      · simp only [Action.arrival, hInput, Option.map_some, Option.some.injEq] at hArrival
        cases hArrival
        have hPacket := (read_toOwner hTaken).1
        rw [← hView.network] at hPacket
        obtain ⟨d, hMem, hProposal⟩ := hAnnounced.packet _ hPacket rp hBody
        refine ⟨d.owner, ?_⟩
        rw [← hView.decided, ← hProposal]
        exact List.mem_map_of_mem hMem
  | _ => trivial

variable [DecidableEq Id]

/-- Every allowed step is matched by the machines. -/
theorem View.advance {t : Machines} {b : Council} (hInv : Inv cfg.servicename t b)
    (h : View cfg t s) {action : Action Id} (hOk : Allowed cfg s action)
    (hStep : step cfg s action = some v) :
    ∃ t', Reaches cfg.servicename t t' ∧ View cfg t' v := by
  cases action with
  | requestor action => exact h.requestor_step hInv hOk hStep
  | proposer ip action => exact h.proposer_step hInv hStep
  | acceptor ip event => exact h.acceptor_step hOk hStep

theorem Told.step {t : Machines} {asked : IPString → UInt32 → Prop} (h : Told cfg asked s)
    (hAnnounced : Announced t) (hView : View cfg t s) {action : Action Id}
    (hFrom : From cfg asked s action) (hStep : Cluster.step cfg s action = some v) :
    Told cfg asked v := by
  obtain ⟨u, hArrive, hIterate⟩ := Option.bind_eq_some_iff.mp hStep
  have hArrived := arrive_arrived hArrive
  cases action with
  | requestor action =>
      obtain ⟨r, hRun, rfl⟩ := Option.map_eq_some_iff.mp hIterate
      exact h.requestor hArrived hRun
  | proposer ip action =>
      obtain ⟨p, hRun, rfl⟩ := Option.map_eq_some_iff.mp hIterate
      exact h.proposer hArrived (dialled_reads h hAnnounced hView hFrom u.opened hArrive) hRun
  | acceptor ip event =>
      obtain ⟨a, hRun, rfl⟩ := Option.map_eq_some_iff.mp hIterate
      exact h.keep hArrived.proposers (fun q hq => h.sent q (hArrived.requestor ▸ hq))
        (fun q hq => h.requests q (hArrived.requests hq)) (hArrived.decided ▸ List.Subset.refl _)

omit [DecidableEq Id] in
/-- At most one recovery is committed. -/
theorem recoveries_length_le {t : Machines} {b : Council} (hInv : Inv cfg.servicename t b)
    (hView : View cfg t s) : (s.decidedOf .recoveryProposal).length ≤ 1 := by
  have hCount := hInv.succession.last_length
  rw [← List.countP_eq_length_filter, hInv.decided, List.countP_map] at hCount
  rw [State.decidedOf, ← List.countP_eq_length_filter, ← hView.decided, List.countP_map]
  refine Nat.le_trans (List.countP_mono_left ?_) hCount
  intro d _ hRecovery
  exact Option.isNone_iff_eq_none.mpr (Decision.recovery_election (of_decide_eq_true hRecovery))

/-- The one recovery of the service. -/
def State.RecoveredBy (s : State Id) (rp : RecoveryProposal) : Prop :=
  (s.decidedOf .recoveryProposal).map Prod.snd = [.recoveryProposal rp]

omit [DecidableEq Id] in
theorem recoveredBy_of_decided {t : Machines} {b : Council} (hInv : Inv cfg.servicename t b)
    (hView : View cfg t s) {x : Owner} {rp : RecoveryProposal}
    (hDecided : (x, .recoveryProposal rp) ∈ s.decided) : s.RecoveredBy rp := by
  have hMem : (x, .recoveryProposal rp) ∈ s.decidedOf .recoveryProposal :=
    List.mem_filter.mpr ⟨hDecided, rfl⟩
  have hLength := recoveries_length_le hInv hView
  unfold State.RecoveredBy
  cases hList : s.decidedOf .recoveryProposal with
  | nil =>
      rw [hList] at hMem
      cases hMem
  | cons d rest =>
      rw [hList] at hMem hLength
      have hRest : rest = [] := List.length_eq_zero_iff.mp (by simpa using hLength)
      subst hRest
      rw [← List.mem_singleton.mp hMem]
      rfl

end Processes

end Cluster

end QpidRecovery
