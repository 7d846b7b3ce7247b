import QpidRecovery.Requestor.Membership
import Mathlib.Data.List.Perm.Basic

/-! Acceptors whose loss was detected are not proposed again, unless a list
that was proposed before the loss is committed after it. -/
namespace QpidRecovery.Requestor

open Transition

variable {Fd : Type} [DecidableEq Fd] {cfg : Config}

/-- The acceptors whose loss an iteration detects. -/
def detectedLost (s : State Fd) : Action Fd → List IPString
  | .timeout =>
      copyIPArray (s.acceptors.filter (HeartbeatClient.isExpired s.now (HEARTBEAT_PERIOD * 2)))
  | .ready sfd false _ _ =>
      match receiver sfd s.proposers, receiver sfd s.acceptors with
      | none, some i => copyIPArray s.acceptors[i]?.toList
      | _, _ => []
  | _ => []

/-- The process with every address that was ever an acceptor and every
acceptor whose loss was detected. -/
structure History (Fd : Type) where
  process : State Fd
  appointed : List IPString
  lost : List IPString

namespace History

def step (cfg : Config) (h : History Fd) (action : Action Fd) : Option (History Fd) :=
  (Requestor.step cfg h.process action).map fun t =>
    ⟨t, h.appointed ++ copyIPArray t.acceptors, h.lost ++ detectedLost h.process action⟩

def init (cfg : Config) (start : Time) (querysfd : Fd) (landmark : Option (IPString × Fd))
    (acceptorIPs proposerIPs : List IPString) : History Fd :=
  ⟨State.init cfg start querysfd landmark acceptorIPs proposerIPs, [], []⟩

end History

/-- The list of a new acceptor change. -/
def ProposesNew (cfg : Config) (s : State Fd) (acc : List IPString) : Prop :=
  s.mustChange = true ∧ ∃ rest, newAcceptors cfg s = some (acc, rest)

/-- The expected number of distinct addresses, among them every acceptor that
was not lost and none that was. -/
structure ReplacesLost (cfg : Config) (h : History Fd) (acc : List IPString) : Prop where
  size : acc.length = cfg.expectedAcceptors
  distinct : acc.Nodup
  keeps : ∀ ip ∈ h.appointed, ip ∉ h.lost → ip ∈ acc
  drops : ∀ ip ∈ h.lost, ip ∉ acc

/-- The message completes the majority for a list that contains an acceptor
lost since. -/
def Reinstalls (h : History Fd) : Action Fd → Prop
  | .ready sfd _ (some m) _ =>
      receiver sfd h.process.proposers = none ∧ receiver sfd h.process.acceptors = none ∧
        (h.process.psm.handleMessage h.process.now sfd m).result = .committingSelf ∧
        ∃ v l, h.process.psm.proposal = .acceptorChangeProposal ⟨v, l⟩ ∧ ∃ ip ∈ l, ip ∈ h.lost
  | _ => False

/-- A list that may replace the acceptors while the addresses in `fresh` have
not been handed out. -/
structure Candidate (cfg : Config) (acceptors fresh l : List IPString) : Prop where
  size : l.length = cfg.expectedAcceptors
  distinct : l.Nodup
  keeps : ∀ ip ∈ acceptors, ip ∈ l
  used : ∀ ip ∈ l, ip ∉ fresh

structure HistoryInv (cfg : Config) (h : History Fd) : Prop where
  distinct : (copyIPArray h.process.acceptors).Nodup
  live : ∀ ip, ip ∈ copyIPArray h.process.acceptors ↔ ip ∈ h.appointed ∧ ip ∉ h.lost
  known : ∀ ip ∈ h.lost, ip ∈ h.appointed
  fresh : h.process.acceptorIPs.Nodup
  unused : ∀ ip ∈ h.appointed, ip ∉ h.process.acceptorIPs
  proposes : Proposes
    (Candidate cfg (copyIPArray h.process.acceptors) h.process.acceptorIPs) h.process.psm

section Lists

/-- What is left of a list without repetitions when some of it is dropped. -/
theorem mem_kept_iff {α : Type} {l kept dropped : List α} (hPerm : l.Perm (kept ++ dropped))
    (hNodup : l.Nodup) (x : α) : x ∈ kept ↔ x ∈ l ∧ x ∉ dropped := by
  have hApart := List.nodup_append.mp (hPerm.nodup_iff.mp hNodup)
  rw [hPerm.mem_iff, List.mem_append]
  constructor
  · exact fun h => ⟨.inl h, fun hDropped => hApart.2.2 x h x hDropped rfl⟩
  · rintro ⟨h | h, hKept⟩
    · exact h
    · exact absurd h hKept

theorem eraseIdx_perm {α : Type} (l : List α) (i : Nat) :
    l.Perm (l.eraseIdx i ++ l[i]?.toList) := by
  by_cases hBound : i < l.length
  · rw [List.getElem?_eq_getElem hBound]
    exact (List.getElem_cons_eraseIdx_perm hBound).symm.trans
      (List.perm_append_singleton _ _).symm
  · rw [List.getElem?_eq_none (Nat.not_lt.mp hBound), List.eraseIdx_of_length_le (Nat.not_lt.mp hBound)]
    exact List.Perm.of_eq (List.append_nil l).symm

omit [DecidableEq Fd] in
theorem newAcceptors_candidate {s : State Fd} {acc rest : List IPString}
    (hDistinct : (copyIPArray s.acceptors).Nodup) (hFresh : s.acceptorIPs.Nodup)
    (hUnused : ∀ ip ∈ copyIPArray s.acceptors, ip ∉ s.acceptorIPs)
    (h : newAcceptors cfg s = some (acc, rest)) :
    Candidate cfg (copyIPArray s.acceptors) rest acc ∧
      (∀ ip ∈ acc, ip ∈ copyIPArray s.acceptors ∨ ip ∈ s.acceptorIPs) ∧
      rest.Sublist s.acceptorIPs := by
  have hSize := newAcceptors_length h
  unfold newAcceptors at h
  dsimp only at h
  split at h
  · cases h
    refine ⟨⟨hSize, ?_, fun ip hip => List.mem_append_left _ hip, ?_⟩, ?_, List.drop_sublist _ _⟩
    · refine List.nodup_append.mpr ⟨hDistinct, hFresh.sublist (List.take_sublist _ _), ?_⟩
      rintro ip hip _ hNew rfl
      exact hUnused ip hip (List.mem_of_mem_take hNew)
    · intro ip hip hRest
      rcases List.mem_append.mp hip with hOld | hNew
      · exact hUnused ip hOld (List.mem_of_mem_drop hRest)
      · exact List.disjoint_take_drop hFresh (Nat.le_refl _) hNew hRest
    · intro ip hip
      exact (List.mem_append.mp hip).imp id List.mem_of_mem_take
  · cases h

omit [DecidableEq Fd] in
theorem newAcceptors_full {s : State Fd} (h : s.acceptors.length = cfg.expectedAcceptors) :
    newAcceptors cfg s = some (copyIPArray s.acceptors, s.acceptorIPs) := by
  simp [newAcceptors, h]

end Lists

section Step

theorem historyInv_init (start : Time) (querysfd : Fd) (landmark : Option (IPString × Fd))
    {acceptorIPs : List IPString} (hDistinct : acceptorIPs.Nodup) (proposerIPs : List IPString) :
    HistoryInv cfg (History.init cfg start querysfd landmark acceptorIPs proposerIPs) where
  distinct := List.nodup_nil
  live := fun ip => by simp [History.init, State.init, copyIPArray]
  known := by simp [History.init]
  fresh := hDistinct
  unused := by simp [History.init]
  proposes := by
    rintro (h | h)
    · cases h
    · cases h

omit [DecidableEq Fd] in
/-- An iteration that at most drops acceptors, each of them as lost. -/
theorem HistoryInv.dropped {h : History Fd} {t : State Fd} {dropped : List IPString}
    (hInv : HistoryInv cfg h)
    (hPerm : (copyIPArray h.process.acceptors).Perm (copyIPArray t.acceptors ++ dropped))
    (hPsm : t.psm = h.process.psm) (hAddresses : t.acceptorIPs = h.process.acceptorIPs) :
    HistoryInv cfg ⟨t, h.appointed ++ copyIPArray t.acceptors, h.lost ++ dropped⟩ := by
  have hKept := mem_kept_iff hPerm hInv.distinct
  have hStill (ip : IPString) (hip : ip ∈ copyIPArray t.acceptors) :
      ip ∈ copyIPArray h.process.acceptors := ((hKept ip).mp hip).1
  have hAppointed (ip : IPString) (hip : ip ∈ h.appointed ++ copyIPArray t.acceptors) :
      ip ∈ h.appointed :=
    (List.mem_append.mp hip).elim id fun hNew => ((hInv.live ip).mp (hStill ip hNew)).1
  refine ⟨(List.nodup_append.mp (hPerm.nodup_iff.mp hInv.distinct)).1, ?_, ?_, ?_, ?_, ?_⟩
  · intro ip
    dsimp only
    rw [hKept, hInv.live]
    constructor
    · rintro ⟨⟨hOnce, hThere⟩, hNow⟩
      exact ⟨List.mem_append_left _ hOnce, fun hLost => (List.mem_append.mp hLost).elim hThere hNow⟩
    · rintro ⟨hOnce, hLost⟩
      exact ⟨⟨hAppointed ip hOnce, fun hBefore => hLost (List.mem_append_left _ hBefore)⟩,
        fun hNow => hLost (List.mem_append_right _ hNow)⟩
  · intro ip hip
    refine List.mem_append_left _ ?_
    rcases List.mem_append.mp hip with hBefore | hNow
    · exact hInv.known ip hBefore
    · exact ((hInv.live ip).mp (hPerm.mem_iff.mpr (List.mem_append_right _ hNow))).1
  · rw [hAddresses]
    exact hInv.fresh
  · rw [hAddresses]
    exact fun ip hip => hInv.unused ip (hAppointed ip hip)
  · rw [hAddresses, hPsm]
    intro hPhase
    obtain ⟨v, l, hProposal, hCandidate⟩ := hInv.proposes hPhase
    exact ⟨v, l, hProposal, hCandidate.size, hCandidate.distinct,
      fun ip hip => hCandidate.keeps ip (hStill ip hip), hCandidate.used⟩

omit [DecidableEq Fd] in
/-- An iteration that leaves the acceptors alone and may hand out addresses. -/
theorem HistoryInv.kept {h : History Fd} {t : State Fd} (hInv : HistoryInv cfg h)
    (hAcceptors : copyIPArray t.acceptors = copyIPArray h.process.acceptors)
    (hAddresses : t.acceptorIPs.Sublist h.process.acceptorIPs)
    (hProposes : Proposes
      (Candidate cfg (copyIPArray h.process.acceptors) t.acceptorIPs) t.psm) :
    HistoryInv cfg ⟨t, h.appointed ++ copyIPArray t.acceptors, h.lost ++ []⟩ := by
  have hAppointed (ip : IPString) :
      ip ∈ h.appointed ++ copyIPArray h.process.acceptors ↔ ip ∈ h.appointed := by
    rw [List.mem_append]
    exact ⟨fun hip => hip.elim id fun hNew => ((hInv.live ip).mp hNew).1, .inl⟩
  rw [hAcceptors, List.append_nil]
  refine ⟨?_, ?_, ?_, hInv.fresh.sublist hAddresses, ?_, ?_⟩
  · rw [hAcceptors]
    exact hInv.distinct
  · intro ip
    rw [hAcceptors, hAppointed]
    exact hInv.live ip
  · exact fun ip hip => List.mem_append_left _ (hInv.known ip hip)
  · intro ip hip hFresh
    exact hInv.unused ip ((hAppointed ip).mp hip) (hAddresses.subset hFresh)
  · rw [hAcceptors]
    exact hProposes

omit [DecidableEq Fd] in
/-- The installation of a list without lost acceptors. -/
theorem HistoryInv.installed {h : History Fd} {s' t : State Fd} {o : Outcomes Fd}
    {ap : AcceptorChangeProposal} (hInv : HistoryInv cfg h)
    (hInstalled : Installed cfg o ap s' t)
    (hAddresses : s'.acceptorIPs.Sublist h.process.acceptorIPs)
    (hCandidate : Candidate cfg (copyIPArray h.process.acceptors) s'.acceptorIPs ap.acceptor)
    (hPresent : ∀ ip ∈ ap.acceptor, ip ∉ h.lost) :
    HistoryInv cfg ⟨t, h.appointed ++ copyIPArray t.acceptors, h.lost ++ []⟩ := by
  rw [List.append_nil]
  refine ⟨?_, ?_, ?_, ?_, ?_, ?_⟩
  · rw [hInstalled.acceptors]
    exact hCandidate.distinct
  · intro ip
    rw [hInstalled.acceptors, List.mem_append]
    constructor
    · exact fun hip => ⟨.inr hip, hPresent ip hip⟩
    · rintro ⟨hOnce | hNew, hThere⟩
      · exact hCandidate.keeps ip ((hInv.live ip).mpr ⟨hOnce, hThere⟩)
      · exact hNew
  · exact fun ip hip => List.mem_append_left _ (hInv.known ip hip)
  · rw [hInstalled.addresses]
    exact hInv.fresh.sublist hAddresses
  · rw [hInstalled.addresses, hInstalled.acceptors]
    intro ip hip hFresh
    rcases List.mem_append.mp hip with hOld | hNew
    · exact hInv.unused ip hOld (hAddresses.subset hFresh)
    · exact hCandidate.used ip hNew hFresh
  · rw [hInstalled.psm]
    rintro (hPhase | hPhase)
    · cases hPhase
    · cases hPhase

omit [DecidableEq Fd] in
theorem HistoryInv.candidate {h : History Fd} {acc rest : List IPString} (hInv : HistoryInv cfg h)
    (hList : newAcceptors cfg h.process = some (acc, rest)) :
    Candidate cfg (copyIPArray h.process.acceptors) rest acc ∧ ReplacesLost cfg h acc ∧
      rest.Sublist h.process.acceptorIPs := by
  obtain ⟨hCandidate, hFrom, hRest⟩ := newAcceptors_candidate hInv.distinct hInv.fresh
    (fun ip hip => hInv.unused ip ((hInv.live ip).mp hip).1) hList
  refine ⟨hCandidate, ⟨hCandidate.size, hCandidate.distinct, ?_, ?_⟩, hRest⟩
  · exact fun ip hOnce hThere => hCandidate.keeps ip ((hInv.live ip).mpr ⟨hOnce, hThere⟩)
  · intro ip hLost hip
    rcases hFrom ip hip with hOld | hNew
    · exact ((hInv.live ip).mp hOld).2 hLost
    · exact hInv.unused ip (hInv.known ip hLost) hNew

/-- An iteration that drops no acceptor detects no loss. -/
theorem detectedLost_idle {s : State Fd} {action : Action Fd}
    (hLoss : ∀ sfd message o, action = .ready sfd false message o →
      receiver sfd s.proposers = none → receiver sfd s.acceptors = none)
    (hTimeout : action ≠ .timeout) : detectedLost s action = [] := by
  unfold detectedLost
  split
  · exact absurd rfl hTimeout
  next sfd message o =>
    split
    next i hProposers hAcceptor =>
      rw [hLoss sfd message o rfl hProposers] at hAcceptor
      cases hAcceptor
    · rfl
  · rfl

theorem HistoryInv.step {h g : History Fd} {action : Action Fd} (hInv : HistoryInv cfg h)
    (hOk : ¬ Reinstalls h action) (hStep : History.step cfg h action = some g) :
    HistoryInv cfg g := by
  obtain ⟨t, hNext, rfl⟩ := Option.map_eq_some_iff.mp hStep
  cases step_iteration hNext with
  | idle hSame hLoss hTimeout =>
      rw [detectedLost_idle hLoss hTimeout]
      refine hInv.kept hSame.acceptors ?_ ?_
      · rw [hSame.addresses]
      · rw [hSame.psm, hSame.addresses]
        exact hInv.proposes
  | lost i sfd message o hProposers hAcceptor hErased hNeed hPsm hVersion hChanging hAddresses =>
      refine hInv.dropped ?_ hPsm hAddresses
      simp only [detectedLost, hProposers, hAcceptor, hErased, copyIPArray]
      rw [← List.map_append]
      exact (eraseIdx_perm _ i).map _
  | expired hIdle hErased hNeed hPsm hVersion hChanging hAddresses =>
      refine hInv.dropped ?_ hPsm hAddresses
      simp only [detectedLost, hErased, copyIPArray]
      rw [← List.map_append]
      exact ((List.filter_append_perm _ _).symm.trans List.perm_append_comm).map _
  | called hCall hCommit =>
      cases hCall with
      | proposed acc rest hDue hList =>
          obtain ⟨hCandidate, hReplaces, hRest⟩ := hInv.candidate hList
          rcases proposed_cases (Q := fun l => Candidate cfg (copyIPArray h.process.acceptors) rest l ∧
              ∀ ip ∈ l, ip ∉ h.lost)
              ⟨hCandidate, fun ip hip hLost => hReplaces.drops ip hLost hip⟩ hCommit with
            ⟨rfl, _, hProposes⟩ | ⟨ap, ⟨hNew, hPresent⟩, hInstalled, _⟩
          · refine hInv.kept rfl hRest fun hPhase => ?_
            obtain ⟨v, l, hProposal, hNew, _⟩ := hProposes hPhase
            exact ⟨v, l, hProposal, hNew⟩
          · exact hInv.installed hInstalled hRest hNew hPresent
      | received sfd heartbeat m hProposers hAcceptors =>
          have hNone (o : Outcomes Fd) :
              detectedLost h.process (.ready sfd heartbeat (some m) o) = [] :=
            detectedLost_idle (by rintro _ _ _ ⟨⟩ _; exact hAcceptors) (by simp)
          rw [hNone]
          have hPending : Proposes (fun l => Candidate cfg (copyIPArray h.process.acceptors)
              h.process.acceptorIPs l ∧
                ((h.process.psm.handleMessage h.process.now sfd m).result = .committingSelf →
                  ∀ ip ∈ l, ip ∉ h.lost)) h.process.psm := by
            intro hPhase
            obtain ⟨v, l, hProposal, hNew⟩ := hInv.proposes hPhase
            refine ⟨v, l, hProposal, hNew, fun hResult ip hip hLost => ?_⟩
            exact hOk ⟨hProposers, hAcceptors, hResult, v, l, hProposal, ip, hip, hLost⟩
          rcases received_cases hPending hCommit with ⟨rfl, _, hProposes⟩ |
            ⟨p, _, _, hDone, hAdopted⟩ | ⟨ap, hResult, ⟨hNew, hPresent⟩, hInstalled, _⟩
          · refine hInv.kept rfl (List.Sublist.refl _) fun hPhase => ?_
            obtain ⟨v, l, hProposal, hNew, _⟩ := hProposes hPhase
            exact ⟨v, l, hProposal, hNew⟩
          · refine hInv.kept (by rw [hAdopted.acceptors]; rfl) ?_ ?_
            · rw [hAdopted.addresses]
              exact List.Sublist.refl _
            · rw [hAdopted.psm]
              intro hPhase
              simp [State.react, hDone] at hPhase
          · exact hInv.installed hInstalled (List.Sublist.refl _) hNew (hPresent hResult)

/-- A list installed with a lost acceptor is where the next change starts. -/
theorem HistoryInv.reinstalls {h g : History Fd} {action : Action Fd} (hInv : HistoryInv cfg h)
    (hBad : Reinstalls h action) (hStep : History.step cfg h action = some g) :
    ∃ acc rest, newAcceptors cfg g.process = some (acc, rest) ∧ ∃ ip ∈ acc, ip ∈ g.lost := by
  obtain ⟨t, hNext, rfl⟩ := Option.map_eq_some_iff.mp hStep
  cases action with
  | ready sfd heartbeat message o =>
      cases message with
      | none => cases hBad
      | some m =>
          obtain ⟨hProposers, hAcceptors, hResult, v, l, hProposal, ip, hip, hLost⟩ := hBad
          obtain ⟨hPhase, hCommitting⟩ := handleMessage_commits hResult
          obtain ⟨v', l', hSame, hCandidate⟩ := hInv.proposes hPhase
          rw [hProposal] at hSame hCommitting
          cases hSame
          obtain ⟨returned, hCommit⟩ := step_received hNext hProposers hAcceptors
          rw [hResult] at hCommit
          have hInstalled := (handleCommit_self ⟨v, l⟩ hCommitting hCommit).1
          have hInstalledList : copyIPArray t.acceptors = l := hInstalled.acceptors
          have hFull : t.acceptors.length = cfg.expectedAcceptors := by
            rw [← hCandidate.size, ← hInstalledList, copyIPArray, List.length_map]
          refine ⟨_, _, newAcceptors_full hFull, ip, ?_, List.mem_append_left _ hLost⟩
          rw [hInstalledList]
          exact hip
  | _ => cases hBad

end Step

/-- A run in which no list is committed with an acceptor lost since it was
proposed. Every new list replaces exactly the lost acceptors, and such a commit
leaves the process with a lost acceptor to propose next. -/
theorem lost_not_proposed (cfg : Config) (start : Time) (querysfd : Fd)
    (landmark : Option (IPString × Fd)) (acceptorIPs proposerIPs : List IPString)
    (hDistinct : acceptorIPs.Nodup) (h : History Fd)
    (run : Run (History.step cfg) (fun h action => ¬ Reinstalls h action)
      (History.init cfg start querysfd landmark acceptorIPs proposerIPs) h) :
    (∀ acc, ProposesNew cfg h.process acc → ReplacesLost cfg h acc) ∧
      ∀ action g, Reinstalls h action → History.step cfg h action = some g →
        ∃ acc rest, newAcceptors cfg g.process = some (acc, rest) ∧ ∃ ip ∈ acc, ip ∈ g.lost := by
  have hInv : HistoryInv cfg h :=
    run.invariant (historyInv_init start querysfd landmark hDistinct proposerIPs)
      fun _ _ _ hBefore hOk hStep => hBefore.step hOk hStep
  refine ⟨?_, fun action g hBad hStep => hInv.reinstalls hBad hStep⟩
  rintro acc ⟨_, rest, hList⟩
  exact (hInv.candidate hList).2.1

section ThreeAcceptors

/-- A requestor that wants three acceptors and no proposer. -/
def threeAcceptors : Config where
  servicename := brokerService
  brokerport := 5672
  expectedProposers := 0
  expectedAcceptors := 3
  proposersFit := by decide
  acceptorsFit := by decide

/-- The addresses `10.0.0.1` to `10.0.0.4`. -/
def hosts : List IPString :=
  [⟨[49, 48, 46, 48, 46, 48, 46, 49], by decide, by decide⟩,
    ⟨[49, 48, 46, 48, 46, 48, 46, 50], by decide, by decide⟩,
    ⟨[49, 48, 46, 48, 46, 48, 46, 51], by decide, by decide⟩,
    ⟨[49, 48, 46, 48, 46, 48, 46, 52], by decide, by decide⟩]

def History.start : History Nat := .init threeAcceptors 0 0 none hosts []

/-- Every connection succeeds. The new heartbeat clients get the descriptors
from `fd` on and the slots of the new machine those from `fd + 10` on. -/
def spread (fd : Nat) : Outcomes Nat where
  heartbeat := fun i => some (fd + i)
  request := fun _ => true
  paxos := fun i _ => some (fd + 10 + i)
  reply := fun _ => true

/-- The first acceptor is lost. -/
def loseFirst : List (Action Nat) :=
  [.addAcceptors (spread 10), .ready 10 false none (spread 30)]

/-- The second is lost as well, between its acknowledgement and the commit of
the list that it is part of. -/
def loseSecond : List (Action Nat) :=
  [.addAcceptors (spread 30),
    .ready 21 false (some ⟨2, brokerService, .phase1Ack⟩) (spread 30),
    .ready 22 false (some ⟨2, brokerService, .phase1Ack⟩) (spread 30),
    .ready 11 false none (spread 30),
    .ready 21 false (some ⟨2, brokerService, .phase2Ack⟩) (spread 30),
    .ready 22 false (some ⟨2, brokerService, .phase2Ack⟩) (spread 30)]

theorem lost_proposed_again :
    ¬ ∀ h, Run (History.step threeAcceptors) (fun _ _ => True) History.start h →
      ∀ acc, ProposesNew threeAcceptors h.process acc → ReplacesLost threeAcceptors h acc := by
  intro hAll
  have hExec : (exec (History.step threeAcceptors) History.start (loseFirst ++ loseSecond)).map
      (fun h => (h.process.mustChange, newAcceptors threeAcceptors h.process, h.lost)) =
      some (true, some (hosts.drop 1, []), hosts.take 2) := by
    decide
  obtain ⟨h, hh, hState⟩ := Option.map_eq_some_iff.mp hExec
  simp only [Prod.mk.injEq] at hState
  have hReplaces := hAll h (Run.of_exec (fun _ _ _ => trivial) hh) _ ⟨hState.1, _, hState.2.1⟩
  have hDropped : hosts[1] ∉ hosts.drop 1 := hReplaces.drops _ (by rw [hState.2.2]; decide)
  exact hDropped (by decide)

theorem lost_not_proposed_first : ∃ h : History Nat,
    ProposesNew threeAcceptors h.process (hosts.drop 1) ∧
      ReplacesLost threeAcceptors h (hosts.drop 1) := by
  have hExec : (exec (History.step threeAcceptors) History.start loseFirst).map
      (fun h => (h.process.mustChange, newAcceptors threeAcceptors h.process)) =
      some (true, some (hosts.drop 1, [])) := by
    decide
  obtain ⟨h, hh, hState⟩ := Option.map_eq_some_iff.mp hExec
  obtain ⟨hDue, hList⟩ := Prod.mk.inj hState
  have hRun : Run (History.step threeAcceptors) (fun h action => ¬ Reinstalls h action)
      History.start h := by
    refine Run.of_exec ?_ hh
    intro u action hMem
    simp only [loseFirst, List.mem_cons, List.not_mem_nil, or_false] at hMem
    rcases hMem with rfl | rfl
    · exact id
    · exact id
  have hNew : ProposesNew threeAcceptors h.process (hosts.drop 1) := ⟨hDue, _, hList⟩
  exact ⟨h, hNew, (lost_not_proposed threeAcceptors 0 0 none hosts [] (by decide) h hRun).1 _ hNew⟩

end ThreeAcceptors

end QpidRecovery.Requestor
