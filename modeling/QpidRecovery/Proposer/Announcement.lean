import QpidRecovery.Library.Trace
import QpidRecovery.Proposer.Refinement

/-! When the new address of a recovered broker is announced. The copy of its
objects has no say in it, so the order holds only while every backup answers. -/
namespace QpidRecovery.Proposer

open Trace

variable {Fd : Type}

/-- A `PHASE3COMMIT` with the proposal, or a reply with its backup. -/
def Announces (name : ServiceName) (rp : RecoveryProposal) : Output Fd → Prop
  | .effect (.send _ m) => m.name = name ∧ m.body = .phase3Commit (.recoveryProposal rp)
  | .inform _ r _ => r = ⟨name, rp.backupip, rp.backupport⟩
  | _ => False

/-- The backup was reached and told to create everything that was stored. -/
structure Recovered (rp : RecoveryProposal) (stored : List Operation) (t : List (Output Fd)) :
    Prop where
  contacted : .recovery (.contact (IPPortToUrl rp.backupip rp.backupport) 1) ∈ t
  created : ∀ o ∈ stored,
    .recovery (.create (IPPortToUrl rp.backupip rp.backupport) o) ∈ t

/-- Between a recovery proposal that the process committed itself and any
announcement of it, the stored exchanges and queues were created. -/
def AnnouncedAfterRecovery (t : List (Output Fd)) : Prop :=
  AfterEach (fun a after => ∀ name rp stored, a = .committed name rp .committingSelf stored →
    BeforeEach (fun between b => Announces name rp b → Recovered rp stored between) after) t

/-- Every backup that is contacted shows exactly one broker object. -/
def backupAnswers : Condition Fd where
  answered := fun reply => reply.brokerobjects = 1

/-- Everything committed so far was recovered, and announced only then. -/
def AllRecovered (t : List (Output Fd)) : Prop :=
  AfterEach (fun a after => ∀ name rp stored, a = .committed name rp .committingSelf stored →
    Recovered rp stored after ∧
      BeforeEach (fun between b => Announces name rp b → Recovered rp stored between) after) t

/-- A recovery stays one, whatever comes later. -/
theorem Recovered.append {rp : RecoveryProposal} {stored : List Operation} {t : List (Output Fd)}
    (h : Recovered rp stored t) (new : List (Output Fd)) : Recovered rp stored (t ++ new) where
  contacted := List.mem_append_left _ h.contacted
  created := fun o ho => List.mem_append_left _ (h.created o ho)

/-- What was recovered is announced behind its recovery. -/
theorem AllRecovered.announced {t : List (Output Fd)} (h : AllRecovered t) :
    AnnouncedAfterRecovery t :=
  h.mono fun _ _ hBoth name rp stored hCommitted => (hBoth name rp stored hCommitted).2

/-- What was recovered may be announced in any later block. -/
theorem AllRecovered.append {t new : List (Output Fd)} (h : AllRecovered t)
    (hNew : AllRecovered new) : AllRecovered (t ++ new) := by
  refine AfterEach.append h ?_ hNew
  intro a after _ hAfter name rp stored hCommitted
  obtain ⟨hRecovered, hOrder⟩ := hAfter name rp stored hCommitted
  refine ⟨hRecovered.append new, hOrder.append ?_⟩
  exact beforeEach_of_forall fun _ _ between _ => hRecovered.append between

/-- Where nothing is marked, nothing was left out. -/
theorem allRecovered_of_quiet {new : List (Output Fd)} (hQuiet : ∀ e ∈ new, ¬ e.Marks) :
    AllRecovered new := by
  apply afterEach_of_forall
  intro a ha _ name rp stored hCommitted
  subst hCommitted
  exact absurd trivial (hQuiet _ ha)

/-- The calls on the backup come before everything else that a commit does. -/
theorem allRecovered_commit {name : ServiceName} {rp : RecoveryProposal} {stored : List Operation}
    {calls : List RecoveryCall} {rest : List (Output Fd)}
    (hContact : .contact (IPPortToUrl rp.backupip rp.backupport) 1 ∈ calls)
    (hCreated : ∀ o ∈ stored, .create (IPPortToUrl rp.backupip rp.backupport) o ∈ calls)
    (hQuiet : ∀ e ∈ rest, ¬ e.Marks) :
    AllRecovered (.committed name rp .committingSelf stored :: (calls.map .recovery ++ rest)) := by
  have hRecovered : Recovered rp stored (calls.map .recovery : List (Output Fd)) :=
    ⟨List.mem_map_of_mem hContact, fun o ho => List.mem_map_of_mem (hCreated o ho)⟩
  refine AfterEach.cons ?_ ((allRecovered_of_quiet (calls_quiet calls)).append
    (allRecovered_of_quiet hQuiet))
  intro name' rp' stored' hCommitted
  cases hCommitted
  refine ⟨hRecovered.append rest, BeforeEach.append ?_ ?_⟩
  · apply beforeEach_of_forall
    intro b hb _ hAnnounces
    obtain ⟨call, _, rfl⟩ := List.mem_map.mp hb
    cases hAnnounces
  · exact beforeEach_of_forall fun _ _ between _ => hRecovered.append between

section Moves
variable {Id : Type} [DecidableEq Id]

/-- A change of a record recovers before it announces. -/
theorem Change.allRecovered {mon mon' : Monitored Fd} {new : List (Output Fd)}
    (h : Change Id backupAnswers mon mon' new) : AllRecovered new := by
  cases h with
  | beat => exact AfterEach.nil
  | timeout => exact AfterEach.nil
  | message => exact allRecovered_of_quiet (effects_quiet _)
  | inform written => exact allRecovered_of_quiet (informs_quiet _ _ _)
  | subscribe newsfd =>
      apply afterEach_of_forall
      intro a ha _ name rp stored hCommitted
      subst hCommitted
      simp at ha
  | propose => exact allRecovered_of_quiet (effects_quiet _)
  | commitSelf now rp rm reply calls returned written hOk hReady hProposal hCopied =>
      obtain ⟨hContact, hCreated⟩ := RecoveryManager.copyObjects_creates hOk hCopied
      rw [List.append_assoc]
      refine allRecovered_commit hContact hCreated ?_
      intro e he
      rcases List.mem_append.mp he with hEffect | hInform
      · exact effects_quiet _ e hEffect
      · exact informs_quiet _ _ _ e hInform
  | commitOther rp stored written =>
      refine AfterEach.cons ?_ (allRecovered_of_quiet (informs_quiet _ _ _))
      intro name' rp' stored' hCommitted
      cases hCommitted
  | commitAcceptors now r connect ap =>
      refine AfterEach.cons ?_ (allRecovered_of_quiet (effects_quiet _))
      intro name' rp' stored' hCommitted
      cases hCommitted

/-- So does a move of the process. -/
theorem Move.allRecovered {l l' : Ledger Fd} (h : AllRecovered l.trace)
    (hMove : Move Id backupAnswers l l') : AllRecovered l'.trace := by
  cases hMove with
  | quiet new hSilent => exact h.append (allRecovered_of_quiet fun e he => (hSilent e he).1)
  | change j hMon hChange => exact h.append hChange.allRecovered
  | replace mon' new _ _ _ _ _ hSilent =>
      exact h.append (allRecovered_of_quiet fun e he => (hSilent e he).1)

variable [DecidableEq Fd]

/-- Announcements follow the recovery in every run whose backups answer. -/
theorem announced_after_recovery (start : Time) (recoveryfd requestsfd querysfd : Option Fd)
    (backupbrokers : List Text) (s : State Fd Id)
    (run : Transition.Run step (Permits backupAnswers)
      (State.init start recoveryfd requestsfd querysfd backupbrokers) s) :
    AnnouncedAfterRecovery s.trace := by
  have hAll : AllRecovered s.ledger.trace :=
    run_invariant (P := fun l => AllRecovered l.trace) run AfterEach.nil
      fun _ _ h hMove => Move.allRecovered h hMove
  exact hAll.announced

end Moves

section OneBroker

/-- The queue `q` of the broker, which is lost with it. -/
def storedQueue : QueueInfo Nat where
  objectid := 0
  brokerurl := IPPortToUrl localhost 5672
  name := [113]

/-- The broker is lost, and its backup shows so many broker objects when the
proposal is committed. -/
def loseBroker (brokerobjects : Nat) : List (Action Nat Nat) :=
  [watchBroker 1, .query 20 brokerService (allConnected 1),
    .event (.objectProperty (.queue storedQueue)) (allConnected 1),
    .ready 10 .failed (allConnected brokerobjects),
    .ready 11 (.received ⟨2, brokerService, .phase1Ack⟩) (allConnected brokerobjects),
    .ready 11 (.received ⟨2, brokerService, .phase2Ack⟩) (allConnected brokerobjects)]

theorem announced_without_recovery :
    ¬ ∀ s : State Nat Nat, Transition.Run step (fun _ _ => True) oneBackup s →
      AnnouncedAfterRecovery s.trace := by
  intro h
  have hExec : (Transition.exec step oneBackup (loseBroker 0)).map (fun s => s.trace.drop 5) =
      some [.committed brokerService (moveToBackup 2) .committingSelf [.addQueue [113]],
        .recovery (.contact (IPPortToUrl localhost 5673) 0),
        .effect (.send 11 ⟨2, brokerService, .phase3Commit (.recoveryProposal (moveToBackup 2))⟩),
        .effect (.unregisterFD 11), .effect (.close 11),
        .inform 20 ⟨brokerService, localhost, 5673⟩ true] := by
    decide
  obtain ⟨s, hs, hTrace⟩ := Option.map_eq_some_iff.mp hExec
  have hAnnounced := h s (Transition.Run.of_exec (fun _ _ _ => trivial) hs)
  have hSplit := (List.take_append_drop 5 s.trace).symm
  rw [hTrace] at hSplit
  have hRecovered := hAnnounced _ _ _ hSplit _ _ _ rfl [_] _ _ rfl ⟨rfl, rfl⟩
  simpa using hRecovered.created (.addQueue [113]) (List.mem_singleton_self _)

theorem announced_after_recovery_oneBackup :
    ∃ s : State Nat Nat, .inform 20 ⟨brokerService, localhost, 5673⟩ true ∈ s.trace ∧
      AnnouncedAfterRecovery s.trace := by
  have hExec : (Transition.exec step oneBackup (loseBroker 1)).map (fun s => decide
      (.inform 20 ⟨brokerService, localhost, 5673⟩ true ∈ s.trace)) = some true := by
    decide
  obtain ⟨s, hs, hInformed⟩ := Option.map_eq_some_iff.mp hExec
  refine ⟨s, of_decide_eq_true hInformed, announced_after_recovery 0 (some 0) (some 1) (some 2) _ s
    (Transition.Run.of_exec ?_ hs)⟩
  intro u action hAction
  simp only [loseBroker, List.mem_cons, List.not_mem_nil, or_false] at hAction
  rcases hAction with rfl | rfl | rfl | rfl | rfl | rfl
  · exact ⟨trivial, fun _ _ _ => trivial⟩
  · trivial
  · trivial
  · exact ⟨rfl, fun _ _ => ⟨trivial, fun _ _ => trivial⟩⟩
  · exact ⟨rfl, fun _ _ => ⟨trivial, fun _ _ => trivial⟩⟩
  · exact ⟨rfl, fun _ _ => ⟨trivial, fun _ _ => trivial⟩⟩

end OneBroker

end QpidRecovery.Proposer
