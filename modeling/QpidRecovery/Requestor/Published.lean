import QpidRecovery.Proposer.Centralized
import QpidRecovery.Requestor.Configuration

/-! The proposer list that subscribers were told. A loss is not announced, but
the loop does not wait for anything until the list is full again, and every
proposer that is added is announced to all. -/
namespace QpidRecovery.Requestor

open Transition

variable {Fd : Type} [DecidableEq Fd] {cfg : Config}

/-- The proposer lists that an iteration writes, without the writes that fail. -/
def replies (cfg : Config) (s : State Fd) : Action Fd → List (Fd × Proposer.ReplyProposer)
  | .addProposer o =>
      match s.proposerIPs with
      | [] => []
      | newip :: _ =>
          if o.request 0 then
            let hbc := HeartbeatClient.new s.now (o.heartbeat 0) newip
            (s.replysfd.filter o.reply).map fun sfd =>
              (sfd, replyProposerList cfg.servicename (s.proposers ++ [hbc]))
          else []
  | .query (some newsfd) true => [(newsfd, replyProposerList cfg.servicename s.proposers)]
  | _ => []

/-- The process with every proposer list that it wrote. -/
structure Publication (Fd : Type) where
  process : State Fd
  written : List (Fd × Proposer.ReplyProposer)

def Publication.step (cfg : Config) (p : Publication Fd) (action : Action Fd) :
    Option (Publication Fd) :=
  (Requestor.step cfg p.process action).map fun t =>
    ⟨t, p.written ++ replies cfg p.process action⟩

def Publication.init (cfg : Config) (start : Time) (querysfd : Fd)
    (landmark : Option (IPString × Fd)) (acceptorIPs proposerIPs : List IPString) :
    Publication Fd :=
  ⟨State.init cfg start querysfd landmark acceptorIPs proposerIPs, []⟩

/-- The last list written to a socket. -/
def lastReply (sfd : Fd) (written : List (Fd × Proposer.ReplyProposer)) :
    Option Proposer.ReplyProposer :=
  (written.reverse.find? fun w => w.1 = sfd).map Prod.snd

/-- The loop is about to wait for a descriptor. -/
def State.Selecting (cfg : Config) (s : State Fd) : Prop :=
  s.mustChange = false ∧ s.mustRecruit cfg = false

/-- All proposers are there, and the last list written to every subscriber has
their addresses in order. -/
structure Current (cfg : Config) (p : Publication Fd) : Prop where
  full : p.process.proposers.length = cfg.expectedProposers
  told : ∀ sfd ∈ p.process.replysfd, ∃ r, lastReply sfd p.written = some r ∧
    r.name = cfg.servicename ∧ r.ip = copyIPArray p.process.proposers

section LastReply
variable {sfd : Fd} {r : Proposer.ReplyProposer} {written : List (Fd × Proposer.ReplyProposer)}

/-- The last of the replies is the newest. -/
theorem lastReply_append_singleton (newsfd : Fd) :
    lastReply sfd (written ++ [(newsfd, r)]) =
      if newsfd = sfd then some r else lastReply sfd written := by
  unfold lastReply
  rw [List.reverse_append, List.reverse_singleton, List.singleton_append]
  split
  · next hSame => rw [List.find?_cons_of_pos (by simpa using hSame), Option.map_some]
  · next hOther => rw [List.find?_cons_of_neg (by simpa using hOther)]

/-- A socket that a list was sent to, with others. -/
theorem lastReply_append_map {sockets : List Fd} (h : sfd ∈ sockets) :
    lastReply sfd (written ++ sockets.map fun sfd => (sfd, r)) = some r := by
  induction sockets using List.reverseRecOn with
  | nil => cases h
  | append_singleton sockets last ih =>
      rw [List.map_append, List.map_singleton, ← List.append_assoc, lastReply_append_singleton]
      split
      · rfl
      · next hOther =>
          apply ih
          rcases List.mem_append.mp h with hMem | hLast
          · exact hMem
          · exact absurd (List.mem_singleton.mp hLast).symm hOther

end LastReply

/-- What an iteration does to the proposers and the subscribers. -/
inductive Announces (cfg : Config) (s t : State Fd) :
    List (Fd × Proposer.ReplyProposer) → Prop where
  | kept (hProposers : (copyIPArray t.proposers).Sublist (copyIPArray s.proposers))
      (hSubscribers : t.replysfd = s.replysfd) : Announces cfg s t []
  | added (hbc : HeartbeatClient Fd) (reply : Fd → Bool)
      (hDue : s.mustRecruit cfg = true) (hProposers : t.proposers = s.proposers ++ [hbc])
      (hSubscribers : t.replysfd = s.replysfd.filter reply) :
      Announces cfg s t
        (t.replysfd.map fun sfd => (sfd, replyProposerList cfg.servicename t.proposers))
  | subscribed (newsfd : Fd) (hIdle : s.mustRecruit cfg = false)
      (hProposers : t.proposers = s.proposers)
      (hSubscribers : t.replysfd = s.replysfd ++ [newsfd]) :
      Announces cfg s t [(newsfd, replyProposerList cfg.servicename t.proposers)]

section Steps
variable {s t : State Fd}

/-- A commit changes neither the proposers nor who subscribed. -/
theorem handleCommit_announces {o : Outcomes Fd} {r : PaxosResult} {returned : Int}
    (h : handleCommit cfg o r s = some (t, returned)) :
    t.proposers = s.proposers ∧ t.replysfd = s.replysfd := by
  cases handleCommit_commit h with
  | nothing | adopted | installed | noted => exact ⟨rfl, rfl⟩

/-- What an iteration announces, and to whom. -/
theorem step_announces {action : Action Fd} (h : step cfg s action = some t) :
    Announces cfg s t (replies cfg s action) := by
  cases step_branch h with
  | proposed acc rest hDue hList hCommit =>
      obtain ⟨hProposers, hSubscribers⟩ := handleCommit_announces hCommit
      exact .kept (by rw [hProposers]; exact List.Sublist.refl _) hSubscribers
  | @recruited o newip rest hDue hList hRequest =>
      simp only [replies, hList, if_pos hRequest]
      exact .added (HeartbeatClient.new s.now (o.heartbeat 0) newip) o.reply hDue rfl rfl
  | unreached newip rest hList hRequest =>
      simp only [replies, hList, if_neg hRequest]
      exact .kept (List.Sublist.refl _) rfl
  | expired hIdle => exact .kept (copyIPArray_sublist List.filter_sublist) rfl
  | accepted newsfd replied hFull =>
      cases replied with
      | false => exact .kept (List.Sublist.refl _) rfl
      | true => exact .subscribed newsfd hFull rfl rfl
  | proposerBeat i hProposer =>
      refine .kept ?_ rfl
      rw [copyIPArray_readMessage]
  | proposerLost i hProposer =>
      exact .kept (copyIPArray_sublist (List.eraseIdx_sublist _ _)) rfl
  | received hProposers hAcceptors hCommit =>
      obtain ⟨hSame, hSubscribers⟩ := handleCommit_announces hCommit
      exact .kept (by rw [hSame]; exact List.Sublist.refl _) hSubscribers
  | wait | unaccepted | acceptorBeat | acceptorLost | unread =>
      exact .kept (List.Sublist.refl _) rfl

end Steps

/-- Whenever the list is full, it is the one that every subscriber was told. -/
structure PublicationInv (cfg : Config) (p : Publication Fd) : Prop where
  atMost : p.process.proposers.length ≤ cfg.expectedProposers
  current : p.process.proposers.length = cfg.expectedProposers → Current cfg p

/-- Every iteration keeps the subscribers informed. -/
theorem PublicationInv.step {p q : Publication Fd} {action : Action Fd}
    (hInv : PublicationInv cfg p) (h : p.step cfg action = some q) : PublicationInv cfg q := by
  obtain ⟨t, hStep, rfl⟩ := Option.map_eq_some_iff.mp h
  obtain ⟨s, written⟩ := p
  have hAtMost := hInv.atMost
  dsimp only at hStep hAtMost ⊢
  have hAnnounces := step_announces hStep
  generalize replies cfg s action = new at hAnnounces ⊢
  cases hAnnounces with
  | kept hProposers hSubscribers =>
      have hLength := hProposers.length_le
      rw [copyIPArray, copyIPArray, List.length_map, List.length_map] at hLength
      refine ⟨hLength.trans hAtMost, fun hFull => ⟨hFull, ?_⟩⟩
      dsimp only at hFull ⊢
      have hBefore : s.proposers.length = cfg.expectedProposers := by omega
      have hSame : copyIPArray t.proposers = copyIPArray s.proposers := by
        apply hProposers.eq_of_length
        rw [copyIPArray, copyIPArray, List.length_map, List.length_map, hFull, hBefore]
      intro sfd hMem
      rw [hSubscribers] at hMem
      obtain ⟨r, hLast, hName, hIP⟩ := (hInv.current hBefore).told sfd hMem
      exact ⟨r, by rw [List.append_nil, hLast], hName, hIP.trans hSame.symm⟩
  | added hbc reply hDue hProposers hSubscribers =>
      have hFew : s.proposers.length < cfg.expectedProposers := of_decide_eq_true hDue
      refine ⟨?_, fun hFull => ⟨hFull, fun sfd hMem => ?_⟩⟩
      · dsimp only
        rw [hProposers, List.length_append, List.length_singleton]
        omega
      · exact ⟨_, lastReply_append_map hMem, rfl, rfl⟩
  | subscribed newsfd hIdle hProposers hSubscribers =>
      have hMany : ¬ s.proposers.length < cfg.expectedProposers := of_decide_eq_false hIdle
      have hBefore : s.proposers.length = cfg.expectedProposers := by omega
      refine ⟨?_, fun hFull => ⟨hFull, ?_⟩⟩
      · dsimp only
        rw [hProposers]
        exact hAtMost
      · dsimp only at hFull ⊢
        intro sfd hMem
        rw [lastReply_append_singleton]
        split
        · exact ⟨_, rfl, rfl, rfl⟩
        · next hOther =>
            rw [hProposers]
            rw [hSubscribers] at hMem
            rcases List.mem_append.mp hMem with hOld | hNew
            · exact (hInv.current hBefore).told sfd hOld
            · exact absurd (List.mem_singleton.mp hNew).symm hOther

/-- Whenever the loop of a requestor without a landmark waits for a descriptor,
the expected number of proposers is there and every subscriber was last told
exactly their addresses. -/
theorem published_current (cfg : Config) (start : Time) (querysfd : Fd)
    (acceptorIPs proposerIPs : List IPString) (actions : List (Action Fd)) (p : Publication Fd)
    (hExec : exec (Publication.step cfg)
      (.init cfg start querysfd none acceptorIPs proposerIPs) actions = some p)
    (hSelecting : p.process.Selecting cfg) : Current cfg p := by
  have hRun : Run (Publication.step cfg) (fun _ _ => True)
      (.init cfg start querysfd none acceptorIPs proposerIPs) p :=
    Run.of_exec (fun _ _ _ => trivial) hExec
  have hInv : PublicationInv cfg p := by
    apply hRun.invariant
    · refine ⟨Nat.zero_le _, fun hFull => ⟨hFull, ?_⟩⟩
      intro sfd hMem
      cases hMem
    · exact fun _ _ _ hBefore _ hStep => hBefore.step hStep
  apply hInv.current
  have hMany : ¬ p.process.proposers.length < cfg.expectedProposers :=
    of_decide_eq_false hSelecting.2
  have hAtMost := hInv.atMost
  omega

/-- A proposer is recruited, a subscriber is told of it, and the proposer is lost
and replaced. -/
def replaceProposer : List (Action Nat) :=
  [.addAcceptors (connected 10), .addProposer (connected 20), .query (some 30) true,
    .ready 20 false none (connected 40), .addProposer (connected 40)]

theorem published_current_replaced :
    ∃ p : Publication Nat, p.process.replysfd = [30] ∧ Current oneAndOne p := by
  have hExec : (exec (Publication.step oneAndOne)
      (.init oneAndOne 0 0 none [localhost, localhost] [localhost, localhost]) replaceProposer).map
        (fun p => (p.process.replysfd, p.process.mustChange, p.process.mustRecruit oneAndOne)) =
      some ([30], false, false) := by
    decide
  obtain ⟨p, hp, hState⟩ := Option.map_eq_some_iff.mp hExec
  simp only [Prod.mk.injEq] at hState
  exact ⟨p, hState.1, published_current oneAndOne 0 0 [localhost, localhost] [localhost, localhost]
    replaceProposer p hp hState.2⟩

end QpidRecovery.Requestor
