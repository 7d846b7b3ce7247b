import QpidRecovery.Instance.Invariant
import QpidRecovery.Library.Fifo
import Mathlib.Algebra.Order.BigOperators.Group.Finset
import Mathlib.Data.Finset.Card

/-! What stands in an instance that has decided nothing yet: whom each acceptor
acknowledged last, and what is still under way between it and the proposers. -/
namespace QpidRecovery.Instance

open Transition Fifo

variable {ι : Type}

def ask (cfg : Config ι) (p : Proposal) : PaxosMessage :=
  ⟨cfg.version, cfg.name, .phase1Proposal p⟩

def request (cfg : Config ι) (p : Proposal) : PaxosMessage :=
  ⟨cfg.version, cfg.name, .phase2Request p⟩

/-- What may be under way to one acceptor. -/
def Outgoing (cfg : Config ι) (psm : ProposerStateMachine IPString) (q : List PaxosMessage) : Prop :=
  match psm.state with
  | .phase1 => q = [] ∨ q = [ask cfg psm.proposal]
  | .phase2 => q = [] ∨ q = [request cfg psm.proposal] ∨
      q = [ask cfg psm.proposal, request cfg psm.proposal]
  | _ => q = []

/-- What may be under way from an acceptor. -/
structure Reply (cfg : Config ι) (psm : ProposerStateMachine IPString) (m : PaxosMessage) : Prop where
  version : m.version = cfg.version
  name : m.name = cfg.name
  body : m.body = .phase1Ack ∨ m.body = .phase1Nack ∨
    psm.state = .phase2 ∧ (m.body = .phase2Ack ∨ m.body = .phase2Nack)

def members (cfg : Config ι) : Finset IPString := cfg.last.acceptor.toFinset

/-- A set that one more acceptor may have entered. -/
theorem card_filter_le {p p' : IPString → Prop} [DecidablePred p] [DecidablePred p']
    {acceptors : Finset IPString} {a : IPString} (h : ∀ b, b ≠ a → p' b → p b) :
    (acceptors.filter p').card ≤ (acceptors.filter p).card + 1 := by
  have hSub : acceptors.filter p' ⊆ insert a (acceptors.filter p) := by
    intro b hb
    obtain ⟨hMem, hNew⟩ := Finset.mem_filter.mp hb
    by_cases hSame : b = a
    · rw [hSame]
      exact Finset.mem_insert_self _ _
    · exact Finset.mem_insert_of_mem (Finset.mem_filter.mpr ⟨hMem, h b hSame hNew⟩)
  exact (Finset.card_le_card hSub).trans (Finset.card_insert_le _ _)

section Network
variable [DecidableEq ι] {network : List (Packet ι)} {i j : ι} {a b : IPString}

/-- The messages of a proposer to an acceptor. -/
def toward (j : ι) (a : IPString) : Packet ι → Option PaxosMessage
  | .toAcceptor i b m => if i = j ∧ b = a then some m else none
  | .toProposer _ _ _ => none

theorem toward_separates (j : ι) (a : IPString) : Separates (toward j a) := by
  have hShape (packet : Packet ι) (m : PaxosMessage) (h : toward j a packet = some m) :
      packet = .toAcceptor j a m := by
    cases packet with
    | toAcceptor i b m' =>
        simp only [toward] at h
        split at h
        next hSame =>
          cases h
          rw [hSame.1, hSame.2]
        · cases h
    | toProposer => cases h
  intro p q m hp hq
  rw [hShape p m hp, hShape q m hq]

/-- A packet on its own way. -/
theorem toward_self (j : ι) (a : IPString) (m : PaxosMessage) :
    toward j a (.toAcceptor j a m) = some m :=
  if_pos ⟨rfl, rfl⟩

/-- A packet on another way. -/
theorem toward_other (h : i = j → b ≠ a) (m : PaxosMessage) :
    toward j a (.toAcceptor i b m) = none :=
  if_neg fun hSame => h hSame.1 hSame.2

/-- An answer of a kind to a proposer. -/
def Packet.answers (body : PaxosBody) (j : ι) : Packet ι → Bool
  | .toProposer _ k m => k = j ∧ m.body = body
  | .toAcceptor _ _ _ => false

def answers (body : PaxosBody) (j : ι) (network : List (Packet ι)) : Nat :=
  network.countP (Packet.answers body j)

/-- What a proposer can tell about two networks is the same, or some replies
are gone. -/
structure Unseen (j : ι) (network network' : List (Packet ι)) : Prop where
  outgoing : ∀ a, queue (toward j a) network' = queue (toward j a) network
  replies : ∀ a m, .toProposer a j m ∈ network' → .toProposer a j m ∈ network
  answers : ∀ body, answers body j network' = answers body j network

/-- Two changes one after the other that the proposer does not see. -/
theorem Unseen.trans {first second third : List (Packet ι)} (h : Unseen j first second)
    (h' : Unseen j second third) : Unseen j first third where
  outgoing := fun a => (h'.outgoing a).trans (h.outgoing a)
  replies := fun a m hMem => h.replies a m (h'.replies a m hMem)
  answers := fun body => (h'.answers body).trans (h.answers body)

/-- Answers add up. -/
theorem answers_append (body : PaxosBody) (j : ι) (first second : List (Packet ι)) :
    answers body j (first ++ second) = answers body j first + answers body j second :=
  List.countP_append

theorem answers_erase {packet : Packet ι} (hMem : packet ∈ network) (body : PaxosBody) (j : ι) :
    answers body j network =
      answers body j (network.erase packet) + if packet.answers body j then 1 else 0 := by
  have hPerm := (List.perm_cons_erase hMem).countP_eq (Packet.answers body j)
  rw [answers, hPerm, List.countP_cons, answers]

/-- Packets to others are no answers. -/
theorem answers_none {out : List (Packet ι)} (h : ∀ a m, .toProposer a j m ∉ out)
    (body : PaxosBody) : answers body j out = 0 := by
  rw [answers, List.countP_eq_zero]
  intro packet hMem hAnswer
  cases packet with
  | toAcceptor => cases hAnswer
  | toProposer a k m =>
      simp only [Packet.answers, decide_eq_true_eq] at hAnswer
      rw [hAnswer.1] at hMem
      exact h a m hMem

/-- Packets to others do not queue. -/
theorem queue_none {out : List (Packet ι)} (h : ∀ m, .toAcceptor j a m ∉ out) :
    queue (toward j a) out = [] := by
  rw [queue, List.filterMap_eq_nil_iff]
  intro packet hMem
  cases packet with
  | toAcceptor i b m =>
      apply toward_other
      rintro rfl rfl
      exact h m hMem
  | toProposer => rfl

/-- What others send and receive. -/
theorem unseen_append {out : List (Packet ι)} (hSent : ∀ a m, .toAcceptor j a m ∉ out)
    (hReceived : ∀ a m, .toProposer a j m ∉ out) : Unseen j network (network ++ out) where
  outgoing := fun a => by
    rw [queue_append, queue_none (hSent a), List.append_nil]
  replies := fun a m hMem => (List.mem_append.mp hMem).elim id fun hNew => absurd hNew (hReceived a m)
  answers := fun body => by rw [answers_append, answers_none hReceived, Nat.add_zero]

/-- A packet that concerns others may be taken away. -/
theorem unseen_erase {packet : Packet ι} (hMem : packet ∈ network)
    (hSent : ∀ a, toward j a packet = none) (hReceived : ∀ body, packet.answers body j = false) :
    Unseen j network (network.erase packet) where
  outgoing := fun a => queue_erase_other (hSent a)
  replies := fun a m h => List.mem_of_mem_erase h
  answers := fun body => by rw [answers_erase hMem body j, if_neg (by simp [hReceived])]; rfl

end Network

section Proposers
variable [DecidableEq ι]

/-- What stands between a proposer and the acceptors. `holder` tells whom an
acceptor acknowledged last. -/
structure ProposerStanding (cfg : Config ι) (holder : IPString → Option ι)
    (acceptors : IPString → AcceptorStateMachine) (network : List (Packet ι))
    (given : Option Proposal) (j : ι) (psm : ProposerStateMachine IPString) : Prop where
  slots : psm.accsfd = cfg.last.acceptor.map some
  idle : given = none → psm.state = .initial ∧ psm.phase1ack = 0
  busy : given ≠ none → psm.state = .phase1 ∨ psm.state = .phase2
  few : psm.state = .phase1 → psm.phase1ack * 2 ≤ psm.nacceptor
  outgoing : ∀ a ∈ members cfg, Outgoing cfg psm (queue (toward j a) network)
  replies : ∀ a m, .toProposer a j m ∈ network → Reply cfg psm m
  /-- An acceptor that has acknowledged nobody has read nothing. -/
  unread : ∀ a ∈ members cfg, holder a = none → given ≠ none →
    (queue (toward j a) network).head? = some (ask cfg psm.proposal)
  asked : ∀ a ∈ members cfg, holder a = some j → given ≠ none
  /-- The request for the vote that an acceptor has promised is under way. -/
  held : ∀ a ∈ members cfg, holder a = some j → (acceptors a).state = .phase1 →
    (acceptors a).promise = psm.proposal ∧
      (psm.state = .phase2 → request cfg psm.proposal ∈ queue (toward j a) network)
  chosen : ∀ a ∈ members cfg, holder a = some j → (acceptors a).state = .phase2 →
    psm.state = .phase2
  promised : psm.state = .phase1 →
    ((members cfg).filter fun a => holder a = some j).card ≤
      psm.phase1ack + answers .phase1Ack j network
  voted : psm.state = .phase2 →
    ((members cfg).filter fun a => holder a = some j ∧ (acceptors a).state = .phase2).card ≤
      psm.phase2ack + answers .phase2Ack j network

variable {cfg : Config ι} {holder : IPString → Option ι}
  {acceptors : IPString → AcceptorStateMachine} {network network' : List (Packet ι)}
  {given : Option Proposal} {j k : ι} {psm : ProposerStateMachine IPString} {a : IPString}
  {acc : AcceptorStateMachine} {m : PaxosMessage}

/-- A proposer stands as before, if it sees nothing. -/
theorem ProposerStanding.unseen (h : ProposerStanding cfg holder acceptors network given j psm)
    (hUnseen : Unseen j network network') :
    ProposerStanding cfg holder acceptors network' given j psm where
  slots := h.slots
  idle := h.idle
  busy := h.busy
  few := h.few
  outgoing := fun a ha => by
    rw [hUnseen.outgoing]
    exact h.outgoing a ha
  replies := fun a m hMem => h.replies a m (hUnseen.replies a m hMem)
  unread := fun a ha hNone hGiven => by
    rw [hUnseen.outgoing]
    exact h.unread a ha hNone hGiven
  asked := h.asked
  held := fun a ha hHolder hState => by
    rw [hUnseen.outgoing]
    exact h.held a ha hHolder hState
  chosen := h.chosen
  promised := fun hState => by
    rw [hUnseen.answers]
    exact h.promised hState
  voted := fun hState => by
    rw [hUnseen.answers]
    exact h.voted hState

/-- Another proposer is acknowledged. -/
theorem ProposerStanding.taken (h : ProposerStanding cfg holder acceptors network given j psm)
    (hOther : k ≠ j) (a : IPString) (acc : AcceptorStateMachine) :
    ProposerStanding cfg (Function.update holder a (some k)) (Function.update acceptors a acc)
      network given j psm := by
  have hHolder (b : IPString) (hb : Function.update holder a (some k) b = some j) :
      b ≠ a ∧ holder b = some j := by
    by_cases hSame : b = a
    · rw [hSame, Function.update_self, Option.some.injEq] at hb
      exact absurd hb hOther
    · exact ⟨hSame, by rwa [Function.update_of_ne hSame] at hb⟩
  refine ⟨h.slots, h.idle, h.busy, h.few, h.outgoing, h.replies, ?_, ?_, ?_, ?_, ?_, ?_⟩
  · intro b hMem hNone
    by_cases hSame : b = a
    · rw [hSame, Function.update_self] at hNone
      cases hNone
    · rw [Function.update_of_ne hSame] at hNone
      exact h.unread b hMem hNone
  · exact fun b hMem hb => h.asked b hMem (hHolder b hb).2
  · intro b hMem hb
    rw [Function.update_of_ne (hHolder b hb).1]
    exact h.held b hMem (hHolder b hb).2
  · intro b hMem hb
    rw [Function.update_of_ne (hHolder b hb).1]
    exact h.chosen b hMem (hHolder b hb).2
  · intro hState
    apply (Finset.card_le_card _).trans (h.promised hState)
    exact Finset.monotone_filter_right _ fun b _ hb => (hHolder b hb).2
  · intro hState
    apply (Finset.card_le_card _).trans (h.voted hState)
    apply Finset.monotone_filter_right
    rintro b _ ⟨hb, hVoted⟩
    rw [Function.update_of_ne (hHolder b hb).1] at hVoted
    exact ⟨(hHolder b hb).2, hVoted⟩

section Outgoing
variable {q : List PaxosMessage}

omit [DecidableEq ι] in
/-- The acceptor has read the first of what is on its way. -/
theorem Outgoing.tail (h : Outgoing cfg psm q) : Outgoing cfg psm q.tail := by
  unfold Outgoing at h ⊢
  split at h
  · rcases h with rfl | rfl
    · exact .inl rfl
    · exact .inl rfl
  · rcases h with rfl | rfl | rfl
    · exact .inl rfl
    · exact .inl rfl
    · exact .inr (.inl rfl)
  · rw [h]
    rfl

omit [DecidableEq ι] in
/-- The oldest message is the first or the second one of the proposal. -/
theorem Outgoing.head (h : Outgoing cfg psm q) (hHead : q.head? = some m) :
    m = ask cfg psm.proposal ∧
        (psm.state = .phase1 ∨ psm.state = .phase2 ∧ q.tail = [request cfg psm.proposal]) ∨
      m = request cfg psm.proposal ∧ psm.state = .phase2 := by
  unfold Outgoing at h
  split at h
  next hState =>
    rcases h with rfl | rfl
    · cases hHead
    · cases hHead
      exact .inl ⟨rfl, .inl hState⟩
  next hState =>
    rcases h with rfl | rfl | rfl
    · cases hHead
    · cases hHead
      exact .inr ⟨rfl, hState⟩
    · cases hHead
      exact .inl ⟨rfl, .inr ⟨hState, rfl⟩⟩
  · rw [h] at hHead
    cases hHead

/-- What an acceptor reads next is the proposer's own proposal. -/
theorem ProposerStanding.head (h : ProposerStanding cfg holder acceptors network given j psm)
    (ha : a ∈ members cfg) (hHead : (queue (toward j a) network).head? = some m) :
    given ≠ none ∧ (m = ask cfg psm.proposal ∧ (psm.state = .phase2 →
        request cfg psm.proposal ∈ (queue (toward j a) network).tail) ∨
      m = request cfg psm.proposal ∧ psm.state = .phase2) := by
  have hOut := (h.outgoing a ha).head hHead
  constructor
  · intro hNone
    have hState := (h.idle hNone).1
    rcases hOut with ⟨_, hPhase | hPhase⟩ | ⟨_, hPhase⟩
    · rw [hState] at hPhase
      cases hPhase
    · rw [hState] at hPhase
      cases hPhase.1
    · rw [hState] at hPhase
      cases hPhase
  · apply hOut.imp_left
    rintro ⟨hAsk, hPhase | ⟨_, hTail⟩⟩
    · refine ⟨hAsk, fun hState => ?_⟩
      rw [hPhase] at hState
      cases hState
    · refine ⟨hAsk, fun _ => ?_⟩
      rw [hTail]
      exact List.mem_cons_self

end Outgoing

/-- An acceptor has read the oldest message of a proposer and sent it replies. -/
structure Answered (j : ι) (a : IPString) (out : List PaxosMessage)
    (network network' : List (Packet ι)) : Prop where
  self : queue (toward j a) network' = (queue (toward j a) network).tail
  others : ∀ b, b ≠ a → queue (toward j b) network' = queue (toward j b) network
  replies : ∀ b m, .toProposer b j m ∈ network' → .toProposer b j m ∈ network ∨ m ∈ out
  answers : ∀ body, answers body j network' =
    answers body j network + out.countP fun m => m.body = body

/-- Replies do not queue toward an acceptor. -/
theorem queue_replies (j : ι) (a b : IPString) (out : List PaxosMessage) :
    queue (toward j b) (out.map fun m => .toProposer a j m) = [] :=
  queue_none (by simp)

/-- A packet is read and answered. -/
theorem answered_deliver (hMem : .toAcceptor j a m ∈ network)
    (hHead : (queue (toward j a) network).head? = some m) (out : List PaxosMessage) :
    Answered j a out network
      (network.erase (.toAcceptor j a m) ++ out.map fun m => .toProposer a j m) where
  self := by
    rw [queue_append, queue_replies, List.append_nil]
    exact queue_erase_head (toward_separates j a) (toward_self j a m) hHead
  others := fun b hb => by
    rw [queue_append, queue_replies, List.append_nil]
    exact queue_erase_other (toward_other (fun _ hSame => hb hSame.symm) m)
  replies := fun b m' h => by
    rcases List.mem_append.mp h with hOld | hNew
    · exact .inl (List.mem_of_mem_erase hOld)
    · obtain ⟨m'', hOut, hEq⟩ := List.mem_map.mp hNew
      cases hEq
      exact .inr hOut
  answers := fun body => by
    have hErased : Instance.answers body j network =
        Instance.answers body j (network.erase (.toAcceptor j a m)) := by
      rw [answers_erase hMem body j, if_neg (by simp [Packet.answers]), Nat.add_zero]
    rw [answers_append, ← hErased, Instance.answers, Instance.answers, List.countP_map]
    congr 2
    funext m'
    simp [Packet.answers]

/-- What is on its way to the acceptors stays in order. -/
theorem Answered.outgoing {out : List PaxosMessage} (hNet : Answered j a out network network')
    {b : IPString} (h : Outgoing cfg psm (queue (toward j b) network)) :
    Outgoing cfg psm (queue (toward j b) network') := by
  by_cases hSame : b = a
  · rw [hSame] at h ⊢
    rw [hNet.self]
    exact h.tail
  · rwa [hNet.others b hSame]

/-- An acceptor that acknowledged someone else has no effect but its replies. -/
theorem ProposerStanding.read (h : ProposerStanding cfg holder acceptors network given j psm)
    {out : List PaxosMessage} (hNet : Answered j a out network network')
    (hOut : ∀ m ∈ out, Reply cfg psm m) (hHolder : holder a ≠ none)
    (hOther : holder a = some j → (acceptors a).state = .phase2) :
    ProposerStanding cfg holder acceptors network' given j psm where
  slots := h.slots
  idle := h.idle
  busy := h.busy
  few := h.few
  outgoing := fun b hb => hNet.outgoing (h.outgoing b hb)
  replies := fun b m hMem => (hNet.replies b m hMem).elim (h.replies b m) (hOut m)
  unread := by
    intro b hb hNone
    have hSame : b ≠ a := by
      rintro rfl
      exact hHolder hNone
    rw [hNet.others b hSame]
    exact h.unread b hb hNone
  asked := h.asked
  held := by
    intro b hb hb' hState
    have hSame : b ≠ a := by
      rintro rfl
      rw [hOther hb'] at hState
      cases hState
    rw [hNet.others b hSame]
    exact h.held b hb hb' hState
  chosen := h.chosen
  promised := by
    intro hState
    rw [hNet.answers]
    exact (h.promised hState).trans (by omega)
  voted := by
    intro hState
    rw [hNet.answers]
    exact (h.voted hState).trans (by omega)

/-- An acceptor takes the side of the proposer whose message it acknowledges. -/
theorem ProposerStanding.acknowledge
    (h : ProposerStanding cfg holder acceptors network given j psm)
    {out : List PaxosMessage} (hNet : Answered j a out network network')
    (hOut : ∀ m ∈ out, Reply cfg psm m) (hGiven : given ≠ none)
    (hHeld : acc.state = .phase1 → acc.promise = psm.proposal ∧ (psm.state = .phase2 →
      request cfg psm.proposal ∈ (queue (toward j a) network).tail))
    (hChosen : acc.state = .phase2 → psm.state = .phase2)
    (hPromised : psm.state = .phase1 → 1 ≤ out.countP fun m => m.body = .phase1Ack)
    (hVoted : acc.state = .phase2 → 1 ≤ out.countP fun m => m.body = .phase2Ack) :
    ProposerStanding cfg (Function.update holder a (some j)) (Function.update acceptors a acc)
      network' given j psm := by
  refine ⟨h.slots, h.idle, h.busy, h.few, ?_, ?_, ?_, fun _ _ _ => hGiven, ?_, ?_, ?_, ?_⟩
  · exact fun b hb => hNet.outgoing (h.outgoing b hb)
  · exact fun b m hMem => (hNet.replies b m hMem).elim (h.replies b m) (hOut m)
  · intro b hb hNone
    by_cases hSame : b = a
    · rw [hSame, Function.update_self] at hNone
      cases hNone
    · rw [Function.update_of_ne hSame] at hNone
      rw [hNet.others b hSame]
      exact h.unread b hb hNone
  · intro b hb hHolder hPhase
    by_cases hSame : b = a
    · rw [hSame, Function.update_self] at hPhase ⊢
      rw [hNet.self]
      exact hHeld hPhase
    · rw [Function.update_of_ne hSame] at hHolder hPhase ⊢
      rw [hNet.others b hSame]
      exact h.held b hb hHolder hPhase
  · intro b hb hHolder hPhase
    by_cases hSame : b = a
    · rw [hSame, Function.update_self] at hPhase
      exact hChosen hPhase
    · rw [Function.update_of_ne hSame] at hHolder hPhase
      exact h.chosen b hb hHolder hPhase
  · intro hPhase
    have hBound := h.promised hPhase
    have hAck := hPromised hPhase
    have hCount := hNet.answers .phase1Ack
    have hStep : ((members cfg).filter fun b => Function.update holder a (some j) b = some j).card ≤
        ((members cfg).filter fun b => holder b = some j).card + 1 := by
      apply card_filter_le
      intro b hSame hHolder
      rwa [Function.update_of_ne hSame] at hHolder
    omega
  · intro hPhase
    have hBound := h.voted hPhase
    have hCount := hNet.answers .phase2Ack
    by_cases hVote : acc.state = .phase2
    · have hAck := hVoted hVote
      have hStep : ((members cfg).filter fun b => Function.update holder a (some j) b = some j ∧
          (Function.update acceptors a acc b).state = .phase2).card ≤
          ((members cfg).filter fun b => holder b = some j ∧ (acceptors b).state = .phase2).card + 1 := by
        apply card_filter_le
        intro b hSame hHolder
        rwa [Function.update_of_ne hSame, Function.update_of_ne hSame] at hHolder
      omega
    · apply (Finset.card_le_card _).trans (hBound.trans (by omega))
      apply Finset.monotone_filter_right
      rintro b _ ⟨hHolder, hState⟩
      by_cases hSame : b = a
      · rw [hSame, Function.update_self] at hState
        exact absurd hState hVote
      · rw [Function.update_of_ne hSame] at hHolder hState
        exact ⟨hHolder, hState⟩

/-- The proposer stands after one more promise. -/
theorem ProposerStanding.promise (h : ProposerStanding cfg holder acceptors network given j psm)
    (hNet : Answered j a [⟨cfg.version, cfg.name, .phase1Ack⟩] network network')
    (ha : a ∈ members cfg) (hHead : (queue (toward j a) network).head? = some (ask cfg psm.proposal))
    (hState : acc.state = .phase1) (hPromise : acc.promise = psm.proposal) :
    ProposerStanding cfg (Function.update holder a (some j)) (Function.update acceptors a acc)
      network' given j psm := by
  obtain ⟨hGiven, hTail⟩ := h.head ha hHead
  apply h.acknowledge hNet
  · intro m hMem
    rw [List.mem_singleton.mp hMem]
    exact ⟨rfl, rfl, .inl rfl⟩
  · exact hGiven
  · rcases hTail with ⟨_, hTail⟩ | ⟨hAsk, _⟩
    · exact fun _ => ⟨hPromise, hTail⟩
    · cases hAsk
  · intro hVote
    rw [hState] at hVote
    cases hVote
  · exact fun _ => Nat.le_refl 1
  · intro hVote
    rw [hState] at hVote
    cases hVote

/-- The proposer stands after one more vote. -/
theorem ProposerStanding.vote (h : ProposerStanding cfg holder acceptors network given j psm)
    (hNet : Answered j a [⟨cfg.version, cfg.name, .phase2Ack⟩] network network')
    (ha : a ∈ members cfg)
    (hHead : (queue (toward j a) network).head? = some (request cfg psm.proposal))
    (hState : acc.state = .phase2) :
    ProposerStanding cfg (Function.update holder a (some j)) (Function.update acceptors a acc)
      network' given j psm := by
  obtain ⟨hGiven, hTail⟩ := h.head ha hHead
  have hPhase2 : psm.state = .phase2 := by
    rcases hTail with ⟨hRequest, _⟩ | ⟨_, hPhase⟩
    · cases hRequest
    · exact hPhase
  apply h.acknowledge hNet
  · intro m hMem
    rw [List.mem_singleton.mp hMem]
    exact ⟨rfl, rfl, .inr (.inr ⟨hPhase2, .inl rfl⟩)⟩
  · exact hGiven
  · intro hPhase
    rw [hState] at hPhase
    cases hPhase
  · exact fun _ => hPhase2
  · intro hPhase
    rw [hPhase2] at hPhase
    cases hPhase
  · exact fun _ => Nat.le_refl 1

end Proposers

end QpidRecovery.Instance
