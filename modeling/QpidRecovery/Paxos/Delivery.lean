import QpidRecovery.Paxos.RoundTrip

/-! The messages of one connection, from the calls that sent them to the
messages that are delivered. -/
namespace QpidRecovery.Wire

open Layout

/-- A call of `sendPaxosHeader` or `sendHeaderProposal`. The type says whether
a proposal follows, and `NoProposal` is never sent. -/
inductive Outgoing where
  | header (t : PaxosMessageType) (v : UInt32) (m : ServiceName)
      (hAnnounced : hasProposal t.code = false)
  | headerProposal (t : PaxosMessageType) (v : UInt32) (m : ServiceName) (p : ProposalImage)
      (hAnnounced : hasProposal t.code = true) (hReal : p.content ≠ .noProposal)

namespace Outgoing

def type : Outgoing → PaxosMessageType
  | header t _ _ _ => t
  | headerProposal t _ _ _ _ _ => t

def version : Outgoing → UInt32
  | header _ v _ _ => v
  | headerProposal _ v _ _ _ _ => v

def name : Outgoing → ServiceName
  | header _ _ m _ => m
  | headerProposal _ _ m _ _ _ => m

def proposal : Outgoing → Option ProposalImage
  | header _ _ _ _ => none
  | headerProposal _ _ _ p _ _ => some p

def send (ph : PaxosHeader) (sfd : Channel) : Outgoing → Int × Channel
  | header t v m _ => sendPaxosHeader ph t v m sfd
  | headerProposal t v m p _ _ => sendHeaderProposal ph t v m p sfd

/-- The message in memory, when its header is built in `ph`. -/
def message (ph : PaxosHeader) (o : Outgoing) : PaxosMessageImage where
  header := { ph with type := o.type.code, version := o.version, name := ph.name.strcpy o.name }
  proposal := o.proposal

/-- Every call writes a message that may be sent. -/
theorem message_wellTyped (ph : PaxosHeader) (o : Outgoing) : (o.message ph).WellTyped := by
  cases o with
  | header t v m hAnnounced => exact ⟨hAnnounced.symm, by rintro p ⟨⟩⟩
  | headerProposal t v m p hAnnounced hReal =>
      refine ⟨hAnnounced.symm, ?_⟩
      rintro q ⟨⟩
      exact hReal

end Outgoing

/-- A call together with the stack object its header is built in. -/
abbrev Call := PaxosHeader × Outgoing

def Call.image (s : Call) : List UInt8 := (s.2.message s.1).image

def sendAll : List Call → Channel → Channel
  | [], c => c
  | s :: rest, c => sendAll rest (s.2.send s.1 c).2

def wire (sent : List Call) : List UInt8 := sent.flatMap Call.image

/-- `receive` called up to `k` times, until its first failure. The connection
is the one after the last success. -/
def receiveUpTo : Nat → Channel → List PaxosMessageImage × Channel
  | 0, c => ([], c)
  | k + 1, c =>
      match receive c with
      | none => ([], c)
      | some (m, c') => (m :: (receiveUpTo k c').1, (receiveUpTo k c').2)

/-- The delivered message has the sent fields, with strings up to their NUL. -/
structure Delivered (s : Call) (m : PaxosMessageImage) : Prop where
  type : m.header.type = s.2.type.code
  version : m.header.version = s.2.version
  name : m.header.name.toCString = some s.2.name
  proposal : m.proposal = s.2.proposal

theorem delivered_message (s : Call) : Delivered s (s.2.message s.1) :=
  ⟨rfl, rfl, CharArray.toCString_strcpy _ _, rfl⟩

/-- A header is written with the string copied into it. -/
theorem sendPaxosHeader_image (ph : PaxosHeader) (t : PaxosMessageType) (v : UInt32)
    (m : ServiceName) (c : Channel) :
    0 ≤ (sendPaxosHeader ph t v m c).1 ∧
      (sendPaxosHeader ph t v m c).2 =
        { c with written := c.written ++ bytes (PaxosHeader.mk t.code v (ph.name.strcpy m)) } := by
  have hFull : (c.write (bytes (PaxosHeader.mk t.code v (ph.name.strcpy m)))).1 =
      size PaxosHeader := length_bytes _
  simp only [sendPaxosHeader, hFull, if_true]
  exact ⟨Int.natCast_nonneg _, rfl⟩

/-- A call writes the image of its message. -/
theorem Outgoing.send_image (ph : PaxosHeader) (c : Channel) (o : Outgoing) :
    0 ≤ (o.send ph c).1 ∧
      (o.send ph c).2 = { c with written := c.written ++ (o.message ph).image } := by
  cases o with
  | header t v m hAnnounced =>
      obtain ⟨hSum, hChannel⟩ := sendPaxosHeader_image ph t v m c
      refine ⟨hSum, hChannel.trans ?_⟩
      simp [message, PaxosMessageImage.image, proposal, type, version, name]
  | headerProposal t v m p hAnnounced hReal =>
      obtain ⟨hSum, hChannel⟩ := sendPaxosHeader_image ph t v m c
      obtain ⟨hSum', hChannel'⟩ := sendProposal_image p (sendPaxosHeader ph t v m c).2
      simp only [send, sendHeaderProposal]
      rw [if_neg (Int.not_lt.mpr hSum), if_neg (Int.not_lt.mpr hSum')]
      refine ⟨Int.add_nonneg hSum hSum', hChannel'.trans ?_⟩
      rw [hChannel]
      simp [message, PaxosMessageImage.image, proposal, type, version, name]

/-- Calls write their images one after another. -/
theorem sendAll_written (sent : List Call) (c : Channel) :
    (sendAll sent c).written = c.written ++ wire sent := by
  induction sent generalizing c with
  | nil => exact (List.append_nil _).symm
  | cons s rest ih =>
      rw [sendAll, ih, (s.2.send_image s.1 c).2]
      simp [wire, Call.image]

/-- No message is empty. -/
theorem PaxosMessageImage.image_ne_nil (m : PaxosMessageImage) : m.image ≠ [] := by
  intro h
  have hLength := congrArg List.length (List.append_eq_nil_iff.mp h).1
  rw [length_bytes] at hLength
  exact absurd hLength (by decide)

/-- A received message is the next sent one. -/
theorem receive_next {c c' : Channel} {m : PaxosMessageImage} {sent : List Call}
    (hPending : c.pending = wire sent) (hReceive : receive c = some (m, c')) :
    ∃ s rest, sent = s :: rest ∧ m = s.2.message s.1 ∧ c'.pending = wire rest := by
  obtain ⟨hFront, hTyped⟩ := receive_sound hReceive
  rw [hPending] at hFront
  cases sent with
  | nil => exact absurd (List.append_eq_nil_iff.mp hFront.symm).1 m.image_ne_nil
  | cons s rest =>
      rw [wire, List.flatMap_cons] at hFront
      obtain ⟨hMessage, hRest⟩ := image_append_inj (s.2.message_wellTyped s.1) hTyped hFront
      exact ⟨s, rest, rfl, hMessage.symm, hRest.symm⟩

/-- What is received so far is what was sent first, in its order. -/
theorem receiveUpTo_inOrder (k : Nat) {c : Channel} {sent : List Call}
    (hPending : c.pending = wire sent) :
    ∃ i, i ≤ sent.length ∧ List.Forall₂ Delivered (sent.take i) (receiveUpTo k c).1 ∧
      (receiveUpTo k c).2.pending = wire (sent.drop i) := by
  induction k generalizing c sent with
  | zero => exact ⟨0, Nat.zero_le _, List.Forall₂.nil, hPending⟩
  | succ k ih =>
      unfold receiveUpTo
      cases hReceive : receive c with
      | none => exact ⟨0, Nat.zero_le _, List.Forall₂.nil, hPending⟩
      | some next =>
          obtain ⟨m, c'⟩ := next
          obtain ⟨s, rest, rfl, rfl, hRest⟩ := receive_next hPending hReceive
          obtain ⟨i, hLength, hDelivered, hPending'⟩ := ih hRest
          exact ⟨i + 1, Nat.succ_le_succ hLength, .cons (delivered_message s) hDelivered, hPending'⟩

/-- If no read stops early, everything is received. -/
theorem receiveUpTo_complete (k : Nat) {c : Channel} {sent : List Call} (hComplete : c.Complete)
    (hPending : c.pending = wire sent) (hk : sent.length ≤ k) :
    List.Forall₂ Delivered sent (receiveUpTo k c).1 ∧ (receiveUpTo k c).2.pending = [] := by
  induction sent generalizing k c with
  | nil =>
      obtain ⟨i, _, hDelivered, hRest⟩ := receiveUpTo_inOrder k hPending
      simp only [List.take_nil, List.drop_nil] at hDelivered hRest
      exact ⟨hDelivered, hRest⟩
  | cons s rest ih =>
      obtain ⟨k, rfl⟩ := Nat.exists_eq_succ_of_ne_zero (Nat.ne_of_gt (Nat.lt_of_lt_of_le
        (Nat.succ_pos _) hk))
      obtain ⟨c', hReceive, hRest, hComplete'⟩ :=
        receive_complete hComplete hPending (s.2.message_wellTyped s.1)
      obtain ⟨hDelivered, hNothing⟩ := ih k hComplete' hRest (Nat.le_of_succ_le_succ hk)
      rw [receiveUpTo, hReceive]
      exact ⟨.cons (delivered_message s) hDelivered, hNothing⟩

/-- The receiving end, once everything was sent. -/
def transmitted (sent : List Call) (cut : Nat → Option Nat) : Channel where
  pending := (sendAll sent ⟨[], cut, []⟩).written
  cut := cut
  written := []

/-- However the transport cuts the reads, the messages delivered before the
first failure are the first messages sent, and what is left in the stream is
exactly the rest of them. Uncut reads deliver everything. -/
theorem delivered_inOrder (sent : List Call) (cut : Nat → Option Nat) (k : Nat) :
    (∃ i, i ≤ sent.length ∧
      List.Forall₂ Delivered (sent.take i) (receiveUpTo k (transmitted sent cut)).1 ∧
      (receiveUpTo k (transmitted sent cut)).2.pending = wire (sent.drop i)) ∧
    ((transmitted sent cut).Complete → sent.length ≤ k →
      List.Forall₂ Delivered sent (receiveUpTo k (transmitted sent cut)).1 ∧
      (receiveUpTo k (transmitted sent cut)).2.pending = []) := by
  have hPending : (transmitted sent cut).pending = wire sent := by
    rw [transmitted, sendAll_written, List.nil_append]
  exact ⟨receiveUpTo_inOrder k hPending,
    fun hComplete hk => receiveUpTo_complete k hComplete hPending hk⟩

end QpidRecovery.Wire
