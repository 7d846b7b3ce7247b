import QpidRecovery.Common.CharArray
import QpidRecovery.Library.Channel

/-! The request by which a requestor recruits acceptors and proposers, as an
object in memory and as the arguments it carries. -/
namespace QpidRecovery

open Layout

structure ParticipateRequestImage where
  name : CharArray SERVICE_NAME_LENGTH
  brokerip : CharArray IP_LENGTH
  brokerport : UInt32
  votingversion : UInt32
  committedversion : UInt32
  length : UInt32
  acceptor : CArray (CharArray IP_LENGTH) MAX_ACCEPTORS
deriving DecidableEq, Repr

instance : Layout ParticipateRequestImage :=
  ofEquiv
    (α := CharArray SERVICE_NAME_LENGTH × CharArray IP_LENGTH × UInt32 × UInt32 × UInt32 × UInt32 ×
      CArray (CharArray IP_LENGTH) MAX_ACCEPTORS)
    (fun r => (r.name, r.brokerip, r.brokerport, r.votingversion, r.committedversion, r.length,
      r.acceptor))
    (fun p => ⟨p.1, p.2.1, p.2.2.1, p.2.2.2.1, p.2.2.2.2.1, p.2.2.2.2.2.1, p.2.2.2.2.2.2⟩)
    (fun _ => rfl) (fun _ => rfl)

/-- The request with its strings and its list, once they are in bounds. -/
structure ParticipateRequest where
  name : ServiceName
  brokerip : IPString
  brokerport : UInt32
  votingversion : Nat
  committedversion : Nat
  acceptor : List IPString
deriving DecidableEq, Repr

/-- `acceptRead` after the connection was accepted. A negative result is `none`. -/
def acceptRead {α : Type} [Layout α] (newsfd : Channel) : Option (α × Channel) :=
  let r := newsfd.read (size α)
  if r.1.length ≠ size α then none else some (ofBytes r.1, r.2)

/-- What is read stood at the front of the stream. -/
theorem acceptRead_sound {α : Type} [Layout α] {c c' : Channel} {a : α}
    (h : acceptRead c = some (a, c')) : c.pending = bytes a ++ c'.pending := by
  by_cases hFull : (c.read (size α)).1.length = size α
  · simp only [acceptRead, hFull, ne_eq, not_true_eq_false, if_false] at h
    cases h
    rw [bytes_ofBytes _ hFull, Channel.read_append]
  · simp only [acceptRead, ne_eq, hFull, not_false_eq_true, if_true] at h
    cases h

/-- A value at the front of a complete stream is read. -/
theorem acceptRead_complete {α : Type} [Layout α] {c : Channel} {a : α} {rest : List UInt8}
    (hComplete : c.Complete) (hPending : c.pending = bytes a ++ rest) :
    ∃ c', acceptRead c = some (a, c') ∧ c'.pending = rest := by
  obtain ⟨hRead, hRest, _⟩ := Channel.read_of_complete hComplete hPending
  rw [length_bytes] at hRead hRest
  have hFull : (c.read (size α)).1.length = size α := by rw [hRead, length_bytes]
  refine ⟨(c.read (size α)).2, ?_, hRest⟩
  simp only [acceptRead, hFull, ne_eq, not_true_eq_false, if_false]
  rw [hRead, ofBytes_bytes]

end QpidRecovery
