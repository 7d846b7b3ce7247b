import QpidRecovery.Paxos.Memory
import QpidRecovery.Paxos.RoundTrip

/-! What the received bytes must look like for every later access to stay in
its array. Nothing in `receive` or `acceptRead` looks at the counts or at the
ends of the strings. -/
namespace QpidRecovery.Wire

open Layout

section Fields

/-- A field of a byte string, by its offset and size. -/
def field (l : List UInt8) (offset size : Nat) : List UInt8 := (l.drop offset).take size

def word (l : List UInt8) (offset : Nat) : Nat := ofLittleEndian (field l offset 4)

theorem field_zero {α : Type} [Layout α] (a : α) (rest : List UInt8) :
    field (bytes a ++ rest) 0 (size α) = bytes a := by
  rw [field, List.drop_zero, List.take_left' (length_bytes a)]

/-- Offsets are counted from behind the fields already passed. -/
theorem field_skip {α : Type} [Layout α] (a : α) (rest : List UInt8) (offset size' : Nat) :
    field (bytes a ++ rest) (size α + offset) size' = field rest offset size' := by
  rw [field, ← List.drop_drop, List.drop_left' (length_bytes a), field]

/-- A word is read from its little-endian bytes. -/
theorem word_zero (w : UInt32) (rest : List UInt8) : word (bytes w ++ rest) 0 = w.toNat := by
  have hField : field (bytes w ++ rest) 0 4 = bytes w := field_zero w rest
  rw [word, hField]
  exact ofLittleEndian_littleEndian w.toNat_lt

/-- Words, too, are counted from behind the fields already passed. -/
theorem word_skip {α : Type} [Layout α] (a : α) (rest : List UInt8) (offset : Nat) :
    word (bytes a ++ rest) (size α + offset) = word rest offset := by
  rw [word, field_skip, word]

theorem bytes_charArray {n : Nat} (a : CharArray n) : bytes a = a.elems :=
  List.flatMap_singleton' a.elems

/-- The bytes of a string are its field. -/
theorem field_charArray {n : Nat} (a : CharArray n) (rest : List UInt8) :
    field (bytes a ++ rest) 0 n = a.elems := by
  have hSize : size (CharArray n) = n := Nat.mul_one n
  have hField := field_zero a rest
  rw [hSize] at hField
  rw [hField, bytes_charArray]

/-- The strings of an array of strings. -/
theorem field_strings {n k : Nat} (a : CArray (CharArray n) k) (rest : List UInt8) {i : Nat}
    {s : CharArray n} (h : a.elems[i]? = some s) :
    field (bytes a ++ rest) (n * i) n = s.elems := by
  have hBytes : bytes a = a.elems.flatMap bytes := rfl
  rw [hBytes]
  clear hBytes
  generalize a.elems = elems at h
  induction elems generalizing i with
  | nil => cases h
  | cons t elems ih =>
      rw [List.flatMap_cons, List.append_assoc]
      cases i with
      | zero =>
          rw [List.getElem?_cons_zero, Option.some.injEq] at h
          rw [h]
          exact field_charArray s _
      | succ i =>
          have hSkip := field_skip t (elems.flatMap bytes ++ rest) (n * i) n
          have hOffset : size (CharArray n) + n * i = n * (i + 1) := by
            rw [show size (CharArray n) = n from Nat.mul_one n, Nat.mul_succ, Nat.add_comm]
          rw [hOffset] at hSkip
          rw [hSkip]
          exact ih h

end Fields

/-- The strings of a list of addresses from `offset` on end within their
`IP_LENGTH` bytes. -/
def AddressesEnd (l : List UInt8) (offset count : Nat) : Prop :=
  ∀ i < count, 0 ∈ field l (offset + IP_LENGTH * i) IP_LENGTH

/-- A header of 48 bytes, then the proposal's type at 48 and its fields from
56 on. A recovery proposal has its strings at 56, which a commit does not need,
and 80, an acceptor change its count at 56 and its list from 60 on. -/
def MessageWithinBounds (l : List UInt8) : Prop :=
  hasProposal (UInt32.ofNat (word l 0)) →
    (word l 48 = RECOVERYPROPOSAL.toNat →
      (UInt32.ofNat (word l 0) ≠ PaxosMessageType.phase3Commit.code →
        0 ∈ field l 56 IP_LENGTH) ∧ 0 ∈ field l 80 IP_LENGTH) ∧
    (word l 48 = ACCEPTORCHANGEPROPOSAL.toNat →
      word l 56 ≤ MAX_ACCEPTORS ∧ AddressesEnd l 60 (word l 56))

/-- The name at 0, the broker's address at 40, the length at 72 and the list
from 76 on. -/
structure RequestWithinBounds (l : List UInt8) : Prop where
  name : 0 ∈ field l 0 SERVICE_NAME_LENGTH
  length : word l 72 ≤ MAX_ACCEPTORS
  acceptor : AddressesEnd l 76 (word l 72)

/-- So are the addresses of a list. -/
theorem addressesEnd_skip {α : Type} [Layout α] (a : α) (rest : List UInt8) (offset count : Nat) :
    AddressesEnd (bytes a ++ rest) (size α + offset) count ↔ AddressesEnd rest offset count := by
  unfold AddressesEnd
  simp only [Nat.add_assoc, field_skip]

/-- Strings end in memory exactly if they do in the bytes. -/
theorem terminated_take_iff {a : CArray (CharArray IP_LENGTH) MAX_ACCEPTORS} {count : Nat}
    (rest : List UInt8) (hCount : count ≤ MAX_ACCEPTORS) :
    (∀ s ∈ a.elems.take count, s.Terminated) ↔ AddressesEnd (bytes a ++ rest) 0 count := by
  constructor
  · intro h i hi
    have hBound : i < a.elems.length := by rw [a.length_eq]; omega
    have hGet : a.elems[i]? = some a.elems[i] := List.getElem?_eq_getElem hBound
    rw [Nat.zero_add, field_strings a rest hGet]
    exact h _ (List.mem_take_iff_getElem.mpr ⟨i, by omega, rfl⟩)
  · intro h s hs
    obtain ⟨i, hi, rfl⟩ := List.mem_take_iff_getElem.mp hs
    have hGet : a.elems[i]? = some a.elems[i] := List.getElem?_eq_getElem (by omega)
    have hEnd := h i (by omega)
    rwa [Nat.zero_add, field_strings a rest hGet] at hEnd

section Images

variable (rest : List UInt8)

theorem PaxosHeader.word_type (h : PaxosHeader) : word (bytes h ++ rest) 0 = h.type.toNat := by
  have hBytes : bytes h = bytes h.type ++ (bytes h.version ++ bytes h.name) := rfl
  rw [hBytes, List.append_assoc, word_zero]

/-- The bounds of a recovery proposal, by the bytes of its strings. -/
theorem RecoveryContent.usedWithinBounds_iff (type : UInt32) (r : RecoveryContent) :
    (Content.recovery r).UsedWithinBounds type ↔
      (type ≠ PaxosMessageType.phase3Commit.code → 0 ∈ field (r.image ++ rest) 0 IP_LENGTH) ∧
        0 ∈ field (r.image ++ rest) 24 IP_LENGTH := by
  have hFail : field (r.image ++ rest) 0 IP_LENGTH = r.failip.elems := by
    rw [image, List.append_assoc, field_charArray]
  have hBackup : field (r.image ++ rest) 24 IP_LENGTH = r.backupip.elems := by
    simp only [image, List.append_assoc]
    exact (field_skip r.failip _ 4 IP_LENGTH).trans
      ((field_skip r.failport _ 0 IP_LENGTH).trans (field_charArray r.backupip _))
  rw [hFail, hBackup, Content.UsedWithinBounds]
  split
  next hCommit =>
    rw [hCommit]
    exact (and_iff_right fun hNot => absurd rfl hNot).symm
  next hCommit =>
    rw [forall_prop_of_true hCommit]
    rfl

/-- The bounds of an acceptor change, by its count and its list. -/
theorem AcceptorChangeContent.withinBounds_iff (a : AcceptorChangeContent) :
    a.WithinBounds ↔
      word (a.image ++ rest) 0 ≤ MAX_ACCEPTORS ∧
        AddressesEnd (a.image ++ rest) 4 (word (a.image ++ rest) 0) := by
  have hWord : word (a.image ++ rest) 0 = a.nacceptor.toNat := by
    rw [image, List.append_assoc, word_zero]
  have hSkip := addressesEnd_skip a.nacceptor (bytes a.acceptor ++ rest) 0 a.nacceptor.toNat
  rw [hWord, image, List.append_assoc]
  refine and_congr_right fun hCount => ?_
  rw [terminated_take_iff rest hCount, ← hSkip]
  rfl

/-- The bounds of a proposal behind its header. -/
theorem ProposalImage.withinBounds_iff (h : PaxosHeader) (p : ProposalImage)
    (hAnnounced : hasProposal h.type = true) :
    p.content.UsedWithinBounds h.type ↔ MessageWithinBounds (bytes h ++ p.image ++ rest) := by
  have hImage : bytes h ++ p.image ++ rest =
      bytes (h, p.content.type, p.newversion) ++ (p.content.image ++ rest) := by
    simp [ProposalImage.image, show bytes (h, p.content.type, p.newversion) =
      bytes h ++ (bytes p.content.type ++ bytes p.newversion) from rfl]
  have hType : UInt32.ofNat (word (bytes h ++ p.image ++ rest) 0) = h.type := by
    rw [List.append_assoc, h.word_type, UInt32.ofNat_toNat]
  have hTag : word (bytes h ++ p.image ++ rest) 48 = p.content.type.toNat := by
    rw [List.append_assoc, ProposalImage.image, List.append_assoc]
    exact (word_skip h _ 0).trans (word_zero _ _)
  rw [MessageWithinBounds, hType, hTag, hImage]
  simp only [hAnnounced, forall_const]
  obtain ⟨newversion, content⟩ := p
  have hFail := field_skip (h, content.type, newversion) (content.image ++ rest) 0 IP_LENGTH
  have hBackup := field_skip (h, content.type, newversion) (content.image ++ rest) 24 IP_LENGTH
  have hCount := word_skip (h, content.type, newversion) (content.image ++ rest) 0
  have hEnd (count : Nat) :=
    addressesEnd_skip (h, content.type, newversion) (content.image ++ rest) 4 count
  have hSize : size (PaxosHeader × UInt32 × UInt32) = 56 := rfl
  simp only [hSize, Nat.reduceAdd] at hFail hBackup hCount hEnd
  rw [hFail, hBackup, hCount, hEnd]
  cases content with
  | noProposal =>
      refine iff_of_true (by unfold Content.UsedWithinBounds; split <;> trivial)
        ⟨fun hType => ?_, fun hType => ?_⟩
      · exact absurd hType (by simp only [Content.type]; decide)
      · exact absurd hType (by simp only [Content.type]; decide)
  | recovery r =>
      rw [r.usedWithinBounds_iff rest]
      constructor
      · exact fun hBounds =>
          ⟨fun _ => hBounds, fun hType => absurd hType (by simp only [Content.type]; decide)⟩
      · exact fun hBounds => hBounds.1 rfl
  | acceptorChange a =>
      have hUsed : (Content.acceptorChange a).UsedWithinBounds h.type ↔ a.WithinBounds := by
        unfold Content.UsedWithinBounds
        split <;> exact Iff.rfl
      rw [hUsed, a.withinBounds_iff rest]
      constructor
      · exact fun hBounds =>
          ⟨fun hType => absurd hType (by simp only [Content.type]; decide), fun _ => hBounds⟩
      · exact fun hBounds => hBounds.2 rfl

/-- The bounds of a message, by its bytes. -/
theorem PaxosMessageImage.withinBounds_iff (m : PaxosMessageImage) (hTyped : m.WellTyped) :
    (∀ p, m.proposal = some p → p.content.UsedWithinBounds m.header.type) ↔
      MessageWithinBounds (m.image ++ rest) := by
  obtain ⟨header, proposal⟩ := m
  cases proposal with
  | none =>
      have hNone : hasProposal header.type = false := hTyped.announced.symm
      refine iff_of_true (by simp) ?_
      intro hSome
      rw [image, List.append_assoc, header.word_type, UInt32.ofNat_toNat, hNone] at hSome
      cases hSome
  | some p =>
      have hSome : hasProposal header.type = true := hTyped.announced.symm
      rw [image, Option.elim_some, ← p.withinBounds_iff rest header hSome]
      simp

theorem request_image (r : ParticipateRequestImage) :
    bytes r ++ rest =
      bytes (r.name, r.brokerip, r.brokerport, r.votingversion, r.committedversion) ++
        (bytes r.length ++ (bytes r.acceptor ++ rest)) := by
  have hBytes : bytes r = bytes r.name ++ (bytes r.brokerip ++ (bytes r.brokerport ++
      (bytes r.votingversion ++ (bytes r.committedversion ++
        (bytes r.length ++ bytes r.acceptor))))) := rfl
  have hFront : bytes (r.name, r.brokerip, r.brokerport, r.votingversion, r.committedversion) =
      bytes r.name ++ (bytes r.brokerip ++ (bytes r.brokerport ++ (bytes r.votingversion ++
        bytes r.committedversion))) := rfl
  simp only [hBytes, hFront, List.append_assoc]

/-- The bounds of a request, by its bytes. -/
theorem listWithinBounds_iff (r : ParticipateRequestImage) :
    ListWithinBounds r ↔ RequestWithinBounds (bytes r ++ rest) := by
  have hName : field (bytes r ++ rest) 0 SERVICE_NAME_LENGTH = r.name.elems := by
    have hBytes : bytes r = bytes r.name ++ _ := rfl
    rw [hBytes, List.append_assoc, field_charArray]
  have hLength : word (bytes r ++ rest) 72 = r.length.toNat := by
    rw [request_image]
    exact (word_skip _ _ 0).trans (word_zero _ _)
  have hEnd (count : Nat) : AddressesEnd (bytes r ++ rest) 76 count ↔
      AddressesEnd (bytes r.acceptor ++ rest) 0 count := by
    rw [request_image]
    exact (addressesEnd_skip _ _ 4 count).trans (addressesEnd_skip r.length _ 0 count)
  constructor
  · intro h
    refine ⟨by rw [hName]; exact h.name, by rw [hLength]; exact h.length, ?_⟩
    rw [hLength, hEnd]
    exact (terminated_take_iff rest h.length).mp h.acceptor
  · intro h
    have hBound := h.length
    have hAcceptor := h.acceptor
    rw [hLength] at hBound hAcceptor
    refine ⟨by rw [CharArray.Terminated, ← hName]; exact h.name, hBound, ?_⟩
    exact (terminated_take_iff rest hBound).mpr ((hEnd _).mp hAcceptor)

theorem brokerip_field (r : ParticipateRequestImage) :
    field (bytes r ++ rest) 40 IP_LENGTH = r.brokerip.elems := by
  have hBytes : bytes r = bytes r.name ++ (bytes r.brokerip ++ _) := rfl
  rw [hBytes, List.append_assoc, List.append_assoc]
  exact (field_skip _ _ 0 IP_LENGTH).trans (field_charArray _ _)

end Images

/-- Whatever bytes arrive, what is received and handed on is used within the
bounds of its arrays exactly when the bytes have their counts and string ends
in place. -/
theorem received_inRange_iff (sfd : Channel) :
    (∀ m rest, receive sfd = some (m, rest) →
      (m.InRange ↔ MessageWithinBounds sfd.pending)) ∧
    (∀ (r : ParticipateRequestImage) rest, acceptRead sfd = some (r, rest) →
      (∀ accname, (createAcceptor accname r).isSome ↔ RequestWithinBounds sfd.pending) ∧
      (∀ monitor sender, (createProposer monitor sender r).isSome ↔
        0 ∈ field sfd.pending 40 IP_LENGTH ∧ RequestWithinBounds sfd.pending)) := by
  constructor
  · intro m rest hReceive
    obtain ⟨hPending, hTyped⟩ := receive_sound hReceive
    rw [hPending, PaxosMessageImage.inRange_iff hTyped.announced]
    exact m.withinBounds_iff _ hTyped
  · intro r rest hRead
    have hPending := acceptRead_sound hRead
    have hList := listWithinBounds_iff rest.pending r
    constructor
    · intro accname
      rw [isSome_createAcceptor, hList, hPending]
    · intro monitor sender
      rw [isSome_createProposer, hList, hPending, brokerip_field]
      rfl

/-- A commit of six acceptors, although the array has five. -/
def sixAcceptors : PaxosMessageImage where
  header := ⟨PaxosMessageType.phase3Commit.code, 2, ofBytes []⟩
  proposal := some ⟨2, .acceptorChange ⟨6, ofBytes []⟩⟩

/-- A request that counts six acceptors. -/
def sixAcceptorsRequest : ParticipateRequestImage where
  name := ofBytes []
  brokerip := ofBytes []
  brokerport := 5672
  votingversion := 3
  committedversion := 2
  length := 6
  acceptor := ofBytes []

/-- Both are received, and both are then used out of bounds. -/
theorem sixAcceptors_received_outOfRange :
    (∃ rest, receive ⟨sixAcceptors.image, fun _ => none, []⟩ = some (sixAcceptors, rest)) ∧
    ¬ sixAcceptors.InRange ∧
    (∃ rest, acceptRead ⟨bytes sixAcceptorsRequest, fun _ => none, []⟩ =
      some (sixAcceptorsRequest, rest)) ∧
    (∀ accname, createAcceptor accname sixAcceptorsRequest = none) ∧
    (∀ monitor sender, createProposer monitor sender sixAcceptorsRequest = none) := by
  have hTyped : sixAcceptors.WellTyped := ⟨rfl, by rintro p ⟨⟩; simp⟩
  have hRequest : ¬ ListWithinBounds sixAcceptorsRequest :=
    fun h => absurd h.length (by decide)
  refine ⟨?_, ?_, ?_, ?_, ?_⟩
  · obtain ⟨rest, hReceive, _⟩ := receive_complete (c := ⟨sixAcceptors.image, fun _ => none, []⟩)
      (fun _ => rfl) (List.append_nil _).symm hTyped
    exact ⟨rest, hReceive⟩
  · intro h
    have hBounds := (PaxosMessageImage.inRange_iff hTyped.announced).mp h _ rfl
    exact absurd hBounds.1 (by decide)
  · obtain ⟨rest, hRead, _⟩ := acceptRead_complete
      (c := ⟨bytes sixAcceptorsRequest, fun _ => none, []⟩) (fun _ => rfl)
      (List.append_nil _).symm
    exact ⟨rest, hRead⟩
  · intro accname
    rw [← Option.not_isSome_iff_eq_none, isSome_createAcceptor]
    exact hRequest
  · intro monitor sender
    rw [← Option.not_isSome_iff_eq_none, isSome_createProposer]
    exact fun h => hRequest h.2

end QpidRecovery.Wire
