import QpidRecovery.Paxos.Wire

/-! Whatever the transport does to the reads, the messages that come out of a
connection are the first ones that went in. -/
namespace QpidRecovery.Wire

open Layout

section RwType
variable {α : Type} [Layout α]

/-- After an error nothing more is transferred. -/
theorem rwType_of_neg {rw : RW} {buff : α} {c : Channel} {t : Int} (ht : t < 0) :
    rwType rw buff c t = ⟨buff, c, t⟩ := by
  simp only [rwType, if_pos ht]

/-- A read that stops early is an error. -/
theorem rwType_read_short {buff : α} {c : Channel} {t : Int} (ht : 0 ≤ t)
    (hShort : (c.read (size α)).1.length ≠ size α) :
    (rwType .read buff c t).returnsum = -1 := by
  rw [rwType, if_neg (Int.not_lt.mpr ht)]
  simp only [if_pos hShort]

/-- A read of the whole object adds its size to the total. -/
theorem rwType_read_full {buff : α} {c : Channel} {t : Int} (ht : 0 ≤ t)
    (hFull : (c.read (size α)).1.length = size α) :
    rwType .read buff c t = ⟨ofBytes (c.read (size α)).1, (c.read (size α)).2, t + size α⟩ := by
  rw [rwType, if_neg (Int.not_lt.mpr ht)]
  simp only [hFull, ne_eq, not_true_eq_false, if_false]

/-- A write puts the whole object on the connection. -/
theorem rwType_write {buff : α} {c : Channel} {t : Int} (ht : 0 ≤ t) :
    rwType .write buff c t =
      ⟨buff, { c with written := c.written ++ bytes buff }, t + size α⟩ := by
  simp [rwType, if_neg (Int.not_lt.mpr ht), Channel.write]

/-- A total that did not turn negative stands for a full transfer. -/
theorem rwType_read_sound {buff : α} {c : Channel} {t : Int}
    (h : 0 ≤ (rwType .read buff c t).returnsum) :
    0 ≤ t ∧ c.pending =
      bytes (rwType .read buff c t).value ++ (rwType .read buff c t).channel.pending := by
  by_cases ht : 0 ≤ t
  · by_cases hFull : (c.read (size α)).1.length = size α
    · refine ⟨ht, ?_⟩
      rw [rwType_read_full ht hFull, bytes_ofBytes _ hFull, Channel.read_append]
    · rw [rwType_read_short ht hFull] at h
      exact absurd h (by decide)
  · rw [rwType_of_neg (Int.not_le.mp ht)] at h
    exact absurd h ht

/-- What was written is what is read, if no read stops early. -/
theorem rwType_read_complete (buff : α) {a : α} {c : Channel} {t : Int} {rest : List UInt8}
    (hComplete : c.Complete) (ht : 0 ≤ t) (hPending : c.pending = bytes a ++ rest) :
    (rwType .read buff c t).value = a ∧
      0 ≤ (rwType .read buff c t).returnsum ∧
      (rwType .read buff c t).channel.pending = rest ∧
      (rwType .read buff c t).channel.Complete := by
  obtain ⟨hRead, hRest, hStill⟩ := Channel.read_of_complete hComplete hPending
  rw [length_bytes] at hRead hRest hStill
  have hFull : (c.read (size α)).1.length = size α := by rw [hRead, length_bytes]
  rw [rwType_read_full ht hFull]
  exact ⟨by rw [hRead, ofBytes_bytes], by dsimp only; omega, hRest, hStill⟩

/-- What a write leaves behind, in a form that chains over the fields. -/
theorem rwType_write_sound (buff : α) {c d : Channel} {t : Int} {done : List UInt8} (ht : 0 ≤ t)
    (hChannel : c = { d with written := d.written ++ done }) :
    (rwType .write buff c t).value = buff ∧
      0 ≤ (rwType .write buff c t).returnsum ∧
      (rwType .write buff c t).channel =
        { d with written := d.written ++ (done ++ bytes buff) } := by
  rw [rwType_write ht, hChannel]
  exact ⟨rfl, by dsimp only; omega, by simp only [List.append_assoc]⟩

end RwType

/-- The bytes of the fields of a class. -/
def RecoveryContent.image (p : RecoveryContent) : List UInt8 :=
  bytes p.failip ++ (bytes p.failport ++ (bytes p.backupip ++ (bytes p.backupport ++ bytes p.score)))

def AcceptorChangeContent.image (p : AcceptorChangeContent) : List UInt8 :=
  bytes p.nacceptor ++ bytes p.acceptor

def Content.image : Content → List UInt8
  | .noProposal => []
  | .recovery r => r.image
  | .acceptorChange a => a.image

def ProposalImage.image (p : ProposalImage) : List UInt8 :=
  bytes p.content.type ++ (bytes p.newversion ++ p.content.image)

def PaxosMessageImage.image (m : PaxosMessageImage) : List UInt8 :=
  bytes m.header ++ m.proposal.elim [] ProposalImage.image

/-- The header announces a proposal exactly when there is one, and it is one
that carries something. -/
structure PaxosMessageImage.WellTyped (m : PaxosMessageImage) : Prop where
  announced : m.proposal.isSome = hasProposal m.header.type
  real : ∀ p, m.proposal = some p → p.content ≠ .noProposal

section Contents

/-- What is read as a recovery proposal is its image. -/
theorem RecoveryContent.read_sound {p : RecoveryContent} {c : Channel}
    (h : 0 ≤ (p.sendReceiveContent .read c).returnsum) :
    c.pending = (p.sendReceiveContent .read c).value.image ++
      (p.sendReceiveContent .read c).channel.pending := by
  simp only [sendReceiveContent] at h ⊢
  obtain ⟨h4, hScore⟩ := rwType_read_sound h
  obtain ⟨h3, hBackupport⟩ := rwType_read_sound h4
  obtain ⟨h2, hBackupip⟩ := rwType_read_sound h3
  obtain ⟨h1, hFailport⟩ := rwType_read_sound h2
  obtain ⟨_, hFailip⟩ := rwType_read_sound h1
  simp only [image, List.append_assoc]
  rw [← hScore, ← hBackupport, ← hBackupip, ← hFailport, ← hFailip]

/-- The image of a recovery proposal is read as this proposal. -/
theorem RecoveryContent.read_complete {p q : RecoveryContent} {c : Channel} {rest : List UInt8}
    (hComplete : c.Complete) (hPending : c.pending = q.image ++ rest) :
    (p.sendReceiveContent .read c).value = q ∧
      0 ≤ (p.sendReceiveContent .read c).returnsum ∧
      (p.sendReceiveContent .read c).channel.pending = rest ∧
      (p.sendReceiveContent .read c).channel.Complete := by
  simp only [image, List.append_assoc] at hPending
  obtain ⟨v1, t1, p1, c1⟩ :=
    rwType_read_complete p.failip hComplete (Int.le_refl 0) hPending
  obtain ⟨v2, t2, p2, c2⟩ := rwType_read_complete p.failport c1 t1 p1
  obtain ⟨v3, t3, p3, c3⟩ := rwType_read_complete p.backupip c2 t2 p2
  obtain ⟨v4, t4, p4, c4⟩ := rwType_read_complete p.backupport c3 t3 p3
  obtain ⟨v5, t5, p5, c5⟩ := rwType_read_complete p.score c4 t4 p4
  refine ⟨?_, t5, p5, c5⟩
  simp only [sendReceiveContent]
  rw [v1, v2, v3, v4, v5]

/-- A recovery proposal is written as its image. -/
theorem RecoveryContent.write_image (p : RecoveryContent) (c : Channel) :
    0 ≤ (p.sendReceiveContent .write c).returnsum ∧
      (p.sendReceiveContent .write c).channel =
        { c with written := c.written ++ p.image } := by
  obtain ⟨_, t1, c1⟩ :=
    rwType_write_sound p.failip (Int.le_refl 0) c.written_nil
  obtain ⟨_, t2, c2⟩ := rwType_write_sound p.failport t1 c1
  obtain ⟨_, t3, c3⟩ := rwType_write_sound p.backupip t2 c2
  obtain ⟨_, t4, c4⟩ := rwType_write_sound p.backupport t3 c3
  obtain ⟨_, t5, c5⟩ := rwType_write_sound p.score t4 c4
  refine ⟨t5, c5.trans ?_⟩
  simp [image]

/-- What is read as an acceptor change is its image. -/
theorem AcceptorChangeContent.read_sound {p : AcceptorChangeContent} {c : Channel}
    (h : 0 ≤ (p.sendReceiveContent .read c).returnsum) :
    c.pending = (p.sendReceiveContent .read c).value.image ++
      (p.sendReceiveContent .read c).channel.pending := by
  simp only [sendReceiveContent] at h ⊢
  obtain ⟨h1, hAcceptor⟩ := rwType_read_sound h
  obtain ⟨_, hNacceptor⟩ := rwType_read_sound h1
  simp only [image, List.append_assoc]
  rw [← hAcceptor, ← hNacceptor]

/-- The image of an acceptor change is read as this change. -/
theorem AcceptorChangeContent.read_complete {p q : AcceptorChangeContent} {c : Channel}
    {rest : List UInt8} (hComplete : c.Complete) (hPending : c.pending = q.image ++ rest) :
    (p.sendReceiveContent .read c).value = q ∧
      0 ≤ (p.sendReceiveContent .read c).returnsum ∧
      (p.sendReceiveContent .read c).channel.pending = rest ∧
      (p.sendReceiveContent .read c).channel.Complete := by
  simp only [image, List.append_assoc] at hPending
  obtain ⟨v1, t1, p1, c1⟩ :=
    rwType_read_complete p.nacceptor hComplete (Int.le_refl 0) hPending
  obtain ⟨v2, t2, p2, c2⟩ := rwType_read_complete p.acceptor c1 t1 p1
  refine ⟨?_, t2, p2, c2⟩
  simp only [sendReceiveContent]
  rw [v1, v2]

/-- An acceptor change is written as its image. -/
theorem AcceptorChangeContent.write_image (p : AcceptorChangeContent) (c : Channel) :
    0 ≤ (p.sendReceiveContent .write c).returnsum ∧
      (p.sendReceiveContent .write c).channel =
        { c with written := c.written ++ p.image } := by
  obtain ⟨_, t1, c1⟩ :=
    rwType_write_sound p.nacceptor (Int.le_refl 0) c.written_nil
  obtain ⟨_, t2, c2⟩ := rwType_write_sound p.acceptor t1 c1
  exact ⟨t2, c2⟩

theorem Content.write_image (p : Content) (c : Channel) :
    0 ≤ (p.sendReceiveContent .write c).returnsum ∧
      (p.sendReceiveContent .write c).channel =
        { c with written := c.written ++ p.image } := by
  cases p with
  | noProposal => exact ⟨Int.le_refl 0, c.written_nil⟩
  | recovery r => exact r.write_image c
  | acceptorChange a => exact a.write_image c

end Contents

section Proposals

/-- A proposal is written with its type and its version in front. -/
theorem sendProposal_image (p : ProposalImage) (c : Channel) :
    0 ≤ (sendProposal p c).1 ∧
      (sendProposal p c).2 = { c with written := c.written ++ p.image } := by
  obtain ⟨_, t1, c1⟩ :=
    rwType_write_sound p.content.type (Int.le_refl 0) c.written_nil
  obtain ⟨_, t2, c2⟩ := rwType_write_sound p.newversion t1 c1
  obtain ⟨t3, c3⟩ := p.content.write_image
    (rwType .write p.newversion (rwType .write p.content.type c 0).channel
      (rwType .write p.content.type c 0).returnsum).channel
  simp only [sendProposal]
  rw [if_neg (by omega)]
  refine ⟨by omega, ?_⟩
  rw [c3, c2]
  simp [ProposalImage.image]

/-- What is received was there as an image, and is no `NoProposal`. -/
theorem receiveProposal_sound {c c' : Channel} {p : ProposalImage}
    (h : receiveProposal c = some (p, c')) :
    c.pending = p.image ++ c'.pending ∧ p.content ≠ .noProposal := by
  simp only [receiveProposal] at h
  generalize hType : rwType .read (0 : UInt32) c 0 = type at h
  generalize hVersion : rwType .read (0 : UInt32) type.channel type.returnsum = newversion at h
  split at h
  · cases h
  next hRead =>
    subst hVersion
    obtain ⟨t1, hNewversion⟩ := rwType_read_sound (Int.not_lt.mp hRead)
    subst hType
    obtain ⟨_, hTag⟩ := rwType_read_sound t1
    rw [hNewversion] at hTag
    split at h
    · cases h
    next =>
      split at h
      next hRecovery =>
        split at h
        · cases h
        next hContent =>
          cases h
          rw [RecoveryContent.read_sound (Int.not_lt.mp hContent), hRecovery] at hTag
          exact ⟨by simpa [ProposalImage.image, Content.type, Content.image] using hTag, by simp⟩
      next =>
        split at h
        next hAcceptorChange =>
          split at h
          · cases h
          next hContent =>
            cases h
            rw [AcceptorChangeContent.read_sound (Int.not_lt.mp hContent), hAcceptorChange] at hTag
            exact ⟨by simpa [ProposalImage.image, Content.type, Content.image] using hTag,
              by simp⟩
        · cases h

/-- The image of any other proposal is received as this proposal. -/
theorem receiveProposal_complete {c : Channel} {p : ProposalImage} {rest : List UInt8}
    (hComplete : c.Complete) (hPending : c.pending = p.image ++ rest)
    (hReal : p.content ≠ .noProposal) :
    ∃ c', receiveProposal c = some (p, c') ∧ c'.pending = rest ∧ c'.Complete := by
  simp only [ProposalImage.image, List.append_assoc] at hPending
  obtain ⟨v1, t1, p1, c1⟩ :=
    rwType_read_complete (0 : UInt32) hComplete (Int.le_refl 0) hPending
  obtain ⟨v2, t2, p2, c2⟩ := rwType_read_complete (0 : UInt32) c1 t1 p1
  simp only [receiveProposal, v1, v2, if_neg (Int.not_lt.mpr t2)]
  obtain ⟨newversion, content⟩ := p
  cases content with
  | noProposal => exact absurd rfl hReal
  | recovery r =>
      obtain ⟨v3, t3, p3, c3⟩ := RecoveryContent.read_complete (p := .fresh) c2 p2
      have hTag : RECOVERYPROPOSAL ≠ NOPROPOSAL := by decide
      simp only [Content.type, if_neg hTag, if_true, if_neg (Int.not_lt.mpr t3), v3]
      exact ⟨_, rfl, p3, c3⟩
  | acceptorChange a =>
      obtain ⟨v3, t3, p3, c3⟩ := AcceptorChangeContent.read_complete (p := .fresh) c2 p2
      have hTag : ACCEPTORCHANGEPROPOSAL ≠ NOPROPOSAL := by decide
      have hTag' : ACCEPTORCHANGEPROPOSAL ≠ RECOVERYPROPOSAL := by decide
      simp only [Content.type, if_neg hTag, if_neg hTag', if_true, if_neg (Int.not_lt.mpr t3), v3]
      exact ⟨_, rfl, p3, c3⟩

theorem receiveProposal_noProposal {c : Channel} {v : UInt32} {rest : List UInt8}
    (hComplete : c.Complete) (hPending : c.pending = (ProposalImage.mk v .noProposal).image ++ rest) :
    receiveProposal c = none := by
  simp only [ProposalImage.image, List.append_assoc] at hPending
  obtain ⟨v1, t1, p1, c1⟩ :=
    rwType_read_complete (0 : UInt32) hComplete (Int.le_refl 0) hPending
  obtain ⟨v2, t2, p2, c2⟩ := rwType_read_complete (0 : UInt32) c1 t1 p1
  simp [receiveProposal, v1, Content.type]

end Proposals

section Messages

/-- What `receive` delivers was at the front of the stream, byte for byte, and
nothing else was taken. -/
theorem receive_sound {c c' : Channel} {m : PaxosMessageImage} (h : receive c = some (m, c')) :
    c.pending = m.image ++ c'.pending ∧ m.WellTyped := by
  simp only [receive, receivePaxosHeader] at h
  by_cases hFull : (c.read (size PaxosHeader)).1.length = size PaxosHeader
  · have hHeader : c.pending = bytes (ofBytes (c.read (size PaxosHeader)).1 : PaxosHeader) ++
        (c.read (size PaxosHeader)).2.pending := by
      rw [bytes_ofBytes _ hFull, Channel.read_append]
    simp only [if_pos hFull] at h
    split at h
    next hProposal =>
      split at h
      · cases h
      next proposal sfd hReceive =>
        cases h
        obtain ⟨hPending, hReal⟩ := receiveProposal_sound hReceive
        rw [hPending] at hHeader
        refine ⟨by simpa [PaxosMessageImage.image] using hHeader, by simp [hProposal], ?_⟩
        rintro p ⟨⟩
        exact hReal
    next hProposal =>
      cases h
      refine ⟨by simpa [PaxosMessageImage.image] using hHeader, ?_, by simp⟩
      simpa using hProposal
  · simp only [if_neg hFull] at h
    cases h

/-- The image of a message that may be sent is received as this message. -/
theorem receive_complete {c : Channel} {m : PaxosMessageImage} {rest : List UInt8}
    (hComplete : c.Complete) (hPending : c.pending = m.image ++ rest) (hTyped : m.WellTyped) :
    ∃ c', receive c = some (m, c') ∧ c'.pending = rest ∧ c'.Complete := by
  simp only [PaxosMessageImage.image, List.append_assoc] at hPending
  obtain ⟨hRead, hRest, hStill⟩ := Channel.read_of_complete hComplete hPending
  rw [length_bytes] at hRead hRest hStill
  have hHeader : receivePaxosHeader c = some (m.header, (c.read (size PaxosHeader)).2) := by
    rw [receivePaxosHeader, hRead, if_pos (length_bytes _), ofBytes_bytes]
  obtain ⟨header, proposal⟩ := m
  cases proposal with
  | none =>
      have hNone : hasProposal header.type = false := hTyped.announced.symm
      exact ⟨_, by simp [receive, hHeader, hNone], hRest, hStill⟩
  | some p =>
      have hSome : hasProposal header.type = true := hTyped.announced.symm
      obtain ⟨c', hReceive, hPending', hComplete'⟩ :=
        receiveProposal_complete hStill hRest (hTyped.real p rfl)
      exact ⟨c', by simp [receive, hHeader, hSome, hReceive], hPending', hComplete'⟩

/-- A message whose proposal carries nothing is not received. -/
theorem receive_noProposal {c : Channel} {header : PaxosHeader} {v : UInt32} {rest : List UInt8}
    (hComplete : c.Complete) (hType : hasProposal header.type = true)
    (hPending : c.pending = (PaxosMessageImage.mk header (some ⟨v, .noProposal⟩)).image ++ rest) :
    receive c = none := by
  simp only [PaxosMessageImage.image, List.append_assoc] at hPending
  obtain ⟨hRead, hRest, hStill⟩ := Channel.read_of_complete hComplete hPending
  rw [length_bytes] at hRead hRest hStill
  have hHeader : receivePaxosHeader c = some (header, (c.read (size PaxosHeader)).2) := by
    rw [receivePaxosHeader, hRead, if_pos (length_bytes _), ofBytes_bytes]
  simp [receive, hHeader, hType, receiveProposal_noProposal hStill hRest]

/-- No message is a proper beginning of another one, since a reader that is
never cut short tells them apart. -/
theorem image_append_inj {m m' : PaxosMessageImage} {s t : List UInt8} (hm : m.WellTyped)
    (hm' : m'.WellTyped) (h : m.image ++ s = m'.image ++ t) : m = m' ∧ s = t := by
  let c : Channel := ⟨m.image ++ s, fun _ => none, []⟩
  obtain ⟨c₁, h₁, hs, _⟩ := receive_complete (c := c) (fun _ => rfl) rfl hm
  obtain ⟨c₂, h₂, ht, _⟩ := receive_complete (c := c) (fun _ => rfl) h hm'
  rw [h₁] at h₂
  cases h₂
  exact ⟨rfl, hs.symm.trans ht⟩

end Messages

end QpidRecovery.Wire
