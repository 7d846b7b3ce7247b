import QpidRecovery.Paxos.Wire
import QpidRecovery.Paxos.Message
import QpidRecovery.Common.ParticipateRequest

/-! What the constructors, the comparisons and the connection table do with a
received object. Each access is checked against the bounds of its array, and
`none` is an access outside them. -/
namespace QpidRecovery.Wire

/-- The loop `for i < nnewlist` over `strcpy(acceptor[i], newlist[i])`, where
both lists have the elements of the second argument. -/
def copyList : Nat → List (CharArray IP_LENGTH) → Option (List IPString)
  | 0, _ => some []
  | _ + 1, [] => none
  | n + 1, s :: newlist => do
      let t ← s.toCString
      let rest ← copyList n newlist
      return t :: rest

/-- The constructor of `AcceptorChangeProposal`. -/
def newAcceptorChangeProposal (ver : Nat) (nnewlist : UInt32)
    (newlist : CArray (CharArray IP_LENGTH) MAX_ACCEPTORS) : Option AcceptorChangeProposal := do
  let acceptor ← copyList nnewlist.toNat newlist.elems
  return ⟨ver, acceptor⟩

/-- The addresses `connectAcceptors` dials. Its table `accsfd` has as many
elements as the list of addresses. -/
def connectAcceptors (nacceptor : UInt32)
    (acceptors : CArray (CharArray IP_LENGTH) MAX_ACCEPTORS) : Option (List IPString) :=
  copyList nacceptor.toNat acceptors.elems

def compareList : Nat → List (CharArray IP_LENGTH) → List (CharArray IP_LENGTH) → Option Int
  | 0, _, _ => some 0
  | n + 1, s :: p, t :: a => do
      let c ← s.strcmp t
      if c ≠ 0 then return c else compareList n p a
  | _ + 1, _, _ => none

def AcceptorChangeContent.compare (p a : AcceptorChangeContent) : Option Int :=
  if p.nacceptor ≠ a.nacceptor then some (if p.nacceptor > a.nacceptor then 1 else -1)
  else compareList p.nacceptor.toNat p.acceptor.elems a.acceptor.elems

def RecoveryContent.compare (p r : RecoveryContent) : Option Int :=
  if p.score ≠ r.score then some (if p.score > r.score then 1 else -1)
  else do
    let c ← p.backupip.strcmp r.backupip
    if c ≠ 0 then return c
    else
      let c ← p.failip.strcmp r.failip
      if c ≠ 0 then return c
      else if p.backupport ≠ r.backupport then
        return if p.backupport > r.backupport then 1 else -1
      else if p.failport ≠ r.failport then
        return if p.failport > r.failport then 1 else -1
      else return 0

/-- `getValue`, by which proposals of different types compare. -/
def Content.getValue : Content → Int
  | .noProposal => -2
  | .recovery r => r.score.toInt32.toInt
  | .acceptorChange _ => -1

def Content.compare : Content → Content → Option Int
  | .noProposal, .noProposal => some 0
  | .recovery p, .recovery r => p.compare r
  | .acceptorChange p, .acceptorChange a => p.compare a
  | p, q => some (if p.getValue > q.getValue then 1 else -1)

/-- What `handleCommit` copies out of a committed proposal: the backup's
address, or the list of the next machine, which then dials it. -/
def Content.copy (newversion : Nat) : Content → Option (List IPString)
  | .noProposal => some []
  | .recovery r => do
      let backupip ← r.backupip.toCString
      return [backupip]
  | .acceptorChange a => do
      let last ← newAcceptorChangeProposal newversion a.nacceptor a.acceptor
      let _ ← connectAcceptors a.nacceptor a.acceptor
      return last.acceptor

/-- `isRecepient`, in a machine whose name was copied into `name`. -/
def isRecepient (name : CharArray SERVICE_NAME_LENGTH) (m : PaxosHeader) : Option Bool := do
  let c ← m.name.strcmp name
  return c = 0

/-- The count and the addresses of an acceptor change are within bounds. -/
def AcceptorChangeContent.WithinBounds (a : AcceptorChangeContent) : Prop :=
  a.nacceptor.toNat ≤ MAX_ACCEPTORS ∧
    ∀ s ∈ a.acceptor.elems.take a.nacceptor.toNat, s.Terminated

/-- The fields of a proposal that are strings or counts are within bounds. -/
def Content.WithinBounds : Content → Prop
  | .noProposal => True
  | .recovery r => r.failip.Terminated ∧ r.backupip.Terminated
  | .acceptorChange a => a.WithinBounds

/-- Those of them that a commit reads. It leaves the failed broker alone. -/
def Content.CommitWithinBounds : Content → Prop
  | .noProposal => True
  | .recovery r => r.backupip.Terminated
  | .acceptorChange a => a.WithinBounds

/-- Those that are read from a message of this type. -/
def Content.UsedWithinBounds (type : UInt32) (p : Content) : Prop :=
  if type = PaxosMessageType.phase3Commit.code then p.CommitWithinBounds else p.WithinBounds

section Lists

/-- The copy stays in range if the list is long enough and all its strings
end. -/
theorem isSome_copyList (n : Nat) (newlist : List (CharArray IP_LENGTH)) :
    (copyList n newlist).isSome ↔ n ≤ newlist.length ∧ ∀ s ∈ newlist.take n, s.Terminated := by
  induction n generalizing newlist with
  | zero => simp [copyList]
  | succ n ih =>
      cases newlist with
      | nil => simp [copyList]
      | cons s newlist =>
          have hHead := CharArray.isSome_toCString s
          have hTail := ih newlist
          cases hs : s.toCString <;> cases hRest : copyList n newlist <;>
            simp_all [copyList]

/-- One of two lists within bounds is enough to compare them. -/
theorem isSome_compareList {n : Nat} {p a : List (CharArray IP_LENGTH)} (hp : n ≤ p.length)
    (ha : n ≤ a.length) (hTerminated : ∀ s ∈ p.take n, s.Terminated) :
    (compareList n p a).isSome := by
  induction n generalizing p a with
  | zero => rfl
  | succ n ih =>
      cases p with
      | nil => cases hp
      | cons s p =>
          cases a with
          | nil => cases ha
          | cons t a =>
              obtain ⟨c, hc⟩ := Option.isSome_iff_exists.mp
                (CharArray.isSome_strcmp (b := t) (Or.inl (hTerminated s (by simp))))
              have hRest := ih (Nat.le_of_succ_le_succ hp) (Nat.le_of_succ_le_succ ha)
                (fun u hu => hTerminated u (by simp [hu]))
              by_cases hZero : c = 0 <;> simp [compareList, hc, hZero, hRest]

/-- A list that compares with itself is long enough, and all its strings end. -/
theorem terminated_of_compareList {n : Nat} {l : List (CharArray IP_LENGTH)}
    (h : (compareList n l l).isSome) : n ≤ l.length ∧ ∀ s ∈ l.take n, s.Terminated := by
  induction n generalizing l with
  | zero => simp
  | succ n ih =>
      cases l with
      | nil => cases h
      | cons s l =>
          rw [compareList] at h
          cases hStrcmp : s.strcmp s with
          | none => simp [hStrcmp] at h
          | some c =>
              have hTerminated : s.Terminated :=
                (CharArray.isSome_strcmp_self s).mp (by simp [hStrcmp])
              rw [CharArray.strcmp_self hTerminated] at h
              obtain ⟨hLength, hRest⟩ := ih h
              refine ⟨Nat.succ_le_succ hLength, ?_⟩
              rw [List.take_succ_cons, List.forall_mem_cons]
              exact ⟨hTerminated, hRest⟩

section Copies
variable (ver : Nat) (n : UInt32) (newlist : CArray (CharArray IP_LENGTH) MAX_ACCEPTORS)

/-- Dialling the acceptors reads their addresses. -/
theorem isSome_connectAcceptors : (connectAcceptors n newlist).isSome ↔
    n.toNat ≤ MAX_ACCEPTORS ∧ ∀ s ∈ newlist.elems.take n.toNat, s.Terminated := by
  rw [connectAcceptors, isSome_copyList, newlist.length_eq]

/-- The constructor reads the same addresses. -/
theorem isSome_newAcceptorChangeProposal : (newAcceptorChangeProposal ver n newlist).isSome ↔
    n.toNat ≤ MAX_ACCEPTORS ∧ ∀ s ∈ newlist.elems.take n.toNat, s.Terminated := by
  rw [← isSome_connectAcceptors, connectAcceptors]
  cases h : copyList n.toNat newlist.elems <;> simp [newAcceptorChangeProposal, h]

end Copies

end Lists

section Proposals

/-- A recovery proposal within bounds compares with any other. -/
theorem RecoveryContent.isSome_compare {p r : RecoveryContent} (hBackup : p.backupip.Terminated)
    (hFail : p.failip.Terminated) : (p.compare r).isSome := by
  obtain ⟨c, hc⟩ := Option.isSome_iff_exists.mp
    (CharArray.isSome_strcmp (b := r.backupip) (Or.inl hBackup))
  obtain ⟨d, hd⟩ := Option.isSome_iff_exists.mp
    (CharArray.isSome_strcmp (b := r.failip) (Or.inl hFail))
  simp only [compare, hc, hd, Option.bind_eq_bind, Option.bind_some]
  split_ifs <;> rfl

/-- Two copies of one recovery proposal compare within bounds only if both
their strings end. -/
theorem RecoveryContent.terminated_of_compare {r : RecoveryContent} (h : (r.compare r).isSome) :
    r.failip.Terminated ∧ r.backupip.Terminated := by
  rw [compare, if_neg (not_not.mpr rfl)] at h
  cases hBackup : r.backupip.strcmp r.backupip with
  | none => simp [hBackup] at h
  | some c =>
      have hTerminated : r.backupip.Terminated :=
        (CharArray.isSome_strcmp_self _).mp (by simp [hBackup])
      rw [CharArray.strcmp_self hTerminated] at h
      refine ⟨?_, hTerminated⟩
      rw [← CharArray.isSome_strcmp_self]
      cases hFail : r.failip.strcmp r.failip with
      | none => simp [hFail] at h
      | some d => rfl

/-- An acceptor change within bounds compares with any other. -/
theorem AcceptorChangeContent.isSome_compare {p a : AcceptorChangeContent}
    (hBounds : p.WithinBounds) : (p.compare a).isSome := by
  unfold compare
  split
  · rfl
  · exact isSome_compareList (by rw [p.acceptor.length_eq]; exact hBounds.1)
      (by rw [a.acceptor.length_eq]; exact hBounds.1) hBounds.2

/-- Two copies of one acceptor change compare only within bounds. -/
theorem AcceptorChangeContent.withinBounds_of_compare {a : AcceptorChangeContent}
    (h : (a.compare a).isSome) : a.WithinBounds := by
  rw [compare, if_neg (not_not.mpr rfl)] at h
  obtain ⟨hLength, hTerminated⟩ := terminated_of_compareList h
  rw [a.acceptor.length_eq] at hLength
  exact ⟨hLength, hTerminated⟩

/-- Every access to the proposal of a message of this type is in range. In the
first two phases an acceptor compares it with the proposal that it promised,
which is an earlier copy of it or another one within bounds, and what is
committed is copied. -/
structure Content.InRange (type : UInt32) (p : Content) : Prop where
  compare : type = PaxosMessageType.phase1Proposal.code ∨
      type = PaxosMessageType.phase2Request.code →
    ∀ q : Content, q = p ∨ q.WithinBounds → (q.compare p).isSome
  copy : type = PaxosMessageType.phase3Commit.code → ∀ newversion, (p.copy newversion).isSome

/-- A proposal within bounds compares with any other. -/
theorem Content.isSome_compare {p : Content} (q : Content) (hp : p.WithinBounds) :
    (p.compare q).isSome := by
  cases p with
  | noProposal => cases q <;> rfl
  | recovery p =>
      cases q with
      | noProposal => rfl
      | recovery r => exact RecoveryContent.isSome_compare hp.2 hp.1
      | acceptorChange a => rfl
  | acceptorChange p =>
      cases q with
      | noProposal => rfl
      | recovery r => rfl
      | acceptorChange a => exact AcceptorChangeContent.isSome_compare hp

/-- A proposal compares with its own copy only within bounds. -/
theorem Content.withinBounds_of_compare {p : Content} (h : (p.compare p).isSome) :
    p.WithinBounds := by
  cases p with
  | noProposal => trivial
  | recovery r => exact RecoveryContent.terminated_of_compare h
  | acceptorChange a => exact AcceptorChangeContent.withinBounds_of_compare h

theorem AcceptorChangeContent.isSome_copy (newversion : Nat) (a : AcceptorChangeContent) :
    ((Content.acceptorChange a).copy newversion).isSome ↔ a.WithinBounds := by
  have hNew := isSome_newAcceptorChangeProposal newversion a.nacceptor a.acceptor
  have hConnect := isSome_connectAcceptors a.nacceptor a.acceptor
  rw [AcceptorChangeContent.WithinBounds, ← hNew]
  cases hLast : newAcceptorChangeProposal newversion a.nacceptor a.acceptor with
  | none => simp [Content.copy, hLast]
  | some last =>
      rw [← hNew, hLast] at hConnect
      obtain ⟨dialled, hDialled⟩ := Option.isSome_iff_exists.mp (hConnect.mpr rfl)
      simp [Content.copy, hLast, hDialled]

/-- What is committed is copied within bounds exactly if what a commit reads is. -/
theorem Content.isSome_copy (newversion : Nat) (p : Content) :
    (p.copy newversion).isSome ↔ p.CommitWithinBounds := by
  cases p with
  | noProposal => exact iff_of_true rfl trivial
  | recovery r =>
      rw [CommitWithinBounds, ← CharArray.isSome_toCString]
      cases hBackup : r.backupip.toCString with
      | none => simp [copy, hBackup]
      | some s => simp [copy, hBackup]
  | acceptorChange a => exact a.isSome_copy newversion

/-- The proposal of a message is used in range exactly if what a message of this
type is used for is within bounds. -/
theorem Content.inRange_iff {type : UInt32} (hType : hasProposal type = true) (p : Content) :
    p.InRange type ↔ p.UsedWithinBounds type := by
  unfold UsedWithinBounds
  split
  next hCommit =>
    subst hCommit
    constructor
    · exact fun h => (p.isSome_copy 0).mp (h.copy rfl 0)
    · intro h
      refine ⟨?_, fun _ newversion => (p.isSome_copy newversion).mpr h⟩
      intro hCompared
      exact absurd hCompared (by decide)
  next hCommit =>
    have hCompared : type = PaxosMessageType.phase1Proposal.code ∨
        type = PaxosMessageType.phase2Request.code := by
      rcases of_decide_eq_true hType with hFirst | hSecond | hThird
      · exact .inl hFirst
      · exact .inr hSecond
      · exact absurd hThird hCommit
    constructor
    · exact fun h => withinBounds_of_compare (h.compare hCompared p (.inl rfl))
    · intro h
      refine ⟨?_, fun hThird => absurd hThird hCommit⟩
      rintro - q (rfl | hq)
      · exact isSome_compare q h
      · exact isSome_compare p hq

/-- A message is handed to machines whose own names end. -/
structure PaxosMessageImage.InRange (m : PaxosMessageImage) : Prop where
  isRecepient : ∀ name : CharArray SERVICE_NAME_LENGTH, name.Terminated →
    (isRecepient name m.header).isSome
  proposal : ∀ p, m.proposal = some p → p.content.InRange m.header.type

/-- A message that was received is used in range exactly if its proposal is
within the bounds of its use. -/
theorem PaxosMessageImage.inRange_iff {m : PaxosMessageImage}
    (hAnnounced : m.proposal.isSome = hasProposal m.header.type) :
    m.InRange ↔ ∀ p, m.proposal = some p → p.content.UsedWithinBounds m.header.type := by
  have hType {p : ProposalImage} (hp : m.proposal = some p) : hasProposal m.header.type = true := by
    rw [← hAnnounced, hp, Option.isSome_some]
  constructor
  · exact fun h p hp => (Content.inRange_iff (hType hp) _).mp (h.proposal p hp)
  · intro h
    refine ⟨?_, fun p hp => (Content.inRange_iff (hType hp) _).mpr (h p hp)⟩
    intro name hName
    obtain ⟨c, hc⟩ := Option.isSome_iff_exists.mp
      (CharArray.isSome_strcmp (a := m.header.name) (Or.inr hName))
    simp [Wire.isRecepient, hc]

end Proposals

section Requests

/-- The search for a registered name, with its `strcmp` calls. -/
def searchName (name : CharArray SERVICE_NAME_LENGTH) :
    List (CharArray SERVICE_NAME_LENGTH) → Option Bool
  | [] => some false
  | n :: rest => do
      let c ← name.strcmp n
      if c = 0 then return true else searchName name rest

/-- What `createAcceptor` reads from a request. -/
def createAcceptor (registered : List (CharArray SERVICE_NAME_LENGTH))
    (r : ParticipateRequestImage) : Option (ServiceName × AcceptorChangeProposal) := do
  let _ ← searchName r.name registered
  let name ← r.name.toCString
  let last ← newAcceptorChangeProposal r.committedversion.toNat r.length r.acceptor
  return (name, last)

/-- The broker's address, which is the sender's when the request has none. -/
def brokerAddress (sender : IPString) (r : ParticipateRequestImage) : Option IPString :=
  if r.brokerip.elems.head? = some 0 then some sender else r.brokerip.toCString

/-- What `createProposer` reads from a request. -/
def createProposer (registered : List (CharArray SERVICE_NAME_LENGTH)) (sender : IPString)
    (r : ParticipateRequestImage) :
    Option (ServiceName × IPString × AcceptorChangeProposal × List IPString) := do
  let bip ← brokerAddress sender r
  let _ ← searchName r.name registered
  let last ← newAcceptorChangeProposal r.committedversion.toNat r.length r.acceptor
  let name ← r.name.toCString
  let dialled ← connectAcceptors r.length r.acceptor
  return (name, bip, last, dialled)

/-- The count and the strings a request is built from are within bounds. -/
structure ListWithinBounds (r : ParticipateRequestImage) : Prop where
  name : r.name.Terminated
  length : r.length.toNat ≤ MAX_ACCEPTORS
  acceptor : ∀ s ∈ r.acceptor.elems.take r.length.toNat, s.Terminated

/-- The search ends at each registered name, as the name that is sought ends. -/
theorem isSome_searchName {name : CharArray SERVICE_NAME_LENGTH} (hName : name.Terminated)
    (registered : List (CharArray SERVICE_NAME_LENGTH)) : (searchName name registered).isSome := by
  induction registered with
  | nil => rfl
  | cons n rest ih =>
      obtain ⟨c, hc⟩ := Option.isSome_iff_exists.mp
        (CharArray.isSome_strcmp (b := n) (Or.inl hName))
      by_cases hZero : c = 0 <;> simp [searchName, hc, hZero, ih]

/-- A request for an acceptor is read in range exactly within its bounds. -/
theorem isSome_createAcceptor (registered : List (CharArray SERVICE_NAME_LENGTH))
    (r : ParticipateRequestImage) :
    (createAcceptor registered r).isSome ↔ ListWithinBounds r := by
  constructor
  · intro h
    cases hSearch : searchName r.name registered with
    | none => simp [createAcceptor, hSearch] at h
    | some found =>
        cases hName : r.name.toCString with
        | none => simp [createAcceptor, hSearch, hName] at h
        | some name =>
            cases hLast : newAcceptorChangeProposal r.committedversion.toNat r.length
                r.acceptor with
            | none => simp [createAcceptor, hSearch, hName, hLast] at h
            | some last =>
                obtain ⟨hLength, hAcceptor⟩ :=
                  (isSome_newAcceptorChangeProposal _ _ _).mp (by rw [hLast]; rfl)
                exact ⟨(CharArray.isSome_toCString _).mp (by rw [hName]; rfl), hLength, hAcceptor⟩
  · intro h
    obtain ⟨found, hSearch⟩ := Option.isSome_iff_exists.mp (isSome_searchName h.name registered)
    obtain ⟨name, hName⟩ := Option.isSome_iff_exists.mp
      ((CharArray.isSome_toCString _).mpr h.name)
    obtain ⟨last, hLast⟩ := Option.isSome_iff_exists.mp
      ((isSome_newAcceptorChangeProposal r.committedversion.toNat _ _).mpr
        ⟨h.length, h.acceptor⟩)
    simp [createAcceptor, hSearch, hName, hLast]

/-- An empty address ends at once. -/
theorem isSome_brokerAddress (sender : IPString) (r : ParticipateRequestImage) :
    (brokerAddress sender r).isSome ↔ r.brokerip.Terminated := by
  unfold brokerAddress
  split
  next h =>
    have hMem : 0 ∈ r.brokerip.elems := List.mem_of_head? h
    simp [CharArray.Terminated, hMem]
  · exact CharArray.isSome_toCString _

/-- A request for a proposer also has the broker's address read. -/
theorem isSome_createProposer (registered : List (CharArray SERVICE_NAME_LENGTH))
    (sender : IPString) (r : ParticipateRequestImage) :
    (createProposer registered sender r).isSome ↔
      r.brokerip.Terminated ∧ ListWithinBounds r := by
  have hAddress := isSome_brokerAddress sender r
  have hCreate := isSome_createAcceptor registered r
  have hConnect : (connectAcceptors r.length r.acceptor).isSome ↔
      (newAcceptorChangeProposal r.committedversion.toNat r.length r.acceptor).isSome := by
    rw [isSome_newAcceptorChangeProposal, isSome_connectAcceptors]
  rw [← hAddress, ← hCreate]
  unfold createProposer createAcceptor
  cases brokerAddress sender r <;> cases searchName r.name registered <;>
    cases r.name.toCString <;>
    cases hLast : newAcceptorChangeProposal r.committedversion.toNat r.length r.acceptor <;>
    cases hDialled : connectAcceptors r.length r.acceptor <;>
    simp_all

end Requests

end QpidRecovery.Wire
