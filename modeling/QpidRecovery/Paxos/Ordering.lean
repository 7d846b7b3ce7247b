import QpidRecovery.Paxos.Proposal
import QpidRecovery.Library.ThreeWay
import Mathlib.Data.Set.Insert

/-! The order of proposals: `NoProposal`, then acceptor changes, then
recoveries by score. `compare` follows it wherever the values by which it
compares two kinds do. -/
namespace QpidRecovery

open ThreeWay

/-- `strcmp` orders strings by their bytes. -/
theorem answer_strcmp (s t : List UInt8) : answer (strcmp s t) = Ord.compare s t := by
  induction s generalizing t with
  | nil => cases t <;> rfl
  | cons a s ih =>
      cases t with
      | nil => rfl
      | cons b t => rw [strcmp, ← ite_not, answer_unequal, ih, List.compare_cons_cons]

/-- A field that differs decides. -/
theorem answer_unequalReturn (a b : Nat) (rest : Int) :
    answer (unequalReturn a b rest) = (Ord.compare a b).then (answer rest) :=
  answer_unequal a b rest

/-- So does a string that differs. -/
theorem answer_strcmpReturn (s t : IPString) (rest : Int) :
    answer (strcmpReturn s t rest) = (Ord.compare s.bytes t.bytes).then (answer rest) := by
  rw [strcmpReturn, answer_nonzero, answer_strcmp]

namespace RecoveryProposal

def order : RecoveryProposal → RecoveryProposal → Ordering :=
  compareLex (compareOn fun r => r.score.toNat) <|
  compareLex (compareOn fun r => r.backupip.bytes) <|
  compareLex (compareOn fun r => r.failip.bytes) <|
  compareLex (compareOn fun r => r.backupport.toNat) (compareOn fun r => r.failport.toNat)

instance : Ord RecoveryProposal := ⟨order⟩

instance : Std.TransOrd RecoveryProposal := inferInstanceAs <| Std.TransCmp (compareLex _ _)

/-- Recovery proposals are compared as their order says. -/
theorem answer_compareContent (p r : RecoveryProposal) :
    answer (p.compareContent r) = Ord.compare p r := by
  rw [compareContent, answer_unequalReturn, answer_strcmpReturn, answer_strcmpReturn,
    answer_unequalReturn, answer_unequalReturn, answer_zero, Ordering.then_eq]
  rfl

/-- Equal in this order are proposals that differ in their version only. -/
theorem order_eq_eq {p r : RecoveryProposal} :
    Ord.compare p r = .eq ↔ { p with newversion := 0 } = { r with newversion := 0 } := by
  have hFields : Ord.compare p r = .eq ↔ p.score.toNat = r.score.toNat ∧
      p.backupip.bytes = r.backupip.bytes ∧ p.failip.bytes = r.failip.bytes ∧
      p.backupport.toNat = r.backupport.toNat ∧ p.failport.toNat = r.failport.toNat := by
    change p.order r = .eq ↔ _
    simp only [order, compareLex_eq_eq, compareOn, Std.LawfulEqCmp.compare_eq_iff_eq]
  rw [hFields, UInt32.toNat_inj, UInt32.toNat_inj, UInt32.toNat_inj]
  constructor
  · rintro ⟨hScore, hBackup, hFail, hBackupport, hFailport⟩
    rw [hScore, CString.ext hBackup, CString.ext hFail, hBackupport, hFailport]
  · intro h
    cases p
    cases r
    cases h
    exact ⟨rfl, rfl, rfl, rfl, rfl⟩

end RecoveryProposal

namespace AcceptorChangeProposal

def order : AcceptorChangeProposal → AcceptorChangeProposal → Ordering :=
  compareLex (compareOn getNumberOfAcceptors) (compareOn fun a => a.acceptor.map CString.bytes)

instance : Ord AcceptorChangeProposal := ⟨order⟩

instance : Std.TransOrd AcceptorChangeProposal :=
  inferInstanceAs <| Std.TransCmp (compareLex _ _)

/-- On lists of one length the loop compares them as lists. -/
theorem answer_compareAcceptors {p a : List IPString} (h : p.length = a.length) :
    answer (compareAcceptors p a) = Ord.compare (p.map CString.bytes) (a.map CString.bytes) := by
  induction p generalizing a with
  | nil =>
      rw [List.length_eq_zero_iff.mp h.symm]
      rfl
  | cons s p ih =>
      cases a with
      | nil => cases h
      | cons t a =>
          rw [compareAcceptors, answer_strcmpReturn, ih (Nat.succ.inj h), List.map_cons,
            List.map_cons, List.compare_cons_cons]

/-- Acceptor changes are compared as their order says. -/
theorem answer_compareContent (p a : AcceptorChangeProposal) :
    answer (p.compareContent a) = Ord.compare p a := by
  have hLexicographic : Ord.compare p a =
      (Ord.compare p.getNumberOfAcceptors a.getNumberOfAcceptors).then
        (Ord.compare (p.acceptor.map CString.bytes) (a.acceptor.map CString.bytes)) := rfl
  rw [compareContent, answer_unequalReturn, hLexicographic]
  cases hLength : Ord.compare p.getNumberOfAcceptors a.getNumberOfAcceptors with
  | lt => rfl
  | gt => rfl
  | eq => rw [answer_compareAcceptors (Nat.compare_eq_eq.mp hLength)]

/-- Equal in this order are changes that differ in their version only. -/
theorem order_eq_eq {p a : AcceptorChangeProposal} :
    Ord.compare p a = .eq ↔ { p with newversion := 0 } = { a with newversion := 0 } := by
  have hFields : Ord.compare p a = .eq ↔ p.acceptor.length = a.acceptor.length ∧
      p.acceptor.map CString.bytes = a.acceptor.map CString.bytes := by
    change p.order a = .eq ↔ _
    simp only [order, compareLex_eq_eq, compareOn, Std.LawfulEqCmp.compare_eq_iff_eq,
      getNumberOfAcceptors]
  have hBytes : Function.Injective (CString.bytes : IPString → List UInt8) :=
    fun _ _ h => CString.ext h
  rw [hFields]
  constructor
  · rintro ⟨_, hList⟩
    rw [hBytes.list_map hList]
  · intro h
    cases p
    cases a
    cases h
    exact ⟨rfl, rfl⟩

end AcceptorChangeProposal

namespace Proposal

/-- The place of a kind in the order. -/
def rank : Proposal → Nat
  | noProposal => 0
  | acceptorChangeProposal _ => 1
  | recoveryProposal _ => 2

def recovery? : Proposal → Option RecoveryProposal
  | recoveryProposal r => some r
  | _ => none

def acceptorChange? : Proposal → Option AcceptorChangeProposal
  | acceptorChangeProposal a => some a
  | _ => none

def order : Proposal → Proposal → Ordering :=
  compareLex (compareOn rank) <| compareLex (compareOn recovery?) (compareOn acceptorChange?)

instance : Std.TransCmp order := inferInstanceAs <| Std.TransCmp (compareLex _ _)

/-- The same kind and the same content, `newversion` aside. -/
def SameContent : Proposal → Proposal → Prop
  | noProposal, noProposal => True
  | recoveryProposal p, recoveryProposal r =>
      { p with newversion := 0 } = { r with newversion := 0 }
  | acceptorChangeProposal p, acceptorChangeProposal a =>
      { p with newversion := 0 } = { a with newversion := 0 }
  | _, _ => False

/-- Equal in the order of all proposals are those of the same content. -/
theorem order_eq_eq (p q : Proposal) : p.order q = .eq ↔ p.SameContent q := by
  have hParts : p.order q = .eq ↔ p.rank = q.rank ∧
      Ord.compare p.recovery? q.recovery? = .eq ∧
      Ord.compare p.acceptorChange? q.acceptorChange? = .eq := by
    simp only [order, compareLex_eq_eq, compareOn, Nat.compare_eq_eq]
  rw [hParts]
  cases p with
  | noProposal =>
      cases q with
      | noProposal => exact ⟨fun _ => trivial, fun _ => ⟨rfl, rfl, rfl⟩⟩
      | _ => simp [rank, SameContent]
  | recoveryProposal p =>
      cases q with
      | recoveryProposal r =>
          refine Iff.trans ?_ RecoveryProposal.order_eq_eq
          exact ⟨fun h => h.2.1, fun h => ⟨rfl, h, rfl⟩⟩
      | _ => simp [rank, SameContent]
  | acceptorChangeProposal p =>
      cases q with
      | acceptorChangeProposal a =>
          refine Iff.trans ?_ AcceptorChangeProposal.order_eq_eq
          exact ⟨fun h => h.2.2, fun h => ⟨rfl, rfl, h⟩⟩
      | _ => simp [rank, SameContent]

/-- Across kinds the values decide, and have to agree with the ranks. -/
theorem answer_compare {p q : Proposal}
    (h : p.rank ≠ q.rank → (q.getValue < p.getValue ↔ q.rank < p.rank)) :
    answer (p.compare q) = p.order q := by
  have hTypes : p.rank ≠ q.rank → answer (compareTypes p q) = p.order q := by
    intro hRank
    have hOrder : p.order q = Ord.compare p.rank q.rank := by
      have hDecided : Ord.compare p.rank q.rank ≠ .eq := fun hEq => hRank (Nat.compare_eq_eq.mp hEq)
      change (Ord.compare p.rank q.rank).then _ = _
      cases hCompare : Ord.compare p.rank q.rank with
      | eq => exact absurd hCompare hDecided
      | _ => rfl
    rw [hOrder, compareTypes]
    by_cases hValue : q.getValue < p.getValue
    · rw [if_pos hValue, Nat.compare_eq_gt.mpr ((h hRank).mp hValue)]
      rfl
    · have hBelow : ¬ q.rank < p.rank := fun hLt => hValue ((h hRank).mpr hLt)
      rw [if_neg hValue, Nat.compare_eq_lt.mpr (by omega)]
      rfl
  cases p with
  | noProposal =>
      cases q with
      | noProposal => rfl
      | _ => exact hTypes (by simp [rank])
  | recoveryProposal p =>
      cases q with
      | recoveryProposal r =>
          rw [compare, RecoveryProposal.answer_compareContent]
          change _ = (Ord.compare p r).then _
          exact Ordering.then_eq.symm
      | _ => exact hTypes (by simp [rank])
  | acceptorChangeProposal p =>
      cases q with
      | acceptorChangeProposal a =>
          rw [compare, AcceptorChangeProposal.answer_compareContent]
          rfl
      | _ => exact hTypes (by simp [rank])

/-- A score reads back as it is below `2^31`, and wraps around from there on. -/
theorem getValue_recoveryProposal (r : RecoveryProposal) :
    (recoveryProposal r).getValue =
      if r.score.toNat < 0x80000000 then (r.score.toNat : Int) else r.score.toNat - 0x100000000 := by
  have hBits : (recoveryProposal r).getValue = r.score.toBitVec.toInt := rfl
  have hNat : r.score.toBitVec.toNat = r.score.toNat := rfl
  rw [hBits, BitVec.toInt_eq_toNat_cond, hNat]
  split <;> split <;> omega

/-- It is enough that recoveries have the greater values. -/
theorem answer_compare_of_recovery {p q : Proposal}
    (hp : ∀ r, p = recoveryProposal r → q.rank < 2 → q.getValue < p.getValue)
    (hq : ∀ r, q = recoveryProposal r → p.rank < 2 → p.getValue < q.getValue) :
    answer (p.compare q) = p.order q := by
  apply answer_compare
  intro hRank
  cases p with
  | recoveryProposal p =>
      cases q with
      | recoveryProposal r => exact absurd rfl hRank
      | _ => exact ⟨fun _ => by simp [rank], fun _ => hp p rfl (by simp [rank])⟩
  | _ =>
      cases q with
      | recoveryProposal r =>
          have hLess := hq r rfl (by simp [rank])
          exact ⟨fun h => absurd h (by omega), fun h => absurd h (by simp [rank])⟩
      | _ => simp [getValue, rank] at hRank ⊢

/-- The score of a recovery is not negative as an `int`. -/
def ScoreInRange (p : Proposal) : Prop :=
  ∀ r, p = recoveryProposal r → r.score.toNat < 0x80000000

/-- A score in range is above the values of the other types. -/
theorem ScoreInRange.getValue_lt {p q : Proposal} {r : RecoveryProposal} (h : p.ScoreInRange)
    (hp : p = recoveryProposal r) (hq : q.rank < 2) : q.getValue < p.getValue := by
  rw [hp, getValue_recoveryProposal, if_pos (h r hp)]
  cases q with
  | recoveryProposal r => simp [rank] at hq
  | _ => simp only [getValue]; omega

theorem answer_compare_of_inRange {p q : Proposal} (hp : p.ScoreInRange) (hq : q.ScoreInRange) :
    answer (p.compare q) = p.order q :=
  answer_compare_of_recovery (fun _ h => hp.getValue_lt h) (fun _ h => hq.getValue_lt h)

/-- Types are compared by their values. -/
theorem compareTypes_nonpos {p q : Proposal} : compareTypes p q ≤ 0 ↔ p.getValue ≤ q.getValue := by
  unfold compareTypes
  split <;> omega

/-- Two kinds are ordered unless their values are equal. -/
theorem compareTypes_sign {p q : Proposal}
    (h : (compareTypes p q).sign = -(compareTypes q p).sign) : p.getValue ≠ q.getValue := by
  intro hEq
  rw [compareTypes, compareTypes, if_neg (by omega), if_neg (by omega)] at h
  cases h

/-- On a set of proposals the comparison is one total preorder with
`NoProposal` least exactly if no score in it is negative as an `int`; only the
value `-1` does no harm where it meets no acceptor change. -/
theorem compare_lawful_iff (S : Set Proposal) :
    (Lawful (insert noProposal S) compare SameContent ∧ ∀ p ∈ S, noProposal.compare p ≤ 0) ↔
      ∀ r, recoveryProposal r ∈ S → r.score.toNat < 0x80000000 ∨
        (r.score.toNat = 0xFFFFFFFF ∧ ∀ a, acceptorChangeProposal a ∉ S) := by
  constructor
  · rintro ⟨hLawful, hLeast⟩ r hr
    have hValue := getValue_recoveryProposal r
    have hBound := r.score.toNat_lt
    have hLow : -2 ≤ (recoveryProposal r).getValue := compareTypes_nonpos.mp (hLeast _ hr)
    have hNone : -2 ≠ (recoveryProposal r).getValue :=
      compareTypes_sign (hLawful.sign noProposal (.inl rfl) _ (.inr hr))
    by_cases hScore : r.score.toNat < 0x80000000
    · exact .inl hScore
    · rw [if_neg hScore] at hValue
      refine .inr ⟨by omega, fun a ha => ?_⟩
      have hChange : -1 ≠ (recoveryProposal r).getValue :=
        compareTypes_sign (hLawful.sign (acceptorChangeProposal a) (.inr ha) _ (.inr hr))
      omega
  · intro h
    have hLess : ∀ p ∈ insert noProposal S, ∀ q ∈ insert noProposal S, ∀ r,
        p = recoveryProposal r → q.rank < 2 → q.getValue < p.getValue := by
      rintro p hp q hq r rfl hRank
      have hr : recoveryProposal r ∈ S := hp.resolve_left (by simp)
      rcases h r hr with hScore | ⟨hScore, hNoChange⟩
      · exact ScoreInRange.getValue_lt (fun r' h' => by cases h'; exact hScore) rfl hRank
      · rw [getValue_recoveryProposal, if_neg (by omega), hScore]
        cases q with
        | noProposal => decide
        | recoveryProposal r => simp [rank] at hRank
        | acceptorChangeProposal a => exact absurd (hq.resolve_left (by simp)) (hNoChange a)
    have hAnswer : ∀ p ∈ insert noProposal S, ∀ q ∈ insert noProposal S,
        answer (p.compare q) = p.order q := fun p hp q hq =>
      answer_compare_of_recovery (hLess p hp q hq) (hLess q hq p hp)
    refine ⟨Lawful.of_order hAnswer order_eq_eq, ?_⟩
    intro p hp
    rw [← isLE_answer, hAnswer _ (.inl rfl) _ (.inr hp)]
    cases p <;> rfl

/-- A recovery of broker `127.0.0.1` with the given score. -/
def scored (score : UInt32) : RecoveryProposal :=
  ⟨1, localhost, 5672, localhost, 5673, score⟩

/-- A score of `2^31` is below `NoProposal`, one of `2^32 - 2` ties with it, and
one of `2^32 - 1` ties with every acceptor change. -/
theorem compare_not_ordered :
    ¬ noProposal.compare (recoveryProposal (scored 0x80000000)) ≤ 0 ∧
      (noProposal.compare (recoveryProposal (scored 0xFFFFFFFE))).sign ≠
        -((recoveryProposal (scored 0xFFFFFFFE)).compare noProposal).sign ∧
      ((acceptorChangeProposal ⟨1, [localhost]⟩).compare
          (recoveryProposal (scored 0xFFFFFFFF))).sign ≠
        -((recoveryProposal (scored 0xFFFFFFFF)).compare
          (acceptorChangeProposal ⟨1, [localhost]⟩)).sign := by
  decide

end Proposal

end QpidRecovery
