import QpidRecovery.Common.Basic

/-! The three kinds of proposal and their comparison. A version is an `unsigned`
in the source and a natural number here, in which all agree until a counter has
gone up `2 ^ 32` times. Scores and ports keep their 32 bits, since the score is
also read as a signed integer. -/
namespace QpidRecovery

inductive ProposalType where
  | noProposal
  | recoveryProposal
  | acceptorChangeProposal
deriving DecidableEq, Repr

structure RecoveryProposal where
  newversion : Nat
  failip : IPString
  failport : UInt32
  backupip : IPString
  backupport : UInt32
  score : UInt32
deriving DecidableEq, Repr

structure AcceptorChangeProposal where
  newversion : Nat
  acceptor : List IPString
deriving DecidableEq, Repr

inductive Proposal where
  | noProposal
  | recoveryProposal (r : RecoveryProposal)
  | acceptorChangeProposal (a : AcceptorChangeProposal)
deriving DecidableEq, Repr

namespace AcceptorChangeProposal

def getNumberOfAcceptors (a : AcceptorChangeProposal) : Nat := a.acceptor.length

def getAcceptors (a : AcceptorChangeProposal) : List IPString := a.acceptor

end AcceptorChangeProposal

/-- `UNEQUALRETURN`: return the sign of an inequality, else go on. -/
def unequalReturn (a b : Nat) (rest : Int) : Int :=
  if a ≠ b then (if a > b then 1 else -1) else rest

/-- Return a nonzero string comparison, else go on. -/
def strcmpReturn (s t : IPString) (rest : Int) : Int :=
  if strcmp s.bytes t.bytes ≠ 0 then strcmp s.bytes t.bytes else rest

def RecoveryProposal.compareContent (p r : RecoveryProposal) : Int :=
  unequalReturn p.score.toNat r.score.toNat <|
  strcmpReturn p.backupip r.backupip <|
  strcmpReturn p.failip r.failip <|
  unequalReturn p.backupport.toNat r.backupport.toNat <|
  unequalReturn p.failport.toNat r.failport.toNat 0

/-- The loop over `i < nacceptor`, which both lists share here. -/
def compareAcceptors : List IPString → List IPString → Int
  | s :: p, t :: a => strcmpReturn s t (compareAcceptors p a)
  | _, _ => 0

def AcceptorChangeProposal.compareContent (p a : AcceptorChangeProposal) : Int :=
  unequalReturn p.getNumberOfAcceptors a.getNumberOfAcceptors <|
  compareAcceptors p.acceptor a.acceptor

namespace Proposal

def getType : Proposal → ProposalType
  | noProposal => .noProposal
  | recoveryProposal _ => .recoveryProposal
  | acceptorChangeProposal _ => .acceptorChangeProposal

def getVersion : Proposal → Nat
  | noProposal => 0
  | recoveryProposal r => r.newversion
  | acceptorChangeProposal a => a.newversion

/-- `getValue` returns `int`, so a score from `2^31` on reads as negative. -/
def getValue : Proposal → Int
  | noProposal => -2
  | recoveryProposal r => r.score.toInt32.toInt
  | acceptorChangeProposal _ => -1

def compareTypes (p q : Proposal) : Int :=
  if p.getValue > q.getValue then 1 else -1

def compare : Proposal → Proposal → Int
  | noProposal, noProposal => 0
  | recoveryProposal p, recoveryProposal r => p.compareContent r
  | acceptorChangeProposal p, acceptorChangeProposal a => p.compareContent a
  | p, q => compareTypes p q

end Proposal

theorem strcmpReturn_self (s : IPString) (rest : Int) : strcmpReturn s s rest = rest := by
  simp [strcmpReturn, strcmp_eq_zero_iff]

/-- A list is equal to itself. -/
theorem compareAcceptors_self (p : List IPString) : compareAcceptors p p = 0 := by
  induction p with
  | nil => rfl
  | cons s p ih => rw [compareAcceptors, strcmpReturn_self, ih]

/-- So is every proposal. -/
theorem Proposal.compare_self (p : Proposal) : p.compare p = 0 := by
  cases p with
  | noProposal => rfl
  | recoveryProposal r =>
      simp [compare, RecoveryProposal.compareContent, unequalReturn, strcmpReturn_self]
  | acceptorChangeProposal a =>
      simp [compare, AcceptorChangeProposal.compareContent, unequalReturn, compareAcceptors_self]

end QpidRecovery
