import QpidRecovery.Paxos.Proposal

/-! Messages between the state machines, what a handler does to its
descriptors, and the results it reports to its process. -/
namespace QpidRecovery

/-- The message type with the body that `receive` reads for it. A header may
also carry a number outside the enumeration, which has no body. -/
inductive PaxosBody where
  | phase1Proposal (p : Proposal)
  | phase1Ack
  | phase1Nack
  | phase2Request (p : Proposal)
  | phase2Ack
  | phase2Nack
  | phase3Commit (p : Proposal)
  | unknown (type : UInt32)
deriving DecidableEq, Repr

structure PaxosMessage where
  version : Nat
  name : ServiceName
  body : PaxosBody
deriving DecidableEq, Repr

/-- `getProposalPtr`, where `NULL` is `none`. -/
def PaxosMessage.getProposalPtr (m : PaxosMessage) : Option Proposal :=
  match m.body with
  | .phase1Proposal p | .phase2Request p | .phase3Commit p => some p
  | _ => none

/-- `receive` fails on a `NoProposal`, so no received message carries one. -/
def PaxosMessage.Received (m : PaxosMessage) : Prop := m.getProposalPtr ≠ some .noProposal

instance (m : PaxosMessage) : Decidable m.Received :=
  inferInstanceAs (Decidable (m.getProposalPtr ≠ some .noProposal))

inductive PaxosState where
  | initial
  | phase1
  | phase2
  | phase3
deriving DecidableEq, Repr

inductive PaxosResult where
  | handled
  | ignored
  | committingSelf
  | committingOther
deriving DecidableEq, Repr

/-- One call a state machine makes on a descriptor. -/
inductive Effect (Fd : Type) where
  | send (fd : Fd) (m : PaxosMessage)
  | registerFD (fd : Fd)
  | unregisterFD (fd : Fd)
  | close (fd : Fd)
deriving DecidableEq, Repr

/-- A state machine after one call of a method, the calls the method made in
their order, and its result. -/
structure Reaction (Machine Fd : Type) where
  machine : Machine
  effects : List (Effect Fd)
  result : PaxosResult
deriving DecidableEq, Repr

/-- A call that only reports a result. -/
def Reaction.quiet {Machine Fd : Type} (out : Machine × PaxosResult) : Reaction Machine Fd :=
  ⟨out.1, [], out.2⟩

/-- A call that reports no result. -/
def Reaction.void {Machine Fd : Type} (out : Machine × List (Effect Fd)) : Reaction Machine Fd :=
  ⟨out.1, out.2, .handled⟩

section Reaction
variable {Machine Fd : Type}

@[simp] theorem Reaction.quiet_machine (out : Machine × PaxosResult) :
    (Reaction.quiet out : Reaction Machine Fd).machine = out.1 := rfl

@[simp] theorem Reaction.quiet_effects (out : Machine × PaxosResult) :
    (Reaction.quiet out : Reaction Machine Fd).effects = [] := rfl

@[simp] theorem Reaction.quiet_result (out : Machine × PaxosResult) :
    (Reaction.quiet out : Reaction Machine Fd).result = out.2 := rfl

@[simp] theorem Reaction.void_machine (out : Machine × List (Effect Fd)) :
    (Reaction.void out).machine = out.1 := rfl

@[simp] theorem Reaction.void_effects (out : Machine × List (Effect Fd)) :
    (Reaction.void out).effects = out.2 := rfl

@[simp] theorem Reaction.void_result (out : Machine × List (Effect Fd)) :
    (Reaction.void out).result = .handled := rfl

end Reaction

/-- The messages among a sequence of calls, with the descriptor each goes to. -/
def sends {Fd : Type} (effects : List (Effect Fd)) : List (Fd × PaxosMessage) :=
  effects.filterMap fun
    | .send fd m => some (fd, m)
    | _ => none

section Sends
variable {Fd : Type}

@[simp] theorem sends_nil : sends ([] : List (Effect Fd)) = [] := rfl

@[simp] theorem sends_append (e f : List (Effect Fd)) : sends (e ++ f) = sends e ++ sends f :=
  List.filterMap_append

@[simp] theorem sends_cons_send (fd : Fd) (m : PaxosMessage) (e : List (Effect Fd)) :
    sends (.send fd m :: e) = (fd, m) :: sends e := rfl

/-- A message was sent exactly if the call is there. -/
theorem mem_sends {e : List (Effect Fd)} {fd : Fd} {m : PaxosMessage} :
    (fd, m) ∈ sends e ↔ .send fd m ∈ e := by
  unfold sends
  rw [List.mem_filterMap]
  constructor
  · rintro ⟨effect, hMem, hSend⟩
    cases effect <;> simp_all
  · intro h
    exact ⟨_, h, rfl⟩

end Sends

end QpidRecovery
