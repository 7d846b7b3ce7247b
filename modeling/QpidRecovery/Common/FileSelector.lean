import QpidRecovery.Paxos.Message

/-! The set of descriptors a process waits on. -/
namespace QpidRecovery

/-- The number of entries of `regfd`. -/
def SELECTOR_SIZE : Nat := 400

/-- The registered descriptors in the order `getReadReadyFD` looks at them, as
many as there are. `none` is the descriptor `-1` of a failed connection, which
some callers register all the same. -/
structure FileSelector (Fd : Type) where
  regfd : List (Option Fd)
deriving DecidableEq, Repr

namespace FileSelector

variable {Fd : Type} [DecidableEq Fd]

def new : FileSelector Fd := ⟨[]⟩

def registerFD (fd : Option Fd) (fs : FileSelector Fd) : FileSelector Fd :=
  if fd ∈ fs.regfd then fs else ⟨fs.regfd ++ [fd]⟩

/-- The registration in the array. Nothing tests whether an entry is left, and
without one the write is out of bounds. -/
def registerWithin (fd : Option Fd) (fs : FileSelector Fd) : Option (FileSelector Fd) :=
  if fd ∈ fs.regfd ∨ fs.regfd.length < SELECTOR_SIZE then some (fs.registerFD fd) else none

/-- The last entry moves into the place of the removed one. -/
def unregisterFD (fd : Option Fd) (fs : FileSelector Fd) : FileSelector Fd :=
  match fs.regfd.idxOf? fd, fs.regfd.getLast? with
  | some i, some last => ⟨(fs.regfd.set i last).dropLast⟩
  | _, _ => fs

/-- The first registered descriptor that `select` finds ready. It is `none`
after a timeout, when there is no such descriptor. -/
def getReadReadyFD (readable : Fd → Bool) (fs : FileSelector Fd) : Option Fd :=
  fs.regfd.findSome? fun fd => fd.filter readable

/-- The calls of a state machine that concern the selector, in their order. -/
def perform (effects : List (Effect Fd)) (fs : FileSelector Fd) : FileSelector Fd :=
  effects.foldl (fun fs e => match e with
    | .registerFD fd => fs.registerFD (some fd)
    | .unregisterFD fd => fs.unregisterFD (some fd)
    | .send _ _ | .close _ => fs) fs

end FileSelector

end QpidRecovery
