import QpidRecovery.Acceptor.Process
import QpidRecovery.Common.Descriptors

/-! The descriptors of the acceptor. It waits on its two server sockets and on
the connections of proposers. -/
namespace QpidRecovery.Acceptor

variable {Fd : Type} [DecidableEq Fd]

/-- The main loop with its selector. -/
structure Loop (Fd : Type) where
  process : State Fd
  requestsfd : Fd
  paxossfd : Fd
  fs : FileSelector Fd

/-- One iteration. `tcpaccept` on the Paxos socket may fail. -/
inductive LoopEvent (Fd : Type) where
  | accept (newpaxossfd : Option Fd)
  | wait (d : Nat)
  | request (r : ParticipateRequest)
  | message (ready : Fd) (m : PaxosMessage)
  | receiveError (ready : Fd)
  | timeout

/-- What the event means to the state machines. -/
def LoopEvent.event : LoopEvent Fd → Option (Event Fd)
  | .accept newpaxossfd => newpaxossfd.map .connection
  | .wait d => some (.wait d)
  | .request r => some (.request r)
  | .message ready m => some (.message ready m)
  | .receiveError ready => some (.receiveError ready)
  | .timeout => some .timeout

/-- Both server sockets are made, or `main` returns. -/
def Loop.init (start : Time) (requestsfd paxossfd : Fd) : Loop Fd where
  process := .init start
  requestsfd := requestsfd
  paxossfd := paxossfd
  fs := (FileSelector.new.registerFD (some requestsfd)).registerFD (some paxossfd)

/-- The calls of one iteration. What `tcpaccept` returns is registered
unchecked. -/
def Loop.calls (s : Loop Fd) : LoopEvent Fd → List (Call Fd)
  | .accept newpaxossfd => Call.unchecked newpaxossfd
  | .message ready m =>
      if (handlePaxosMessage s.process.now ready m s.process.accname).result = -1 then
        [.unregister (some ready), .close ready]
      else []
  | .receiveError ready => [.unregister (some ready), .close ready]
  | .wait _ | .request _ | .timeout => []

def Loop.step (s : Loop Fd) (e : LoopEvent Fd) : Option (Loop Fd) :=
  match e.event with
  | none => some { s with fs := Call.selects (s.calls e) s.fs }
  | some event =>
      (Acceptor.step s.process event).map fun process =>
        { s with process := process, fs := Call.selects (s.calls e) s.fs }

/-- The server sockets and the accepted connections. -/
def Loop.holding (s : Loop Fd) : Holding Fd :=
  ((↑[s.requestsfd, s.paxossfd] : Multiset Fd), 0) + ((↑s.process.regfd : Multiset Fd), 0)

/-- A connection is accepted. -/
def Accepts : LoopEvent Fd → Prop
  | .accept newpaxossfd => newpaxossfd ≠ none
  | _ => True

section Steps
variable {s t : Loop Fd} {e : LoopEvent Fd}

theorem step_selects (h : s.step e = some t) : t.fs = Call.selects (s.calls e) s.fs := by
  unfold Loop.step at h
  split at h
  · cases h
    rfl
  · obtain ⟨process, _, rfl⟩ := Option.map_eq_some_iff.mp h
    rfl

/-- A connection is given up. -/
theorem accounted_erase {may : Option Fd → Prop} {ready : Fd} {regfd : List Fd} (h : ready ∈ regfd)
    (l : Holding Fd) :
    Accounted may [.unregister (some ready), .close ready] (l + ((↑regfd : Multiset Fd), 0))
      (l + ((↑(regfd.erase ready) : Multiset Fd), 0)) := by
  have hErased : (↑regfd : Multiset Fd) = ↑(ready :: regfd.erase ready) :=
    Multiset.coe_eq_coe.mpr (List.perm_cons_erase h)
  rw [hErased, Accounted.registered_cons]
  exact .release ready _

theorem step_accounted {may : Option Fd → Prop} (h : s.step e = some t) (hOk : Accepts e) :
    Accounted may (s.calls e) s.holding t.holding := by
  cases e with
  | accept newpaxossfd =>
      cases newpaxossfd with
      | none => exact absurd rfl hOk
      | some fd =>
          cases h
          have hAcquire : Accounted may _ _ _ := .acquire fd s.holding
          apply hAcquire.of_eq rfl
          have hRegfd : ((↑(s.process.regfd ++ [fd]) : Multiset Fd), (0 : Multiset Fd)) =
              ((↑s.process.regfd : Multiset Fd), 0) + ({fd}, 0) := by
            rw [← Multiset.coe_add, Prod.mk_add_mk, add_zero, Multiset.coe_singleton]
          show ((↑[s.requestsfd, s.paxossfd] : Multiset Fd), (0 : Multiset Fd)) +
            ((↑(s.process.regfd ++ [fd]) : Multiset Fd), 0) = _
          unfold Loop.holding
          rw [hRegfd, add_assoc]
  | wait d =>
      cases h
      exact .nil _
  | request r =>
      cases h
      exact .nil _
  | message ready m =>
      obtain ⟨process, hProcess, rfl⟩ := Option.map_eq_some_iff.mp h
      simp only [step] at hProcess
      split at hProcess
      next hReady =>
        cases hProcess
        unfold Loop.calls
        dsimp only
        split
        · exact accounted_erase hReady _
        · exact .nil _
      · cases hProcess
  | receiveError ready =>
      obtain ⟨process, hProcess, rfl⟩ := Option.map_eq_some_iff.mp h
      simp only [step] at hProcess
      split at hProcess
      next hReady =>
        cases hProcess
        exact accounted_erase hReady _
      · cases hProcess
  | timeout =>
      cases h
      exact .nil _

/-- A failed `tcpaccept` leaves its -1 behind. -/
theorem accepts_of_registered (h : s.step e = some t) (hNone : none ∉ t.fs.regfd) : Accepts e := by
  cases e with
  | accept newpaxossfd =>
      rintro rfl
      apply hNone
      rw [step_selects h]
      exact FileSelector.registered_self
  | wait d => trivial
  | request r => trivial
  | message ready m => trivial
  | receiveError ready => trivial
  | timeout => trivial

/-- The server sockets are registered and open. -/
theorem init_consistent (start : Time) {requestsfd paxossfd : Fd} {before live : List Fd}
    (hBefore : before.Nodup)
    (hKernel : Call.openedAfter [.opened requestsfd, .opened paxossfd] before = some live) :
    Consistent (Loop.init start requestsfd paxossfd).holding live
      (Loop.init start requestsfd paxossfd).fs := by
  have hStart := consistent_start [requestsfd, paxossfd] hBefore hKernel
  unfold Loop.holding
  rw [show (Loop.init start requestsfd paxossfd).process.regfd = [] from rfl]
  rw [show ((↑([] : List Fd) : Multiset Fd), (0 : Multiset Fd)) = 0 from rfl, add_zero]
  exact hStart

end Steps

end QpidRecovery.Acceptor
