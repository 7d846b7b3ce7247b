import QpidRecovery.Proposer.Announcement
import QpidRecovery.Proposer.Accounts
import QpidRecovery.Proposer.Snapshots

/-! The order of events and recoveries. The main loop waits on all descriptors
at once and serves one that is ready. The pipe of the recovery manager comes
first, so that a recovery copies everything that was reported. -/
namespace QpidRecovery.Proposer

open Transition

variable {Fd Id : Type}

/-- The descriptors that `main` opens. The kernel hands out no descriptor twice,
and a server socket may be missing. -/
structure Descriptors (Fd : Type) where
  recoveryfd : Fd
  requestsfd : Option Fd
  querysfd : Option Fd
  request_ne : requestsfd ≠ some recoveryfd
  query_ne : querysfd ≠ some recoveryfd

/-- The process with its open descriptors and the pipe that the listener
writes to. All events that were written are kept, and while the process waits
in `select` those that were written before the call. -/
structure EventLoop (Fd Id : Type) where
  process : State Fd Id
  live : List Fd
  eventpipe : List (ListenerEvent Id)
  written : List (ListenerEvent Id)
  before : Option (List (ListenerEvent Id))

/-- What the branches of the main loop read, if they can, and the outcomes of
their calls. -/
structure Inputs (Fd : Type) where
  request : Option (IPString × ParticipateRequest)
  query : Option (Fd × ServiceName)
  input : Input
  outcomes : Outcomes Fd
  checks : Nat → Outcomes Fd

/-- One step of the listener's threads or of the main loop. The readiness of
all descriptors but the pipe is arbitrary. -/
inductive LoopAction (Fd Id : Type) where
  | wait (d : Nat)
  | write (le : ListenerEvent Id)
  | select
  | iterate (readable : Fd → Bool) (inputs : Inputs Fd)

namespace EventLoop

section Steps
variable [DecidableEq Fd]

def init (fds : Descriptors Fd) (start : Time) (live : List Fd) (backupbrokers : List Text) :
    EventLoop Fd Id where
  process := .init start (some fds.recoveryfd) fds.requestsfd fds.querysfd backupbrokers
  live := fds.recoveryfd :: live
  eventpipe := []
  written := []
  before := none

/-- What `getReadReadyFD` returns. The pipe is ready unless it is empty. -/
def ready (fds : Descriptors Fd) (readable : Fd → Bool) (s : EventLoop Fd Id) : Option Fd :=
  s.process.fs.getReadReadyFD fun fd =>
    if fd = fds.recoveryfd then !s.eventpipe.isEmpty else readable fd

/-- The branch that is taken. Nothing happens when a request or a query cannot
be read. -/
def dispatch (fds : Descriptors Fd) (readable : Fd → Bool) (inputs : Inputs Fd)
    (s : EventLoop Fd Id) : Option (Action Fd Id) :=
  match s.ready fds readable with
  | none => some (.timeout inputs.checks)
  | some fd =>
      if some fd = fds.requestsfd then
        inputs.request.map fun r => .request r.1 r.2 inputs.outcomes
      else if some fd = fds.querysfd then
        inputs.query.map fun q => .query q.1 q.2 inputs.outcomes
      else if fd = fds.recoveryfd then
        s.eventpipe.head?.map fun le => .event le inputs.outcomes
      else some (.ready fd inputs.input inputs.outcomes)

variable [DecidableEq Id]

/-- The listener may write at any time. A `none` is a crash, or a descriptor
that the kernel does not hand out. -/
def step (fds : Descriptors Fd) (s : EventLoop Fd Id) : LoopAction Fd Id → Option (EventLoop Fd Id)
  | .wait d => some { s with process := { s.process with now := s.process.now + d } }
  | .write le => some { s with eventpipe := s.eventpipe ++ [le], written := s.written ++ [le] }
  | .select => some { s with before := some s.written }
  | .iterate readable inputs =>
      match s.before, s.dispatch fds readable inputs with
      | none, _ => none
      | some _, none => some { s with before := none }
      | some _, some action =>
          match Proposer.step s.process action,
            Call.openedAfter (calls s.process action) s.live with
          | some process, some live =>
              some { s with
                process := process
                live := live
                eventpipe :=
                  if s.ready fds readable = some fds.recoveryfd then s.eventpipe.tail
                  else s.eventpipe
                before := none }
          | _, _ => none

end Steps

end EventLoop

section Applied
variable [DecidableEq Id]

/-- The store after the events. -/
def applied (events : List (ListenerEvent Id)) : RecoveryManager Id :=
  events.foldl (fun rm le => le.apply rm) .new

/-- An event is applied to the objects alone. -/
theorem ListenerEvent.apply_bavec (le : ListenerEvent Id) (rm : RecoveryManager Id)
    (bavec : List BrokerAddress) :
    le.apply { rm with bavec := bavec } = { le.apply rm with bavec := bavec } := by
  cases le with
  | brokerDisconnection brokerip brokerport => rfl
  | linkDown srcip srcport dstip dstport => rfl
  | objectProperty objinfo =>
      cases objinfo with
      | exchange info =>
          unfold ListenerEvent.apply RecoveryManager.addObjectInfo
          dsimp only
          split
          · rfl
          · rfl
      | queue info =>
          unfold ListenerEvent.apply RecoveryManager.addObjectInfo
          dsimp only
          split
          · rfl
          · rfl
      | binding _ | broker _ | link _ | bridge _ => rfl

end Applied

namespace EventLoop

variable [DecidableEq Fd] {fds : Descriptors Fd} {s t : EventLoop Fd Id} {readable : Fd → Bool}
  {inputs : Inputs Fd}

/-- An event is served exactly if the pipe is the descriptor that is ready. -/
theorem dispatch_cases {action : Action Fd Id}
    (h : s.dispatch fds readable inputs = some action) :
    (s.ready fds readable = some fds.recoveryfd ∧
        ∃ le rest, s.eventpipe = le :: rest ∧ action = .event le inputs.outcomes) ∨
      s.ready fds readable ≠ some fds.recoveryfd ∧ (∀ le o, action ≠ .event le o) ∧
        ∀ sfd input o, action = .ready sfd input o → sfd ≠ fds.recoveryfd := by
  unfold dispatch at h
  split at h
  next hNone =>
    cases h
    rw [hNone]
    exact .inr ⟨by simp, by simp, by simp⟩
  next fd hReady =>
    rw [hReady]
    split at h
    next hRequest =>
      obtain ⟨r, _, rfl⟩ := Option.map_eq_some_iff.mp h
      exact .inr ⟨fun hEq => fds.request_ne (hRequest.symm.trans hEq), by simp, by simp⟩
    · split at h
      next hQuery =>
        obtain ⟨q, _, rfl⟩ := Option.map_eq_some_iff.mp h
        exact .inr ⟨fun hEq => fds.query_ne (hQuery.symm.trans hEq), by simp, by simp⟩
      · split at h
        next hEvent =>
          obtain ⟨le, hHead, rfl⟩ := Option.map_eq_some_iff.mp h
          obtain ⟨rest, hPipe⟩ := List.head?_eq_some_iff.mp hHead
          exact .inl ⟨congrArg some hEvent, le, rest, hPipe, rfl⟩
        next hOther =>
          cases h
          refine .inr ⟨fun hEq => hOther (Option.some.inj hEq), nofun, ?_⟩
          intro sfd input o hEq
          cases hEq
          exact hOther

/-- The pipe is registered first and no object holds it. What was written and
is not applied yet is still in it. -/
structure Ordered [DecidableEq Id] (fds : Descriptors Fd) (s : EventLoop Fd Id) : Prop where
  first : s.process.fs.regfd.head? = some (some fds.recoveryfd)
  unheld : fds.recoveryfd ∉ s.process.holding.1 + s.process.holding.2
  isOpen : fds.recoveryfd ∈ s.live
  handled : ∃ handled, s.written = handled ++ s.eventpipe ∧ Holds (applied handled) s.process
  before : ∀ before, s.before = some before → before <+: s.written

variable [DecidableEq Id]

omit [DecidableEq Id] in
/-- Another descriptor is served only while the pipe is empty. -/
theorem empty_of_first (hFirst : s.process.fs.regfd.head? = some (some fds.recoveryfd))
    (hOther : s.ready fds readable ≠ some fds.recoveryfd) : s.eventpipe = [] := by
  have hUnready := FileSelector.first_unready hFirst hOther
  rw [if_pos rfl, Bool.not_eq_false'] at hUnready
  exact List.isEmpty_iff.mp hUnready

theorem init_ordered (fds : Descriptors Fd) (start : Time) (live : List Fd)
    (backupbrokers : List Text) :
    Ordered fds (init fds start live backupbrokers : EventLoop Fd Id) where
  first := FileSelector.head_registerFD (FileSelector.head_registerFD rfl)
  unheld := Multiset.notMem_zero _
  isOpen := List.mem_cons_self
  handled := ⟨[], rfl, rfl⟩
  before := nofun

/-- One iteration keeps the order, and copies whatever was written. -/
theorem iterate_ordered (h : Ordered fds s)
    (hStep : step fds s (.iterate readable inputs) = some t) :
    Ordered fds t ∧
      ∃ new, t.process.trace = s.process.trace ++ new ∧ Copies (applied s.written) new := by
  simp only [step] at hStep
  split at hStep
  · cases hStep
  · cases hStep
    refine ⟨⟨h.first, h.unheld, h.isOpen, h.handled, nofun⟩, [], ?_, ?_⟩
    · exact (List.append_nil _).symm
    · exact Trace.AfterEach.nil
  next action hBefore hDispatch =>
    split at hStep
    next process live hProcess hKernel =>
      cases hStep
      obtain ⟨handled, hWritten, hHolds⟩ := h.handled
      have hCases := dispatch_cases hDispatch
      have hBooks : Books (fun fd => fd ≠ some fds.recoveryfd) (calls s.process action) s.process
          process := by
        apply step_books nofun _ hProcess
        intro sfd input o hReady hEq
        rcases hCases with ⟨_, le, rest, _, hEvent⟩ | ⟨_, _, hOther⟩
        · rw [hReady] at hEvent
          cases hEvent
        · exact hOther sfd input o hReady (Option.some.inj hEq)
      obtain ⟨hUnheld, hOpen, hFirst⟩ := hBooks.accounted.first (fun _ hOther => hOther) h.unheld
        h.isOpen h.first hKernel
      rw [← hBooks.fs] at hFirst
      rcases hCases with ⟨hPipe, le, rest, hEvents, rfl⟩ | ⟨hPipe, hOther, _⟩
      · obtain ⟨⟨new, hTrace, hQuiet⟩, hApplied⟩ := handleEvent_applied hProcess
        refine ⟨⟨hFirst, hUnheld, hOpen, ⟨handled ++ [le], ?_, ?_⟩, nofun⟩,
          new, hTrace, copies_of_unmarked hQuiet⟩
        · dsimp only
          rw [if_pos hPipe, hWritten, hEvents, List.tail_cons, List.append_assoc]
          rfl
        · have hLast : applied (handled ++ [le]) = le.apply (applied handled) := by
            rw [applied, List.foldl_append]
            rfl
          show process.recovery = { applied (handled ++ [le]) with bavec := process.recovery.bavec }
          rw [hApplied, hHolds, le.apply_bavec, hLast]
      · have hEmpty := empty_of_first h.first hPipe
        rw [hEmpty, List.append_nil] at hWritten
        rw [← hWritten] at hHolds
        have hCopied : Copied (applied s.written) _ _ := step_copied hOther hProcess
        obtain ⟨new, hTrace, hCopies⟩ := hCopied.copies hHolds
        refine ⟨⟨hFirst, hUnheld, hOpen, ⟨s.written, ?_, hCopied.holds hHolds⟩,
          nofun⟩, new, hTrace, hCopies⟩
        dsimp only
        rw [if_neg hPipe, hEmpty, List.append_nil]
    · cases hStep

theorem step_ordered {action : LoopAction Fd Id} (h : Ordered fds s)
    (hStep : step fds s action = some t) : Ordered fds t := by
  cases action with
  | wait d =>
      cases hStep
      exact ⟨h.first, h.unheld, h.isOpen, h.handled, h.before⟩
  | write le =>
      cases hStep
      obtain ⟨handled, hWritten, hHolds⟩ := h.handled
      refine ⟨h.first, h.unheld, h.isOpen, ⟨handled, ?_, hHolds⟩, ?_⟩
      · dsimp only
        rw [hWritten, List.append_assoc]
      · intro before hBefore
        exact (h.before before hBefore).trans (List.prefix_append _ _)
  | select =>
      cases hStep
      refine ⟨h.first, h.unheld, h.isOpen, h.handled, ?_⟩
      intro before hBefore
      cases hBefore
      exact List.prefix_refl _
  | iterate readable inputs => exact (iterate_ordered h hStep).1

/-- The pipe stays the first of all registered descriptors, and any other is
served only while the pipe is empty. A recovery copies the store after all
events that were written, and with them all that were written before `select`
was called. -/
theorem recovery_sees_reported {start : Time} {live : List Fd} {backupbrokers : List Text}
    (run : Run (step fds) (fun _ _ => True) (init fds start live backupbrokers) s)
    (hStep : step fds s (.iterate readable inputs) = some t) :
    s.process.fs.regfd.head? = some (some fds.recoveryfd) ∧
      (s.ready fds readable ≠ some fds.recoveryfd → s.eventpipe = []) ∧
      (∃ before, s.before = some before ∧ before <+: s.written) ∧
      ∃ new, t.process.trace = s.process.trace ++ new ∧ Copies (applied s.written) new := by
  have hOrdered : Ordered fds s := run.invariant (init_ordered fds start live backupbrokers)
    fun _ _ _ hInv _ hNext => step_ordered hInv hNext
  refine ⟨hOrdered.first, empty_of_first hOrdered.first, ?_, (iterate_ordered hOrdered hStep).2⟩
  cases hBefore : s.before with
  | none =>
      simp only [step, hBefore] at hStep
      cases hStep
  | some before => exact ⟨before, rfl, hOrdered.before before hBefore⟩

end EventLoop

section OneBroker

/-- The process reads 0 and accepts on 1 and 2. -/
def threeSockets : Descriptors Nat where
  recoveryfd := 0
  requestsfd := some 1
  querysfd := some 2
  request_ne := by decide
  query_ne := by decide

/-- A broker without acceptors asks to be monitored, and its heartbeats end. -/
def lostAtOnce : Inputs Nat where
  request := some (localhost, ⟨brokerService, noAddress, 5672, 2, 1, []⟩)
  query := none
  input := .failed
  outcomes := allConnected 1
  checks := fun _ => allConnected 1

/-- The queue is reported first, while the request is waiting already. -/
def reportThenRequest : List (LoopAction Nat Nat) :=
  [.write (.objectProperty (.queue storedQueue)), .select, .iterate (fun fd => fd = 1) lostAtOnce,
    .select, .iterate (fun fd => fd = 1) lostAtOnce, .select]

theorem recovery_sees_reported_queue :
    ∃ s t : EventLoop Nat Nat,
      EventLoop.step threeSockets s (.iterate (fun fd => fd = 10) lostAtOnce) = some t ∧
      .committed brokerService (moveToBackup 2) .committingSelf [.addQueue [113]] ∈
        t.process.trace ∧
      s.process.fs.regfd.head? = some (some 0) ∧ s.eventpipe = [] ∧
      (∃ before, s.before = some before ∧ before <+: s.written) ∧
      ∃ new, t.process.trace = s.process.trace ++ new ∧ Copies (applied s.written) new := by
  have hExec : ((exec (EventLoop.step threeSockets) (EventLoop.init threeSockets 0 [1, 2]
      oneBackup.backupbrokers : EventLoop Nat Nat) reportThenRequest).bind fun s =>
        (EventLoop.step threeSockets s (.iterate (fun fd => fd = 10) lostAtOnce)).map fun t =>
          decide (s.ready threeSockets (fun fd => fd = 10) = some 10 ∧
            .committed brokerService (moveToBackup 2) .committingSelf [.addQueue [113]] ∈
              t.process.trace)) = some true := by
    decide
  obtain ⟨s, hRun, hLast⟩ := Option.bind_eq_some_iff.mp hExec
  obtain ⟨t, hStep, hChecked⟩ := Option.map_eq_some_iff.mp hLast
  obtain ⟨hReady, hCommitted⟩ := of_decide_eq_true hChecked
  obtain ⟨hFirst, hEmpty, hBefore, hCopied⟩ := EventLoop.recovery_sees_reported
    (Run.of_exec (fun _ _ _ => trivial) hRun) hStep
  exact ⟨s, t, hStep, hCommitted, hFirst, hEmpty (by rw [hReady]; decide), hBefore, hCopied⟩

end OneBroker

end QpidRecovery.Proposer
