import QpidRecovery.Common.Basic
import QpidRecovery.Library.Layout
import QpidRecovery.Library.Transition

/-! The ping daemon. It forks a child for every request. The children write the
hop counts they see into a pipe, and so does the handler of SIGCHLD when some of
them have exited. The daemon reads the pipe record by record and answers for
all children that have exited when it comes to the record of the handler. -/
namespace QpidRecovery.Pingd

open Layout

def MAX_ADDRESS_LENGTH : Nat := 40

abbrev Address := CString MAX_ADDRESS_LENGTH

def HOPS_ERROR : Int32 := -1

instance : Layout Int32 :=
  ofEquiv (α := UInt32) Int32.toUInt32 Int32.ofUInt32 (fun _ => rfl) (fun _ => rfl)

structure PingdHeader where
  type : UInt32
  bodysize : UInt32
deriving DecidableEq, Repr

def PINGD_SAMPLE : UInt32 := 1
def PINGD_CHILD : UInt32 := 2

instance : Layout PingdHeader :=
  ofEquiv (α := UInt32 × UInt32) (fun h => (h.type, h.bodysize)) (fun p => ⟨p.1, p.2⟩)
    (fun _ => rfl) (fun _ => rfl)

def HEADERSIZE : Nat := size PingdHeader

structure PingdSample where
  hops : Int32
  pid : Int32
deriving DecidableEq, Repr

instance : Layout PingdSample :=
  ofEquiv (α := Int32 × Int32) (fun s => (s.hops, s.pid)) (fun p => ⟨p.1, p.2⟩)
    (fun _ => rfl) (fun _ => rfl)

/-- What one `write` puts into the pipe. The kernel does not split a write of
this size. -/
inductive Report where
  | sample (s : PingdSample)
  | child
deriving DecidableEq, Repr

namespace Report

def header : Report → PingdHeader
  | sample _ => ⟨PINGD_SAMPLE, 8⟩
  | child => ⟨PINGD_CHILD, 0⟩

def body : Report → List UInt8
  | sample s => bytes s
  | child => []

def written (r : Report) : List UInt8 := bytes r.header ++ r.body

/-- The child that wrote it. -/
def reporter : Report → Option Int32
  | sample s => some s.pid
  | child => none

/-- The hop count, if this child wrote it. -/
def hopsOf (pid : Int32) : Report → Option Int32
  | sample s => if s.pid = pid then some s.hops else none
  | child => none

end Report

/-- A read that must not come up short. -/
def readAll (n : Nat) (pending : List UInt8) : Option (List UInt8 × List UInt8) :=
  if pending.length < n then none else some (pending.take n, pending.drop n)

/-- The two reads of the loop. -/
def readReport (pending : List UInt8) : Option ((PingdHeader × List UInt8) × List UInt8) :=
  (readAll HEADERSIZE pending).bind fun head =>
    let header : PingdHeader := ofBytes head.1
    (readAll header.bodysize.toNat head.2).map fun body => ((header, body.1), body.2)

/-- They take exactly one record out of the pipe. -/
theorem readReport_written (r : Report) (rest : List UInt8) :
    readReport (r.written ++ rest) = some ((r.header, r.body), rest) := by
  have hRead : ∀ l tail : List UInt8, readAll l.length (l ++ tail) = some (l, tail) := by
    intro l tail
    rw [readAll, if_neg (by rw [List.length_append]; omega), List.take_left, List.drop_left]
  have hBody : r.header.bodysize.toNat = r.body.length := by
    cases r with
    | sample s => exact (length_bytes s).symm
    | child => rfl
  have hHeader : HEADERSIZE = (bytes r.header).length := (length_bytes r.header).symm
  rw [readReport, Report.written, List.append_assoc, hHeader, hRead, Option.bind_some]
  dsimp only
  rw [ofBytes_bytes, hBody, hRead, Option.map_some]

/-- One entry of `pidtoaddr`. -/
structure PidAddress where
  pid : Int32
  hops : Int32
  client : Address
  pingto : Address
deriving DecidableEq, Repr

def TABLE_SIZE : Nat := 256

def sethops (p h : Int32) : List PidAddress → Option (List PidAddress)
  | [] => none
  | u :: rest =>
      if u.pid = p then some ({ u with hops := h } :: rest)
      else (sethops p h rest).map fun rest => u :: rest

def unmappid (p : Int32) : List PidAddress → Option (PidAddress × List PidAddress)
  | [] => none
  | u :: rest =>
      if p = u.pid then some (u, rest)
      else (unmappid p rest).map fun out => (out.1, u :: out.2)

structure PingRequest where
  client : Address
  pingto : Address
deriving DecidableEq, Repr

/-- The datagram that answers a request, with the client it is sent to. -/
structure PingdHops where
  client : Address
  hops : Int32
  pinged : Address
  timestamp : Nat
deriving DecidableEq, Repr

/-- A child for the kernel, together with what it was forked for and the hop
counts that it wrote. -/
structure Child where
  pid : Int32
  request : PingRequest
  reports : List Int32
  exited : Bool
deriving DecidableEq, Repr

/-- Where the daemon is: at the `select`, at a datagram that `select` reported,
or in the loop around `waitpid`. A handler that finds the pipe full never
returns. -/
inductive Control where
  | selecting
  | receiving
  | harvesting
  | blocked
  | errexit
deriving DecidableEq, Repr

/-- `unused` counts the free entries of the table. The children are those the
daemon has not waited for, newest first, as the entries in use are. The
requests are those a child was forked for. -/
structure State where
  control : Control
  inUse : List PidAddress
  unused : Nat
  pipe : List Report
  sigchld : Bool
  children : List Child
  reaped : List (Child × Nat)
  requests : List PingRequest
  responses : List PingdHops
deriving DecidableEq, Repr

def State.init : State where
  control := .selecting
  inUse := []
  unused := TABLE_SIZE
  pipe := []
  sigchld := false
  children := []
  reaped := []
  requests := []
  responses := []

def mappid (p : Int32) (r : PingRequest) (s : State) : State :=
  match s.unused with
  | 0 => s
  | unused + 1 => { s with unused := unused, inUse := ⟨p, HOPS_ERROR, r.client, r.pingto⟩ :: s.inUse }

/-- The steps of the children, of the signal and of the daemon. `fork` gives
the pid of the child, and `waitpid` any child that has exited. -/
inductive Action where
  | report (s : PingdSample)
  | exit (pid : Int32)
  | handler
  | read
  | select
  | receive (r : Option (PingRequest × Option Int32))
  | reap (pid : Int32) (now : Nat)
  | harvested
deriving DecidableEq, Repr

/-- The bytes in the pipe. -/
def pending (pipe : List Report) : List UInt8 := pipe.flatMap Report.written

/-- The switch on a record. Nothing writes one of the type `PINGD_PING`. -/
def handleReport (header : PingdHeader) (body : List UInt8) (s : State) : State :=
  if header.type = PINGD_SAMPLE then
    let response : PingdSample := ofBytes body
    { s with inUse := (sethops response.pid response.hops s.inUse).getD s.inUse }
  else if header.type = PINGD_CHILD then { s with control := .harvesting }
  else { s with control := .errexit }

/-- The child with this pid, if it runs. -/
def runs (pid : Int32) (children : List Child) : Bool :=
  children.any fun c => c.pid = pid ∧ c.exited = false

def onChild (pid : Int32) (f : Child → Child) (children : List Child) : List Child :=
  children.map fun c => if c.pid = pid then f c else c

def respond (u : PidAddress) (now : Nat) : PingdHops := ⟨u.client, u.hops, u.pingto, now⟩

/-- The pipe holds `capacity` bytes. A child whose record does not fit waits.
A pid is not given to a second child before the first was waited for. -/
def step (capacity : Nat) (s : State) : Action → Option State
  | .report sample =>
      if runs sample.pid s.children ∧ 0 ≤ sample.hops ∧
          (pending (s.pipe ++ [.sample sample])).length ≤ capacity then
        some { s with
          pipe := s.pipe ++ [.sample sample]
          children := onChild sample.pid
            (fun c => { c with reports := c.reports ++ [sample.hops] }) s.children }
      else none
  | .exit pid =>
      if runs pid s.children then
        some { s with
          children := onChild pid (fun c => { c with exited := true }) s.children
          sigchld := true }
      else none
  | .handler =>
      if s.sigchld ∧ s.control ≠ .blocked ∧ s.control ≠ .errexit then
        if (pending (s.pipe ++ [.child])).length ≤ capacity then
          some { s with sigchld := false, pipe := s.pipe ++ [.child] }
        else some { s with sigchld := false, control := .blocked }
      else none
  | .read =>
      if s.control = .selecting then
        match s.pipe with
        | [] => none
        | r :: rest =>
            match readReport (pending (r :: rest)) with
            | none => some { s with control := .errexit }
            | some ((header, body), _) => some (handleReport header body { s with pipe := rest })
      else none
  | .select =>
      if s.control = .selecting ∧ s.pipe = [] then some { s with control := .receiving } else none
  | .receive r =>
      if s.control = .receiving then
        match r with
        | none | some (_, none) => some { s with control := .selecting }
        | some (request, some pid) =>
            if pid ∈ s.children.map Child.pid then none
            else some (mappid pid request { s with
              control := .selecting
              children := ⟨pid, request, [], false⟩ :: s.children
              requests := s.requests ++ [request] })
      else none
  | .reap pid now =>
      if s.control = .harvesting then
        (s.children.find? fun c => c.pid = pid ∧ c.exited).map fun c =>
          let s := { s with
            children := s.children.filter fun c => c.pid ≠ pid
            reaped := s.reaped ++ [(c, now)] }
          match unmappid pid s.inUse with
          | none => { s with control := .errexit }
          | some (u, inUse) => { s with
              inUse := inUse
              unused := s.unused + 1
              responses := s.responses ++ [respond u now] }
      else none
  | .harvested =>
      if s.control = .harvesting ∧ s.children.all fun c => !c.exited then
        some { s with control := .selecting }
      else none

end QpidRecovery.Pingd
