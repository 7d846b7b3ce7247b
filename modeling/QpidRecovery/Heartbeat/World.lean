import Mathlib.Logic.Function.Basic
import QpidRecovery.Heartbeat.Server
import QpidRecovery.Proposer.Clients
import QpidRecovery.Proposer.Accounts

/-! A proposer and the heartbeat servers of the hosts that it watches, on one
clock. The proposer's timeout branch is taken one record at a time, and a round
of heartbeats one write at a time, so that time may pass in between. -/
namespace QpidRecovery.Heartbeat

open Proposer Timed

/-- A heartbeat that is on its way to a client, or waits to be read. -/
structure Beat (Fd : Type) where
  host : IPString
  conn : Fd
  sent : Time
  arrived : Option Time
deriving DecidableEq, Repr

/-- It is for this client. -/
def Beat.To {Fd : Type} (b : Beat Fd) (hbc : HeartbeatClient Fd) : Prop :=
  hbc.ip = b.host ∧ hbc.sfd = some b.conn

instance {Fd : Type} [DecidableEq Fd] (b : Beat Fd) (hbc : HeartbeatClient Fd) :
    Decidable (b.To hbc) :=
  inferInstanceAs (Decidable (hbc.ip = b.host ∧ hbc.sfd = some b.conn))

/-- The connections in `backlog` were made by the kernel, and the server has not
accepted them yet. -/
structure Host (Fd : Type) where
  server : Server Fd
  backlog : List Fd
  down : Option Time
deriving DecidableEq, Repr

namespace Host

variable {Fd : Type}

def init : Host Fd := ⟨.init, [], none⟩

/-- A pending connection ends the wait of the selector. -/
def pass (selecting : Bool) (d : Nat) (h : Host Fd) : Host Fd :=
  { h with server := h.server.pass (selecting && h.backlog.isEmpty) d }

def connect (c : Fd) (h : Host Fd) : Host Fd := { h with backlog := h.backlog ++ [c] }

end Host

/-- A descriptor stands for a connection, and no two connections get the same.
`checking` is the position of the loop in the timeout branch. -/
structure World (Fd Id : Type) where
  proposer : Proposer.State Fd Id
  live : List Fd
  named : List Fd
  timer : Timer 4000000
  checking : Option Nat
  hosts : IPString → Host Fd
  beats : List (Beat Fd)

/-- Time passes, in which every process waits in its selector or does something
else. The other events are those of the network, of a host, and of the
proposer. -/
inductive Event (Fd Id : Type) where
  | pass (d : Nat) (selecting : Bool) (serving : IPString → Bool)
  | connect (ip : IPString) (c : Fd)
  | arrive (i : Nat)
  | accept (ip : IPString) (accepted : Bool)
  | timeout (ip : IPString)
  | beat (ip : IPString) (written : Bool)
  | resetTimeout (ip : IPString)
  | crash (ip : IPString)
  | act (action : Action Fd Id)
  | expire
  | check (o : Outcomes Fd)

namespace World

variable {Fd Id : Type} [DecidableEq Fd]

/-- Every heartbeat server, and the proposer with its pipe and its server
sockets, before their main loops. -/
def init (start : Time) (recoveryfd requestsfd querysfd : Fd) (backupbrokers : List Text) :
    World Fd Id where
  proposer := .init start (some recoveryfd) (some requestsfd) (some querysfd) backupbrokers
  live := [querysfd, requestsfd, recoveryfd]
  named := [querysfd, requestsfd, recoveryfd]
  timer := .due 4000000
  checking := none
  hosts := fun _ => .init
  beats := []

def now (w : World Fd Id) : Time := w.proposer.now

/-- The client that reads from a descriptor. -/
def client (sfd : Fd) (w : World Fd Id) : Option (HeartbeatClient Fd) :=
  (receiver sfd w.proposer.monitor).bind fun i => w.proposer.clients[i]?.join

/-- A heartbeat waits to be read by this client. -/
def waitsFor (hbc : HeartbeatClient Fd) (b : Beat Fd) : Bool := b.arrived.isSome && b.To hbc

def readable (w : World Fd Id) (sfd : Fd) : Bool :=
  (w.client sfd).any fun hbc => w.beats.any (waitsFor hbc)

/-- The proposer's `select` finds no heartbeat. -/
def quiet (w : World Fd Id) : Bool := (w.proposer.fs.getReadReadyFD w.readable).isNone

/-- The proposer is blocked in its `select`. -/
def waits (selecting : Bool) (w : World Fd Id) : Bool :=
  selecting && w.checking.isNone && w.quiet

def pass (d : Nat) (selecting : Bool) (serving : IPString → Bool) (w : World Fd Id) :
    World Fd Id :=
  { w with
    proposer := { w.proposer with now := w.now + d }
    timer := w.timer.tick (w.waits selecting) d
    hosts := fun ip => (w.hosts ip).pass (serving ip) d }

/-- One host changes. -/
def put (ip : IPString) (h : Host Fd) (w : World Fd Id) : World Fd Id :=
  { w with hosts := Function.update w.hosts ip h }

omit [DecidableEq Fd] in
@[simp] theorem put_self (ip : IPString) (h : Host Fd) (w : World Fd Id) :
    (w.put ip h).hosts ip = h := Function.update_self ..

omit [DecidableEq Fd] in
theorem put_of_ne {ip ip' : IPString} (hNe : ip' ≠ ip) (h : Host Fd) (w : World Fd Id) :
    (w.put ip h).hosts ip' = w.hosts ip' := Function.update_of_ne hNe ..

/-- Another process connects to the heartbeat server. -/
def connect (ip : IPString) (c : Fd) (w : World Fd Id) : Option (World Fd Id) :=
  if c ∈ w.named ∨ (w.hosts ip).down.isSome then none
  else some { w.put ip ((w.hosts ip).connect c) with named := c :: w.named }

def arrive (i : Nat) (w : World Fd Id) : Option (World Fd Id) :=
  match w.beats[i]? with
  | none => none
  | some b =>
      if b.arrived.isSome then none
      else some { w with beats := w.beats.set i { b with arrived := some w.now } }

def accept (ip : IPString) (accepted : Bool) (w : World Fd Id) : Option (World Fd Id) :=
  if (w.hosts ip).down.isSome ∨ (w.hosts ip).server.sending.isSome then none
  else match (w.hosts ip).backlog with
    | [] => none
    | c :: rest =>
        if accepted then
          some (w.put ip { w.hosts ip with
            server := (w.hosts ip).server.accept (some c)
            backlog := rest })
        else some (w.put ip { w.hosts ip with server := (w.hosts ip).server.accept none })

/-- The server's selector runs out of time, and a round of heartbeats begins. -/
def timeout (ip : IPString) (w : World Fd Id) : Option (World Fd Id) :=
  if (w.hosts ip).down.isSome ∨ (w.hosts ip).server.sending.isSome ∨ (w.hosts ip).backlog ≠ [] ∨
      (w.hosts ip).server.timer.left ≠ 0 then none
  else some (w.put ip { w.hosts ip with server := (w.hosts ip).server.timeout })

/-- The next heartbeat of the round. -/
def beat (ip : IPString) (written : Bool) (w : World Fd Id) : Option (World Fd Id) :=
  if (w.hosts ip).down.isSome then none
  else ((w.hosts ip).server.sendHeartbeat written).map fun out =>
    { w.put ip { w.hosts ip with server := out.1 } with
      beats := w.beats ++ out.2.toList.map fun c => ⟨ip, c, w.now, none⟩ }

/-- The round is over, and the selector is set again. -/
def resetTimeout (ip : IPString) (w : World Fd Id) : Option (World Fd Id) :=
  match (w.hosts ip).down, (w.hosts ip).server.sending with
  | none, some i =>
      if i < (w.hosts ip).server.sfdvec.length then none
      else some (w.put ip { w.hosts ip with server := (w.hosts ip).server.resetTimeout })
  | _, _ => none

def crash (ip : IPString) (w : World Fd Id) : Option (World Fd Id) :=
  if (w.hosts ip).down.isSome then none
  else some (w.put ip { w.hosts ip with down := some w.now })

/-- The beats that are left after what an action reads. A client reads one that
waits for it, and if there is none, its read fails and its host is down. -/
def reads (w : World Fd Id) : Action Fd Id → Option (List (Beat Fd))
  | .ready sfd input _ =>
      match w.client sfd with
      | none => some w.beats
      | some hbc =>
          if w.beats.any (waitsFor hbc) then
            if input.heartbeat then some (w.beats.eraseP (waitsFor hbc)) else none
          else if input.heartbeat ∨ (w.hosts hbc.ip).down = none then none
          else some w.beats
  | _ => some w.beats

/-- The hosts after the `tcpconnect` of a new heartbeat client. It fails for a
host that is down. -/
def dials (w : World Fd Id) : Action Fd Id → Option (IPString → Host Fd)
  | .request fromip r o =>
      match o.heartbeat with
      | none => some w.hosts
      | some c =>
          let ip := brokerOf fromip r
          if (w.hosts ip).down.isSome then none
          else some (Function.update w.hosts ip ((w.hosts ip).connect c))
  | _ => some w.hosts

/-- The kernel hands out descriptors that were never used. -/
def advance (calls : List (Call Fd)) (t : Proposer.State Fd Id) (w : World Fd Id) :
    Option (World Fd Id) :=
  if ∃ fd ∈ Call.newFds calls, fd ∈ w.named then none
  else (Call.openedAfter calls w.live).map fun live =>
    { w with
      proposer := t
      live := live
      named := Call.newFds calls ++ w.named }

variable [DecidableEq Id]

/-- An iteration that is no timeout. -/
def act (action : Action Fd Id) (w : World Fd Id) : Option (World Fd Id) :=
  if w.checking.isSome then none
  else match action with
    | .wait _ | .timeout _ => none
    | action =>
        (w.reads action).bind fun beats =>
          (w.dials action).bind fun hosts =>
            (Proposer.step w.proposer action).bind fun t =>
              (w.advance (Proposer.calls w.proposer action) t).map fun w =>
                { w with
                  hosts := hosts
                  beats := beats }

/-- The position in the loop over `n` records. -/
def position (i n : Nat) : Option Nat := if i < n then some i else none

omit [DecidableEq Id] in
/-- The proposer's selector runs out of time. -/
def expire (w : World Fd Id) : Option (World Fd Id) :=
  if w.checking.isSome ∨ w.timer.left ≠ 0 ∨ w.quiet = false then none
  else some { w with
    proposer := { w.proposer with totaltime := nextTotaltime w.proposer.totaltime }
    timer := .set 4000000
    checking := position 0 w.proposer.monitor.length }

/-- The timeout branch looks at the next record. -/
def check (o : Outcomes Fd) (w : World Fd Id) : Option (World Fd Id) :=
  match w.checking with
  | none => none
  | some i =>
      (checkMonitored (fun _ => o) i w.proposer).bind fun t =>
        (w.advance (checkMonitoredCalls (fun _ => o) i w.proposer) t).map fun w =>
          { w with checking := position (i + 1) w.proposer.monitor.length }

def step (w : World Fd Id) : Event Fd Id → Option (World Fd Id)
  | .pass d selecting serving => some (w.pass d selecting serving)
  | .connect ip c => w.connect ip c
  | .arrive i => w.arrive i
  | .accept ip accepted => w.accept ip accepted
  | .timeout ip => w.timeout ip
  | .beat ip written => w.beat ip written
  | .resetTimeout ip => w.resetTimeout ip
  | .crash ip => w.crash ip
  | .act action => w.act action
  | .expire => w.expire
  | .check o => w.check o

end World

end QpidRecovery.Heartbeat
