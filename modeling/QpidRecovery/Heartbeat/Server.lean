import QpidRecovery.Cluster.SocketLoops
import QpidRecovery.Library.Timer

/-! The heartbeat server of a broker's host. It writes a heartbeat to every
client whenever its selector runs out of time. -/
namespace QpidRecovery.Heartbeat

open Loop Timed

/-- The seconds of a `double` that is passed as an `unsigned`. -/
def wholeSeconds (t : Time) : Nat := (t / seconds 1).toNat

/-- What the selector is set to, in microseconds. The half second of
`HEARTBEAT_PERIOD` is cut off. -/
def selectorPeriod : Nat := wholeSeconds HEARTBEAT_PERIOD * 1000000

theorem selectorPeriod_eq : (selectorPeriod : Time) = seconds 2 := by
  decide

/-- A `-1` in the vector is the result of a `tcpaccept` that failed. `sending`
is the position of the loop that sends a round of heartbeats. -/
structure Server (Fd : Type) where
  sfdvec : List (Option Fd)
  timer : Timer selectorPeriod
  sending : Option Nat
deriving DecidableEq, Repr

namespace Server

variable {Fd : Type}

/-- The server before its main loop. -/
def init : Server Fd := ⟨[], .set selectorPeriod, none⟩

/-- The server waits in its selector, unless it sends heartbeats. -/
def pass (selecting : Bool) (d : Nat) (s : Server Fd) : Server Fd :=
  { s with timer := s.timer.tick (selecting && s.sending.isNone) d }

/-- The branch for a new client. -/
def accept (newsfd : Option Fd) (s : Server Fd) : Server Fd :=
  { s with sfdvec := s.sfdvec ++ [newsfd] }

/-- The branch for a timeout begins. -/
def timeout (s : Server Fd) : Server Fd := { s with sending := some 0 }

/-- The heartbeat at a position is written, and the loop goes on behind it. -/
def sent (i : Nat) (s : Server Fd) : Server Fd := { s with sending := some (i + 1) }

/-- Who cannot be written to is closed and erased. The next one moves up. -/
def unsent (i : Nat) (s : Server Fd) : Server Fd := { s with sfdvec := s.sfdvec.eraseIdx i }

/-- After the loop the selector is set again. -/
def resetTimeout (s : Server Fd) : Server Fd :=
  { s with
    timer := .set selectorPeriod
    sending := none }

/-- A pass through the loop of `sendHeartbeat`, with the client that is written
to. A write to `-1` fails. -/
def sendHeartbeat (written : Bool) (s : Server Fd) : Option (Server Fd × Option Fd) :=
  s.sending.bind fun i =>
    s.sfdvec[i]?.map fun sfd =>
      if sfd.isSome && written then (s.sent i, sfd) else (s.unsent i, none)

/-- What a pass through the loop has done. -/
theorem sendHeartbeat_cases {written : Bool} {s t : Server Fd} {c : Option Fd}
    (h : s.sendHeartbeat written = some (t, c)) :
    ∃ i sfd, s.sending = some i ∧ s.sfdvec[i]? = some sfd ∧
      ((∃ fd, sfd = some fd ∧ written = true ∧ t = s.sent i ∧ c = some fd) ∨
        ((sfd = none ∨ written = false) ∧ t = s.unsent i ∧ c = none)) := by
  obtain ⟨i, hSending, hRest⟩ := Option.bind_eq_some_iff.mp h
  obtain ⟨sfd, hEntry, hPass⟩ := Option.map_eq_some_iff.mp hRest
  refine ⟨i, sfd, hSending, hEntry, ?_⟩
  split at hPass
  next hWritten =>
    obtain ⟨hSome, hWritten⟩ := Bool.and_eq_true_iff.mp hWritten
    obtain ⟨fd, rfl⟩ := Option.isSome_iff_exists.mp hSome
    cases hPass
    exact .inl ⟨fd, rfl, hWritten, rfl, rfl⟩
  next hFailed =>
    cases hPass
    refine .inr ⟨?_, rfl, rfl⟩
    cases sfd with
    | none => exact .inl rfl
    | some fd => exact .inr (by simpa using hFailed)

/-- The position is the index of the loop. -/
def erasing (i : Nat) (tried erased : List (Option Fd)) (s : Server Fd) :
    Erasing (Option Fd) Int32 :=
  ⟨s.sfdvec, Int32.ofNat i, tried, erased⟩

section Loop
variable {s : Server Fd} {i : Nat} (tried erased : List (Option Fd))

/-- Each step is a pass through the loop of the source. -/
theorem sendHeartbeat_pass {sfd : Option Fd} (hSize : s.sfdvec.length ≤ INT_MAX)
    (hSending : s.sending = some i) (hEntry : s.sfdvec[i]? = some sfd) (written : Bool) :
    ∃ t c j erased', s.sendHeartbeat written = some (t, c) ∧ t.sending = some j ∧
      sendHeartbeatPass (fun _ => sfd.isSome && written) (s.erasing i tried erased) =
        .next (t.erasing j (tried ++ [sfd]) erased') := by
  have hLt : i < s.sfdvec.length := (List.getElem?_eq_some_iff.mp hEntry).1
  have hGoesOn : signedIndex.goesOn (Int32.ofNat i) s.sfdvec.length = true :=
    (signedIndex_counts.goesOn i _ hLt.le hSize).mpr hLt
  have hPosition := signedIndex_counts.position i (hLt.trans_le hSize)
  unfold sendHeartbeat sendHeartbeatPass Erasing.pass erasing
  rw [hSending, Option.bind_some, hEntry, Option.map_some]
  dsimp only
  rw [if_pos hGoesOn, hPosition, hEntry]
  dsimp only
  split
  · refine ⟨_, _, i + 1, erased, rfl, rfl, ?_⟩
    rw [signedIndex_counts.next i (hLt.trans_le hSize)]
    rfl
  · refine ⟨_, _, i, erased ++ [sfd], rfl, hSending, ?_⟩
    rw [signedIndex_counts.stays i (hLt.trans_le hSize)]
    rfl

/-- The loop is left at the end of the vector. -/
theorem sendHeartbeat_leave (hSize : s.sfdvec.length ≤ INT_MAX) (hEnd : i = s.sfdvec.length)
    (succeeds : Nat → Bool) :
    sendHeartbeatPass succeeds (s.erasing i tried erased) = .leave := by
  apply if_neg
  rw [hEnd]
  intro hGoesOn
  exact absurd ((signedIndex_counts.goesOn _ _ (Nat.le_refl _) hSize).mp hGoesOn) (lt_irrefl _)

end Loop

end Server

end QpidRecovery.Heartbeat
