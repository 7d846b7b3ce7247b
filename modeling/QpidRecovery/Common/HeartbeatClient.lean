import QpidRecovery.Common.Basic

/-! One end of a heartbeat connection. -/
namespace QpidRecovery

/-- `HEARTBEAT_PERIOD`, two and a half seconds. -/
def HEARTBEAT_PERIOD : Time := 2500000

structure HeartbeatClient (Fd : Type) where
  ip : IPString
  sfd : Option Fd
  timestamp : Time
deriving DecidableEq, Repr

namespace HeartbeatClient

variable {Fd : Type}

/-- The constructor, with the outcome of its `tcpconnect`. -/
def new (now : Time) (connected : Option Fd) (ip : IPString) : HeartbeatClient Fd where
  ip := ip
  sfd := connected
  timestamp := now

/-- After a full heartbeat was read. -/
def readMessage (now : Time) (hbc : HeartbeatClient Fd) : HeartbeatClient Fd :=
  { hbc with timestamp := now }

def isExpired (now t : Time) (hbc : HeartbeatClient Fd) : Bool := now - hbc.timestamp > t

end HeartbeatClient

end QpidRecovery
