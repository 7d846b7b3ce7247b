import QpidRecovery.Common.CharArray
import Mathlib.Data.Nat.Digits.Defs

/-! Broker addresses and urls, the objects collected from brokers, and the
operations that create them on another broker. Object ids belong to the broker
library and are only compared. -/
namespace QpidRecovery

/-- A `std::string`. -/
abbrev Text := List UInt8

/-- The byte of `:`. -/
def colon : UInt8 := 58

/-- `sprintf` with `%u`. -/
def utos (u : UInt32) : Text :=
  if u = 0 then [48] else (Nat.digits 10 u.toNat).reverse.map fun d => 48 + d.toUInt8

def IPPortToUrl {n : Nat} (ip : CString n) (port : UInt32) : Text :=
  ip.bytes ++ colon :: utos port

/-- One step of the loop over the port. The character is a signed `char`. -/
def portDigit (port : UInt32) (c : UInt8) : UInt32 := port * 10 + (c.toInt8.toInt32.toUInt32 - 48)

/-- The host is copied into a `char[n]` up to the colon. A url without a colon
or a host that is too long is read or written out of bounds. -/
def urlToIPPort (n : Nat) (url : Text) : Option (CString n × UInt32) :=
  let host := url.takeWhile (· ≠ colon)
  if h : colon ∈ url ∧ host.length < n then
    some (
      { bytes := host.takeWhile (· ≠ 0)
        noNul := fun hMem => by simpa using List.mem_takeWhile_imp hMem
        fits := (List.takeWhile_sublist _).length_le.trans_lt h.2 },
      (url.drop (host.length + 1)).foldl portDigit 0)
  else none

/-- `strcpy` into another array, which the string may overrun. -/
def CString.copyTo {n : Nat} (m : Nat) (s : CString n) : Option (CString m) :=
  if h : s.bytes.length < m then some ⟨s.bytes, s.noNul, h⟩ else none

structure BrokerAddress where
  ip : IPString
  port : UInt32
deriving DecidableEq, Repr

def BrokerAddress.getAddress (ba : BrokerAddress) : Text := ba.ip.bytes ++ colon :: utos ba.port

section Objects

/-- What every object has, and what `operator==` compares. -/
structure ObjectInfo (Id : Type) where
  objectid : Id
  brokerurl : Text
deriving DecidableEq, Repr

structure BrokerInfo (Id : Type) extends ObjectInfo Id
deriving DecidableEq, Repr

structure LinkInfo (Id : Type) extends ObjectInfo Id where
  host : Text
  port : UInt32
deriving DecidableEq, Repr

structure ExchangeInfo (Id : Type) extends ObjectInfo Id where
  name : Text
  extype : Text
deriving DecidableEq, Repr

structure QueueInfo (Id : Type) extends ObjectInfo Id where
  name : Text
deriving DecidableEq, Repr

structure BindingInfo (Id : Type) extends ObjectInfo Id where
  bindingkey : Text
  exid : Id
  quid : Id
  exname : Text
  quname : Text
deriving DecidableEq, Repr

structure BridgeInfo (Id : Type) extends ObjectInfo Id where
  linkid : Id
  src : Text
  dest : Text
  routingkey : Text
  isqueue : Bool
  isdynamic : Bool
deriving DecidableEq, Repr

/-- A method invoked on a broker object, or on a link object for a bridge. -/
inductive Operation where
  | addExchange (name extype : Text)
  | addQueue (name : Text)
  | addBinding (key exname quname : Text)
  | addLink (host : Text) (port : UInt32)
  | addBridge (src dest key : Text) (isqueue isdynamic : Bool)
deriving DecidableEq, Repr

variable {Id : Type}

def LinkInfo.getLinkDestUrl (l : LinkInfo Id) : Text := l.host ++ colon :: utos l.port

def ExchangeInfo.copyTo (e : ExchangeInfo Id) : Operation := .addExchange e.name e.extype

def QueueInfo.copyTo (q : QueueInfo Id) : Operation := .addQueue q.name

def BindingInfo.copyTo (b : BindingInfo Id) : Operation := .addBinding b.bindingkey b.exname b.quname

def LinkInfo.copyToNewDest (newhost : Text) (newport : UInt32) (_ : LinkInfo Id) : Operation :=
  .addLink newhost newport

def LinkInfo.copyTo (l : LinkInfo Id) : Operation := l.copyToNewDest l.host l.port

def BridgeInfo.copyTo (b : BridgeInfo Id) : Operation :=
  .addBridge b.src b.dest b.routingkey b.isqueue b.isdynamic

/-- The names behind the two ids, and whether both were found. -/
def BindingInfo.setBindingNames [DecidableEq Id] (exvec : List (ExchangeInfo Id))
    (quvec : List (QueueInfo Id)) (b : BindingInfo Id) : BindingInfo Id × Bool :=
  let ex := exvec.find? fun e => e.objectid = b.exid ∧ e.brokerurl = b.brokerurl
  let qu := quvec.find? fun q => q.objectid = b.quid ∧ q.brokerurl = b.brokerurl
  ({ b with
     exname := (ex.map ExchangeInfo.name).getD b.exname
     quname := (qu.map QueueInfo.name).getD b.quname },
    ex.isSome && qu.isSome)

/-- A link object as the broker library returns it. -/
structure LinkObject where
  brokerurl : Text
  host : Text
  port : UInt32
deriving DecidableEq, Repr

def linkObjectDest (o : LinkObject) : Text := o.host ++ colon :: utos o.port

end Objects

end QpidRecovery
