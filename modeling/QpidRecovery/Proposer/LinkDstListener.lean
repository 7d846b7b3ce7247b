import QpidRecovery.Common.FileSelector
import Mathlib.Tactic.SplitIfs

/-! The proposer's subscriptions to the new addresses of the brokers its links
lead to. -/
namespace QpidRecovery.Proposer

structure ReplyProposer where
  name : ServiceName
  ip : List IPString
deriving DecidableEq, Repr

/-- What `memset` leaves before the first reply. -/
def ReplyProposer.zeroed : ReplyProposer := ⟨noName, []⟩

structure ReplyAddress where
  name : ServiceName
  ip : IPString
  port : UInt32
deriving DecidableEq, Repr

/-- One failed link. A slot holds a proposer that was asked, and its socket
while it is open. -/
structure AddressChange (Fd : Type) where
  name : ServiceName
  livingcount : Nat
  slots : List (IPString × Option Fd)
  srcip : IPString
  srcport : UInt32
  oldip : IPString
  oldport : UInt32
deriving DecidableEq, Repr

namespace AddressChange

variable {Fd : Type} [DecidableEq Fd]

def listensOn (ready : Fd) (ac : AddressChange Fd) : Bool :=
  ac.slots.any fun slot => slot.2 = some ready

/-- The slot whose read failed. -/
def drop (ready : Fd) (ac : AddressChange Fd) : AddressChange Fd :=
  { ac with
    livingcount := ac.livingcount - 1
    slots := ac.slots.modify (ac.slots.findIdx fun slot => slot.2 = some ready)
      fun slot => (slot.1, none) }

def closeAll (ac : AddressChange Fd) : AddressChange Fd :=
  { ac with slots := ac.slots.map fun slot => (slot.1, none) }

end AddressChange

structure LinkDstListener (Fd : Type) where
  listening : List (AddressChange Fd)
deriving DecidableEq, Repr

namespace LinkDstListener

variable {Fd : Type}

/-- Ask every proposer of the list for the address of the destination. Lists
longer than the arrays overrun them. The result is -1 when none was reached. -/
def listenAddressChange (connect : Nat → Option Fd) (rp : ReplyProposer) (sip : IPString)
    (sport : UInt32) (oip : IPString) (oport : UInt32) (l : LinkDstListener Fd) :
    Option (LinkDstListener Fd × List Fd × Int) :=
  if MAX_PROPOSERS < rp.ip.length then none
  else
    let slots := rp.ip.mapIdx fun i ip => (ip, connect i)
    let opened := slots.filterMap Prod.snd
    let ac : AddressChange Fd :=
      { name := rp.name
        livingcount := opened.length
        slots := slots
        srcip := sip
        srcport := sport
        oldip := oip
        oldport := oport }
    if opened.length = 0 then some (l, opened, -1)
    else some (⟨l.listening ++ [ac]⟩, opened, 0)

/-- The sockets that a new record opens. -/
theorem listenAddressChange_opened {connect : Nat → Option Fd} {rp : ReplyProposer} {sip oip : IPString}
    {sport oport : UInt32} {l : LinkDstListener Fd} {out : LinkDstListener Fd × List Fd × Int}
    (h : l.listenAddressChange connect rp sip sport oip oport = some out) :
    out.2.1 = (List.range rp.ip.length).filterMap connect := by
  have hSlots : (rp.ip.mapIdx fun i ip => (ip, connect i)).filterMap Prod.snd =
      (List.range rp.ip.length).filterMap connect := by
    rw [List.mapIdx_eq_zipIdx_map, List.filterMap_map, List.range_eq_range', ← List.zipIdx_map_snd,
      List.filterMap_map]
    rfl
  unfold listenAddressChange at h
  dsimp only at h
  split at h
  · cases h
  · split at h
    · cases h
      exact hSlots
    · cases h
      exact hSlots

variable [DecidableEq Fd]

/-- The listener after a call, the sockets it closed, and the link with its
new destination when the result is 1. -/
structure Change (Fd : Type) where
  listener : LinkDstListener Fd
  closed : List Fd
  result : Int
  link : Option (AddressChange Fd × IPString × UInt32)

/-- What was read is `none` when the read failed. -/
def readAddressChange (ready : Fd) (ra : Option ReplyAddress) (l : LinkDstListener Fd) :
    Change Fd :=
  match l.listening.findIdx? (AddressChange.listensOn ready) with
  | none => ⟨l, [], 0, none⟩
  | some i =>
      match l.listening[i]?, ra with
      | none, _ => ⟨l, [], 0, none⟩
      | some ac, none => ⟨⟨l.listening.set i (ac.drop ready)⟩, [ready], -1, none⟩
      | some ac, some ra =>
          if ac.name ≠ ra.name then ⟨l, [], -1, none⟩
          else if ac.oldip = ra.ip ∧ ac.oldport = ra.port then ⟨l, [], 2, none⟩
          else
            ⟨⟨l.listening.set i ac.closeAll⟩, ac.slots.filterMap Prod.snd, 1,
              some (ac, ra.ip, ra.port)⟩

/-- The result is 0 only for a socket of nobody. -/
theorem readAddressChange_result {ready : Fd} {ra : Option ReplyAddress} {l : LinkDstListener Fd}
    (h : (l.readAddressChange ready ra).result = 0) :
    l.listening.findIdx? (AddressChange.listensOn ready) = none := by
  cases hFound : l.listening.findIdx? (AddressChange.listensOn ready) with
  | none => rfl
  | some i =>
      obtain ⟨hBound, _⟩ := List.findIdx?_eq_some_iff_getElem.mp hFound
      simp only [readAddressChange, hFound, List.getElem?_eq_getElem hBound] at h
      cases ra with
      | none => cases h
      | some ra =>
          dsimp only at h
          split_ifs at h <;> cases h

end LinkDstListener

end QpidRecovery.Proposer
