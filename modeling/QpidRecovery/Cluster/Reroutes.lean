import QpidRecovery.Cluster.Announcements
import QpidRecovery.Proposer.Reroutes

/-! The links to the broker of a service that other proposers reroute. They ask
the proposers of the service for its new address, so all links go to the one
backup that was committed. -/
namespace QpidRecovery

namespace Proposer

variable {Fd Id : Type} [DecidableEq Fd]

end Proposer

namespace Cluster

open Requestor (Config oneAndOne)
open Transition

variable {Id : Type} {cfg : Config}

/-- The processes with the calls of `reroute` so far. -/
structure Redirected (Id : Type) where
  cluster : State Id
  moved : List Proposer.Moved

/-- The calls that a step adds to the traces. -/
def State.moves (s t : State Id) : Action Id → List Proposer.Moved
  | .proposer ip _ => (t.proposers ip).moved.drop (s.proposers ip).moved.length
  | _ => []

variable [DecidableEq Id]

/-- Nothing that was decided is taken back. -/
theorem step_decided {s v : State Id} {action : Action Id} (h : step cfg s action = some v) :
    s.decided ⊆ v.decided := by
  obtain ⟨u, hArrive, hIterate⟩ := Option.bind_eq_some_iff.mp h
  rw [← (arrive_arrived hArrive).decided]
  cases action with
  | requestor action =>
      obtain ⟨r, _, rfl⟩ := Option.map_eq_some_iff.mp hIterate
      exact List.subset_append_left _ _
  | proposer ip action =>
      obtain ⟨p, _, rfl⟩ := Option.map_eq_some_iff.mp hIterate
      exact List.subset_append_left _ _
  | acceptor ip event =>
      obtain ⟨a, _, rfl⟩ := Option.map_eq_some_iff.mp hIterate
      exact List.Subset.refl _

/-- The one recovery stays the one. -/
theorem State.RecoveredBy.step {s₀ s v : State Id} {action : Action Id} {rp : RecoveryProposal}
    (h : s.RecoveredBy rp) (hInit : Initial cfg s₀) (run : Run (Cluster.step cfg) (Allowed cfg) s₀ v)
    (hStep : Cluster.step cfg s action = some v) : v.RecoveredBy rp := by
  obtain ⟨t, b, _, hInv, hView⟩ := refines_succession hInit run
  have hMem : Proposal.recoveryProposal rp ∈ (s.decidedOf .recoveryProposal).map Prod.snd := by
    rw [h]
    exact List.mem_singleton_self _
  obtain ⟨⟨x, p⟩, hDecided, hSame⟩ := List.mem_map.mp hMem
  cases hSame
  exact recoveredBy_of_decided hInv hView (step_decided hStep (List.mem_filter.mp hDecided).1)

namespace Redirected

def step (cfg : Config) (h : Redirected Id) (action : Action Id) : Option (Redirected Id) :=
  (Cluster.step cfg h.cluster action).map fun t =>
    ⟨t, h.moved ++ h.cluster.moves t action⟩

/-- The links to the broker of the service that were rerouted lead to the
backup. -/
def Settled (cfg : Config) (home : IPString) (h : Redirected Id) : Prop :=
  ∀ m ∈ h.moved, m.name = cfg.servicename → m.link.dstip = home →
    m.link.dstport = cfg.brokerport →
    ∃ rp, h.cluster.RecoveredBy rp ∧ m.newip = rp.backupip ∧ m.newport = rp.backupport

section Sample

/-- The address `10.0.0.9`, whose broker has a link to the one that fails. -/
def elsewhere : IPString := Proposer.Rerouting.failedLink.srcip

end Sample

end Redirected

end Cluster

end QpidRecovery
