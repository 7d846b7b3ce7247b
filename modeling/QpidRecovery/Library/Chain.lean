import Mathlib.Data.List.Nodup
import Mathlib.Logic.Function.Basic

/-! Singly linked lists in memory. Every node has at most one successor, and a
list is what is found from its head on. Nodes are put in and taken out by
writing successors. -/
namespace Chain

variable {ν : Type*}

/-- From a head on, the nodes are found in this order, and the last one has no
successor. -/
def Reads (next : ν → Option ν) : Option ν → List ν → Prop
  | head, [] => head = none
  | head, u :: l => head = some u ∧ Reads next (next u) l

variable {next : ν → Option ν} {head : Option ν} {l before after : List ν} {u v : ν}

/-- A list whose nodes each point to the one behind it. -/
theorem reads_of_getElem (h : ∀ i u, l[i]? = some u → next u = l[i + 1]?) :
    Reads next l.head? l := by
  induction l with
  | nil => rfl
  | cons u l ih =>
      refine ⟨rfl, ?_⟩
      have hNext := h 0 u rfl
      rw [List.getElem?_cons_succ] at hNext
      rw [hNext, ← List.head?_eq_getElem?]
      exact ih fun i v hv => h (i + 1) v hv

section Writes
variable [DecidableEq ν]

/-- A write to a node outside leaves a list as it is. -/
theorem Reads.update_outside (h : Reads next head l) (hOut : u ∉ l) (x : Option ν) :
    Reads (Function.update next u x) head l := by
  induction l generalizing head with
  | nil => exact h
  | cons v l ih =>
      obtain ⟨hHead, hRest⟩ := h
      have hNe : v ≠ u := fun hEq => hOut (hEq ▸ List.mem_cons_self)
      refine ⟨hHead, ?_⟩
      rw [Function.update_of_ne hNe]
      exact ih hRest fun hMem => hOut (List.mem_cons_of_mem _ hMem)

/-- A new node in front. -/
theorem Reads.push (h : Reads next head l) (hOut : u ∉ l) :
    Reads (Function.update next u head) (some u) (u :: l) := by
  refine ⟨rfl, ?_⟩
  rw [Function.update_self]
  exact h.update_outside hOut head

/-- The node behind another one is taken out when that one is given its
successor. -/
theorem Reads.unlink (h : Reads next head (before ++ v :: u :: after))
    (hNodup : (before ++ v :: u :: after).Nodup) :
    Reads (Function.update next v (next u)) head (before ++ v :: after) := by
  induction before generalizing head with
  | nil =>
      obtain ⟨hHead, _, hRest⟩ := h
      refine ⟨hHead, ?_⟩
      rw [Function.update_self]
      apply hRest.update_outside
      intro hMem
      exact (List.nodup_cons.mp hNodup).1 (List.mem_cons_of_mem _ hMem)
  | cons w before ih =>
      obtain ⟨hHead, hRest⟩ := h
      obtain ⟨hFirst, hNodup⟩ := List.nodup_cons.mp hNodup
      have hNe : w ≠ v := by
        rintro rfl
        exact hFirst (List.mem_append_right _ List.mem_cons_self)
      refine ⟨hHead, ?_⟩
      rw [Function.update_of_ne hNe]
      exact ih hRest hNodup

end Writes

end Chain
