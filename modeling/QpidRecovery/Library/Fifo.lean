import Mathlib.Data.List.Basic

/-! Several channels whose messages are held in one list, oldest first. A view
picks the messages of one channel. -/
namespace Fifo

variable {π μ : Type*} {view : π → Option μ} {network : List π} {packet : π} {m : μ}

def queue (view : π → Option μ) (network : List π) : List μ := network.filterMap view

/-- A packet is known by its message on the channel. -/
def Separates (view : π → Option μ) : Prop :=
  ∀ p q m, view p = some m → view q = some m → p = q

theorem queue_append (first second : List π) :
    queue view (first ++ second) = queue view first ++ queue view second :=
  List.filterMap_append

section Erase
variable [DecidableEq π]

/-- The other channels are not touched. -/
theorem queue_erase_other (h : view packet = none) :
    queue view (network.erase packet) = queue view network := by
  induction network with
  | nil => rfl
  | cons p rest ih =>
      by_cases hSame : p = packet
      · rw [hSame, List.erase_cons_head, queue, queue, List.filterMap_cons_none h]
      · rw [List.erase_cons_tail (by simpa using hSame), queue, queue, List.filterMap_cons,
          List.filterMap_cons]
        rw [queue, queue] at ih
        rw [ih]

/-- Taking the oldest message of a channel leaves the others in their order. -/
theorem queue_erase_head (hView : Separates view) (h : view packet = some m)
    (hHead : (queue view network).head? = some m) :
    queue view (network.erase packet) = (queue view network).tail := by
  induction network with
  | nil => rfl
  | cons p rest ih =>
      cases hFirst : view p with
      | none =>
          have hOther : p ≠ packet := by
            rintro rfl
            rw [hFirst] at h
            cases h
          rw [queue, List.filterMap_cons_none hFirst] at hHead
          rw [List.erase_cons_tail (by simpa using hOther), queue, queue,
            List.filterMap_cons_none hFirst, List.filterMap_cons_none hFirst]
          exact ih hHead
      | some m' =>
          rw [queue, List.filterMap_cons_some hFirst, List.head?_cons, Option.some.injEq] at hHead
          have hSame : p = packet := hView p packet m (hHead ▸ hFirst) h
          rw [hSame, List.erase_cons_head, ← hSame, queue, queue, List.filterMap_cons_some hFirst,
            List.tail_cons]

end Erase

end Fifo
