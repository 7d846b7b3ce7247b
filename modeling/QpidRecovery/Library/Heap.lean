import Mathlib.Data.List.Perm.Basic

/-! A heap whose cells are made and deleted one at a time. No address is given
out twice, so a pointer to a deleted cell stays invalid. -/
namespace Heap

abbrev Pointer := Nat

end Heap

structure Heap (α : Type*) where
  cells : List (Option α)
deriving DecidableEq, Repr

namespace Heap

variable {α : Type*}

def empty : Heap α := ⟨[]⟩

def read (p : Pointer) (h : Heap α) : Option α := h.cells[p]?.join

def alloc (a : α) (h : Heap α) : Pointer × Heap α := (h.cells.length, ⟨h.cells ++ [some a]⟩)

/-- Only a live cell is written. -/
def write (p : Pointer) (a : α) (h : Heap α) : Option (Heap α) :=
  if (h.read p).isSome then some ⟨h.cells.set p (some a)⟩ else none

/-- A cell that is not live cannot be deleted. -/
def free (p : Pointer) (h : Heap α) : Option (Heap α) :=
  if (h.read p).isSome then some ⟨h.cells.set p none⟩ else none

/-- Delete the cells of a list in its order. -/
def freeAll (ps : List Pointer) (h : Heap α) : Option (Heap α) := ps.foldlM (fun h p => h.free p) h

/-- How many cells are live. -/
def live (h : Heap α) : Nat := h.cells.countP Option.isSome

section Cells
variable {h h' : Heap α} {p q : Pointer} {a b : α}

/-- A cell that is read was made. -/
theorem lt_of_read (hRead : h.read p = some a) : p < h.cells.length := by
  by_contra hBeyond
  rw [read, List.getElem?_eq_none (Nat.le_of_not_lt hBeyond)] at hRead
  cases hRead

theorem getElem_of_read (hRead : h.read p = some a) (hBound : p < h.cells.length) :
    h.cells[p] = some a := by
  rw [read, List.getElem?_eq_getElem hBound] at hRead
  exact hRead

/-- A new cell holds what it was made for. -/
@[simp] theorem read_alloc_self : (h.alloc a).2.read (h.alloc a).1 = some a := by
  simp [alloc, read]

/-- What was live before is not moved. -/
theorem read_alloc (hRead : h.read p = some b) : (h.alloc a).2.read p = some b := by
  rw [read, alloc, List.getElem?_append_left (lt_of_read hRead)]
  exact hRead

/-- A new cell is at a new place. -/
theorem ne_alloc (hRead : h.read p = some b) (a : α) : p ≠ (h.alloc a).1 :=
  Nat.ne_of_lt (lt_of_read hRead)

/-- It is one more that lives. -/
theorem live_alloc : (h.alloc a).2.live = h.live + 1 := by
  simp [alloc, live]

/-- A live cell can be written. -/
theorem write_of_read (hRead : h.read p = some a) :
    h.write p b = some ⟨h.cells.set p (some b)⟩ := by
  rw [write, if_pos (by rw [hRead]; rfl)]

/-- A live cell can be deleted. -/
theorem free_of_read (hRead : h.read p = some a) : h.free p = some ⟨h.cells.set p none⟩ := by
  rw [free, if_pos (by rw [hRead]; rfl)]

/-- The other cells stay as they are. -/
theorem read_set_ne (x : Option α) (hNe : q ≠ p) :
    (⟨h.cells.set p x⟩ : Heap α).read q = h.read q := by
  rw [read, List.getElem?_set_ne hNe.symm, read]

theorem read_set_self (hRead : h.read p = some a) :
    (⟨h.cells.set p (some b)⟩ : Heap α).read p = some b := by
  rw [read, List.getElem?_set_self (lt_of_read hRead)]
  rfl

/-- A write changes no cell's life. -/
theorem live_write (hRead : h.read p = some a) :
    (⟨h.cells.set p (some b)⟩ : Heap α).live = h.live := by
  have hBound := lt_of_read hRead
  have hPos : 0 < h.cells.countP Option.isSome :=
    List.countP_pos_iff.mpr ⟨h.cells[p], List.getElem_mem hBound, by simp [getElem_of_read hRead]⟩
  rw [live, live, List.countP_set hBound, getElem_of_read hRead hBound]
  simp only [Option.isSome_some, if_true]
  omega

/-- A deletion ends one. -/
theorem live_free (hRead : h.read p = some a) :
    (⟨h.cells.set p none⟩ : Heap α).live + 1 = h.live := by
  have hBound := lt_of_read hRead
  have hPos : 0 < h.cells.countP Option.isSome :=
    List.countP_pos_iff.mpr ⟨h.cells[p], List.getElem_mem hBound, by simp [getElem_of_read hRead]⟩
  rw [live, live, List.countP_set hBound, getElem_of_read hRead hBound]
  simp only [Option.isSome_some, Option.isSome_none, if_true, Bool.false_eq_true, if_false]
  omega

end Cells

/-- The heap consists of the given cells, no two at one address, and of as many
others as are lost. -/
structure Owned (h : Heap α) (cells : List (Pointer × α)) (lost : Nat) : Prop where
  nodup : (cells.map Prod.fst).Nodup
  read : ∀ x ∈ cells, h.read x.1 = some x.2
  live : h.live = cells.length + lost

section Owned
variable {h : Heap α} {cells more : List (Pointer × α)} {lost : Nat} {p : Pointer} {a b : α}

/-- Nobody owns anything on an empty heap. -/
theorem Owned.empty : (Heap.empty : Heap α).Owned [] 0 where
  nodup := List.nodup_nil
  read := fun _ hx => absurd hx List.not_mem_nil
  live := rfl

/-- The order in which the owned cells are listed does not matter. -/
theorem Owned.perm (hOwned : h.Owned cells lost) (hPerm : cells.Perm more) :
    h.Owned more lost where
  nodup := (hPerm.map Prod.fst).nodup_iff.mp hOwned.nodup
  read := fun x hx => hOwned.read x (hPerm.mem_iff.mpr hx)
  live := by rw [hOwned.live, hPerm.length_eq]

/-- Who makes a cell owns it. -/
theorem Owned.alloc (hOwned : h.Owned cells lost) (a : α) :
    (h.alloc a).2.Owned (((h.alloc a).1, a) :: cells) lost where
  nodup := by
    rw [List.map_cons, List.nodup_cons]
    refine ⟨?_, hOwned.nodup⟩
    intro hMem
    obtain ⟨x, hx, hEq⟩ := List.mem_map.mp hMem
    exact ne_alloc (hOwned.read x hx) a hEq
  read := by
    intro x hx
    rcases List.mem_cons.mp hx with rfl | hx
    · exact read_alloc_self
    · exact read_alloc (hOwned.read x hx)
  live := by
    rw [live_alloc, hOwned.live, List.length_cons]
    omega

/-- What happens to one owned cell does not show in the others. -/
theorem Owned.read_set (hOwned : h.Owned ((p, a) :: cells) lost) (v : Option α)
    {x : Pointer × α} (hx : x ∈ cells) : (⟨h.cells.set p v⟩ : Heap α).read x.1 = some x.2 := by
  have hNodup := hOwned.nodup
  rw [List.map_cons, List.nodup_cons] at hNodup
  have hNe : x.1 ≠ p := fun hEq => hNodup.1 (List.mem_map.mpr ⟨x, hx, hEq⟩)
  rw [read_set_ne v hNe]
  exact hOwned.read x (List.mem_cons_of_mem _ hx)

/-- An owned cell is live, and deleting it leaves the others. -/
theorem Owned.free (hOwned : h.Owned ((p, a) :: cells) lost) :
    ∃ h', h.free p = some h' ∧ h'.Owned cells lost := by
  have hRead : h.read p = some a := hOwned.read _ List.mem_cons_self
  refine ⟨_, free_of_read hRead, ?_⟩
  constructor
  · exact (List.nodup_cons.mp hOwned.nodup).2
  · exact fun x hx => hOwned.read_set none hx
  · have hLive := live_free hRead
    rw [hOwned.live, List.length_cons] at hLive
    omega

/-- An owner may write its cell. -/
theorem Owned.write (hOwned : h.Owned ((p, a) :: cells) lost) (b : α) :
    ∃ h', h.write p b = some h' ∧ h'.Owned ((p, b) :: cells) lost := by
  have hRead : h.read p = some a := hOwned.read _ List.mem_cons_self
  refine ⟨_, write_of_read hRead, ?_⟩
  constructor
  · exact hOwned.nodup
  · intro x hx
    rcases List.mem_cons.mp hx with rfl | hx
    · exact read_set_self hRead
    · exact hOwned.read_set (some b) hx
  · rw [live_write hRead, hOwned.live]
    rfl

/-- Cells that no pointer reaches any more. -/
theorem Owned.leak (hOwned : h.Owned (cells ++ more) lost) :
    h.Owned more (cells.length + lost) where
  nodup := by
    have hNodup := hOwned.nodup
    rw [List.map_append] at hNodup
    exact (List.nodup_append.mp hNodup).2.1
  read := fun x hx => hOwned.read x (List.mem_append_right _ hx)
  live := by
    rw [hOwned.live, List.length_append]
    omega

/-- An owner may delete all its cells. -/
theorem Owned.freeAll (hOwned : h.Owned (cells ++ more) lost) :
    ∃ h', h.freeAll (cells.map Prod.fst) = some h' ∧ h'.Owned more lost := by
  induction cells generalizing h with
  | nil => exact ⟨h, rfl, hOwned⟩
  | cons x cells ih =>
      obtain ⟨h₁, hFree, hRest⟩ := Owned.free (p := x.1) (a := x.2) hOwned
      obtain ⟨h', hAll, hMore⟩ := ih hRest
      refine ⟨h', ?_, hMore⟩
      rw [Heap.freeAll, List.map_cons, List.foldlM_cons, hFree]
      exact hAll

end Owned

end Heap
