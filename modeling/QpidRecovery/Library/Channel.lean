import Mathlib.Data.List.Basic

/-! One end of a byte stream. A read takes bytes from the front of what is
pending, but the transport may hand over less than was asked. -/

/-- What is still to be read, the limits the transport puts on the next reads,
and what was written. A limit `some k` cuts a read down to `k + 1` bytes. -/
structure Channel where
  pending : List UInt8
  cut : Nat → Option Nat
  written : List UInt8

namespace Channel

/-- `read` with a buffer of `n` bytes. Nothing pending reads as end of file. -/
def read (n : Nat) (c : Channel) : List UInt8 × Channel :=
  let k := match c.cut 0 with
    | none => n
    | some k => min n (k + 1)
  (c.pending.take k, { c with pending := c.pending.drop k, cut := fun i => c.cut (i + 1) })

/-- `write`, which always takes everything. -/
def write (bytes : List UInt8) (c : Channel) : Nat × Channel :=
  (bytes.length, { c with written := c.written ++ bytes })

/-- The transport never cuts a read. -/
def Complete (c : Channel) : Prop := ∀ i, c.cut i = none

/-- A read moves bytes out of the stream and loses none. -/
theorem read_append (n : Nat) (c : Channel) :
    (c.read n).1 ++ (c.read n).2.pending = c.pending :=
  List.take_append_drop _ _

theorem written_nil (c : Channel) : c = { c with written := c.written ++ [] } := by
  rw [List.append_nil]

/-- A complete read returns what was asked and leaves the rest. -/
theorem read_of_complete {c : Channel} (h : c.Complete) {bytes rest : List UInt8}
    (hPending : c.pending = bytes ++ rest) :
    (c.read bytes.length).1 = bytes ∧ (c.read bytes.length).2.pending = rest ∧
      (c.read bytes.length).2.Complete := by
  unfold read
  rw [h 0, hPending]
  exact ⟨List.take_left, List.drop_left, fun i => h (i + 1)⟩

end Channel
