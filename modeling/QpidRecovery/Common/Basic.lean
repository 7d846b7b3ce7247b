import Mathlib.Data.List.Basic
import Mathlib.Data.List.Nodup

/-! Constants and strings shared by all processes. A C string is kept as the
bytes before its terminating NUL, together with the proof that the string and
its NUL fit the array that holds it. -/
namespace QpidRecovery

def SERVICE_NAME_LENGTH : Nat := 40
def IP_LENGTH : Nat := 20
def MAX_PROPOSERS : Nat := 3
def MAX_ACCEPTORS : Nat := MAX_PROPOSERS * 2 - 1

/-- A string stored in a `char[n]`. -/
structure CString (n : Nat) where
  bytes : List UInt8
  noNul : 0 ∉ bytes
  fits : bytes.length < n
deriving DecidableEq, Repr

abbrev ServiceName := CString SERVICE_NAME_LENGTH
abbrev IPString := CString IP_LENGTH

@[ext] theorem CString.ext {n : Nat} {s t : CString n} (h : s.bytes = t.bytes) : s = t := by
  cases s
  cases t
  cases h
  rfl

/-- The C library leaves only the sign of `strcmp` specified. Bytes compare
as `unsigned char`, and a proper prefix comes first. -/
def strcmp : List UInt8 → List UInt8 → Int
  | [], [] => 0
  | [], _ :: _ => -1
  | _ :: _, [] => 1
  | a :: s, b :: t => if a = b then strcmp s t else if a > b then 1 else -1

/-- Only equal strings compare as equal. -/
theorem strcmp_eq_zero_iff (s t : List UInt8) : strcmp s t = 0 ↔ s = t := by
  induction s generalizing t with
  | nil => cases t <;> simp [strcmp]
  | cons a s ih =>
      cases t with
      | nil => simp [strcmp]
      | cons b t =>
          by_cases h : a = b
          · simp [strcmp, h, ih]
          · have hSign : (if a > b then (1 : Int) else -1) ≠ 0 := by split <;> decide
            simp [strcmp, h, hSign]

theorem strcmp_bytes_iff {n : Nat} (s t : CString n) : strcmp s.bytes t.bytes = 0 ↔ s = t := by
  rw [strcmp_eq_zero_iff]
  exact ⟨CString.ext, fun h => by rw [h]⟩

/-- An address field whose first byte is NUL. -/
def noAddress : IPString := ⟨[], by decide, by decide⟩

/-- A name field whose first byte is NUL. -/
def noName : ServiceName := ⟨[], by decide, by decide⟩

/-- The address `127.0.0.1`. -/
def localhost : IPString := ⟨[49, 50, 55, 46, 48, 46, 48, 46, 49], by decide, by decide⟩

/-- The service name `broker`. -/
def brokerService : ServiceName := ⟨[98, 114, 111, 107, 101, 114], by decide, by decide⟩

/-- Seconds as `gettimeofday` reports them, in microseconds. -/
abbrev Time := Int

def seconds (s : Nat) : Time := s * 1000000

end QpidRecovery
