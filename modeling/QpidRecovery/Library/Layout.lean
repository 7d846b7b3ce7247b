import Mathlib.Algebra.Group.Nat.Defs
import Mathlib.Data.List.Basic

/-! Values of a fixed size in memory. A layout is a correspondence between
the values of a type and the byte strings of one length, so that reading the
bytes of a value back gives the value, and every byte string of that length is
some value. -/

/-- The object representation of a type. -/
class Layout (α : Type) where
  size : Nat
  bytes : α → List UInt8
  ofBytes : List UInt8 → α
  length_bytes : ∀ a, (bytes a).length = size
  ofBytes_bytes : ∀ a, ofBytes (bytes a) = a
  bytes_ofBytes : ∀ l, l.length = size → bytes (ofBytes l) = l

namespace Layout

attribute [simp] length_bytes ofBytes_bytes

variable {α β : Type} [Layout α] [Layout β]

/-- A layout transported along a correspondence of types. -/
abbrev ofEquiv {γ : Type} (e : γ → α) (f : α → γ) (hf : ∀ c, f (e c) = c) (he : ∀ a, e (f a) = a) :
    Layout γ where
  size := size α
  bytes c := bytes (e c)
  ofBytes l := f (ofBytes l)
  length_bytes c := length_bytes (e c)
  ofBytes_bytes c := by rw [ofBytes_bytes, hf]
  bytes_ofBytes l h := by rw [he, bytes_ofBytes l h]

/-- Two fields in a row, without padding. -/
instance : Layout (α × β) where
  size := size α + size β
  bytes p := bytes p.1 ++ bytes p.2
  ofBytes l := (ofBytes (l.take (size α)), ofBytes (l.drop (size α)))
  length_bytes p := by simp
  ofBytes_bytes p := by
    rw [List.take_left' (length_bytes p.1), List.drop_left' (length_bytes p.1)]
    simp
  bytes_ofBytes l h := by
    rw [bytes_ofBytes _ (by rw [List.length_take]; omega),
      bytes_ofBytes _ (by rw [List.length_drop]; omega), List.take_append_drop]

instance : Layout UInt8 where
  size := 1
  bytes b := [b]
  ofBytes l := l.headD 0
  length_bytes _ := rfl
  ofBytes_bytes _ := rfl
  bytes_ofBytes l h := by
    obtain ⟨b, rfl⟩ := List.length_eq_one_iff.mp h
    rfl

/-- The bytes of a number, least significant first. -/
def littleEndian : Nat → Nat → List UInt8
  | 0, _ => []
  | width + 1, n => UInt8.ofNat n :: littleEndian width (n / 256)

def ofLittleEndian : List UInt8 → Nat
  | [] => 0
  | b :: rest => b.toNat + 256 * ofLittleEndian rest

/-- A word has its width. -/
theorem length_littleEndian (width n : Nat) : (littleEndian width n).length = width := by
  induction width generalizing n with
  | zero => rfl
  | succ width ih => simp [littleEndian, ih]

/-- A number that fits is read back from its bytes. -/
theorem ofLittleEndian_littleEndian {width n : Nat} (h : n < 256 ^ width) :
    ofLittleEndian (littleEndian width n) = n := by
  induction width generalizing n with
  | zero =>
      have hZero : n = 0 := by simpa using h
      rw [hZero]
      rfl
  | succ width ih =>
      have hQuotient : n / 256 < 256 ^ width := by
        rw [Nat.pow_succ] at h
        exact Nat.div_lt_of_lt_mul (by rwa [Nat.mul_comm])
      rw [littleEndian, ofLittleEndian, ih hQuotient, UInt8.toNat_ofNat']
      omega

theorem ofLittleEndian_lt (l : List UInt8) : ofLittleEndian l < 256 ^ l.length := by
  induction l with
  | nil => exact Nat.one_pos
  | cons b rest ih =>
      have hByte := b.toNat_lt
      rw [ofLittleEndian, List.length_cons, Nat.pow_succ]
      omega

/-- Bytes are written back as they were read. -/
theorem littleEndian_ofLittleEndian (l : List UInt8) :
    littleEndian l.length (ofLittleEndian l) = l := by
  induction l with
  | nil => rfl
  | cons b rest ih =>
      have hByte := b.toNat_lt
      have hRest : (b.toNat + 256 * ofLittleEndian rest) / 256 = ofLittleEndian rest := by omega
      rw [List.length_cons, ofLittleEndian, littleEndian, hRest, ih]
      congr 1
      apply UInt8.toNat_inj.mp
      rw [UInt8.toNat_ofNat']
      omega

instance : Layout UInt32 where
  size := 4
  bytes w := littleEndian 4 w.toNat
  ofBytes l := UInt32.ofNat (ofLittleEndian l)
  length_bytes w := length_littleEndian 4 _
  ofBytes_bytes w := by
    rw [ofLittleEndian_littleEndian w.toNat_lt, UInt32.ofNat_toNat]
  bytes_ofBytes l h := by
    have hLt := ofLittleEndian_lt l
    rw [h] at hLt
    rw [UInt32.toNat_ofNat_of_lt' hLt, ← h, littleEndian_ofLittleEndian]

end Layout

/-- An array of fixed length. -/
structure CArray (α : Type) (n : Nat) where
  elems : List α
  length_eq : elems.length = n
deriving DecidableEq, Repr

namespace CArray

open Layout

variable {α : Type}

@[ext] theorem ext {n : Nat} {a b : CArray α n} (h : a.elems = b.elems) : a = b := by
  cases a
  cases b
  cases h
  rfl

variable [Layout α]

/-- Cut a byte string into elements. -/
def split : Nat → List UInt8 → List α
  | 0, _ => []
  | n + 1, l => ofBytes (l.take (size α)) :: split n (l.drop (size α))

/-- An array has its size. -/
theorem length_split (n : Nat) (l : List UInt8) : (split n l : List α).length = n := by
  induction n generalizing l with
  | zero => rfl
  | succ n ih => rw [split, List.length_cons, ih]

/-- The bytes of an array are those of its elements. -/
theorem length_flatMap_bytes (elems : List α) :
    (elems.flatMap bytes).length = elems.length * size α := by
  induction elems with
  | nil => simp
  | cons a rest ih =>
      rw [List.flatMap_cons, List.length_append, ih, length_bytes, List.length_cons, Nat.add_mul]
      omega

/-- An array is read back from its bytes. -/
theorem split_flatMap_bytes (elems : List α) :
    split elems.length (elems.flatMap bytes) = elems := by
  induction elems with
  | nil => rfl
  | cons a rest ih =>
      rw [List.length_cons, split, List.flatMap_cons, List.take_left' (length_bytes a),
        List.drop_left' (length_bytes a), ih, ofBytes_bytes]

/-- The bytes of an array are written back as they were read. -/
theorem flatMap_bytes_split (n : Nat) (l : List UInt8) (h : l.length = n * size α) :
    (split n l : List α).flatMap bytes = l := by
  induction n generalizing l with
  | zero =>
      rw [Nat.zero_mul, List.length_eq_zero_iff] at h
      rw [h]
      rfl
  | succ n ih =>
      rw [Nat.add_mul, Nat.one_mul] at h
      rw [split, List.flatMap_cons, bytes_ofBytes _ (by rw [List.length_take]; omega),
        ih _ (by rw [List.length_drop]; omega), List.take_append_drop]

instance {n : Nat} : Layout (CArray α n) where
  size := n * size α
  bytes a := a.elems.flatMap bytes
  ofBytes l := ⟨split n l, length_split n l⟩
  length_bytes a := by rw [length_flatMap_bytes, a.length_eq]
  ofBytes_bytes a := by
    apply ext
    conv_rhs => rw [← split_flatMap_bytes a.elems, a.length_eq]
  bytes_ofBytes l h := flatMap_bytes_split n l h

end CArray
