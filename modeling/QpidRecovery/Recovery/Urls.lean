import Mathlib.Data.Nat.Digits.Lemmas
import QpidRecovery.Recovery.BrokerObject

/-! A url determines the host and the port it was formatted from, and is parsed
into a buffer that its host fits. -/
namespace QpidRecovery

/-- What a url is formatted from. -/
abbrev Address := Text × UInt32

def Address.url (a : Address) : Text := a.1 ++ colon :: utos a.2

section Digits

/-- The characters of the ten digits. -/
theorem toNat_digit {d : Nat} (hd : d < 10) : (48 + d.toUInt8).toNat = 48 + d := by
  have hDigit : d.toUInt8.toNat = d := UInt8.toNat_ofNat_of_lt' (show d < 256 by omega)
  rw [UInt8.toNat_add, hDigit]
  show (48 + d) % 256 = 48 + d
  omega

/-- Digits are told apart by their characters. -/
theorem map_digit_injective {l m : List Nat} (hl : ∀ d ∈ l, d < 10) (hm : ∀ d ∈ m, d < 10)
    (h : (l.map fun d => 48 + d.toUInt8) = m.map fun d => 48 + d.toUInt8) : l = m := by
  induction l generalizing m with
  | nil => exact (List.map_eq_nil_iff.mp h.symm).symm
  | cons d l ih =>
      cases m with
      | nil => cases h
      | cons e m =>
          obtain ⟨hHead, hTail⟩ := List.cons.inj h
          have hNat := congrArg UInt8.toNat hHead
          rw [toNat_digit (hl d List.mem_cons_self), toNat_digit (hm e List.mem_cons_self)] at hNat
          rw [ih (fun c hc => hl c (List.mem_cons_of_mem _ hc))
            (fun c hc => hm c (List.mem_cons_of_mem _ hc)) hTail, show d = e by omega]

/-- The digits that `%u` writes. -/
def digits (u : UInt32) : List Nat := if u = 0 then [0] else (Nat.digits 10 u.toNat).reverse

/-- Digits are less than ten. -/
theorem digits_lt {u : UInt32} {d : Nat} (hd : d ∈ digits u) : d < 10 := by
  unfold digits at hd
  split at hd
  · rw [List.mem_singleton.mp hd]
    omega
  · exact Nat.digits_lt_base (by omega) (List.mem_reverse.mp hd)

/-- A number is written by its digits. -/
theorem utos_eq (u : UInt32) : utos u = (digits u).map fun d => 48 + d.toUInt8 := by
  unfold utos digits
  split
  · rfl
  · rfl

/-- The digits have the value of the number. -/
theorem ofDigits_digits (u : UInt32) : Nat.ofDigits 10 (digits u).reverse = u.toNat := by
  unfold digits
  split
  · next hZero =>
      rw [hZero]
      rfl
  · rw [List.reverse_reverse]
    exact Nat.ofDigits_digits 10 u.toNat

/-- Numbers are told apart by how they are written. -/
theorem utos_injective : Function.Injective utos := by
  intro u v h
  rw [utos_eq, utos_eq] at h
  have hDigits := map_digit_injective (fun d hd => digits_lt hd) (fun d hd => digits_lt hd) h
  apply UInt32.toNat_inj.mp
  rw [← ofDigits_digits u, hDigits, ofDigits_digits v]

/-- No number has a colon. -/
theorem colon_notMem_utos (u : UInt32) : colon ∉ utos u := by
  rw [utos_eq]
  intro hMem
  obtain ⟨d, hd, hColon⟩ := List.mem_map.mp hMem
  have hNat := congrArg UInt8.toNat hColon
  have hLt := digits_lt hd
  rw [toNat_digit hLt] at hNat
  have hByte : colon.toNat = 58 := rfl
  omega

end Digits

/-- The last colon separates the two, whatever the host holds. -/
theorem Address.url_injective : Function.Injective Address.url := by
  intro a b h
  have hReverse := congrArg List.reverse h
  simp only [Address.url, List.reverse_append, List.reverse_cons, List.append_assoc,
    List.singleton_append] at hReverse
  have hPort : ∀ u : UInt32, colon ∉ (utos u).reverse := fun u hMem =>
    colon_notMem_utos u (List.mem_reverse.mp hMem)
  have hSplit := congrArg (List.takeWhile (· ≠ colon)) hReverse
  have hTake : ∀ (u : UInt32) (host : Text),
      ((utos u).reverse ++ colon :: host).takeWhile (· ≠ colon) = (utos u).reverse := by
    intro u host
    rw [List.takeWhile_append_of_pos]
    · simp
    · intro c hc
      apply decide_eq_true
      intro hEq
      exact hPort u (hEq ▸ hc)
  rw [hTake, hTake] at hSplit
  rw [hSplit] at hReverse
  have hHost := (List.cons.inj (List.append_cancel_left hReverse)).2
  exact Prod.ext (List.reverse_injective hHost) (utos_injective (List.reverse_injective hSplit))

theorem Address.url_inj {a b : Address} : a.url = b.url ↔ a = b := Address.url_injective.eq_iff

/-- The part of a url before its first colon. -/
def hostOf (url : Text) : Text := url.takeWhile (· ≠ colon)

/-- A host that a buffer of `n` bytes can hold. -/
def HostFits (n : Nat) (url : Text) : Prop := colon ∈ url ∧ (hostOf url).length < n

section HostFits
variable {n m : Nat} {url : Text}

/-- A url is parsed exactly if its host fits. -/
theorem isSome_urlToIPPort : (urlToIPPort n url).isSome ↔ HostFits n url := by
  unfold urlToIPPort HostFits hostOf
  dsimp only
  split
  · next hBoth => simpa using hBoth
  · next hNot => simpa using hNot

/-- A url whose host fits is parsed. -/
theorem HostFits.parse (h : HostFits n url) : ∃ dst, urlToIPPort n url = some dst :=
  Option.isSome_iff_exists.mp (isSome_urlToIPPort.mpr h)

/-- The parsed host is a C string, which ends at a NUL of the url. -/
theorem urlToIPPort_host {dst : CString n × UInt32} (h : urlToIPPort n url = some dst) :
    dst.1.bytes = (hostOf url).takeWhile (· ≠ 0) := by
  unfold urlToIPPort at h
  dsimp only at h
  split at h
  · cases h
    rfl
  · cases h

/-- A larger buffer holds it, too. -/
theorem HostFits.mono (h : HostFits n url) (hLe : n ≤ m) : HostFits m url :=
  ⟨h.1, Nat.lt_of_lt_of_le h.2 hLe⟩

/-- The host of a url that was formatted from an ip fits a buffer for an ip. -/
theorem hostFits_url (ip : IPString) (port : UInt32) : HostFits IP_LENGTH (IPPortToUrl ip port) := by
  constructor
  · simp [IPPortToUrl]
  · refine Nat.lt_of_le_of_lt ?_ ip.fits
    unfold hostOf IPPortToUrl
    rw [List.takeWhile_append]
    split
    · simp
    · exact (List.takeWhile_sublist _).length_le

end HostFits

end QpidRecovery
