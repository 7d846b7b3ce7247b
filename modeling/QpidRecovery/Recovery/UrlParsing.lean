import Mathlib.Tactic.IntervalCases
import QpidRecovery.Common.CharArray
import QpidRecovery.Library.Loop
import QpidRecovery.Recovery.Urls

/-! Parsing a url, one access at a time. The first loop stops at a colon and at
nothing else. What it reads and writes stays inside the string and the buffer
exactly if the host before the colon fits. -/
namespace QpidRecovery

open Loop

/-- `url[i]`. The character after the last one is a NUL. -/
def charAt (url : Text) (i : Nat) : Option UInt8 := if i = url.length then some 0 else url[i]?

def CharArray.write {n : Nat} (a : CharArray n) (i : Nat) (b : UInt8) : Option (CharArray n) :=
  if i < n then some ⟨a.elems.set i b, by rw [List.length_set, a.length_eq]⟩ else none

/-- The two loops of `urlToIPPort`. -/
inductive UrlLoop where
  | host
  | port
deriving DecidableEq, Repr

/-- The variables of `urlToIPPort`, with a destination of `n` bytes. -/
structure UrlScan (n : Nat) where
  loop : UrlLoop
  i : UInt32
  ip : CharArray n
  port : UInt32
deriving DecidableEq

namespace UrlScan

variable {n : Nat}

/-- One pass through the loop that is running. The first one ends in the
assignments between the two. -/
def pass (url : Text) (s : UrlScan n) : Pass (UrlScan n) :=
  match s.loop with
  | .host =>
      match charAt url s.i.toNat with
      | none => .fault
      | some c =>
          if c = colon then
            match s.ip.write s.i.toNat 0 with
            | none => .fault
            | some ip => .next { loop := .port, i := s.i + 1, ip := ip, port := 0 }
          else
            match s.ip.write s.i.toNat c with
            | none => .fault
            | some ip => .next { s with i := s.i + 1, ip := ip }
  | .port =>
      if s.i.toNat < url.length then
        match charAt url s.i.toNat with
        | none => .fault
        | some c => .next { s with i := s.i + 1, port := portDigit s.port c }
      else .leave

/-- Neither the destination nor the port is initialized by the callers. -/
def start (ip : CharArray n) (port : UInt32) : UrlScan n := ⟨.host, 0, ip, port⟩

end UrlScan

section Host
variable {url : Text}

theorem hostOf_append {host : Text} (hColon : colon ∉ host) (rest : Text) :
    hostOf (host ++ colon :: rest) = host := by
  rw [hostOf, List.takeWhile_append_of_pos]
  · simp
  · intro c hc
    apply decide_eq_true
    rintro rfl
    exact hColon hc

theorem getElem_of_lt_host {j : Nat} (h : j < (hostOf url).length) :
    ∃ c, url[j]? = some c ∧ c ≠ colon := by
  have hPrefix : hostOf url <+: url := List.takeWhile_prefix _
  refine ⟨(hostOf url)[j], ?_, ?_⟩
  · rw [List.getElem?_eq_getElem (h.trans_le hPrefix.length_le), hPrefix.getElem h]
  · have hMem : (hostOf url)[j] ∈ hostOf url := List.getElem_mem h
    simpa using List.mem_takeWhile_imp hMem

theorem getElem_host (h : colon ∈ url) : url[(hostOf url).length]? = some colon := by
  induction url with
  | nil => cases h
  | cons c url ih =>
      by_cases hc : c = colon
      · simp [hostOf, hc]
      · have hRest : colon ∈ url := by
          rcases List.mem_cons.mp h with hEq | hMem
          · exact absurd hEq.symm hc
          · exact hMem
        have hCons : hostOf (c :: url) = c :: hostOf url := by simp [hostOf, hc]
        rw [hCons, List.length_cons, List.getElem?_cons_succ, ih hRest]

theorem host_le_of_colon {j : Nat} (h : url[j]? = some colon) : (hostOf url).length ≤ j := by
  by_contra hLt
  obtain ⟨c, hc, hNe⟩ := getElem_of_lt_host (show j < (hostOf url).length by omega)
  rw [h] at hc
  cases hc
  exact hNe rfl

end Host

namespace CharArray

variable {n : Nat} {a b : CharArray n} {i : Nat} {c : UInt8}

theorem write_of_lt (h : i < n) : ∃ b, a.write i c = some b ∧ b.elems = a.elems.set i c := by
  refine ⟨⟨a.elems.set i c, by rw [List.length_set, a.length_eq]⟩, ?_, rfl⟩
  rw [write, if_pos h]

/-- A string ends at its first NUL, whatever lies behind it. -/
theorem takeWhile_append_nul (host rest : Text) :
    (host ++ 0 :: rest).takeWhile (· ≠ 0) = host.takeWhile (· ≠ 0) := by
  induction host with
  | nil => simp
  | cons c host ih =>
      by_cases hc : c = 0
      · simp [hc]
      · simpa [hc] using ih

theorem lt_of_write (h : a.write i c = some b) : i < n := by
  unfold write at h
  split at h
  · assumption
  · cases h

end CharArray

namespace UrlScan

variable {n : Nat} {url : Text}

section Inside

theorem charAt_of_lt {j : Nat} {c : UInt8} (h : url[j]? = some c) : charAt url j = some c := by
  obtain ⟨hLt, _⟩ := List.getElem?_eq_some_iff.mp h
  rw [charAt, if_neg (by omega), h]

theorem toNat_succ {i : UInt32} (h : i.toNat + 1 < 2 ^ 32) : (i + 1).toNat = i.toNat + 1 := by
  rw [UInt32.toNat_add]
  show (i.toNat + 1) % 2 ^ 32 = i.toNat + 1
  omega

/-- The first loop copies the host to the front of the destination. -/
theorem host_steps (ip : CharArray n) (port : UInt32) (hFits : (hostOf url).length < n)
    (hLength : url.length < 2 ^ 32) {j : Nat} (hj : j ≤ (hostOf url).length) :
    ∃ s, Steps (pass url) (start ip port) s ∧ s.loop = .host ∧ s.i.toNat = j ∧
      s.ip.elems = url.take j ++ ip.elems.drop j := by
  have hHost : (hostOf url).length ≤ url.length := (List.takeWhile_prefix _).length_le
  induction j with
  | zero => exact ⟨start ip port, .refl _, rfl, rfl, rfl⟩
  | succ j ih =>
      obtain ⟨s, hSteps, hLoop, hIndex, hMemory⟩ := ih (by omega)
      obtain ⟨c, hc, hNe⟩ := getElem_of_lt_host (show j < (hostOf url).length by omega)
      obtain ⟨written, hWrite, hElems⟩ :=
        CharArray.write_of_lt (a := s.ip) (c := c) (show s.i.toNat < n by omega)
      have hPass : s.pass url = .next { s with i := s.i + 1, ip := written } := by
        rw [pass, hLoop]
        dsimp only
        rw [hIndex, charAt_of_lt hc]
        dsimp only
        rw [if_neg hNe, ← hIndex, hWrite]
      refine ⟨_, hSteps.tail hPass, hLoop, ?_, ?_⟩
      · show (s.i + 1).toNat = j + 1
        rw [toNat_succ (by omega), hIndex]
      · show written.elems = _
        have hTake : (url.take j).length = j := List.length_take_of_le (by omega)
        have hOld : j < ip.elems.length := by
          rw [ip.length_eq]
          omega
        rw [hElems, hMemory, hIndex, List.set_append_right _ _ hTake.le, hTake, Nat.sub_self,
          List.drop_eq_getElem_cons hOld, List.set_cons_zero, List.take_add_one, hc,
          Option.toList_some, List.append_assoc, List.singleton_append]

/-- What the first loop leaves behind it when it meets the colon. -/
theorem host_ends (ip : CharArray n) (port : UInt32) (hColon : colon ∈ url)
    (hFits : (hostOf url).length < n) (hLength : url.length < 2 ^ 32) :
    ∃ s, Steps (pass url) (start ip port) s ∧ s.loop = .port ∧
      s.i.toNat = (hostOf url).length + 1 ∧ s.port = 0 ∧
      s.ip.elems = hostOf url ++ 0 :: ip.elems.drop ((hostOf url).length + 1) := by
  obtain ⟨s, hSteps, hLoop, hIndex, hMemory⟩ := host_steps ip port hFits hLength le_rfl
  have hHere := getElem_host hColon
  obtain ⟨hLt, _⟩ := List.getElem?_eq_some_iff.mp hHere
  obtain ⟨written, hWrite, hElems⟩ :=
    CharArray.write_of_lt (a := s.ip) (c := 0) (show s.i.toNat < n by omega)
  have hPass : s.pass url = .next ⟨.port, s.i + 1, written, 0⟩ := by
    rw [pass, hLoop]
    dsimp only
    rw [hIndex, charAt_of_lt hHere]
    dsimp only
    rw [if_pos rfl, ← hIndex, hWrite]
  have hTake : url.take (hostOf url).length = hostOf url :=
    List.prefix_iff_eq_take.mp (List.takeWhile_prefix _) |>.symm
  have hOld : (hostOf url).length < ip.elems.length := by
    rw [ip.length_eq]
    exact hFits
  refine ⟨_, hSteps.tail hPass, rfl, ?_, rfl, ?_⟩
  · show (s.i + 1).toNat = _
    rw [toNat_succ (by omega), hIndex]
  · show written.elems = _
    rw [hElems, hMemory, hIndex, hTake, List.set_append_right _ _ le_rfl, Nat.sub_self,
      List.drop_eq_getElem_cons hOld, List.set_cons_zero]

/-- The second loop reads the rest of the url. -/
theorem port_steps {s : UrlScan n} (hLoop : s.loop = .port) (hLength : url.length < 2 ^ 32)
    {j : Nat} (hj : s.i.toNat + j ≤ url.length) :
    ∃ t, Steps (pass url) s t ∧ t.loop = .port ∧ t.i.toNat = s.i.toNat + j ∧ t.ip = s.ip ∧
      t.port = ((url.drop s.i.toNat).take j).foldl portDigit s.port := by
  induction j with
  | zero => exact ⟨s, .refl _, hLoop, rfl, rfl, rfl⟩
  | succ j ih =>
      obtain ⟨t, hSteps, hLoop, hIndex, hMemory, hPort⟩ := ih (by omega)
      have hLt : t.i.toNat < url.length := by omega
      have hc : url[t.i.toNat]? = some url[t.i.toNat] := List.getElem?_eq_getElem hLt
      have hPass : t.pass url =
          .next { t with i := t.i + 1, port := portDigit t.port url[t.i.toNat] } := by
        rw [pass, hLoop]
        dsimp only
        rw [if_pos hLt, charAt_of_lt hc]
      refine ⟨_, hSteps.tail hPass, hLoop, ?_, hMemory, ?_⟩
      · show (t.i + 1).toNat = _
        rw [toNat_succ (by omega), hIndex, Nat.add_assoc]
      · show portDigit t.port _ = _
        have hNext : (url.drop s.i.toNat)[j]? = some url[t.i.toNat] := by
          rw [List.getElem?_drop, ← hIndex, hc]
        rw [List.take_add_one, hNext, Option.toList_some, List.foldl_append, ← hPort]
        rfl

end Inside

/-- The url is parsed. The string that the destination then holds and the port
are those that `urlToIPPort` yields. -/
theorem ends_of_fits (ip : CharArray n) (port : UInt32) (hColon : colon ∈ url)
    (hFits : (hostOf url).length < n) (hLength : url.length < 2 ^ 32) :
    ∃ t, Ends (pass url) (start ip port) t ∧
      urlToIPPort n url = t.ip.toCString.map fun host => (host, t.port) := by
  obtain ⟨s, hHost, hLoop, hIndex, hZero, hMemory⟩ := host_ends ip port hColon hFits hLength
  obtain ⟨hLt, _⟩ := List.getElem?_eq_some_iff.mp (getElem_host hColon)
  obtain ⟨t, hRest, hLoop', hIndex', hMemory', hPort⟩ :=
    port_steps hLoop hLength (j := url.length - s.i.toNat) (by omega)
  have hLeave : t.pass url = .leave := by
    rw [pass, hLoop']
    dsimp only
    rw [if_neg (by omega)]
  refine ⟨t, ⟨hHost.trans hRest, hLeave⟩, ?_⟩
  have hTerminated : t.ip.Terminated := by
    rw [CharArray.Terminated, hMemory', hMemory]
    simp
  have hString : t.ip.elems.takeWhile (· ≠ 0) = (hostOf url).takeWhile (· ≠ 0) := by
    rw [hMemory', hMemory]
    exact CharArray.takeWhile_append_nul _ _
  have hAll : (url.drop s.i.toNat).take (url.length - s.i.toNat) = url.drop s.i.toNat :=
    List.take_of_length_le (by rw [List.length_drop])
  rw [hAll, hZero, hIndex] at hPort
  rw [CharArray.toCString, dif_pos hTerminated, Option.map_some, urlToIPPort,
    dif_pos ⟨hColon, hFits⟩, hPort]
  congr 2
  exact CString.ext hString.symm

/-- Only the second loop is left, at the end of the url. -/
theorem pass_eq_leave {s : UrlScan n} (h : s.pass url = .leave) :
    s.loop = .port ∧ url.length ≤ s.i.toNat := by
  unfold pass at h
  cases hLoop : s.loop with
  | host =>
      simp only [hLoop] at h
      split at h
      · cases h
      · split at h
        · split at h
          · cases h
          · cases h
        · split at h
          · cases h
          · cases h
  | port =>
      simp only [hLoop] at h
      split at h
      · split at h
        · cases h
        · cases h
      next hEnd => exact ⟨rfl, by omega⟩

/-- A scan that does not find a colon where the destination has room stays in
the first loop. -/
theorem not_ends_of_host (ip : CharArray n) (port : UInt32)
    (h : ¬ (colon ∈ url ∧ (hostOf url).length < n)) (t : UrlScan n) :
    ¬ Ends (pass url) (start ip port) t := by
  apply not_ends (I := fun s => s.loop = .host) rfl
  · intro s u hLoop hPass
    rw [pass, hLoop] at hPass
    dsimp only at hPass
    cases hChar : charAt url s.i.toNat with
    | none => simp [hChar] at hPass
    | some c =>
        simp only [hChar] at hPass
        by_cases hc : c = colon
        · rw [if_pos hc] at hPass
          cases hWrite : s.ip.write s.i.toNat 0 with
          | none => simp [hWrite] at hPass
          | some written =>
              have hHere : url[s.i.toNat]? = some colon := by
                unfold charAt at hChar
                split at hChar
                · cases hChar
                  exact absurd hc (by decide)
                · rw [hChar, hc]
              have hRoom := CharArray.lt_of_write hWrite
              have hFirst := host_le_of_colon hHere
              exact absurd ⟨List.mem_of_getElem? hHere, by omega⟩ h
        · rw [if_neg hc] at hPass
          cases hWrite : s.ip.write s.i.toNat c with
          | none => simp [hWrite] at hPass
          | some written =>
              simp only [hWrite, Pass.next.injEq] at hPass
              rw [← hPass]
  · intro s hLoop hLeave
    have hPort := (pass_eq_leave hLeave).1
    rw [hLoop] at hPort
    cases hPort

/-- The index never reaches the end of a url that it cannot count. -/
theorem not_ends_of_length (ip : CharArray n) (port : UInt32) (h : 2 ^ 32 ≤ url.length)
    (t : UrlScan n) : ¬ Ends (pass url) (start ip port) t := by
  apply not_ends (I := fun _ => True) trivial
  · exact fun _ _ _ _ => trivial
  · intro s _ hLeave
    have hIndex := s.i.toNat_lt
    have hEnd := (pass_eq_leave hLeave).2
    omega

/-- The scan of a url comes to its end and stays inside the url and the buffer,
whatever the buffer and the port held before. -/
def Safe (n : Nat) (url : Text) : Prop :=
  ∀ (ip : CharArray n) (port : UInt32), ∃ t, Ends (pass url) (start ip port) t

theorem safe_iff : Safe n url ↔
    colon ∈ url ∧ (hostOf url).length < n ∧ url.length < 2 ^ 32 := by
  constructor
  · intro h
    obtain ⟨t, hEnds⟩ := h ⟨List.replicate n 0, List.length_replicate⟩ 0
    have hHost : colon ∈ url ∧ (hostOf url).length < n := by
      by_contra hNot
      exact not_ends_of_host _ _ hNot t hEnds
    refine ⟨hHost.1, hHost.2, ?_⟩
    by_contra hLong
    exact not_ends_of_length _ _ (Nat.le_of_not_lt hLong) t hEnds
  · rintro ⟨hColon, hFits, hLength⟩ ip port
    obtain ⟨t, hEnds, _⟩ := ends_of_fits ip port hColon hFits hLength
    exact ⟨t, hEnds⟩

end UrlScan

section RoundTrip

theorem portDigit_digit (port : UInt32) {d : Nat} (hd : d < 10) :
    portDigit port (48 + d.toUInt8) = port * 10 + UInt32.ofNat d := by
  have hValue : (48 + d.toUInt8).toInt8.toInt32.toUInt32 - 48 = UInt32.ofNat d := by
    interval_cases d <;> decide
  rw [portDigit, hValue]

/-- The loop over the port computes modulo the word size, and the digits of a
port do not exceed it. -/
theorem foldl_portDigit (l : List Nat) (hl : ∀ d ∈ l, d < 10) (value : Nat) :
    (l.map fun d => 48 + d.toUInt8).foldl portDigit (UInt32.ofNat value) =
      UInt32.ofNat (l.foldl (fun value d => d + 10 * value) value) := by
  induction l generalizing value with
  | nil => rfl
  | cons d l ih =>
      have hStep : portDigit (UInt32.ofNat value) (48 + d.toUInt8) =
          UInt32.ofNat (d + 10 * value) := by
        rw [portDigit_digit _ (hl d List.mem_cons_self), UInt32.ofNat_add, UInt32.ofNat_mul]
        show UInt32.ofNat value * 10 + UInt32.ofNat d = UInt32.ofNat d + 10 * UInt32.ofNat value
        rw [UInt32.add_comm, UInt32.mul_comm]
      rw [List.map_cons, List.foldl_cons, hStep, List.foldl_cons,
        ih fun c hc => hl c (List.mem_cons_of_mem _ hc)]

/-- The digits of a number, read from the front, have its value. -/
theorem foldl_digits (u : UInt32) :
    (digits u).foldl (fun value d => d + 10 * value) 0 = u.toNat := by
  rw [← ofDigits_digits, Nat.ofDigits_eq_foldr, List.foldr_reverse]
  rfl

/-- A port that was written is read back. -/
theorem foldl_utos (port : UInt32) : (utos port).foldl portDigit 0 = port := by
  have hFold := foldl_portDigit (digits port) (fun d hd => digits_lt hd) 0
  rw [foldl_digits, UInt32.ofNat_toNat, ← utos_eq] at hFold
  exact hFold

theorem length_utos_le (port : UInt32) : (utos port).length ≤ 10 := by
  have hLt := port.toNat_lt
  rw [utos_eq, List.length_map, digits]
  split
  · simp
  · rw [List.length_reverse]
    exact (Nat.digits_length_le_iff (by omega) _).mpr (by omega)

variable {n : Nat}

theorem urlToIPPort_url (ip : CString n) (port : UInt32) (hColon : colon ∉ ip.bytes) {m : Nat}
    (hFits : ip.bytes.length < m) :
    urlToIPPort m (Address.url (ip.bytes, port)) = some (⟨ip.bytes, ip.noNul, hFits⟩, port) := by
  have hHost : hostOf (Address.url (ip.bytes, port)) = ip.bytes := hostOf_append hColon _
  have hMem : colon ∈ Address.url (ip.bytes, port) := by simp [Address.url]
  have hRest : (Address.url (ip.bytes, port)).drop (ip.bytes.length + 1) = utos port := by
    rw [Address.url, ← List.drop_drop, List.drop_left]
    rfl
  have hNul : ip.bytes.takeWhile (· ≠ 0) = ip.bytes := by
    rw [List.takeWhile_eq_self_iff]
    intro c hc
    apply decide_eq_true
    rintro rfl
    exact ip.noNul hc
  unfold hostOf at hHost
  rw [urlToIPPort, dif_pos ⟨hMem, hHost.symm ▸ hFits⟩]
  congr 2
  · apply CString.ext
    show (List.takeWhile (· ≠ colon) _).takeWhile (· ≠ 0) = ip.bytes
    rw [hHost, hNul]
  · rw [hHost, hRest, foldl_utos]

/-- What all formatters make of a host and a port. The addresses of brokers hold
hosts below `IP_LENGTH`. Their urls fit the 64 bytes of `IPPortToUrl`, and every
port fits the 12 bytes of `unsignedToString`. -/
structure Formatted (host : Text) (port : UInt32) (url : Text) : Prop where
  ofIPPort : ∀ {n : Nat} (ip : CString n), ip.bytes = host → IPPortToUrl ip port = url
  ofBrokerAddress : ∀ ba : BrokerAddress, ba.ip.bytes = host → ba.port = port →
    ba.getAddress = url
  ofLink : ∀ {Id : Type} (l : LinkInfo Id), l.host = host → l.port = port →
    l.getLinkDestUrl = url
  ofLinkObject : ∀ o : LinkObject, o.host = host → o.port = port → linkObjectDest o = url
  fits : host.length < IP_LENGTH → url.length < 64
  portFits : (utos port).length < 12

theorem formatted (host : Text) (port : UInt32) :
    Formatted host port (Address.url (host, port)) where
  ofIPPort ip hIp := by rw [IPPortToUrl, hIp, Address.url]
  ofBrokerAddress ba hIp hPort := by rw [BrokerAddress.getAddress, hIp, hPort, Address.url]
  ofLink l hHost hPort := by rw [LinkInfo.getLinkDestUrl, hHost, hPort, Address.url]
  ofLinkObject o hHost hPort := by rw [linkObjectDest, hHost, hPort, Address.url]
  portFits := Nat.lt_of_le_of_lt (length_utos_le port) (by omega)
  fits hHost := by
    have hPort := length_utos_le port
    unfold IP_LENGTH at hHost
    rw [Address.url, List.length_append, List.length_cons]
    show host.length + ((utos port).length + 1) < 64
    omega

/-- The formatters agree on a url, a buffer that is large enough receives the
host and the port back from it, and no other pair has it. -/
theorem url_faithful (ip : CString n) (port : UInt32) (hColon : colon ∉ ip.bytes) :
    ∃ url, Formatted ip.bytes port url ∧
      (∀ (m : Nat) (hFits : ip.bytes.length < m),
        urlToIPPort m url = some (⟨ip.bytes, ip.noNul, hFits⟩, port)) ∧
      ∀ a : Address, a.url = url ↔ a = (ip.bytes, port) :=
  ⟨Address.url (ip.bytes, port), formatted _ _,
    fun _ hFits => urlToIPPort_url ip port hColon hFits, fun _ => Address.url_inj⟩

theorem url_faithful_localhost :
    ∃ url, Formatted localhost.bytes 5672 url ∧
      (∀ (m : Nat) (hFits : localhost.bytes.length < m),
        urlToIPPort m url = some (⟨localhost.bytes, localhost.noNul, hFits⟩, 5672)) ∧
      ∀ a : Address, a.url = url ↔ a = (localhost.bytes, 5672) :=
  url_faithful localhost 5672 (by decide)

end RoundTrip

section Callers

/-- The calls of `urlToIPPort`: in `startRecovery`, in `main` for the brokers of
its list and for a new link, in the copying of links, and in the constructors of
the events. -/
inductive UrlCaller where
  | startRecovery
  | monitoredBroker
  | newLink
  | copyLink
  | brokerDisconnectionEvent
  | linkDownEventSrc
  | linkDownEventDst
deriving DecidableEq, Repr

/-- The size of the destination. -/
def UrlCaller.buffer : UrlCaller → Nat
  | startRecovery | monitoredBroker | newLink => IP_LENGTH
  | copyLink => 64
  | brokerDisconnectionEvent | linkDownEventSrc | linkDownEventDst => 32

/-- `isspace`. -/
def whitespace : List UInt8 := [9, 10, 11, 12, 13, 32]

/-- What `fscanf` reads with `%63s`. -/
def Word (word : Text) : Prop := word.length ≤ 63 ∧ ∀ c ∈ word, c ≠ 0 ∧ c ∉ whitespace

/-- The urls that come from a name list, from a link, or from the broker
library. -/
def UrlCaller.Passes (url : Text) : UrlCaller → Prop
  | startRecovery | monitoredBroker => Word url
  | newLink | copyLink => ∃ a : Address, a.url = url
  | brokerDisconnectionEvent | linkDownEventSrc | linkDownEventDst => True

/-- A url is parsed safely exactly if it has a colon, the host before the colon
fits the buffer of the caller, and its length fits an unsigned integer. -/
theorem urlToIPPort_safe_iff (caller : UrlCaller) (url : Text) :
    UrlScan.Safe caller.buffer url ↔
      colon ∈ url ∧ (hostOf url).length < caller.buffer ∧ url.length < 2 ^ 32 :=
  UrlScan.safe_iff

/-- A backup broker may be listed without a port. -/
theorem not_safe_without_port :
    ¬ ∀ (caller : UrlCaller) (url : Text), caller.Passes url → UrlScan.Safe caller.buffer url := by
  intro h
  have hChars : localhost.bytes.all (fun c => c ≠ 0 ∧ c ∉ whitespace) = true := by decide
  have hWord : UrlCaller.startRecovery.Passes localhost.bytes := by
    constructor
    · decide
    · intro c hc
      exact of_decide_eq_true (List.all_eq_true.mp hChars c hc)
  have hColon := (UrlScan.safe_iff.mp (h _ _ hWord)).1
  revert hColon
  decide

end Callers

end QpidRecovery
