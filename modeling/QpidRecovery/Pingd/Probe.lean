import QpidRecovery.Library.OnesComplement
import QpidRecovery.Pingd.Daemon

/-! The packets of a child. A child sends one echo request that carries the low
half of its pid, and reports the TTL of every echo reply that carries them. All
children read all replies. -/
namespace QpidRecovery.Pingd

open Layout OnesComplement

section Checksum

/-- The words of a packet on a little-endian machine. An odd byte is the low
half of a word. -/
def sumWords : List UInt8 → Nat
  | [] => 0
  | [low] => low.toNat
  | low :: high :: rest => low.toNat + 256 * high.toNat + sumWords rest

/-- The sum is an `int`, whose overflow is undefined. -/
def inCksum (packet : List UInt8) (csum : UInt16) : Option UInt16 :=
  let sum := csum.toNat + sumWords packet
  if sum < 2 ^ 31 then
    let sum := (sum >>> 16) + (sum &&& 0xffff)
    let sum := sum + (sum >>> 16)
    some (~~~ (UInt16.ofNat sum))
  else none

/-- The largest word. -/
def allOnes : Nat := 0xffff

theorem allOnes_pos : 0 < allOnes := by decide

theorem sumWords_append {l : List UInt8} (hEven : l.length % 2 = 0) (m : List UInt8) :
    sumWords (l ++ m) = sumWords l + sumWords m := by
  induction l using sumWords.induct with
  | case1 => simp [sumWords]
  | case2 low => simp at hEven
  | case3 low high rest ih =>
      have hRest : rest.length % 2 = 0 := by
        simp only [List.length_cons] at hEven
        omega
      rw [List.cons_append, List.cons_append, sumWords, sumWords, ih hRest]
      omega

theorem sumWords_le (l : List UInt8) : sumWords l ≤ allOnes * ((l.length + 1) / 2) := by
  induction l using sumWords.induct with
  | case1 => exact Nat.zero_le _
  | case2 low =>
      have hLow := low.toNat_lt
      simp only [sumWords, allOnes, List.length_singleton]
      omega
  | case3 low high rest ih =>
      have hLow := low.toNat_lt
      have hHigh := high.toNat_lt
      simp only [sumWords, allOnes, List.length_cons] at ih ⊢
      omega

theorem sumWords_zeros (n : Nat) : sumWords (List.replicate n 0) = 0 := by
  induction n using Nat.twoStepInduction with
  | zero => rfl
  | one => rfl
  | more n ih _ =>
      rw [List.replicate_succ, List.replicate_succ, sumWords, ih]
      rfl

/-- The two halves of a word. -/
theorem sumWords_word (w : UInt16) : sumWords (littleEndian 2 w.toNat) = w.toNat := by
  have hWord := w.toNat_lt
  simp only [littleEndian, sumWords, UInt8.toNat_ofNat']
  omega

/-- The checksum is the complement of what the words come to. -/
theorem inCksum_eq (packet : List UInt8) (csum : UInt16)
    (hFits : csum.toNat + sumWords packet < 2 ^ 31) :
    ∃ c, inCksum packet csum = some c ∧
      c.toNat = allOnes - word allOnes (csum.toNat + sumWords packet) := by
  refine ⟨_, if_pos hFits, ?_⟩
  generalize csum.toNat + sumWords packet = sum at hFits
  have hCarry : (sum >>> 16) + (sum &&& 0xffff) = carry allOnes sum := by
    rw [Nat.shiftRight_eq_div_pow, show (0xffff : Nat) = 2 ^ 16 - 1 from rfl,
      Nat.and_two_pow_sub_one_eq_mod]
    rfl
  have hBound : carry allOnes sum ≤ allOnes + allOnes := by
    unfold carry allOnes
    omega
  have hTwice : (carry allOnes sum + carry allOnes sum >>> 16) % 2 ^ 16 =
      carry allOnes (carry allOnes sum) := by
    generalize carry allOnes sum = n at hBound
    rw [Nat.shiftRight_eq_div_pow]
    unfold carry allOnes at *
    omega
  have hWord : carry allOnes (carry allOnes sum) = word allOnes sum :=
    carry_carry allOnes_pos (Nat.lt_trans hFits (by decide))
  rw [hCarry, UInt16.toNat_not, UInt16.toNat_ofNat', hTwice, hWord]
  rfl

end Checksum

/-- The values of the fields as the machine reads them. -/
structure Icmphdr where
  type : UInt8
  code : UInt8
  checksum : UInt16
  id : UInt16
  sequence : UInt16
deriving DecidableEq, Repr

instance : Layout UInt16 where
  size := 2
  bytes w := littleEndian 2 w.toNat
  ofBytes l := UInt16.ofNat (ofLittleEndian l)
  length_bytes w := length_littleEndian 2 _
  ofBytes_bytes w := by
    rw [ofLittleEndian_littleEndian w.toNat_lt, UInt16.ofNat_toNat]
  bytes_ofBytes l h := by
    have hLt := ofLittleEndian_lt l
    rw [h] at hLt
    rw [UInt16.toNat_ofNat_of_lt' hLt, ← h, littleEndian_ofLittleEndian]

instance : Layout Icmphdr :=
  ofEquiv (α := UInt8 × UInt8 × UInt16 × UInt16 × UInt16)
    (fun h => (h.type, h.code, h.checksum, h.id, h.sequence))
    (fun p => ⟨p.1, p.2.1, p.2.2.1, p.2.2.2.1, p.2.2.2.2⟩) (fun _ => rfl) (fun _ => rfl)

def ICMP_ECHO : UInt8 := 8
def ICMP_ECHOREPLY : UInt8 := 0

/-- The two bytes change places. -/
def htons (w : UInt16) : UInt16 := UInt16.ofNat (w.toNat % 256 * 256 + w.toNat / 256)

structure Timeval where
  sec : UInt64
  usec : UInt64
deriving DecidableEq, Repr

def Timeval.bytes (tv : Timeval) : List UInt8 :=
  littleEndian 8 tv.sec.toNat ++ littleEndian 8 tv.usec.toNat

def TIMEVAL : Nat := 16

/-- The size of `outpack`. -/
def maxpacket : Nat := 0x10000

/-- A child as it probes. The data are what stands in `outpack` behind the
header. -/
structure Ping where
  pid : Int32
  ntransmitted : Nat
  data : List UInt8
  latency : Bool
  quiet : Bool
  flood : Bool
  fits : data.length + 8 ≤ maxpacket
deriving DecidableEq, Repr

/-- What `getpid() & 0xFFFF` leaves of a pid. -/
def lowHalf (pid : Int32) : UInt16 := pid.toUInt32.toUInt16

def Ping.ident (p : Ping) : UInt16 := htons (lowHalf p.pid)

/-- The data are long enough for the time. -/
def Ping.timing (p : Ping) : Bool := TIMEVAL ≤ p.data.length

/-- The header without its checksum. -/
def Ping.icmphdr (p : Ping) : Icmphdr where
  type := ICMP_ECHO
  code := 0
  checksum := 0
  id := p.ident
  sequence := htons (UInt16.ofNat (p.ntransmitted + 1))

/-- The time is written before the checksum is computed, or else after it, and
the checksum is then continued over the time. -/
def sendProbe (p : Ping) (tv : Timeval) : Option (List UInt8) :=
  let icp := p.icmphdr
  let rest := p.data.drop TIMEVAL
  if p.timing then
    if p.latency then
      (inCksum (bytes icp ++ tv.bytes ++ rest) 0).map fun c =>
        bytes { icp with checksum := c } ++ tv.bytes ++ rest
    else
      (inCksum (bytes icp ++ List.replicate TIMEVAL 0 ++ rest) 0).bind fun c =>
        (inCksum tv.bytes (~~~c)).map fun c =>
          bytes { icp with checksum := c } ++ tv.bytes ++ rest
  else
    (inCksum (bytes icp ++ p.data) 0).map fun c => bytes { icp with checksum := c } ++ p.data

/-- What arrives is the IP header and what follows it. Of a reply that is not
too short and carries the child's own identity the TTL is reported, unless the
child is quiet or floods. No other packet is reported. -/
def parseReply (p : Ping) (packet : List UInt8) : Option PingdSample :=
  let hlen := (packet.headD 0 &&& 0xf).toNat * 4
  if packet.length < hlen + 8 ∨ hlen < 20 then none
  else
    let icp : Icmphdr := ofBytes ((packet.drop hlen).take (size Icmphdr))
    if icp.type = ICMP_ECHOREPLY ∧ icp.id = p.ident ∧ !p.quiet ∧ !p.flood then
      some ⟨Int32.ofNat (packet.getD 8 0).toNat, p.pid⟩
    else none

section Send

theorem Timeval.length_bytes (tv : Timeval) : tv.bytes.length = TIMEVAL := by
  simp [Timeval.bytes, length_littleEndian, TIMEVAL]

/-- What a probe carries behind its header. -/
def Ping.payload (p : Ping) (tv : Timeval) : List UInt8 :=
  if p.timing then tv.bytes ++ p.data.drop TIMEVAL else p.data

theorem Ping.length_payload (p : Ping) (tv : Timeval) : (p.payload tv).length = p.data.length := by
  unfold payload
  split_ifs with hTiming
  · have hLong : TIMEVAL ≤ p.data.length := of_decide_eq_true hTiming
    rw [List.length_append, tv.length_bytes, List.length_drop]
    omega
  · rfl

/-- The checksum is a word of the header. -/
theorem sumWords_header (icp : Icmphdr) (c : UInt16) (data : List UInt8) :
    sumWords (bytes { icp with checksum := c } ++ data) =
      c.toNat + sumWords (bytes { icp with checksum := 0 } ++ data) := by
  have hEven : ∀ h : Icmphdr, (bytes h).length % 2 = 0 := fun h => by
    rw [Layout.length_bytes h]
    rfl
  have hField : ∀ w : UInt16, sumWords (bytes { icp with checksum := w }) =
      w.toNat + sumWords (bytes { icp with checksum := 0 }) := by
    intro w
    show sumWords (icp.type :: icp.code :: (littleEndian 2 w.toNat ++ _)) =
      w.toNat + sumWords (icp.type :: icp.code :: (littleEndian 2 (0 : UInt16).toNat ++ _))
    rw [sumWords, sumWords, sumWords_append (by rw [length_littleEndian]),
      sumWords_append (by rw [length_littleEndian]), sumWords_word, sumWords_word]
    simp only [UInt16.toNat_zero]
    omega
  rw [sumWords_append (hEven _), sumWords_append (hEven _), hField c]
  omega

theorem sumWords_fits {l : List UInt8} (hLength : l.length ≤ maxpacket) :
    sumWords l < 2 ^ 31 := by
  have hSum := sumWords_le l
  unfold allOnes at hSum
  unfold maxpacket at hLength
  omega

theorem Ping.packet_fits (p : Ping) (tv : Timeval) (icp : Icmphdr) :
    (bytes icp ++ p.payload tv).length ≤ maxpacket := by
  have hFits := p.fits
  rw [List.length_append, Layout.length_bytes, p.length_payload]
  show 8 + p.data.length ≤ maxpacket
  omega

/-- A checksum that was computed before the time was written is continued over
the time. -/
theorem inCksum_continue (packet more : List UInt8) (hPacket : packet.length ≤ maxpacket)
    (hMore : more.length ≤ TIMEVAL) :
    ∃ c c', inCksum packet 0 = some c ∧ inCksum more (~~~c) = some c' ∧
      c'.toNat = allOnes - word allOnes (sumWords packet + sumWords more) := by
  have hSum := sumWords_fits hPacket
  obtain ⟨c, hc, hWord⟩ := inCksum_eq packet 0
    (by rwa [UInt16.toNat_zero, Nat.zero_add])
  rw [UInt16.toNat_zero, Nat.zero_add] at hWord
  have hLe : word allOnes (sumWords packet) ≤ allOnes := word_le allOnes_pos
  have hNot : (~~~c).toNat = word allOnes (sumWords packet) := by
    rw [UInt16.toNat_not, hWord]
    show allOnes - (allOnes - _) = _
    omega
  have hTime := sumWords_le more
  obtain ⟨c', hc', hWord'⟩ := inCksum_eq more (~~~c) (by
    have hHalf : (more.length + 1) / 2 ≤ 8 := by
      unfold TIMEVAL at hMore
      omega
    have hProduct := Nat.mul_le_mul_left allOnes hHalf
    rw [hNot]
    unfold allOnes at *
    omega)
  refine ⟨c, c', hc, hc', ?_⟩
  rw [hWord', hNot, word_add_word _ _ allOnes_pos]

/-- Whenever the time is written, the checksum is that of the whole packet. -/
theorem sendProbe_eq (p : Ping) (tv : Timeval) :
    ∃ c, sendProbe p tv = some (bytes { p.icmphdr with checksum := c } ++ p.payload tv) ∧
      c.toNat = allOnes - word allOnes (sumWords (bytes p.icmphdr ++ p.payload tv)) := by
  have hWhole : ∃ c, inCksum (bytes p.icmphdr ++ p.payload tv) 0 = some c ∧
      c.toNat = allOnes - word allOnes (sumWords (bytes p.icmphdr ++ p.payload tv)) := by
    have hSum := sumWords_fits (p.packet_fits tv p.icmphdr)
    have hEq := inCksum_eq _ 0 (by rwa [UInt16.toNat_zero, Nat.zero_add])
    rwa [UInt16.toNat_zero, Nat.zero_add] at hEq
  unfold sendProbe Ping.payload at *
  split_ifs at hWhole ⊢ with hTiming hLatency
  · obtain ⟨c, hc, hWord⟩ := hWhole
    refine ⟨c, ?_, hWord⟩
    dsimp only
    rw [List.append_assoc, hc, Option.map_some, List.append_assoc]
  · have hTimed : TIMEVAL ≤ p.data.length := of_decide_eq_true hTiming
    have hHeader : (bytes p.icmphdr).length = 8 := Layout.length_bytes _
    obtain ⟨c, c', hc, hc', hWord⟩ := inCksum_continue
      (bytes p.icmphdr ++ List.replicate TIMEVAL 0 ++ p.data.drop TIMEVAL) tv.bytes (by
        have hFits := p.fits
        simp only [List.length_append, List.length_replicate, List.length_drop, hHeader]
        omega) (Nat.le_of_eq tv.length_bytes)
    refine ⟨c', ?_, ?_⟩
    · dsimp only
      rw [hc, Option.bind_some, hc', Option.map_some, List.append_assoc]
    · have hEven : (bytes p.icmphdr).length % 2 = 0 := by rw [hHeader]
      have hZeros : sumWords (bytes p.icmphdr ++ List.replicate TIMEVAL 0 ++ p.data.drop TIMEVAL) =
          sumWords (bytes p.icmphdr) + sumWords (p.data.drop TIMEVAL) := by
        have hTimeEven : (List.replicate TIMEVAL (0 : UInt8)).length % 2 = 0 := by
          rw [List.length_replicate]
          rfl
        rw [List.append_assoc, sumWords_append hEven, sumWords_append hTimeEven, sumWords_zeros,
          Nat.zero_add]
      have hTime : sumWords (bytes p.icmphdr ++ (tv.bytes ++ p.data.drop TIMEVAL)) =
          sumWords (bytes p.icmphdr) + sumWords (p.data.drop TIMEVAL) + sumWords tv.bytes := by
        rw [sumWords_append hEven, sumWords_append (by rw [tv.length_bytes]; rfl)]
        omega
      rw [hWord, hZeros, hTime]
  · obtain ⟨c, hc, hWord⟩ := hWhole
    refine ⟨c, ?_, hWord⟩
    dsimp only
    rw [hc, Option.map_some]

/-- Both ways to write the time send the same packet. -/
theorem sendProbe_latency (p : Ping) (tv : Timeval) (latency : Bool) :
    sendProbe { p with latency := latency } tv = sendProbe p tv := by
  obtain ⟨c, hSent, hWord⟩ := sendProbe_eq p tv
  obtain ⟨c', hSent', hWord'⟩ := sendProbe_eq { p with latency := latency } tv
  have hSame : c' = c := UInt16.toNat_inj.mp (hWord'.trans hWord.symm)
  rw [hSent, hSent', hSame]
  rfl

/-- The checksum of a packet that carries its own is zero. -/
theorem inCksum_sendProbe {p : Ping} {tv : Timeval} {packet : List UInt8}
    (h : sendProbe p tv = some packet) : inCksum packet 0 = some 0 := by
  obtain ⟨c, hSent, hWord⟩ := sendProbe_eq p tv
  rw [hSent] at h
  cases h
  have hSum := sumWords_fits (p.packet_fits tv { p.icmphdr with checksum := c })
  obtain ⟨z, hz, hZero⟩ := inCksum_eq _ 0 (by rwa [UInt16.toNat_zero, Nat.zero_add])
  have hField : sumWords (bytes { p.icmphdr with checksum := c } ++ p.payload tv) =
      c.toNat + sumWords (bytes p.icmphdr ++ p.payload tv) := sumWords_header p.icmphdr c _
  rw [UInt16.toNat_zero, Nat.zero_add, hField, hWord, Nat.add_comm,
    word_add_complement _ allOnes_pos, Nat.sub_self] at hZero
  rw [hz, UInt16.toNat_inj.mp (hZero.trans UInt16.toNat_zero.symm)]

/-- Every probe is sent, passes the check of its checksum, and is the same
however the time is written into it. -/
theorem sendProbe_verifies (p : Ping) (tv : Timeval) :
    ∃ packet, sendProbe p tv = some packet ∧ inCksum packet 0 = some 0 ∧
      ∀ latency, sendProbe { p with latency := latency } tv = some packet := by
  obtain ⟨c, hSent, _⟩ := sendProbe_eq p tv
  exact ⟨_, hSent, inCksum_sendProbe hSent,
    fun latency => (sendProbe_latency p tv latency).trans hSent⟩

end Send

section Reply

theorem toNat_htons (w : UInt16) : (htons w).toNat = w.toNat % 256 * 256 + w.toNat / 256 := by
  have hWord := w.toNat_lt
  rw [htons, UInt16.toNat_ofNat']
  exact Nat.mod_eq_of_lt (by omega)

@[simp] theorem htons_htons (w : UInt16) : htons (htons w) = w := by
  have hWord := w.toNat_lt
  apply UInt16.toNat_inj.mp
  rw [toNat_htons, toNat_htons]
  omega

theorem htons_inj {v w : UInt16} : htons v = htons w ↔ v = w := by
  constructor
  · intro h
    rw [← htons_htons v, h, htons_htons]
  · exact congrArg htons

/-- An IP header as it stands in front of what it carries. -/
structure Iphdr where
  bytes : List UInt8
  ihl : bytes.length = (bytes.headD 0 &&& 0xf).toNat * 4
  complete : 20 ≤ bytes.length

def Iphdr.ttl (ip : Iphdr) : UInt8 := ip.bytes.getD 8 0

def hopCount (ttl : UInt8) : Int32 := Int32.ofNat ttl.toNat

theorem Iphdr.headD (ip : Iphdr) (icmp : List UInt8) :
    (ip.bytes ++ icmp).headD 0 = ip.bytes.headD 0 := by
  have hComplete := ip.complete
  cases hBytes : ip.bytes with
  | nil => simp [hBytes] at hComplete
  | cons b rest => rfl

/-- A packet without a whole ICMP header is not reported. -/
theorem parseReply_short (p : Ping) (ip : Iphdr) {icmp : List UInt8} (hShort : icmp.length < 8) :
    parseReply p (ip.bytes ++ icmp) = none := by
  unfold parseReply
  rw [if_pos]
  left
  rw [ip.headD, ← ip.ihl, List.length_append]
  omega

/-- A whole packet is reported to the child that it names. -/
theorem parseReply_eq (p : Ping) (ip : Iphdr) (icp : Icmphdr) (data : List UInt8) :
    parseReply p (ip.bytes ++ (bytes icp ++ data)) =
      if icp.type = ICMP_ECHOREPLY ∧ icp.id = p.ident ∧ !p.quiet ∧ !p.flood then
        some ⟨hopCount ip.ttl, p.pid⟩
      else none := by
  have hComplete := ip.complete
  have hSize : (bytes icp).length = size Icmphdr := Layout.length_bytes icp
  have hEight : size Icmphdr = 8 := rfl
  have hTtl : (ip.bytes ++ (bytes icp ++ data)).getD 8 0 = ip.ttl := by
    rw [Iphdr.ttl, List.getD_eq_getElem?_getD, List.getD_eq_getElem?_getD,
      List.getElem?_append_left (by omega)]
  unfold parseReply
  rw [ip.headD, ← ip.ihl]
  dsimp only
  rw [if_neg (by simp only [List.length_append]; omega), List.drop_left, List.take_left' hSize,
    ofBytes_bytes, hTtl]
  rfl

/-- A host answers the requests whose checksum is right, with what they carry. -/
def echo (icmp : List UInt8) (checksum : UInt16) : Option (List UInt8) :=
  let icp : Icmphdr := ofBytes (icmp.take (size Icmphdr))
  if inCksum icmp 0 = some 0 ∧ icp.type = ICMP_ECHO then
    some (bytes { icp with type := ICMP_ECHOREPLY, checksum := checksum } ++
      icmp.drop (size Icmphdr))
  else none

/-- Every probe is answered, and its answer is for the child that sent it. -/
theorem echo_sendProbe {p : Ping} {tv : Timeval} {packet : List UInt8}
    (h : sendProbe p tv = some packet) (checksum : UInt16) :
    ∃ icp : Icmphdr, icp.type = ICMP_ECHOREPLY ∧ icp.id = p.ident ∧
      echo packet checksum = some (bytes icp ++ p.payload tv) := by
  have hSum := inCksum_sendProbe h
  obtain ⟨c, hSent, _⟩ := sendProbe_eq p tv
  rw [hSent] at h
  cases h
  refine ⟨{ p.icmphdr with type := ICMP_ECHOREPLY, checksum := checksum }, rfl, rfl, ?_⟩
  unfold echo
  dsimp only
  rw [List.take_left' (Layout.length_bytes _), List.drop_left' (Layout.length_bytes _),
    ofBytes_bytes, if_pos ⟨hSum, rfl⟩]

end Reply

end QpidRecovery.Pingd
