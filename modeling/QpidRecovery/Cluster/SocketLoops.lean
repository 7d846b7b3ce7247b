import Mathlib.Data.Finset.Card
import QpidRecovery.Library.EraseLoop
import QpidRecovery.Proposer.Descriptors
import QpidRecovery.Requestor.Descriptors

/-! The loops that write to every socket of a vector, and close and erase those
that fail: `Monitored::informAll`, the loop of the requestor that informs its
subscribers, and `sendHeartbeat`. They are filters. -/
namespace QpidRecovery

open Loop

def INT_MAX : Nat := 2 ^ 31 - 1

section Indices

/-- `for(unsigned i = 0; i != v.size(); i++)`. -/
def unsignedIndex : Index UInt32 where
  start := 0
  goesOn i size := i.toNat != size
  position i := i.toNat
  next i := some (i + 1)
  back i := some (i - 1)

/-- `for(int i = 0; i < (signed int)v.size(); i++)`. As a position a negative
index is far outside. -/
def signedIndex : Index Int32 where
  start := 0
  goesOn i size := i < Int32.ofNat size
  position i := i.toInt64.toUInt64.toNat
  next i := if i = Int32.maxValue then none else some (i + 1)
  back i := if i = Int32.minValue then none else some (i - 1)

/-- The step back from zero wraps around, and the increment wraps back. -/
theorem unsignedIndex_counts : unsignedIndex.Counts (2 ^ 32 - 1) UInt32.ofNat where
  start := rfl
  goesOn k size hk hSize := by
    have hValue : (UInt32.ofNat k).toNat = k := UInt32.toNat_ofNat_of_lt' (by
      show k < 2 ^ 32
      omega)
    show ((UInt32.ofNat k).toNat != size) = true ↔ k < size
    rw [hValue, bne_iff_ne]
    omega
  position k hk := UInt32.toNat_ofNat_of_lt' (by
    show k < 2 ^ 32
    omega)
  next k _ := congrArg some (UInt32.ofNat_add k 1).symm
  stays k _ := congrArg some (UInt32.sub_add_cancel _ _)

/-- An `int` from zero on is its value. -/
theorem toInt_ofNat {k : Nat} (h : k ≤ INT_MAX) : (Int32.ofNat k).toInt = k := by
  apply Int32.toInt_ofNat_of_lt
  unfold INT_MAX at h
  omega

theorem ne_minValue {k : Nat} (h : k ≤ INT_MAX) : Int32.ofNat k ≠ Int32.minValue := by
  intro hEq
  have hValue := toInt_ofNat h
  rw [hEq] at hValue
  have hMin : Int32.minValue.toInt = -2 ^ 31 := rfl
  omega

/-- A vector of this size cannot make the index overflow. -/
theorem signedIndex_counts : signedIndex.Counts INT_MAX Int32.ofNat where
  start := rfl
  goesOn k size hk hSize := by
    show decide (Int32.ofNat k < Int32.ofNat size) = true ↔ k < size
    rw [decide_eq_true_iff, Int32.lt_iff_toInt_lt, toInt_ofNat (by omega), toInt_ofNat hSize]
    omega
  position k hk := by
    have hValue := toInt_ofNat hk.le
    have hSign : 0 ≤ (Int32.ofNat k).toInt64 := by
      rw [Int64.le_iff_toInt_le, Int32.toInt_toInt64, hValue]
      exact Int.natCast_nonneg k
    show (Int32.ofNat k).toInt64.toUInt64.toNat = k
    rw [Int64.toNat_toUInt64_of_le hSign, Int64.toNatClampNeg, Int32.toInt_toInt64, hValue,
      Int.toNat_natCast]
  next k hk := by
    have hBelow : Int32.ofNat k ≠ Int32.maxValue := by
      intro hEq
      have hValue := toInt_ofNat hk.le
      rw [hEq] at hValue
      have hMax : Int32.maxValue.toInt = INT_MAX := rfl
      omega
    show (if _ then none else _) = _
    rw [if_neg hBelow, Int32.ofNat_add]
    rfl
  stays k hk := by
    have hBelow : Int32.ofNat k - 1 ≠ Int32.maxValue := by
      intro hEq
      have hWrapped : Int32.ofNat k = Int32.minValue := by
        rw [← Int32.sub_add_cancel (Int32.ofNat k) 1, hEq]
        rfl
      exact ne_minValue hk.le hWrapped
    show (if _ then none else _ : Option Int32).bind _ = _
    rw [if_neg (ne_minValue hk.le), Option.bind_some]
    show (if _ then none else _) = _
    rw [if_neg hBelow, Int32.sub_add_cancel]

end Indices

section Loops
variable {Socket : Type}

/-- `Monitored::informAll`. A socket that cannot be written to is closed and
erased. -/
def informAllPass (written : Nat → Bool) :
    Erasing Socket UInt32 → Pass (Erasing Socket UInt32) :=
  Erasing.pass unsignedIndex written

/-- The same for the subscribers of a requestor, after it recruited a proposer. -/
def informNewProposerPass (written : Nat → Bool) :
    Erasing Socket UInt32 → Pass (Erasing Socket UInt32) :=
  Erasing.pass unsignedIndex written

/-- `sendHeartbeat` of the heartbeat server. -/
def sendHeartbeatPass (written : Nat → Bool) :
    Erasing Socket Int32 → Pass (Erasing Socket Int32) :=
  Erasing.pass signedIndex written

/-- One write to every socket in order. Those that were written to are kept, and
the others are closed, both in their order. -/
structure Filtered {ι : Type} (v : List Socket) (written : Nat → Bool) (t : Erasing Socket ι) :
    Prop where
  writes : t.tried = v
  kept : t.vec = (v.zipIdx.filter fun p => written p.2).map Prod.fst
  closed : t.erased = (v.zipIdx.filter fun p => !written p.2).map Prod.fst

theorem unsigned_filters {v : List Socket} (hSize : v.length ≤ INT_MAX) (written : Nat → Bool) :
    ∃ t, Ends (Erasing.pass unsignedIndex written) (.start unsignedIndex v) t ∧
      Filtered v written t := by
  have hBound : v.length ≤ 2 ^ 32 - 1 := by
    unfold INT_MAX at hSize
    omega
  obtain ⟨t, hEnds, hKept, hTried, hErased⟩ := Erasing.ends unsignedIndex_counts hBound written
  exact ⟨t, hEnds, hTried, hKept, hErased⟩

theorem signed_filters {v : List Socket} (hSize : v.length ≤ INT_MAX) (written : Nat → Bool) :
    ∃ t, Ends (Erasing.pass signedIndex written) (.start signedIndex v) t ∧
      Filtered v written t := by
  obtain ⟨t, hEnds, hKept, hTried, hErased⟩ := Erasing.ends signedIndex_counts hSize written
  exact ⟨t, hEnds, hTried, hKept, hErased⟩

/-- The three loops end, and each of them filters its vector. The sockets of a
process are numbered by an `int`. -/
theorem socketLoops_filter (v : List Socket) (hSize : v.length ≤ INT_MAX) (written : Nat → Bool) :
    (∃ t, Ends (informAllPass written) (.start unsignedIndex v) t ∧ Filtered v written t) ∧
      (∃ t, Ends (informNewProposerPass written) (.start unsignedIndex v) t ∧
        Filtered v written t) ∧
      ∃ t, Ends (sendHeartbeatPass written) (.start signedIndex v) t ∧ Filtered v written t :=
  ⟨unsigned_filters hSize written, unsigned_filters hSize written, signed_filters hSize written⟩

/-- Descriptors that are open beside another one. -/
theorem length_le_INT_MAX (sfd : Int32) {v : List Int32} (hOpen : (sfd :: v).Nodup)
    (hRange : ∀ fd ∈ sfd :: v, 0 ≤ fd) : v.length ≤ INT_MAX := by
  have hInjective : ∀ fd ∈ sfd :: v, ∀ fd' ∈ sfd :: v,
      fd.toNatClampNeg = fd'.toNatClampNeg → fd = fd' := by
    intro fd hfd fd' hfd' hEq
    have hSign := Int32.le_iff_toInt_le.mp (hRange fd hfd)
    have hSign' := Int32.le_iff_toInt_le.mp (hRange fd' hfd')
    simp only [Int32.toNatClampNeg] at hEq
    rw [Int32.toInt_zero] at hSign hSign'
    apply Int32.toInt_inj.mp
    omega
  have hNodup : ((sfd :: v).map Int32.toNatClampNeg).Nodup :=
    (List.nodup_map_iff_inj_on hOpen).mpr hInjective
  have hSubset : ((sfd :: v).map Int32.toNatClampNeg).toFinset ⊆ Finset.range (INT_MAX + 1) := by
    intro k hk
    obtain ⟨fd, _, rfl⟩ := List.mem_map.mp (List.mem_toFinset.mp hk)
    have hLt := fd.toInt_lt
    rw [Finset.mem_range, Int32.toNatClampNeg]
    unfold INT_MAX
    omega
  have hCard := Finset.card_le_card hSubset
  rw [List.toFinset_card_of_nodup hNodup, List.length_map, List.length_cons,
    Finset.card_range] at hCard
  omega

/-- Three subscribers of a process that listens on the descriptor 3. -/
def subscribers : List Int32 := [4, 5, 6]

theorem socketLoops_filter_subscribers :
    (∃ t, Ends (informAllPass fun k => k = 1) (.start unsignedIndex subscribers) t ∧
        Filtered subscribers (fun k => k = 1) t) ∧
      (∃ t, Ends (informNewProposerPass fun k => k = 1) (.start unsignedIndex subscribers) t ∧
        Filtered subscribers (fun k => k = 1) t) ∧
      ∃ t, Ends (sendHeartbeatPass fun k => k = 1) (.start signedIndex subscribers) t ∧
        Filtered subscribers (fun k => k = 1) t :=
  socketLoops_filter subscribers
    (length_le_INT_MAX 3 (by decide) (by simp [subscribers])) fun k => k = 1

/-- What the outcomes of single sockets leave. -/
theorem Filtered.by_socket {ι : Type} {v : List Socket} {p : Socket → Bool} {t : Erasing Socket ι}
    (h : Filtered v (fun k => v[k]?.any p) t) :
    t.vec = v.filter p ∧ t.erased = v.filter fun sfd => !p sfd := by
  have hOutcome : ∀ j a, v[j]? = some a → v[0 + j]?.any p = p a := by
    intro j a ha
    rw [Nat.zero_add, ha, Option.any_some]
  have hKept : keptFrom (fun k => v[k]?.any p) 0 v = v.filter p := keptFrom_eq_filter hOutcome
  have hClosed : keptFrom (fun k => !v[k]?.any p) 0 v = v.filter fun sfd => !p sfd :=
    keptFrom_eq_filter fun j a ha => congrArg (!·) (hOutcome j a ha)
  exact ⟨h.kept.trans hKept, h.closed.trans hClosed⟩

end Loops

section Processes
variable {Fd Id : Type}

/-- The list and the closed sockets of `informAll` are those of its loop. -/
theorem informAll_loop (written : Fd → Bool) (mon : Proposer.Monitored Fd)
    (s : Proposer.State Fd Id) (hSize : mon.informlist.length ≤ INT_MAX) :
    ∃ t, Ends (informAllPass fun k => mon.informlist[k]?.any written)
        (.start unsignedIndex mon.informlist) t ∧
      t.vec = (Proposer.informAll written mon s).1.informlist ∧
      t.erased.map .close = Proposer.informCalls written mon.informlist := by
  obtain ⟨t, hEnds, hFiltered⟩ :=
    unsigned_filters hSize fun k => mon.informlist[k]?.any written
  exact ⟨t, hEnds, hFiltered.by_socket.1, congrArg (List.map Call.close) hFiltered.by_socket.2⟩

/-- A recruited proposer is announced by the loop over the subscribers. -/
theorem addProposer_loop [DecidableEq Fd] (cfg : Requestor.Config) (o : Requestor.Outcomes Fd)
    (s : Requestor.State Fd) (hSize : s.replysfd.length ≤ INT_MAX) {newip : IPString}
    {rest : List IPString} (hIPs : s.proposerIPs = newip :: rest) (hRequest : o.request 0 = true) :
    ∃ t, Ends (informNewProposerPass fun k => s.replysfd[k]?.any o.reply)
        (.start unsignedIndex s.replysfd) t ∧
      (Requestor.addProposer cfg o s).map Requestor.State.replysfd = some t.vec ∧
      Requestor.addProposerCalls o s = Call.connected (o.heartbeat 0) ++ t.erased.map .close := by
  obtain ⟨t, hEnds, hFiltered⟩ := unsigned_filters hSize fun k => s.replysfd[k]?.any o.reply
  obtain ⟨hKept, hClosed⟩ := hFiltered.by_socket
  refine ⟨t, hEnds, ?_, ?_⟩
  · simp [Requestor.addProposer, hIPs, hRequest, hKept]
  · simp [Requestor.addProposerCalls, hIPs, hRequest, hClosed]

end Processes

end QpidRecovery
