import QpidRecovery.Proposer.Centralized
import QpidRecovery.Proposer.Frame

/-! The proposer lists of the brokers that links lead to. Every property event
of a link subscribes once more, a reply goes into the entry of its socket, and
a failed link takes the list of the first entry with its destination. -/
namespace QpidRecovery.Proposer

open Transition

variable {Fd Id : Type}

/-- The entries among which `searchProposerListByIPPort` takes the first. -/
def ProposerList.isFor (dstip : CString 32) (dstport : UInt32) (p : ProposerList Fd) : Bool :=
  p.ip.bytes = dstip.bytes ∧ p.port = dstport

/-- The list that a failed link hands to `listenAddressChange`. -/
def handedList (dstip : CString 32) (dstport : UInt32) (s : State Fd Id) : Option ReplyProposer :=
  (searchProposerListByIPPort dstip dstport s.dstproposers).map ProposerList.plist

/-- The number of the oldest subscription for a destination. -/
def oldest (dstip : CString 32) (dstport : UInt32) (s : State Fd Id) : Option Nat :=
  s.dstproposers.findIdx? (ProposerList.isFor dstip dstport)

/-- What the reads on one subscription leave, each laid over those before it. -/
def laid (reads : List ListRead) : ReplyProposer :=
  reads.foldl (fun plist read => read.into plist) ReplyProposer.zeroed

section Calls
variable [DecidableEq Fd]

/-- The list that the source picks for a lost link is the one handed over. -/
theorem linkDown_eq (o : Outcomes Fd) (srcip : CString 32) (srcport : UInt32) (dstip : CString 32)
    (dstport : UInt32) (s : State Fd Id) :
    linkDown o srcip srcport dstip dstport s =
      if o.broker.unreachable dstip.bytes = false then some s
      else (handedList dstip dstport s).elim (some s) fun plist =>
        (srcip.copyTo IP_LENGTH).bind fun srcip => (dstip.copyTo IP_LENGTH).bind fun dstip =>
          (s.dstlistener.listenAddressChange o.connect plist srcip srcport dstip dstport).map
            fun l => { s with
              dstlistener := l.1
              fs := l.2.1.foldl (fun fs fd => fs.registerFD (some fd)) s.fs
              trace := s.trace ++ l.2.1.map fun fd => .query fd plist.name } := by
  unfold linkDown handedList
  split
  · rfl
  · cases searchProposerListByIPPort dstip dstport s.dstproposers with
    | none => rfl
    | some p =>
        dsimp only [Option.map_some, Option.elim_some]
        cases srcip.copyTo IP_LENGTH with
        | none => rfl
        | some src =>
            cases dstip.copyTo IP_LENGTH with
            | none => rfl
            | some dst => rfl

/-- The entry that an iteration reads for, with what it reads. -/
def listRead (s : State Fd Id) : Action Fd Id → List (Nat × ListRead)
  | .ready ready input _ =>
      if receiver ready s.monitor = none ∧
          (s.dstlistener.readAddressChange ready input.address).result = 0 then
        ((s.dstproposers.findIdx? fun p => p.sfd = some ready).map fun i =>
          (i, input.proposers)).toList
      else []
  | _ => []

end Calls

/-- The process with every read of a proposer list. -/
structure Reception (Fd Id : Type) where
  process : State Fd Id
  reads : List (Nat × ListRead)

namespace Reception

def step [DecidableEq Fd] [DecidableEq Id] (h : Reception Fd Id) (action : Action Fd Id) :
    Option (Reception Fd Id) :=
  (Proposer.step h.process action).map fun t => ⟨t, h.reads ++ listRead h.process action⟩

def init [DecidableEq Fd] (start : Time) (recoveryfd requestsfd querysfd : Option Fd)
    (backupbrokers : List Text) : Reception Fd Id :=
  ⟨.init start recoveryfd requestsfd querysfd backupbrokers, []⟩

/-- The reads on one subscription. -/
def readsOf (i : Nat) (reads : List (Nat × ListRead)) : List ListRead :=
  reads.filterMap fun e => if e.1 = i then some e.2 else none

/-- The replies on all subscriptions for a destination. -/
def received (dstip : CString 32) (dstport : UInt32) (h : Reception Fd Id) : List ReplyProposer :=
  h.reads.filterMap fun e =>
    if h.process.dstproposers[e.1]?.any (ProposerList.isFor dstip dstport) then
      match e.2 with
      | .reply plist => some plist
      | _ => none
    else none

end Reception

/-- If any reply was received from the destination, its last one is what a
failed link hands on. -/
def HandsLast (dstip : CString 32) (dstport : UInt32) (h : Reception Fd Id) : Prop :=
  ∀ plist last, handedList dstip dstport h.process = some plist →
    (h.received dstip dstport).getLast? = some last → plist = last

/-- That reply is what the reads on the oldest subscription leave. -/
def OldestHasLast (dstip : CString 32) (dstport : UInt32) (h : Reception Fd Id) : Prop :=
  ∀ i last, oldest dstip dstport h.process = some i →
    (h.received dstip dstport).getLast? = some last →
    laid (Reception.readsOf i h.reads) = last

/-- What an iteration does to the table, with what it reads for an entry. -/
inductive TableStep (table table' : List (ProposerList Fd)) : List (Nat × ListRead) → Prop where
  | kept (hTable : table' = table) : TableStep table table' []
  | subscribed (p : ProposerList Fd) (hZeroed : p.plist = ReplyProposer.zeroed)
      (hTable : table' = table ++ [p]) : TableStep table table' []
  | read (i : Nat) (read : ListRead) (p p' : ProposerList Fd) (hEntry : table[i]? = some p)
      (hAddress : p'.ip = p.ip ∧ p'.port = p.port) (hList : p'.plist = read.into p.plist)
      (hTable : table' = table.set i p') : TableStep table table' [(i, read)]

section Steps
variable [DecidableEq Fd] [DecidableEq Id] {s t : State Fd Id}

omit [DecidableEq Id] in
/-- A read changes the list of its own entry. -/
theorem readProposerList_table {ready : Fd} {i : Nat} {table : List (ProposerList Fd)}
    (hTable : s.dstproposers = table)
    (hFound : (table.findIdx? fun p => p.sfd = some ready) = some i) (read : ListRead) :
    TableStep table (readProposerList ready read i s).dstproposers [(i, read)] := by
  subst hTable
  obtain ⟨hBound, _⟩ := List.findIdx?_eq_some_iff_getElem.mp hFound
  have hEntry : s.dstproposers[i]? = some s.dstproposers[i] := List.getElem?_eq_getElem hBound
  have hModify : ∀ f : ProposerList Fd → ProposerList Fd,
      s.dstproposers.modify i f = s.dstproposers.set i (f s.dstproposers[i]) := by
    intro f
    rw [List.modify_eq_set_getElem?, hEntry]
    rfl
  have hRead : ∀ f : ProposerList Fd → ProposerList Fd,
      (readProposerList ready read i s).dstproposers = s.dstproposers.modify i f →
      (f s.dstproposers[i]).ip = s.dstproposers[i].ip ∧
        (f s.dstproposers[i]).port = s.dstproposers[i].port →
      (f s.dstproposers[i]).plist = read.into s.dstproposers[i].plist →
      TableStep s.dstproposers (readProposerList ready read i s).dstproposers [(i, read)] := by
    intro f hTable hAddress hList
    exact .read i read _ _ hEntry hAddress hList (hTable.trans (hModify f))
  cases read with
  | reply plist => exact hRead _ rfl ⟨rfl, rfl⟩ rfl
  | short overlay => exact hRead _ (List.modify_modify_eq _ _ i _) ⟨rfl, rfl⟩ rfl
  | failed => exact hRead _ (List.modify_modify_eq _ _ i _) ⟨rfl, rfl⟩ rfl

/-- An event may add an entry, and changes none. -/
theorem handleEvent_table {o : Outcomes Fd} {le : ListenerEvent Id}
    (h : handleEvent o le s = some t) : TableStep s.dstproposers t.dstproposers [] := by
  cases le with
  | brokerDisconnection brokerip brokerport =>
      obtain ⟨ip, _, rfl⟩ := Option.map_eq_some_iff.mp h
      exact .kept rfl
  | linkDown srcip srcport dstip dstport =>
      simp only [handleEvent, linkDown] at h
      split at h
      · cases h
        exact .kept rfl
      · split at h
        · cases h
          exact .kept rfl
        · split at h
          · obtain ⟨l, _, rfl⟩ := Option.map_eq_some_iff.mp h
            exact .kept rfl
          · cases h
  | objectProperty objinfo =>
      simp only [handleEvent] at h
      split at h
      · obtain ⟨dst, _, rfl⟩ := Option.map_eq_some_iff.mp h
        unfold listenProposerList
        split
        · exact .kept rfl
        · exact .subscribed _ rfl rfl
      · cases h
        exact .kept rfl

/-- What a ready descriptor does to the table. -/
theorem handleReady_table {o : Outcomes Fd} {ready : Fd} {input : Input}
    (h : handleReady o ready input s = some t) :
    TableStep s.dstproposers t.dstproposers (listRead s (.ready ready input o : Action Fd Id)) := by
  have hOwned : receiver ready s.monitor ≠ none →
      listRead s (.ready ready input o : Action Fd Id) = [] := by
    intro hReceiver
    rw [listRead, if_neg fun hBoth => hReceiver hBoth.1]
  have hChanged : (s.dstlistener.readAddressChange ready input.address).result ≠ 0 →
      listRead s (.ready ready input o : Action Fd Id) = [] := by
    intro hResult
    rw [listRead, if_neg fun hBoth => hResult hBoth.2]
  have hUnclaimed : receiver ready s.monitor = none →
      (s.dstlistener.readAddressChange ready input.address).result = 0 →
      listRead s (.ready ready input o : Action Fd Id) =
        ((s.dstproposers.findIdx? fun p => p.sfd = some ready).map fun i =>
          (i, input.proposers)).toList := by
    intro hReceiver hResult
    rw [listRead, if_pos ⟨hReceiver, hResult⟩]
  cases handleReady_step h with
  | beat i mon hReceiver hMon hRead hNext =>
      rw [hOwned (by simp [hReceiver]), hNext]
      exact .kept rfl
  | lost i mon out hReceiver hMon hRead hStart hNext =>
      rw [hOwned (by simp [hReceiver]), hNext]
      exact .kept (startRecovery_kept hStart).dstproposers
  | changed link newip newport hReceiver hLink hNext =>
      have hResult : (s.dstlistener.readAddressChange ready input.address).result ≠ 0 := by
        intro hZero
        rw [(afterChange_of_result hZero).1] at hLink
        cases hLink
      rw [hChanged hResult]
      rcases startRerouting_cases hNext with ⟨_, rfl⟩ | ⟨_, rm, calls, _, _, rfl⟩
      · exact .kept rfl
      · exact .kept rfl
  | answered hReceiver hLink hResult hNext =>
      rw [hChanged hResult, hNext]
      exact .kept rfl
  | listed i hReceiver hResult hFound hNext =>
      rw [hUnclaimed hReceiver hResult, hFound, hNext]
      exact readProposerList_table rfl hFound input.proposers
  | message m hReceiver hResult hFound hMessage hNext =>
      rw [hUnclaimed hReceiver hResult, hFound]
      exact .kept (handlePaxosMessage_kept hNext).dstproposers
  | unread hReceiver hResult hFound hMessage hNext =>
      rw [hUnclaimed hReceiver hResult, hFound, hNext]
      exact .kept rfl

/-- What an iteration does to the table. -/
theorem step_table {action : Action Fd Id} (h : step s action = some t) :
    TableStep s.dstproposers t.dstproposers (listRead s action) := by
  cases action with
  | wait d =>
      cases h
      exact .kept rfl
  | request fromip r o =>
      cases h
      exact .kept (handleRequest_kept o fromip r s).dstproposers
  | query newsfd name o =>
      cases h
      exact .kept (handleQuery_kept o newsfd name s).dstproposers
  | event le o => exact handleEvent_table h
  | ready sfd input o => exact handleReady_table h
  | timeout o => exact .kept (checkAll_kept h).dstproposers

end Steps

/-- Every entry holds what its own reads left. -/
structure ReceptionInv (h : Reception Fd Id) : Prop where
  known : ∀ e ∈ h.reads, e.1 < h.process.dstproposers.length
  content : ∀ i p, h.process.dstproposers[i]? = some p →
    p.plist = laid (Reception.readsOf i h.reads)

/-- One more read goes into what the reads before it left. -/
theorem laid_concat (reads : List ListRead) (read : ListRead) :
    laid (reads ++ [read]) = read.into (laid reads) := by
  rw [laid, List.foldl_append]
  rfl

/-- One more read belongs to its own entry. -/
theorem readsOf_concat (i j : Nat) (reads : List (Nat × ListRead)) (read : ListRead) :
    Reception.readsOf j (reads ++ [(i, read)]) =
      Reception.readsOf j reads ++ if i = j then [read] else [] := by
  rw [Reception.readsOf, List.filterMap_append]
  congr 1
  by_cases hSame : i = j
  · simp [hSame]
  · simp [hSame]

section Inv
variable [DecidableEq Fd] [DecidableEq Id] {h h' : Reception Fd Id}

/-- Every iteration keeps the table in step with what was read. -/
theorem ReceptionInv.step (hInv : ReceptionInv h) {action : Action Fd Id}
    (hStep : h.step action = some h') : ReceptionInv h' := by
  obtain ⟨t, hNext, rfl⟩ := Option.map_eq_some_iff.mp hStep
  obtain ⟨hKnown, hContent⟩ := hInv
  have hTable := step_table hNext
  generalize listRead h.process action = new at hTable ⊢
  cases hTable with
  | kept hSame =>
      constructor
      · dsimp only
        rw [List.append_nil, hSame]
        exact hKnown
      · dsimp only
        rw [List.append_nil, hSame]
        exact hContent
  | subscribed p hZeroed hAppended =>
      constructor
      · intro e he
        dsimp only at he ⊢
        rw [List.append_nil] at he
        rw [hAppended, List.length_append]
        exact Nat.lt_add_right _ (hKnown e he)
      · intro i q hEntry
        dsimp only at hEntry ⊢
        rw [List.append_nil]
        rw [hAppended] at hEntry
        rcases Nat.lt_or_ge i h.process.dstproposers.length with hOld | hNew
        · rw [List.getElem?_append_left hOld] at hEntry
          exact hContent i q hEntry
        · have hUnread : Reception.readsOf i h.reads = [] := by
            apply List.filterMap_eq_nil_iff.mpr
            intro e he
            have hLess := hKnown e he
            exact if_neg (by omega)
          rw [List.getElem?_append_right hNew] at hEntry
          obtain rfl : p = q := by
            have hMem := List.mem_of_getElem? hEntry
            exact (List.mem_singleton.mp hMem).symm
          rw [hUnread]
          exact hZeroed
  | read i read p p' hEntry hAddress hList hSet =>
      have hBound : i < h.process.dstproposers.length :=
        (List.getElem?_eq_some_iff.mp hEntry).1
      constructor
      · intro e he
        dsimp only at he ⊢
        rw [hSet, List.length_set]
        rcases List.mem_append.mp he with hOld | hNew
        · exact hKnown e hOld
        · rw [List.mem_singleton.mp hNew]
          exact hBound
      · intro j q hq
        dsimp only at hq ⊢
        rw [hSet] at hq
        rw [readsOf_concat]
        by_cases hSame : i = j
        · subst hSame
          rw [List.getElem?_set_self hBound] at hq
          cases hq
          rw [if_pos rfl, laid_concat, hList, hContent i p hEntry]
        · rw [List.getElem?_set_ne hSame] at hq
          rw [if_neg hSame, List.append_nil]
          exact hContent j q hq

/-- In every run a failed link is handed the last reply of its destination
exactly if that is what the oldest subscription was left with. -/
theorem handsLast_iff (start : Time) (recoveryfd requestsfd querysfd : Option Fd)
    (backupbrokers : List Text) (actions : List (Action Fd Id)) (h : Reception Fd Id)
    (hExec : exec Reception.step (.init start recoveryfd requestsfd querysfd backupbrokers) actions =
      some h) (dstip : CString 32) (dstport : UInt32) :
    HandsLast dstip dstport h ↔ OldestHasLast dstip dstport h := by
  have hRun : Run Reception.step (fun _ _ => True)
      (.init start recoveryfd requestsfd querysfd backupbrokers) h :=
    Run.of_exec (fun _ _ _ => trivial) hExec
  have hInv : ReceptionInv h := by
    apply hRun.invariant
    · constructor
      · intro e he
        cases he
      · intro i p hEntry
        cases hEntry
    · exact fun _ _ _ hBefore _ hStep => hBefore.step hStep
  have hHanded : handedList dstip dstport h.process =
      (oldest dstip dstport h.process).map fun i => laid (Reception.readsOf i h.reads) := by
    have hSearch : searchProposerListByIPPort dstip dstport h.process.dstproposers =
        h.process.dstproposers.find? (ProposerList.isFor dstip dstport) := rfl
    rw [handedList, oldest, hSearch, List.find?_eq_bind_findIdx?_getElem?]
    cases hFind : h.process.dstproposers.findIdx? (ProposerList.isFor dstip dstport) with
    | none => rfl
    | some i =>
        obtain ⟨hBound, _⟩ := List.findIdx?_eq_some_iff_getElem.mp hFind
        have hEntry := List.getElem?_eq_getElem hBound
        rw [Option.bind_some, hEntry, Option.map_some, Option.map_some, hInv.content i _ hEntry]
  rw [HandsLast, OldestHasLast, hHanded]
  constructor
  · intro hLast i last hOldest
    exact hLast _ last (by rw [hOldest]; rfl)
  · intro hLast plist last hPlist hReceived
    obtain ⟨i, hOldest, rfl⟩ := Option.map_eq_some_iff.mp hPlist
    exact hLast i last hOldest hReceived

end Inv

section Sample

/-- The link to `127.0.0.1:5673` is reported, and subscribed for on a socket. -/
def linkSeen (fd : Nat) : Action Nat Nat :=
  .event (.objectProperty (.link ⟨⟨1, IPPortToUrl localhost 5672⟩, localhost.bytes, 5673⟩))
    { unconnected with connect := fun _ => some fd }

def replyOn (fd : Nat) (plist : ReplyProposer) : Action Nat Nat :=
  .ready fd ⟨false, none, .reply plist, none⟩ unconnected

/-- Lists of one proposer and of two. -/
def firstList : ReplyProposer := ⟨brokerService, [localhost]⟩

def secondList : ReplyProposer := ⟨brokerService, [localhost, localhost]⟩

def noBackup : Reception Nat Nat := .init 0 (some 0) (some 1) (some 2) []

theorem handsLast_once :
    ∃ h, exec Reception.step noBackup [linkSeen 20, replyOn 20 firstList] = some h ∧
      h.received ⟨localhost.bytes, by decide, by decide⟩ 5673 = [firstList] ∧
      HandsLast ⟨localhost.bytes, by decide, by decide⟩ 5673 h := by
  have hExec : (exec Reception.step noBackup [linkSeen 20, replyOn 20 firstList]).map
      (fun h => (oldest ⟨localhost.bytes, by decide, by decide⟩ 5673 h.process,
        h.received ⟨localhost.bytes, by decide, by decide⟩ 5673,
        laid (Reception.readsOf 0 h.reads))) =
      some (some 0, [firstList], firstList) := by
    decide
  obtain ⟨h, hh, hState⟩ := Option.map_eq_some_iff.mp hExec
  simp only [Prod.mk.injEq] at hState
  obtain ⟨hOldest, hReceived, hLaid⟩ := hState
  refine ⟨h, hh, hReceived, ?_⟩
  apply (handsLast_iff 0 (some 0) (some 1) (some 2) [] _ h hh _ 5673).mpr
  intro i last hi hLast
  rw [hOldest] at hi
  rw [hReceived] at hLast
  cases hi
  cases hLast
  exact hLaid

/-- The first socket dies, the link is reported again, and the newer list goes
into the second entry. -/
theorem handsLast_stale :
    ¬ ∀ (actions : List (Action Nat Nat)) (h : Reception Nat Nat),
      exec Reception.step noBackup actions = some h →
        ∀ (dstip : CString 32) (dstport : UInt32), HandsLast dstip dstport h := by
  intro hAll
  have hExec : (exec Reception.step noBackup [linkSeen 20, replyOn 20 firstList,
      .ready 20 .failed unconnected, linkSeen 21, replyOn 21 secondList]).map
      (fun h => (handedList ⟨localhost.bytes, by decide, by decide⟩ 5673 h.process,
        h.received ⟨localhost.bytes, by decide, by decide⟩ 5673)) =
      some (some firstList, [firstList, secondList]) := by
    decide
  obtain ⟨h, hh, hState⟩ := Option.map_eq_some_iff.mp hExec
  obtain ⟨hHanded, hReceived⟩ := Prod.mk.inj hState
  have hSame := hAll _ h hh _ _ firstList secondList hHanded (by rw [hReceived]; rfl)
  exact absurd hSame (by decide)

end Sample

end QpidRecovery.Proposer
