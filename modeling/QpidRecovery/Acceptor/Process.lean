import QpidRecovery.Library.Transition
import QpidRecovery.Common.ParticipateRequest
import QpidRecovery.Paxos.Acceptor
import Mathlib.Logic.Function.Basic

/-! The acceptor process: one state machine for each service name, replaced
whenever a request for the name arrives. -/
namespace QpidRecovery.Acceptor

structure AcceptorName where
  acc : AcceptorStateMachine
  name : ServiceName
deriving DecidableEq, Repr

/-- The first entry of that name is erased, whatever its machine knows. -/
def createAcceptor (now : Time) (name : ServiceName) (votingver committedver : Nat)
    (acc : List IPString) (accname : List AcceptorName) : List AcceptorName :=
  accname.eraseP (fun i => strcmp name.bytes i.name.bytes = 0) ++
    [{ acc := .new now name votingver (.acceptorChangeProposal ⟨committedver, acc⟩)
       name := name }]

variable {Fd : Type}

/-- The vector after a call, the calls made on descriptors and the result. -/
structure Handled (Fd : Type) where
  accname : List AcceptorName
  effects : List (Effect Fd)
  result : Int

/-- The loop stops at the first machine that handles the message. -/
def handlePaxosMessage (now : Time) (ready : Fd) (m : PaxosMessage) :
    List AcceptorName → Handled Fd
  | [] => ⟨[], [], -1⟩
  | i :: accname =>
      let r := i.acc.handleMessage now ready m
      if r.result = .handled then ⟨{ i with acc := r.machine } :: accname, r.effects, 0⟩
      else
        let rest := handlePaxosMessage now ready m accname
        ⟨{ i with acc := r.machine } :: rest.accname, r.effects ++ rest.effects, rest.result⟩

def checkTimeouts (now : Time) (accname : List AcceptorName) : List AcceptorName :=
  accname.map fun i => { i with acc := (i.acc.checkTimeout now (seconds 4)).1 }

/-- A `PHASE2ACK` that was sent, with the proposal it was for and the machine
that sent it. -/
structure Acknowledgement where
  name : ServiceName
  version : Nat
  machine : Nat
  proposal : Proposal
deriving DecidableEq, Repr

structure State (Fd : Type) where
  now : Time
  accname : List AcceptorName
  /-- The connections registered with the selector. -/
  regfd : List Fd
  /-- How many machines were created so far, which numbers them. -/
  created : Nat
  /-- The number of the machine last created under a name. -/
  born : ServiceName → Nat
  acked : List Acknowledgement

def State.init (start : Time) : State Fd where
  now := start
  accname := []
  regfd := []
  created := 0
  born := fun _ => 0
  acked := []

/-- What one iteration of the main loop finds. Failed reads of a request
change nothing and are left out. -/
inductive Event (Fd : Type) where
  | wait (d : Nat)
  | request (r : ParticipateRequest)
  | connection (newpaxossfd : Fd)
  | message (ready : Fd) (m : PaxosMessage)
  | receiveError (ready : Fd)
  | timeout

/-- The proposal acknowledged by a call that handled `m`. -/
def acknowledged (m : PaxosMessage) (effects : List (Effect Fd)) : Option Proposal :=
  match m.body with
  | .phase2Request p => if ∃ out ∈ sends effects, out.2.body = .phase2Ack then some p else none
  | _ => none

def step [DecidableEq Fd] (s : State Fd) : Event Fd → Option (State Fd)
  | .wait d => some { s with now := s.now + d }
  | .request r =>
      some { s with
        accname :=
          createAcceptor s.now r.name r.votingversion r.committedversion r.acceptor s.accname
        created := s.created + 1
        born := Function.update s.born r.name (s.created + 1) }
  | .connection newpaxossfd => some { s with regfd := s.regfd ++ [newpaxossfd] }
  | .message ready m =>
      if ready ∈ s.regfd then
        let h := handlePaxosMessage s.now ready m s.accname
        some { s with
          accname := h.accname
          regfd := if h.result = -1 then s.regfd.erase ready else s.regfd
          acked := (acknowledged m h.effects).toList.map
            (fun p => ⟨m.name, m.version, s.born m.name, p⟩) ++ s.acked }
      else none
  | .receiveError ready =>
      if ready ∈ s.regfd then some { s with regfd := s.regfd.erase ready } else none
  | .timeout => some { s with accname := checkTimeouts s.now s.accname }

/-- The machine registered under a name. -/
def registered (accname : List AcceptorName) (name : ServiceName) : Option AcceptorStateMachine :=
  (accname.find? fun i => i.name = name).map AcceptorName.acc

/-- The vector has one entry for a name, and the machine carries that name. -/
structure Registry (accname : List AcceptorName) : Prop where
  own : ∀ i ∈ accname, i.acc.name = i.name
  nodup : (accname.map AcceptorName.name).Nodup

section Registry
variable {accname : List AcceptorName} {i : AcceptorName}

theorem Registry.tail (h : Registry (i :: accname)) : Registry accname :=
  ⟨fun j hj => h.own j (List.mem_cons_of_mem _ hj), (List.nodup_cons.mp h.nodup).2⟩

/-- The first entry is found under its own name. -/
theorem registered_cons_self : registered (i :: accname) i.name = some i.acc := by
  simp [registered]

/-- It is passed over under another. -/
theorem registered_cons_of_ne {name : ServiceName} (h : i.name ≠ name) :
    registered (i :: accname) name = registered accname name := by
  simp [registered, h]

/-- The machine under a name is found in its own entry. -/
theorem registered_mem {name : ServiceName} {a : AcceptorStateMachine}
    (h : registered accname name = some a) : ∃ i ∈ accname, i.name = name ∧ i.acc = a := by
  obtain ⟨i, hFind, rfl⟩ := Option.map_eq_some_iff.mp h
  exact ⟨i, List.mem_of_find?_eq_some hFind, by simpa using List.find?_some hFind, rfl⟩

/-- Nothing is found under a name without an entry. -/
theorem registered_eq_none_iff {name : ServiceName} :
    registered accname name = none ↔ name ∉ accname.map AcceptorName.name := by
  simp [registered]

/-- Registration under a new name. -/
theorem registered_append {name : ServiceName} (hNew : registered accname i.name = none) :
    registered (accname ++ [i]) name =
      if name = i.name then some i.acc else registered accname name := by
  unfold registered at hNew ⊢
  rw [List.find?_append]
  split
  next hName =>
    rw [hName, Option.map_eq_none_iff.mp hNew]
    simp
  next hName =>
    cases accname.find? fun j => j.name = name <;> simp [Ne.symm hName]

/-- The entries without the one that `createAcceptor` erases. -/
def others (name : ServiceName) (accname : List AcceptorName) : List AcceptorName :=
  accname.eraseP fun i => strcmp name.bytes i.name.bytes = 0

theorem others_cons_self : others i.name (i :: accname) = accname :=
  List.eraseP_cons_of_pos (by simp [strcmp_bytes_iff])

theorem others_cons_of_ne {name : ServiceName} (h : i.name ≠ name) :
    others name (i :: accname) = i :: others name accname :=
  List.eraseP_cons_of_neg (by simpa [strcmp_bytes_iff] using Ne.symm h)

/-- The other names stay. -/
theorem others_names (name : ServiceName) (accname : List AcceptorName) :
    (others name accname).map AcceptorName.name = (accname.map AcceptorName.name).erase name := by
  induction accname with
  | nil => rfl
  | cons i accname ih =>
      by_cases hName : i.name = name
      · subst hName
        rw [others_cons_self, List.map_cons, List.erase_cons_head]
      · rw [others_cons_of_ne hName, List.map_cons, List.map_cons, ih,
          List.erase_cons_tail (by simpa using hName)]

/-- So do their machines. -/
theorem registered_others {name other : ServiceName} (h : other ≠ name) :
    registered (others name accname) other = registered accname other := by
  induction accname with
  | nil => rfl
  | cons i accname ih =>
      by_cases hName : i.name = name
      · subst hName
        rw [others_cons_self, registered_cons_of_ne (Ne.symm h)]
      · rw [others_cons_of_ne hName]
        by_cases hOther : i.name = other
        · subst hOther
          rw [registered_cons_self, registered_cons_self]
        · rw [registered_cons_of_ne hOther, registered_cons_of_ne hOther, ih]

/-- The new machine takes the place of whatever the name had. -/
theorem Registry.createAcceptor (h : Registry accname) (now : Time) (r : ParticipateRequest) :
    Registry (createAcceptor now r.name r.votingversion r.committedversion r.acceptor accname) ∧
      ∀ name, registered (Acceptor.createAcceptor now r.name r.votingversion r.committedversion
          r.acceptor accname) name =
        if name = r.name then
          some (.new now r.name r.votingversion
            (.acceptorChangeProposal ⟨r.committedversion, r.acceptor⟩))
        else registered accname name := by
  have hNames := others_names r.name accname
  have hGone : registered (others r.name accname) r.name = none := by
    rw [registered_eq_none_iff, hNames]
    exact h.nodup.not_mem_erase
  refine ⟨⟨?_, ?_⟩, ?_⟩
  · intro i hMem
    rcases List.mem_append.mp hMem with hOld | hNew
    · exact h.own i (List.mem_of_mem_eraseP hOld)
    · rw [List.mem_singleton.mp hNew]
      rfl
  · have hNodup : ((others r.name accname).map AcceptorName.name).Nodup := by
      rw [hNames]
      exact h.nodup.erase _
    have hMem := registered_eq_none_iff.mp hGone
    unfold Acceptor.createAcceptor
    rw [List.map_append, ← others]
    exact hNodup.append (List.nodup_singleton _) (by simpa [List.disjoint_singleton] using hMem)
  · intro name
    unfold Acceptor.createAcceptor
    rw [← others, registered_append (by exact hGone)]
    split
    · rfl
    next hOther => exact registered_others hOther

/-- A loop that calls every machine and keeps the names. -/
theorem Registry.map (h : Registry accname) (f : AcceptorStateMachine → AcceptorStateMachine)
    (hName : ∀ a, (f a).name = a.name) :
    Registry (accname.map fun i => { i with acc := f i.acc }) ∧
      ∀ name, registered (accname.map fun i => { i with acc := f i.acc }) name =
        (registered accname name).map f := by
  refine ⟨⟨?_, ?_⟩, ?_⟩
  · intro i hMem
    obtain ⟨j, hj, rfl⟩ := List.mem_map.mp hMem
    exact (hName j.acc).trans (h.own j hj)
  · rw [List.map_map]
    exact h.nodup
  · intro name
    simp [registered, List.find?_map, Function.comp_def]

end Registry

section Messages
variable {accname : List AcceptorName}

/-- A message reaches the machine under its name, and no other. -/
theorem Registry.handlePaxosMessage (h : Registry accname) (now : Time) (ready : Fd)
    (m : PaxosMessage) :
    Registry (handlePaxosMessage now ready m accname).accname ∧
      (∀ name, registered (Acceptor.handlePaxosMessage now ready m accname).accname name =
        if name = m.name then
          (registered accname name).map fun a => (a.handleMessage now ready m).machine
        else registered accname name) ∧
      (Acceptor.handlePaxosMessage now ready m accname).effects =
        (registered accname m.name).elim [] fun a => (a.handleMessage now ready m).effects := by
  induction accname with
  | nil => exact ⟨h, fun _ => by simp [Acceptor.handlePaxosMessage, registered], rfl⟩
  | cons i accname ih =>
      have hOwn := h.own i List.mem_cons_self
      by_cases hName : i.name = m.name
      · have hHandled := i.acc.handleMessage_handled now ready m (hOwn.trans hName).symm
        have hMachine := i.acc.handleMessage_name now ready m
        rw [Acceptor.handlePaxosMessage, if_pos hHandled]
        refine ⟨⟨?_, h.nodup⟩, ?_, ?_⟩
        · intro j hj
          rcases List.mem_cons.mp hj with rfl | hj
          · exact hMachine.trans hOwn
          · exact h.own j (List.mem_cons_of_mem _ hj)
        · intro name
          split
          next hEq =>
            rw [hEq, ← hName, registered_cons_self, registered_cons_self]
            rfl
          next hEq =>
            have hOther : i.name ≠ name := fun hAbsurd => hEq (hAbsurd.symm.trans hName)
            rw [registered_cons_of_ne hOther]
            exact registered_cons_of_ne (i := { i with acc := _ }) hOther
        · rw [← hName, registered_cons_self]
          rfl
      · have hIgnored := i.acc.handleMessage_ignored now ready m
          (fun hEq => hName (hOwn.symm.trans hEq.symm))
        obtain ⟨hRegistry, hLookup, hEffects⟩ := ih h.tail
        have hNames : i.name ∉ accname.map AcceptorName.name := (List.nodup_cons.mp h.nodup).1
        rw [Acceptor.handlePaxosMessage, hIgnored]
        refine ⟨⟨?_, ?_⟩, ?_, ?_⟩
        · intro j hj
          rcases List.mem_cons.mp hj with rfl | hj
          · exact hOwn
          · exact hRegistry.own j hj
        · refine List.nodup_cons.mpr ⟨?_, hRegistry.nodup⟩
          rw [← registered_eq_none_iff, hLookup, if_neg hName, registered_eq_none_iff]
          exact hNames
        · intro name
          by_cases hSelf : i.name = name
          · subst hSelf
            rw [if_neg hName, registered_cons_self]
            exact registered_cons_self
          · rw [registered_cons_of_ne hSelf, ← hLookup]
            exact registered_cons_of_ne hSelf
        · rw [registered_cons_of_ne hName, ← hEffects]
          rfl

/-- The answers to a message carry its name. -/
theorem Registry.speaks (h : Registry accname) {now : Time} {ready : Fd} {m : PaxosMessage} {fd : Fd}
    {out : PaxosMessage}
    (hOut : (fd, out) ∈ sends (Acceptor.handlePaxosMessage now ready m accname).effects) :
    out.name = m.name := by
  rw [(h.handlePaxosMessage now ready m).2.2] at hOut
  cases hMachine : registered accname m.name with
  | none =>
      rw [hMachine] at hOut
      cases hOut
  | some a =>
      obtain ⟨i, hMem, hName, rfl⟩ := registered_mem hMachine
      rw [hMachine] at hOut
      rw [AcceptorStateMachine.handleMessage_speaks hOut, h.own i hMem, hName]

end Messages

end QpidRecovery.Acceptor
