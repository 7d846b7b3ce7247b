import QpidRecovery.Proposer.Process

/-! `addBroker` and the event pipe. The main loop is the pipe's only reader, and
waits in `pthread_join` while the thread of `addBroker` writes an event for
each object that the new broker reports. -/
namespace QpidRecovery.Proposer.EventPipe

open Transition

inductive ObjectType where
  | broker
  | link
  | exchange
  | queue
  | binding
  | bridge
deriving DecidableEq, Repr

/-- The types in the order of the thread's loop. -/
def ObjectType.all : List ObjectType := [.broker, .link, .exchange, .queue, .binding, .bridge]

/-- What `getObjects` finds for a type. An object of another class has no
`objinfo` and makes no event. -/
abbrev Objects (Id : Type) := ObjectType → List (Option (CollectedObject Id))

/-- Where `addBrokerThread` is. It reports the objects of one type before it
asks for the next. -/
inductive Thread (Id : Type) where
  | connecting
  | reporting (objvec : List (Option (CollectedObject Id))) (types : List ObjectType)
  | ended
deriving DecidableEq

/-- A call of `addBroker` that waits for its thread, and how many events others
have written to the pipe meanwhile. -/
structure Call (Id : Type) where
  ip : IPString
  port : UInt32
  objects : Objects Id
  thread : Thread Id
  others : Nat

structure State (Id : Type) where
  eventpipe : List (ListenerEvent Id)
  recovery : RecoveryManager Id
  call : Option (Call Id)

variable {Id : Type}

def State.init : State Id := ⟨[], .new, none⟩

/-- The steps of the main loop, of the thread, and of the broker library's
threads, which write events of their own. -/
inductive Action (Id : Type) where
  | handleEvent
  | deleteBroker (ip : IPString) (port : UInt32)
  | addBroker (ip : IPString) (port : UInt32) (objects : Objects Id)
  | pthreadJoin
  | connect
  | getObjects
  | objectProps
  | finish
  | other (le : ListenerEvent Id)

/-- The steps of the process itself while `addBroker` is called. -/
def Action.own : Action Id → Bool
  | .pthreadJoin | .connect | .getObjects | .objectProps | .finish => true
  | _ => false

section Step
variable [DecidableEq Id] (capacity others : Nat)

/-- A write blocks while the pipe is full. At most `others` events come from
other threads during one call. -/
def step (s : State Id) : Action Id → Option (State Id)
  | .handleEvent =>
      match s.call, s.eventpipe with
      | none, le :: rest => some
          { s with
            eventpipe := rest
            recovery := match le with
              | .objectProperty objinfo => (s.recovery.addObjectInfo objinfo).1
              | _ => s.recovery }
      | _, _ => none
  | .deleteBroker ip port =>
      match s.call with
      | none => some { s with recovery := s.recovery.deleteBroker ip port }
      | some _ => none
  | .addBroker ip port objects =>
      match s.call with
      | none =>
          if ⟨ip, port⟩ ∈ s.recovery.bavec then some s
          else some { s with call := some ⟨ip, port, objects, .connecting, 0⟩ }
      | some _ => none
  | .pthreadJoin =>
      match s.call with
      | some ⟨_, _, _, .ended, _⟩ => some { s with call := none }
      | _ => none
  | .connect =>
      match s.call with
      | some ⟨ip, port, objects, .connecting, n⟩ => some
          { s with
            recovery := { s.recovery with bavec := s.recovery.bavec ++ [⟨ip, port⟩] }
            call := some ⟨ip, port, objects, .reporting [] ObjectType.all, n⟩ }
      | _ => none
  | .getObjects =>
      match s.call with
      | some ⟨ip, port, objects, .reporting [] (t :: types), n⟩ =>
          some { s with call := some ⟨ip, port, objects, .reporting (objects t) types, n⟩ }
      | _ => none
  | .objectProps =>
      match s.call with
      | some ⟨ip, port, objects, .reporting (none :: objvec) types, n⟩ =>
          some { s with call := some ⟨ip, port, objects, .reporting objvec types, n⟩ }
      | some ⟨ip, port, objects, .reporting (some objinfo :: objvec) types, n⟩ =>
          if s.eventpipe.length < capacity then some
            { s with
              eventpipe := s.eventpipe ++ [.objectProperty objinfo]
              call := some ⟨ip, port, objects, .reporting objvec types, n⟩ }
          else none
      | _ => none
  | .finish =>
      match s.call with
      | some ⟨ip, port, objects, .reporting [] [], n⟩ =>
          some { s with call := some ⟨ip, port, objects, .ended, n⟩ }
      | _ => none
  | .other le =>
      if s.eventpipe.length < capacity then
        match s.call with
        | none => some { s with eventpipe := s.eventpipe ++ [le] }
        | some call =>
            if call.others < others then some
              { s with
                eventpipe := s.eventpipe ++ [le]
                call := some { call with others := call.others + 1 } }
            else none
      else none

end Step

section Measures
variable (objects : Objects Id)

/-- The events that a broker's objects make. -/
def reported : Nat := ((ObjectType.all.flatMap objects).filter Option.isSome).length

/-- The events that the thread has still to write. -/
def remaining : Thread Id → Nat
  | .connecting => reported objects
  | .reporting objvec types => ((objvec ++ types.flatMap objects).filter Option.isSome).length
  | .ended => 0

/-- The steps of the process until the call returns. -/
def stepsLeft : Thread Id → Nat
  | .connecting => (ObjectType.all.flatMap objects).length + ObjectType.all.length + 3
  | .reporting objvec types => (objvec ++ types.flatMap objects).length + types.length + 2
  | .ended => 1

end Measures

/-- The main loop waits for the thread while the thread waits to write. -/
def Deadlocked (capacity : Nat) (s : State Id) : Prop :=
  ∃ call objinfo objvec types, s.call = some call ∧
    call.thread = .reporting (some objinfo :: objvec) types ∧ capacity ≤ s.eventpipe.length

/-- A step of the process inside a call that does not return from it. -/
structure Advance (capacity : Nat) (s t : State Id) (call call' : Call Id) : Prop where
  here : t.call = some call'
  same : call' = { call with thread := call'.thread }
  written : t.eventpipe.length + remaining call.objects call'.thread =
    s.eventpipe.length + remaining call.objects call.thread
  grows : s.eventpipe.length ≤ t.eventpipe.length
  room : t.eventpipe.length ≤ max s.eventpipe.length capacity
  shorter : stepsLeft call.objects call'.thread < stepsLeft call.objects call.thread
  connected : call'.thread ≠ .connecting
  registry : t.recovery = s.recovery ∧ call.thread ≠ .connecting ∨
    t.recovery = { s.recovery with bavec := s.recovery.bavec ++ [⟨call.ip, call.port⟩] } ∧
      call.thread = .connecting

/-- An event of another thread inside a call. -/
structure Disturbance (capacity others : Nat) (s t : State Id) (call : Call Id) : Prop where
  here : t.call = some { call with others := call.others + 1 }
  allowed : call.others < others
  room : s.eventpipe.length < capacity
  written : t.eventpipe.length = s.eventpipe.length + 1
  registry : t.recovery = s.recovery

section Steps
variable [DecidableEq Id] {capacity others : Nat} {s t : State Id} {call : Call Id}
  {a : Action Id}

omit [DecidableEq Id] in
/-- The thread moves on without writing to the pipe. -/
theorem Advance.of_unwritten {thread : Thread Id}
    (hNext : t = { s with call := some { call with thread := thread } })
    (hConnected : call.thread ≠ .connecting) (hThread : thread ≠ .connecting)
    (hRemaining : remaining call.objects thread = remaining call.objects call.thread)
    (hShorter : stepsLeft call.objects thread < stepsLeft call.objects call.thread) :
    Advance capacity s t call { call with thread := thread } := by
  subst hNext
  constructor
  · rfl
  · rfl
  · rw [hRemaining]
  · exact le_rfl
  · exact le_max_left _ _
  · exact hShorter
  · exact hThread
  · exact .inl ⟨rfl, hConnected⟩

omit [DecidableEq Id] in
/-- The thread writes the next event. -/
theorem Advance.of_written {objinfo : CollectedObject Id}
    {objvec : List (Option (CollectedObject Id))} {types : List ObjectType}
    (hNext : t = { s with
      eventpipe := s.eventpipe ++ [.objectProperty objinfo]
      call := some { call with thread := .reporting objvec types } })
    (hThread : call.thread = .reporting (some objinfo :: objvec) types)
    (hRoom : s.eventpipe.length < capacity) :
    Advance capacity s t call { call with thread := .reporting objvec types } := by
  have hLength : (s.eventpipe ++ [ListenerEvent.objectProperty objinfo]).length =
      s.eventpipe.length + 1 := List.length_append
  subst hNext
  constructor
  · rfl
  · rfl
  · rw [hThread, hLength]
    simp only [remaining, List.cons_append, List.filter_cons, Option.isSome_some, if_true,
      List.length_cons]
    omega
  · rw [hLength]
    omega
  · rw [hLength]
    omega
  · rw [hThread]
    simp [stepsLeft]
  · simp
  · exact .inl ⟨rfl, by simp [hThread]⟩

/-- What can happen while the main loop waits. -/
theorem step_call (hCall : s.call = some call) (h : step capacity others s a = some t) :
    (a.own = true ∧ call.thread = .ended ∧ t = { s with call := none }) ∨
    (a.own = true ∧ ∃ call', Advance capacity s t call call') ∨
    a.own = false ∧ Disturbance capacity others s t call := by
  cases a with
  | handleEvent => simp [step, hCall] at h
  | deleteBroker ip port => simp [step, hCall] at h
  | addBroker ip port objects => simp [step, hCall] at h
  | pthreadJoin =>
      simp only [step, hCall] at h
      split at h
      next hEnded =>
        cases hEnded
        cases h
        exact .inl ⟨rfl, rfl, rfl⟩
      · cases h
  | connect =>
      simp only [step, hCall] at h
      split at h
      next hConnecting =>
        cases hConnecting
        cases h
        refine .inr (.inl ⟨rfl, _, ⟨rfl, rfl, rfl, le_rfl, le_max_left _ _, ?_, ?_, .inr ⟨rfl, rfl⟩⟩⟩)
        · simp only [stepsLeft, List.nil_append]
          omega
        · simp
      · cases h
  | getObjects =>
      simp only [step, hCall] at h
      split at h
      next hReporting =>
        cases hReporting
        cases h
        refine .inr (.inl ⟨rfl, _, .of_unwritten rfl ?_ ?_ rfl ?_⟩)
        · simp
        · simp
        · simp [stepsLeft]
      · cases h
  | objectProps =>
      simp only [step, hCall] at h
      split at h
      next hFiltered =>
        cases hFiltered
        cases h
        refine .inr (.inl ⟨rfl, _, .of_unwritten rfl ?_ ?_ rfl ?_⟩)
        · simp
        · simp
        · simp [stepsLeft]
      next hReported =>
        cases hReported
        split at h
        next hRoom =>
          cases h
          exact .inr (.inl ⟨rfl, _, .of_written rfl rfl hRoom⟩)
        · cases h
      · cases h
  | finish =>
      simp only [step, hCall] at h
      split at h
      next hReporting =>
        cases hReporting
        cases h
        refine .inr (.inl ⟨rfl, _, .of_unwritten rfl ?_ ?_ rfl ?_⟩)
        · simp
        · simp
        · simp [stepsLeft]
      · cases h
  | other le =>
      simp only [step, hCall] at h
      split at h
      next hRoom =>
        split at h
        next hAllowed =>
          cases h
          have hWritten : (s.eventpipe ++ [le]).length = s.eventpipe.length + 1 :=
            List.length_append
          exact .inr (.inr ⟨rfl, ⟨rfl, hAllowed, hRoom, hWritten, rfl⟩⟩)
        · cases h
      · cases h

/-- What can happen while no call waits. -/
theorem step_idle (hCall : s.call = none) (h : step capacity others s a = some t) :
    (t.call = none ∧ t.eventpipe.length ≤ max s.eventpipe.length capacity) ∨
    ∃ ip port objects, a = .addBroker ip port objects ∧ ⟨ip, port⟩ ∉ s.recovery.bavec ∧
      t = { s with call := some ⟨ip, port, objects, .connecting, 0⟩ } := by
  cases a with
  | handleEvent =>
      cases hPipe : s.eventpipe with
      | nil => simp [step, hCall, hPipe] at h
      | cons le rest =>
          simp only [step, hCall, hPipe, Option.some.injEq] at h
          subst h
          have hLe : rest.length ≤ max (le :: rest).length capacity :=
            (Nat.le_succ _).trans (le_max_left _ _)
          exact .inl ⟨rfl, hLe⟩
  | deleteBroker ip port =>
      simp only [step, hCall, Option.some.injEq] at h
      subst h
      exact .inl ⟨rfl, le_max_left _ _⟩
  | addBroker ip port objects =>
      simp only [step, hCall] at h
      split at h
      · cases h
        exact .inl ⟨hCall, le_max_left _ _⟩
      next hNew =>
        cases h
        exact .inr ⟨ip, port, objects, rfl, hNew, rfl⟩
  | pthreadJoin => simp [step, hCall] at h
  | connect => simp [step, hCall] at h
  | getObjects => simp [step, hCall] at h
  | objectProps => simp [step, hCall] at h
  | finish => simp [step, hCall] at h
  | other le =>
      simp only [step, hCall] at h
      split at h
      next hRoom =>
        cases h
        refine .inl ⟨rfl, ?_⟩
        rw [List.length_append, List.length_singleton]
        omega
      · cases h

/-- Unless the two are deadlocked, the process can take its next step. -/
theorem exists_own_step (others : Nat) (hCall : s.call = some call)
    (h : ¬ Deadlocked capacity s) :
    ∃ a t, Action.own a = true ∧ step capacity others s a = some t := by
  suffices hOwn : ∃ a, Action.own a = true ∧ (step capacity others s a).isSome by
    obtain ⟨a, hOwn, hSome⟩ := hOwn
    obtain ⟨t, hStep⟩ := Option.isSome_iff_exists.mp hSome
    exact ⟨a, t, hOwn, hStep⟩
  obtain ⟨ip, port, objects, thread, n⟩ := call
  cases thread with
  | connecting => exact ⟨.connect, rfl, by simp [step, hCall]⟩
  | ended => exact ⟨.pthreadJoin, rfl, by simp [step, hCall]⟩
  | reporting objvec types =>
      cases objvec with
      | nil =>
          cases types with
          | nil => exact ⟨.finish, rfl, by simp [step, hCall]⟩
          | cons ty types => exact ⟨.getObjects, rfl, by simp [step, hCall]⟩
      | cons o objvec =>
          cases o with
          | none => exact ⟨.objectProps, rfl, by simp [step, hCall]⟩
          | some objinfo =>
              have hRoom : s.eventpipe.length < capacity := by
                by_contra hFull
                exact h ⟨_, objinfo, objvec, types, hCall, rfl, by omega⟩
              exact ⟨.objectProps, rfl, by simp [step, hCall, hRoom]⟩

end Steps

section Conditions

/-- Runs inside one call, up to its return. -/
def Inside (s : State Id) (_ : Action Id) : Prop := s.call.isSome

/-- The events that the call makes fit the pipe beside those waiting there and
those of other threads, unless the broker is known or makes none. -/
def Fits (capacity others : Nat) (s : State Id) (ip : IPString) (port : UInt32)
    (objects : Objects Id) : Prop :=
  ⟨ip, port⟩ ∈ s.recovery.bavec ∨ reported objects = 0 ∨
    s.eventpipe.length + others + reported objects ≤ capacity

/-- Every call of the run does. -/
def CallsFit (capacity others : Nat) (s : State Id) (a : Action Id) : Prop :=
  ∀ ip port objects, a = .addBroker ip port objects → Fits capacity others s ip port objects

/-- What keeps a call from a deadlock. -/
def Roomy (capacity others : Nat) (s : State Id) : Prop :=
  ∀ call, s.call = some call → remaining call.objects call.thread = 0 ∨
    s.eventpipe.length + others + remaining call.objects call.thread ≤ capacity + call.others ∧
      call.others ≤ others

theorem Roomy.not_deadlocked {capacity others : Nat} {s : State Id}
    (h : Roomy capacity others s) : ¬ Deadlocked capacity s := by
  rintro ⟨call, objinfo, objvec, types, hCall, hThread, hFull⟩
  have hRoom := h call hCall
  have hMore : 0 < remaining call.objects call.thread := by
    rw [hThread]
    simp [remaining]
  omega

/-- A call whose events fit starts with room for them. -/
theorem roomy_entered {capacity others : Nat} {s : State Id} {ip : IPString} {port : UInt32}
    {objects : Objects Id} (hNew : ⟨ip, port⟩ ∉ s.recovery.bavec)
    (h : Fits capacity others s ip port objects) :
    Roomy capacity others { s with call := some ⟨ip, port, objects, .connecting, 0⟩ } := by
  intro call hCall
  cases hCall
  rcases h with hKnown | hNone | hRoom
  · exact absurd hKnown hNew
  · exact .inl hNone
  · exact .inr ⟨by simpa [remaining] using hRoom, Nat.zero_le _⟩

end Conditions

section Call
variable [DecidableEq Id] {capacity others : Nat} {s t : State Id} {call : Call Id}

/-- Neither side ever waits for the other, and however it is disturbed the call
returns by steps of the process alone, with the broker in the registry. -/
structure Returns (capacity others : Nat) (s : State Id) (ip : IPString) (port : UInt32)
    (entered : State Id) : Prop where
  never : ∀ t, Run (step capacity others) Inside entered t → ¬ Deadlocked capacity t
  completes : ∀ t, Run (step capacity others) Inside entered t →
    ∃ u, Run (step capacity others) (fun v a => Inside v a ∧ a.own = true) t u ∧
      u.call = none ∧ u.recovery = s.recovery.addBroker ip port

theorem Roomy.step {a : Action Id} (h : Roomy capacity others s) (hInside : s.call.isSome)
    (hStep : EventPipe.step capacity others s a = some t) : Roomy capacity others t := by
  obtain ⟨call, hCall⟩ := Option.isSome_iff_exists.mp hInside
  have hRoom := h call hCall
  intro c hHere
  rcases step_call hCall hStep with ⟨_, _, rfl⟩ | ⟨_, call', hAdvance⟩ | ⟨_, hOther⟩
  · cases hHere
  · obtain rfl : call' = c := Option.some.inj (hAdvance.here.symm.trans hHere)
    have hWritten := hAdvance.written
    have hGrows := hAdvance.grows
    have hObjects : call'.objects = call.objects := by rw [hAdvance.same]
    have hOthers : call'.others = call.others := by rw [hAdvance.same]
    rw [hObjects, hOthers]
    omega
  · rw [hOther.here] at hHere
    cases hHere
    have hWritten := hOther.written
    have hAllowed := hOther.allowed
    dsimp only
    omega

/-- The pipe is never filled beyond its capacity. -/
theorem length_step {a : Action Id} (h : s.eventpipe.length ≤ capacity)
    (hStep : EventPipe.step capacity others s a = some t) : t.eventpipe.length ≤ capacity := by
  cases hCall : s.call with
  | some call =>
      rcases step_call hCall hStep with ⟨_, _, rfl⟩ | ⟨_, call', hAdvance⟩ | ⟨_, hOther⟩
      · exact h
      · exact hAdvance.room.trans (max_le h (Nat.le_refl _))
      · have hWritten := hOther.written
        have hRoom := hOther.room
        omega
  | none =>
      rcases step_idle hCall hStep with ⟨_, hLe⟩ | ⟨_, _, _, _, _, rfl⟩
      · exact hLe.trans (max_le h (Nat.le_refl _))
      · exact h

/-- The process goes on until the two are deadlocked or the call returns. -/
theorem run_own (capacity others : Nat) (hCall : s.call = some call) :
    ∃ t, Run (step capacity others) (fun v a => Inside v a ∧ a.own = true) s t ∧
      (Deadlocked capacity t ∨ t.call = none ∧
        t.eventpipe.length = s.eventpipe.length + remaining call.objects call.thread) := by
  generalize hSteps : stepsLeft call.objects call.thread = n
  induction n using Nat.strong_induction_on generalizing s call with
  | _ n ih =>
      by_cases hDead : Deadlocked capacity s
      · exact ⟨s, Run.refl s, .inl hDead⟩
      · have hInside : s.call.isSome := Option.isSome_iff_exists.mpr ⟨call, hCall⟩
        obtain ⟨a, u, hOwn, hStep⟩ := exists_own_step others hCall hDead
        have hFirst : Run (step capacity others) (fun v a => Inside v a ∧ a.own = true) s u :=
          (Run.refl s).tail ⟨hInside, hOwn⟩ hStep
        rcases step_call hCall hStep with ⟨_, hEnded, rfl⟩ | ⟨_, call', hAdvance⟩ | ⟨hOther, _⟩
        · refine ⟨_, hFirst, .inr ⟨rfl, ?_⟩⟩
          rw [hEnded]
          rfl
        · have hObjects : call'.objects = call.objects := by rw [hAdvance.same]
          have hShorter := hAdvance.shorter
          rw [hSteps, ← hObjects] at hShorter
          obtain ⟨t, hRest, hEnd⟩ := ih _ hShorter hAdvance.here rfl
          refine ⟨t, hFirst.trans hRest, hEnd.imp_right ?_⟩
          rintro ⟨hReturned, hLength⟩
          rw [hObjects, hAdvance.written] at hLength
          exact ⟨hReturned, hLength⟩
        · rw [hOwn] at hOther
          cases hOther

/-- Other threads can fill what room they are left. -/
theorem run_others (le : ListenerEvent Id) (hCall : s.call = some call) (k : Nat)
    (hAllowed : call.others + k ≤ others) (hRoom : s.eventpipe.length + k ≤ capacity) :
    ∃ t, Run (step capacity others) Inside s t ∧
      t.call = some { call with others := call.others + k } ∧
      t.eventpipe.length = s.eventpipe.length + k := by
  induction k with
  | zero => exact ⟨s, Run.refl s, hCall, rfl⟩
  | succ k ih =>
      obtain ⟨t, run, hHere, hLength⟩ := ih (by omega) (by omega)
      have hFree : t.eventpipe.length < capacity := by omega
      have hMore : call.others + k < others := by omega
      have hStep : step capacity others t (.other le) = some
          { t with
            eventpipe := t.eventpipe ++ [le]
            call := some { call with others := call.others + k + 1 } } := by
        simp [step, hFree, hHere, hMore]
      refine ⟨_, run.tail ?_ hStep, rfl, ?_⟩
      · exact Option.isSome_iff_exists.mpr ⟨_, hHere⟩
      · simp
        omega

/-- The registry while a call for a new broker runs, and when it has returned. -/
structure Registered (s : State Id) (ip : IPString) (port : UInt32) (t : State Id) : Prop where
  calling : ∀ call, t.call = some call → call.ip = ip ∧ call.port = port ∧
    t.recovery = if call.thread = .connecting then s.recovery else s.recovery.addBroker ip port
  returned : t.call = none → t.recovery = s.recovery.addBroker ip port

section Registry
variable {ip : IPString} {port : UInt32} {objects : Objects Id} {entered u : State Id}

theorem registered_start :
    Registered s ip port { s with call := some ⟨ip, port, objects, .connecting, 0⟩ } where
  calling := by
    intro call hCall
    cases hCall
    exact ⟨rfl, rfl, rfl⟩
  returned := by
    intro hNone
    cases hNone

theorem Registered.step {a : Action Id} (hNew : ⟨ip, port⟩ ∉ s.recovery.bavec)
    (h : Registered s ip port t) (hInside : t.call.isSome)
    (hStep : EventPipe.step capacity others t a = some u) : Registered s ip port u := by
  obtain ⟨call, hCall⟩ := Option.isSome_iff_exists.mp hInside
  obtain ⟨rfl, rfl, hRegistry⟩ := h.calling call hCall
  rcases step_call hCall hStep with ⟨_, hEnded, rfl⟩ | ⟨_, call', hAdvance⟩ | ⟨_, hOther⟩
  · rw [hEnded, if_neg (by simp)] at hRegistry
    constructor
    · intro c hNone
      cases hNone
    · exact fun _ => hRegistry
  · have hAddress : call'.ip = call.ip ∧ call'.port = call.port := by
      rw [hAdvance.same]
      exact ⟨rfl, rfl⟩
    have hAdded : u.recovery = s.recovery.addBroker call.ip call.port := by
      rcases hAdvance.registry with ⟨hSame, hThread⟩ | ⟨hAdd, hThread⟩
      · rw [hSame, hRegistry, if_neg hThread]
      · rw [hAdd, hRegistry, if_pos hThread, RecoveryManager.addBroker, if_neg hNew]
    constructor
    · intro c hHere
      obtain rfl : call' = c := Option.some.inj (hAdvance.here.symm.trans hHere)
      rw [if_neg hAdvance.connected]
      exact ⟨hAddress.1, hAddress.2, hAdded⟩
    · exact fun _ => hAdded
  · constructor
    · intro c hHere
      rw [hOther.here] at hHere
      cases hHere
      exact ⟨rfl, rfl, hOther.registry.trans hRegistry⟩
    · intro hNone
      rw [hOther.here] at hNone
      cases hNone

end Registry

section Returns
variable {ip : IPString} {port : UInt32} {objects : Objects Id} {entered : State Id}

theorem Run.ofOwn (run : Run (step capacity others) (fun v a => Inside v a ∧ a.own = true) s t) :
    Run (step capacity others) Inside s t :=
  run.mono fun _ _ h => h.1

/-- A call that starts with room for its events returns. -/
theorem returns_of_roomy (hNew : ⟨ip, port⟩ ∉ s.recovery.bavec)
    (hEntered : entered = { s with call := some ⟨ip, port, objects, .connecting, 0⟩ })
    (hRoomy : Roomy capacity others entered) : Returns capacity others s ip port entered := by
  have hRun : ∀ t, Run (step capacity others) Inside entered t →
      Roomy capacity others t ∧ Registered s ip port t := by
    intro t run
    apply run.invariant
    · exact ⟨hRoomy, hEntered ▸ registered_start⟩
    · intro u a v hInv hInside hStep
      exact ⟨hInv.1.step hInside hStep, hInv.2.step hNew hInside hStep⟩
  constructor
  · exact fun t run => (hRun t run).1.not_deadlocked
  · intro t run
    cases hCall : t.call with
    | none => exact ⟨t, Run.refl t, hCall, (hRun t run).2.returned hCall⟩
    | some call =>
        obtain ⟨u, hOwn, hEnd⟩ := run_own capacity others hCall
        have hWhole := run.trans (Run.ofOwn hOwn)
        rcases hEnd with hDead | ⟨hReturned, _⟩
        · exact absurd hDead (hRun u hWhole).1.not_deadlocked
        · exact ⟨u, hOwn, hReturned, (hRun u hWhole).2.returned hReturned⟩

/-- Without that room the two can wait for each other. -/
theorem deadlock_of_not_fits (hLength : s.eventpipe.length ≤ capacity)
    (hEntered : entered = { s with call := some ⟨ip, port, objects, .connecting, 0⟩ })
    (h : ¬ Fits capacity others s ip port objects) :
    ∃ t, Run (step capacity others) Inside entered t ∧ Deadlocked capacity t := by
  have hCall : entered.call = some ⟨ip, port, objects, .connecting, 0⟩ := by rw [hEntered]
  have hPipe : entered.eventpipe = s.eventpipe := by rw [hEntered]
  simp only [Fits, not_or] at h
  obtain ⟨_, hSome, hMany⟩ := h
  have hAllowed : 0 + min others (capacity - s.eventpipe.length) ≤ others := by omega
  have hRoom : entered.eventpipe.length + min others (capacity - s.eventpipe.length) ≤ capacity := by
    rw [hPipe]
    omega
  obtain ⟨t, hFill, hHere, hFilled⟩ :=
    run_others (.brokerDisconnection ⟨[], by simp, by simp⟩ 0) hCall _ hAllowed hRoom
  obtain ⟨u, hOwn, hEnd⟩ := run_own capacity others hHere
  have hWhole := hFill.trans (Run.ofOwn hOwn)
  rcases hEnd with hDead | ⟨_, hWritten⟩
  · exact ⟨u, hWhole, hDead⟩
  · have hBound : u.eventpipe.length ≤ capacity := by
      apply hWhole.invariant (P := fun v => v.eventpipe.length ≤ capacity)
      · rw [hPipe]
        exact hLength
      · exact fun _ _ _ hLe _ hStep => length_step hLe hStep
    have hRemaining : remaining objects .connecting = reported objects := rfl
    rw [hFilled, hPipe] at hWritten
    dsimp only at hWritten
    omega

end Returns

/-- The pipe stays within its capacity. -/
theorem length_le (run : Run (step capacity others) (fun _ _ => True) .init s) :
    s.eventpipe.length ≤ capacity := by
  apply run.invariant (P := fun v => v.eventpipe.length ≤ capacity)
  · exact Nat.zero_le _
  · exact fun _ _ _ hLe _ hStep => length_step hLe hStep

/-- Outside a call there is no deadlock, and a step into one is `addBroker`. -/
theorem Roomy.enter {a : Action Id} (hCall : s.call = none) (hFit : CallsFit capacity others s a)
    (hStep : EventPipe.step capacity others s a = some t) : Roomy capacity others t := by
  have hIdle : ∀ u : State Id, u.call = none → Roomy capacity others u := by
    intro u hNone call hSome
    rw [hNone] at hSome
    cases hSome
  rcases step_idle hCall hStep with ⟨hNone, _⟩ | ⟨ip, port, objects, rfl, hNew, rfl⟩
  · exact hIdle _ hNone
  · exact roomy_entered hNew (hFit ip port objects rfl)

end Call

section Theorem
variable [DecidableEq Id]

/-- No run whose calls of `addBroker` all fit deadlocks, and a call made in any
reachable state returns exactly if it fits. -/
theorem addBroker_returns (capacity others : Nat) :
    (∀ t : State Id, Run (step capacity others) (CallsFit capacity others) .init t →
      ¬ Deadlocked capacity t) ∧
    ∀ (s t : State Id) (ip : IPString) (port : UInt32) (objects : Objects Id),
      Run (step capacity others) (fun _ _ => True) .init s →
      step capacity others s (.addBroker ip port objects) = some t →
      (Returns capacity others s ip port t ↔ Fits capacity others s ip port objects) := by
  constructor
  · intro t run
    have hRoomy : Roomy capacity others t := by
      apply run.invariant
      · intro call hCall
        cases hCall
      · intro u a v hRoomy hFit hStep
        cases hCall : u.call with
        | none => exact Roomy.enter hCall hFit hStep
        | some call => exact hRoomy.step (by rw [hCall]; rfl) hStep
    exact hRoomy.not_deadlocked
  · intro s t ip port objects reached hStep
    cases hCall : s.call with
    | some call => simp [step, hCall] at hStep
    | none =>
        simp only [step, hCall] at hStep
        split at hStep
        · next hKnown =>
            cases hStep
            refine ⟨fun _ => .inl hKnown, fun _ => ?_⟩
            have hStay : ∀ t, Run (step capacity others) Inside s t → t = s := by
              intro t run
              rcases Relation.ReflTransGen.cases_head run with rfl | ⟨u, ⟨a, hInside, _⟩, _⟩
              · rfl
              · rw [Inside, hCall] at hInside
                cases hInside
            constructor
            · intro t run hDead
              obtain ⟨call, _, _, _, hSome, _⟩ := hDead
              rw [hStay t run, hCall] at hSome
              cases hSome
            · intro t run
              rw [hStay t run]
              exact ⟨s, Run.refl s, hCall, by rw [RecoveryManager.addBroker, if_pos hKnown]⟩
        · next hNew =>
            cases hStep
            constructor
            · intro h
              by_contra hNot
              obtain ⟨u, run, hDead⟩ := deadlock_of_not_fits (length_le reached) rfl hNot
              exact h.never u run hDead
            · intro h
              exact returns_of_roomy hNew rfl (roomy_entered hNew h)

end Theorem

/-- A broker with that many queues. -/
def queues (n : Nat) : Objects Nat
  | .queue => (List.range n).map fun i => some (.queue ⟨⟨i, IPPortToUrl localhost 5672⟩, [113]⟩)
  | _ => []

theorem addBroker_returns_oneQueue :
    ∃ t, step 1 0 .init (.addBroker localhost 5672 (queues 1)) = some t ∧
      Returns 1 0 .init localhost 5672 t := by
  refine ⟨_, rfl, ?_⟩
  apply ((addBroker_returns 1 0).2 _ _ _ _ (queues 1) (Run.refl _) rfl).mpr
  exact .inr (.inr (by decide))

/-- A pipe of 64 KiB holds 8192 pointers. A broker with one queue more blocks
the thread that the main loop waits for. -/
theorem addBroker_deadlocks :
    ¬ ∀ (capacity : Nat) (objects : Objects Nat) (s t : State Nat),
      step capacity 0 .init (.addBroker localhost 5672 objects) = some s →
      Run (step capacity 0) Inside s t → ¬ Deadlocked capacity t := by
  intro h
  have hMany : ¬ Fits 8192 0 State.init localhost 5672 (queues 8193) := by
    have hReported : reported (queues 8193) = 8193 := by
      have hSome : ((queues 8193 .queue).filter Option.isSome) = queues 8193 .queue := by
        apply List.filter_eq_self.mpr
        intro o hMem
        obtain ⟨i, _, rfl⟩ := List.mem_map.mp hMem
        rfl
      show (([] ++ ([] ++ ([] ++ (queues 8193 .queue ++ ([] ++ ([] ++ [])))))).filter
        Option.isSome).length = 8193
      simp only [List.nil_append, List.append_nil, hSome]
      exact (List.length_map _).trans List.length_range
    simp [Fits, hReported, State.init, RecoveryManager.new]
  obtain ⟨t, run, hDead⟩ := deadlock_of_not_fits (Nat.zero_le _) rfl hMany
  exact h 8192 (queues 8193) _ t rfl run hDead

end QpidRecovery.Proposer.EventPipe
