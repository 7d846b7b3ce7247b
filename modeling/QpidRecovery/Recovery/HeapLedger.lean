import QpidRecovery.Recovery.MemorySafety

/-! What a run leaves on the heap. The pointers lead to what the typed store
holds, the pipe hands over every event once, and every live cell is either
reached by a pointer or one of those that what has happened has lost. -/
namespace QpidRecovery.Pointers

open Heap (Pointer)
open Transition

variable {Id : Type}

section Reach

/-- The cells of an event, with the object of a property event. -/
def eventCells (h : Memory Id) (le : Pointer) : Nat :=
  match eventAt le h with
  | some (.objectProperty _ _) => 2
  | _ => 1

/-- The cells that the main loop holds. -/
def Main.cells (h : Memory Id) : Main → Nat
  | .waiting => 0
  | .handling le => eventCells h le
  | .copying coarg =>
      ((argsAt coarg h).map fun args => (vecOrder.flatMap args.vecs).length + 1).getD 0

/-- The cells that the pointers of the process reach. -/
def State.reached (s : State Id) : Nat :=
  (vecOrder.flatMap s.vecs).length + (s.eventpipe.map (eventCells s.heap)).sum +
    s.main.cells s.heap

/-- An event with what it points to. -/
def readEvent (h : Memory Id) (le : Pointer) : Option (Proposer.ListenerEvent Id) :=
  (eventAt le h).bind fun event =>
    match event with
    | .brokerDisconnection brokerip brokerport => some (.brokerDisconnection brokerip brokerport)
    | .linkDown srcip srcport dstip dstport => some (.linkDown srcip srcport dstip dstport)
    | .objectProperty _ objinfo => (objinfo.bind fun p => objectAt p h).map .objectProperty

variable {h : Memory Id} {cells : List (Pointer × Cell Id)} {n : Nat}

/-- The cells of an event in the pipe. -/
theorem eventCells_eq (hOwned : h.Owned cells n) {e : Pending Id} (hMem : ∀ x ∈ e.cells, x ∈ cells) :
    eventCells h e.le = e.cells.length := by
  have hRead : eventAt e.le h = some e.fields :=
    eventAt_of_mem hOwned (hMem _ List.mem_cons_self)
  rw [eventCells, hRead, Pending.cells, List.length_cons]
  cases hEvent : e.event with
  | brokerDisconnection ip port | linkDown srcip srcport dstip dstport | objectProperty o =>
      simp [Pending.fields, Pending.object, hEvent]

/-- An event in the pipe is read as it was sent. -/
theorem readEvent_eq (hOwned : h.Owned cells n) {e : Pending Id} (hMem : ∀ x ∈ e.cells, x ∈ cells) :
    readEvent h e.le = some e.event := by
  have hRead : eventAt e.le h = some e.fields :=
    eventAt_of_mem hOwned (hMem _ List.mem_cons_self)
  rw [readEvent, hRead, Option.bind_some]
  cases hEvent : e.event with
  | brokerDisconnection ip port | linkDown srcip srcport dstip dstport =>
      simp [Pending.fields, hEvent]
  | objectProperty o =>
      have hObject : objectAt e.objinfo h = some o :=
        objectAt_of_mem hOwned (hMem _ (by simp [Pending.cells, Pending.object, hEvent]))
      simp [Pending.fields, hEvent, hObject]

end Reach

variable [DecidableEq Id] {s : State Id}

section Ledger
variable {held : Held Id} {pending : List (Pending Id)} {busy : Busy Id}

omit [DecidableEq Id] in
/-- The vectors lead to all held objects. -/
theorem vectors_length (vecs : Vectors) (held : Held Id)
    (hVecs : ∀ t, vecs t = (held t).map Prod.fst) :
    (vecOrder.flatMap vecs).length = held.cells.length := by
  have hPointers : vecs = fun t => (held t).map Prod.fst := funext hVecs
  rw [hPointers, ← Held.map_fst_cells, List.length_map]

/-- The cells that the main loop holds. -/
theorem main_cells (hs : Represents s held pending busy) :
    s.main.cells s.heap = busy.cells.length := by
  rw [hs.main]
  cases busy with
  | waiting => rfl
  | handling e => exact eventCells_eq hs.owned fun x hx => List.mem_append_right _ hx
  | copying coarg args copies =>
      have hArgs : argsAt coarg s.heap = some args :=
        argsAt_of_mem hs.owned (List.mem_append_right _ List.mem_cons_self)
      rw [Busy.main, Main.cells, hArgs, Option.map_some, Option.getD_some,
        vectors_length args.vecs copies hs.agrees]
      rfl

/-- The cells that the pipe leads to. -/
theorem pipe_cells (hs : Represents s held pending busy) :
    (s.eventpipe.map (eventCells s.heap)).sum = (pending.flatMap Pending.cells).length := by
  rw [hs.eventpipe, List.length_flatMap, List.map_map]
  congr 1
  apply List.map_congr_left
  intro e he
  apply eventCells_eq hs.owned
  intro x hx
  exact List.mem_append_left _ (List.mem_append_right _ (List.mem_flatMap.mpr ⟨e, he, hx⟩))

/-- The live cells are those that pointers reach and those that are lost: the
copy of an ignored object, the object of every property event that was deleted,
and all copies of a thread that returned early, with its arguments. -/
theorem live_reached_or_lost (run : Run step allowed .init s) :
    s.heap.live = s.reached + lost s.trace := by
  obtain ⟨held, pending, busy, hs, _⟩ := run_accounted run
  rw [hs.owned.live, State.reached, main_cells hs, pipe_cells hs,
    vectors_length s.vecs held hs.vecs, List.length_append, List.length_append]

/-- The objects of three events, a copy of the exchange, and what the thread
made of the queue and the link with its arguments. -/
theorem live_reached_or_lost_twoBackups :
    ∃ s : State Nat, lost s.trace = 7 ∧ s.reached = 6 ∧ s.heap.live = s.reached + lost s.trace := by
  have hExec : (exec (guarded step ready) .init twoBackups).map (fun s =>
      decide (lost s.trace = 7) && decide (s.reached = 6)) = some true := by
    decide
  obtain ⟨s, hs, hState⟩ := Option.map_eq_some_iff.mp hExec
  simp only [Bool.and_eq_true, decide_eq_true_iff] at hState
  obtain ⟨hLost, hReached⟩ := hState
  exact ⟨s, hLost, hReached, live_reached_or_lost (Run.of_guarded ready_sound hs)⟩

end Ledger

/-- What the pointers lead to is what the typed store says, and what is done
with it is what the typed store does. -/
structure Refines (s : State Id) : Prop where
  store : ∀ t, (s.vecs t).mapM (fun p => castAt t.reported p s.heap) =
    some (t.vec (stored s.trace))
  eventpipe : ∃ events, s.eventpipe.mapM (readEvent s.heap) = some events ∧
    sent s.trace = received s.trace ++ events
  copyObjects : ∀ coarg args reply, s.main = .copying coarg → argsAt coarg s.heap = some args →
    ∃ t calls, copyObjectsThread reply s = some t ∧
      recoveries t.trace = recoveries s.trace ++ calls ∧
      (stored s.trace).copyObjects args.failip args.failport args.backupip args.backupport reply =
        some (calls, 0)
  reroute : ∀ srcip srcport oldip oldport newip newport reply, s.main = .waiting →
    reply.brokerobjects ≠ 0 →
    ∃ rm calls r, reroute srcip srcport oldip oldport newip newport reply s =
        some (s.log (calls.map .recovery ++ [.rerouted r])) ∧
      (stored s.trace).reroute srcip srcport oldip oldport newip newport reply =
        some (rm, calls, r)

/-- After every run the heap holds the typed store of the events that were
received, and those that were sent and not received, in their order. -/
theorem heap_refines_store (run : Run step allowed .init s) : Refines s := by
  obtain ⟨held, pending, busy, hs, hCopies⟩ := run_accounted run
  constructor
  · intro t
    rw [hs.vecs t, ← hs.store t, ← List.map_id ((held t).map Prod.snd)]
    apply mapM_map_fst
    intro x hx
    exact castAt_of_mem hs.owned t
      (List.mem_append_left _ (List.mem_append_left _ (held.mem_cells t hx)))
  · refine ⟨pending.map Pending.event, ?_, hs.order⟩
    have hPairs : s.eventpipe = (pending.map fun e => (e.le, e.event)).map Prod.fst := by
      rw [hs.eventpipe, List.map_map]
      rfl
    have hEvents : pending.map Pending.event =
        ((pending.map fun e => (e.le, e.event)).map Prod.snd).map id := by
      rw [List.map_id, List.map_map]
      rfl
    rw [hPairs, hEvents]
    apply mapM_map_fst
    intro x hx
    obtain ⟨e, he, rfl⟩ := List.mem_map.mp hx
    apply readEvent_eq hs.owned
    intro y hy
    exact List.mem_append_left _ (List.mem_append_right _ (List.mem_flatMap.mpr ⟨e, he, hy⟩))
  · intro coarg args reply hMain hArgs
    rw [hs.main] at hMain
    cases busy with
    | waiting | handling e => cases hMain
    | copying coarg' args' copies =>
        cases hMain
        have hOwn : argsAt coarg s.heap = some args' :=
          argsAt_of_mem hs.owned (List.mem_append_right _ List.mem_cons_self)
        rw [hOwn] at hArgs
        cases hArgs
        obtain ⟨t, _, calls, hStep, _, _, hCalls, hTyped⟩ :=
          copyObjectsThread_represents reply hs hCopies
        exact ⟨t, calls, hStep, hCalls, hTyped⟩
  · intro srcip srcport oldip oldport newip newport reply hMain hReply
    obtain rfl := busy_of_waiting hs hMain
    exact reroute_eq hs srcip srcport oldip oldport newip newport hReply

theorem heap_refines_store_twoBackups :
    ∃ s : State Nat, s.vecs .queue = [7] ∧ s.vecs .link = [9] ∧ s.vecs .exchange = [] ∧
      Refines s := by
  have hExec : (exec (guarded step ready) .init twoBackups).map (fun s =>
      decide (s.vecs .queue = [7]) && decide (s.vecs .link = [9]) &&
        decide (s.vecs .exchange = [])) = some true := by
    decide
  obtain ⟨s, hs, hState⟩ := Option.map_eq_some_iff.mp hExec
  simp only [Bool.and_eq_true, decide_eq_true_iff] at hState
  obtain ⟨⟨hQueue, hLink⟩, hExchange⟩ := hState
  exact ⟨s, hQueue, hLink, hExchange, heap_refines_store (Run.of_guarded ready_sound hs)⟩

end QpidRecovery.Pointers
