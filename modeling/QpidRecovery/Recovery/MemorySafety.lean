import QpidRecovery.Recovery.CopyThread

/-! The recovery manager on its heap over whole runs. No step faults, the
vectors hold what the typed store does, and what no pointer reaches is counted
by what has happened. -/
namespace QpidRecovery.Pointers

open Heap (Pointer)
open RecoveryManager (link? collected)
open Transition

variable {Id : Type}

section Reroute
variable [DecidableEq Id] {s : State Id} {held : Held Id} {pending : List (Pending Id)}

omit [DecidableEq Id] in
/-- A manager that has just connected to a broker knows it, and its store is
the same. -/
theorem addBroker_eq (ip : IPString) (port : UInt32) (rm : RecoveryManager Id) :
    ⟨ip, port⟩ ∈ (rm.addBroker ip port).bavec ∧ (rm.addBroker ip port).links = rm.links ∧
      (rm.addBroker ip port).bridges = rm.bridges := by
  unfold RecoveryManager.addBroker
  split
  · next hKnown => exact ⟨hKnown, rfl, rfl⟩
  · exact ⟨List.mem_append_right _ (List.mem_singleton.mpr rfl), rfl, rfl⟩

/-- The typed manager's `reroute`, whatever brokers it is connected to. -/
theorem reroute_typed (rm : RecoveryManager Id) (srcip : IPString) (srcport : UInt32)
    (oldip : IPString) (oldport : UInt32) (newip : IPString) (newport : UInt32)
    {reply : BrokerReply} (hReply : reply.brokerobjects ≠ 0) :
    ∃ rm', rm.reroute srcip srcport oldip oldport newip newport reply = some (rm',
      match rm.links.find? fun l => l.brokerurl = IPPortToUrl srcip srcport ∧
          l.getLinkDestUrl = IPPortToUrl oldip oldport with
      | none => ([], -1)
      | some link =>
          (.contact (IPPortToUrl srcip srcport) reply.brokerobjects ::
            .create (IPPortToUrl srcip srcport) (link.copyToNewDest newip.bytes newport) ::
            RecoveryManager.copyBridges rm.links rm.bridges reply.linkobjects
              (IPPortToUrl srcip srcport) (IPPortToUrl srcip srcport)
              (some (IPPortToUrl oldip oldport, IPPortToUrl newip newport)), 0)) := by
  obtain ⟨hKnown, hLinks, hBridges⟩ := addBroker_eq srcip srcport rm
  refine ⟨rm.addBroker srcip srcport, ?_⟩
  simp only [RecoveryManager.reroute, hLinks, hBridges]
  cases rm.links.find? fun l => l.brokerurl = IPPortToUrl srcip srcport ∧
      l.getLinkDestUrl = IPPortToUrl oldip oldport with
  | none => rfl
  | some link => simp [hKnown, hReply]

/-- The links are searched and the bridges moved as in the typed store. -/
theorem reroute_eq (hs : Represents s held pending .waiting) (srcip : IPString)
    (srcport : UInt32) (oldip : IPString) (oldport : UInt32) (newip : IPString) (newport : UInt32)
    {reply : BrokerReply} (hReply : reply.brokerobjects ≠ 0) :
    ∃ rm' calls r, reroute srcip srcport oldip oldport newip newport reply s =
        some (s.log (calls.map .recovery ++ [.rerouted r])) ∧
      (stored s.trace).reroute srcip srcport oldip oldport newip newport reply =
        some (rm', calls, r) := by
  have hMain : s.main = .waiting := hs.main
  obtain ⟨rm', hTyped⟩ := reroute_typed (stored s.trace) srcip srcport oldip oldport newip
    newport hReply
  have hOwn : ∀ t, ∀ x ∈ held t, (x.1, Cell.objectInfo (objectOf t x.2)) ∈
      held.cells ++ pending.flatMap Pending.cells ++ Busy.cells .waiting :=
    fun t x hx => List.mem_append_left _ (List.mem_append_left _ (held.mem_cells t hx))
  have hSearch : (s.vecs .link).findM? (fun p => (castAt link? p s.heap).map fun l =>
      l.brokerurl = IPPortToUrl srcip srcport ∧ l.getLinkDestUrl = IPPortToUrl oldip oldport) =
        some (((held .link : List (Pointer × LinkInfo Id)).find? fun x =>
          x.2.brokerurl = IPPortToUrl srcip srcport ∧
            x.2.getLinkDestUrl = IPPortToUrl oldip oldport).map Prod.fst) := by
    rw [hs.vecs .link]
    apply findM?_map_fst (p := fun l : LinkInfo Id =>
      decide (l.brokerurl = IPPortToUrl srcip srcport ∧
        l.getLinkDestUrl = IPPortToUrl oldip oldport))
    intro x hx
    have hCast : castAt link? x.1 s.heap = some x.2 := castAt_of_mem hs.owned .link (hOwn .link x hx)
    rw [hCast, Option.map_some]
  have hTypedFind : (stored s.trace).links.find? (fun l =>
      l.brokerurl = IPPortToUrl srcip srcport ∧ l.getLinkDestUrl = IPPortToUrl oldip oldport) =
        ((held .link : List (Pointer × LinkInfo Id)).find? fun x =>
          x.2.brokerurl = IPPortToUrl srcip srcport ∧
            x.2.getLinkDestUrl = IPPortToUrl oldip oldport).map Prod.snd :=
    (congrArg (List.find? _) (hs.store .link).symm).trans (List.find?_map ..)
  cases hFind : (held .link : List (Pointer × LinkInfo Id)).find? fun x =>
      x.2.brokerurl = IPPortToUrl srcip srcport ∧
        x.2.getLinkDestUrl = IPPortToUrl oldip oldport with
  | none =>
      rw [hFind] at hSearch hTypedFind
      rw [hTypedFind] at hTyped
      refine ⟨rm', [], -1, ?_, hTyped⟩
      simp only [reroute, hMain, hSearch, Option.bind_some, Option.map_none]
      rfl
  | some x =>
      rw [hFind] at hSearch hTypedFind
      rw [hTypedFind] at hTyped
      have hCast : castAt link? x.1 s.heap = some x.2 :=
        castAt_of_mem hs.owned .link (hOwn .link x (List.mem_of_find?_eq_some hFind))
      have hBridges := copyBridges_eq (hs.vecs .link) (hs.store .link) (hs.vecs .bridge)
        (hs.store .bridge) (hOwn .link) (hOwn .bridge) hs.owned reply.linkobjects
        (IPPortToUrl srcip srcport) (IPPortToUrl srcip srcport)
        (some (IPPortToUrl oldip oldport, IPPortToUrl newip newport))
      refine ⟨rm', _, 0, ?_, hTyped⟩
      simp only [reroute, hMain, hSearch, Option.bind_some, Option.map_some, hCast, hReply,
        if_false, hBridges]
      rfl

end Reroute

/-- What the console library and the brokers may report. The hosts fit the
buffers that they are copied to, and a broker lists its own object. -/
def Action.Fits : Action Id → Prop
  | .objectProps object => ∀ t, objectStringToType object.className = some t →
      LinkFits (object.construct t)
  | .brokerDisconnected url => HostFits IP_LENGTH url
  | .event classname brokerurl rhost => classname = literal "brokerLinkDown" →
      HostFits 32 brokerurl ∧ HostFits 32 rhost
  | .reroute _ _ _ _ _ _ reply => reply.brokerobjects ≠ 0
  | _ => True

def allowed (s : State Id) (a : Action Id) : Prop := enabled s a ∧ a.Fits

section Received
variable {s t : State Id}

/-- To send is not to receive. -/
theorem sendEventPtr_received (event : ListenerEvent) (le : Proposer.ListenerEvent Id)
    (s : State Id) : received (sendEventPtr event le s).trace = received s.trace := by
  show received (s.trace ++ [.sent le]) = _
  rw [received_append]
  exact List.append_nil _

/-- A report is not yet received. -/
theorem objectProps_received {object : Object Id} (h : objectProps object s = some t) :
    received t.trace = received s.trace := by
  unfold objectProps at h
  dsimp only at h
  split at h
  · cases h
    exact sendEventPtr_received _ _ _
  · obtain ⟨heap, _, rfl⟩ := Option.map_eq_some_iff.mp h
    rfl

/-- Nor is the loss of a broker. -/
theorem brokerDisconnected_received {url : Text} (h : brokerDisconnected url s = some t) :
    received t.trace = received s.trace := by
  obtain ⟨broker, _, rfl⟩ := Option.map_eq_some_iff.mp h
  exact sendEventPtr_received _ _ _

/-- Nor is an event. -/
theorem event_received {classname brokerurl rhost : Text}
    (h : event classname brokerurl rhost s = some t) : received t.trace = received s.trace := by
  unfold event at h
  split at h
  · obtain ⟨le, hTrace⟩ := sendLinkDownEvent_trace h
    rw [hTrace, received_append]
    exact List.append_nil _
  · cases h
    rfl

end Received

section Steps
variable [DecidableEq Id] {s t : State Id}

/-- Every cell has its owner or is lost. -/
def Accounted (s : State Id) : Prop :=
  ∃ held pending busy, Represents s held pending busy ∧ busy.Copies s.trace

/-- The copies stand for what was received. -/
theorem Busy.Copies.of_received {busy : Busy Id} (h : busy.Copies s.trace)
    (hSame : received t.trace = received s.trace) : busy.Copies t.trace := by
  cases busy with
  | waiting | handling e => trivial
  | copying coarg args held =>
      intro u
      rw [stored, hSame]
      exact h u

/-- A main loop that waits holds nothing. -/
theorem busy_of_waiting {held : Held Id} {pending : List (Pending Id)} {busy : Busy Id}
    (hs : Represents s held pending busy) (hMain : s.main = .waiting) : busy = .waiting := by
  rw [hs.main] at hMain
  cases busy <;> cases hMain
  rfl

/-- What is ready does not fault and leaves every cell accounted for. -/
theorem step_accounted {a : Action Id} (hs : Accounted s) (hAllowed : allowed s a) :
    ∃ t, step s a = some t ∧ Accounted t := by
  obtain ⟨held, pending, busy, hs, hCopies⟩ := hs
  obtain ⟨hEnabled, hFits⟩ := hAllowed
  cases a with
  | objectProps object =>
      obtain ⟨t, pending', hStep, ht⟩ := objectProps_represents hs hFits
      exact ⟨t, hStep, held, pending', busy, ht, hCopies.of_received (objectProps_received hStep)⟩
  | brokerDisconnected url =>
      obtain ⟨t, pending', hStep, ht⟩ := brokerDisconnected_represents hs hFits
      exact ⟨t, hStep, held, pending', busy, ht,
        hCopies.of_received (brokerDisconnected_received hStep)⟩
  | event classname brokerurl rhost =>
      by_cases hClass : classname = literal "brokerLinkDown"
      · obtain ⟨hSrc, hDst⟩ := hFits hClass
        obtain ⟨t, pending', hStep, ht⟩ := sendLinkDownEvent_represents hs hSrc hDst
        have hEvent : event classname brokerurl rhost s = some t := by
          rw [event, if_pos hClass, hStep]
        exact ⟨t, hEvent, held, pending', busy, ht, hCopies.of_received (event_received hEvent)⟩
      · exact ⟨s, if_neg hClass, held, pending, busy, hs, hCopies⟩
  | handleEvent =>
      obtain ⟨hMain, hPipe⟩ := hEnabled
      obtain rfl := busy_of_waiting hs hMain
      cases pending with
      | nil => exact absurd hs.eventpipe hPipe
      | cons e pending =>
          obtain ⟨t, held', hStep, ht⟩ := handleEvent_represents hs
          exact ⟨t, hStep, held', pending, _, ht, trivial⟩
  | deleteEvent =>
      obtain ⟨le, hMain⟩ := hEnabled
      rw [hs.main] at hMain
      cases busy with
      | waiting | copying coarg args copies => cases hMain
      | handling e =>
          obtain ⟨t, hStep, ht⟩ := deleteEvent_represents hs
          exact ⟨t, hStep, held, pending, _, ht, trivial⟩
  | copyObjects failip failport backupip backupport =>
      obtain rfl := busy_of_waiting hs hEnabled
      obtain ⟨t, busy', hStep, ht, hCopies'⟩ :=
        copyObjects_represents hs failip failport backupip backupport
      exact ⟨t, hStep, held, pending, busy', ht, hCopies'⟩
  | copyObjectsThread reply =>
      obtain ⟨coarg, hMain⟩ := hEnabled
      rw [hs.main] at hMain
      cases busy with
      | waiting | handling e => cases hMain
      | copying coarg args copies =>
          obtain ⟨t, pending', calls, hStep, ht, _⟩ := copyObjectsThread_represents reply hs hCopies
          exact ⟨t, hStep, held, pending', _, ht, trivial⟩
  | reroute srcip srcport oldip oldport newip newport reply =>
      obtain rfl := busy_of_waiting hs hEnabled
      obtain ⟨rm', calls, r, hStep, _⟩ :=
        reroute_eq hs srcip srcport oldip oldport newip newport hFits
      refine ⟨_, hStep, held, pending, .waiting, hs.log ?_ ?_ ?_, trivial⟩
      · rw [sent_append, sent_recovery]
        rfl
      · rw [received_append, received_recovery]
        rfl
      · rw [lost_append, lost_recovery]
        rfl

/-- After every run each cell has its owner or is lost. -/
theorem run_accounted (run : Run step allowed .init s) : Accounted s := by
  apply run.invariant
  · exact ⟨_, _, _, init_represents, trivial⟩
  · intro u a v hu hAllowed hStep
    obtain ⟨w, hNext, hw⟩ := step_accounted hu hAllowed
    rw [hStep] at hNext
    cases hNext
    exact hw

/-- No cell is deleted twice, used after its deletion or cast to another class,
and no thread that is ready is ever stuck on a fault. -/
theorem no_fault {a : Action Id} (run : Run step allowed .init s) (hAllowed : allowed s a) :
    ∃ t, step s a = some t := by
  obtain ⟨t, hStep, _⟩ := step_accounted (run_accounted run) hAllowed
  exact ⟨t, hStep⟩

end Steps

section Sample

def hostFits (n : Nat) (url : Text) : Bool := colon ∈ url ∧ (hostOf url).length < n

/-- A check that what is done is allowed. -/
def ready (s : State Nat) : Action Nat → Bool
  | .objectProps object => ((objectStringToType object.className).bind fun t =>
      link? (object.construct t)).all fun l =>
        hostFits IP_LENGTH l.getLinkDestUrl
  | .brokerDisconnected url => hostFits IP_LENGTH url
  | .event _ brokerurl rhost => hostFits 32 brokerurl && hostFits 32 rhost
  | .handleEvent => decide (s.main = .waiting) && decide (s.eventpipe ≠ [])
  | .deleteEvent => ∃ le ∈ List.range s.heap.cells.length, s.main = .handling le
  | .copyObjects _ _ _ _ => s.main = .waiting
  | .copyObjectsThread _ => ∃ coarg ∈ List.range s.heap.cells.length, s.main = .copying coarg
  | .reroute _ _ _ _ _ _ reply => decide (s.main = .waiting) && decide (reply.brokerobjects ≠ 0)

theorem hostFits_sound {n : Nat} {url : Text} (h : hostFits n url = true) : HostFits n url := by
  simpa [hostFits, HostFits] using h

theorem ready_sound (s : State Nat) (a : Action Nat) (h : ready s a = true) : allowed s a := by
  cases a with
  | objectProps object =>
      refine ⟨trivial, ?_⟩
      intro t hType
      cases t with
      | link =>
          simp only [ready, hType, Option.bind_some] at h
          exact hostFits_sound h
      | broker | exchange | queue | binding | bridge => trivial
  | brokerDisconnected url => exact ⟨trivial, hostFits_sound h⟩
  | event classname brokerurl rhost =>
      obtain ⟨hSrc, hDst⟩ := Bool.and_eq_true_iff.mp h
      exact ⟨trivial, fun _ => ⟨hostFits_sound hSrc, hostFits_sound hDst⟩⟩
  | handleEvent =>
      obtain ⟨hMain, hPipe⟩ := Bool.and_eq_true_iff.mp h
      exact ⟨⟨of_decide_eq_true hMain, of_decide_eq_true hPipe⟩, trivial⟩
  | deleteEvent | copyObjectsThread reply =>
      obtain ⟨p, _, hMain⟩ := of_decide_eq_true h
      exact ⟨⟨p, hMain⟩, trivial⟩
  | copyObjects failip failport backupip backupport =>
      have hMain : s.main = .waiting := of_decide_eq_true h
      exact ⟨hMain, trivial⟩
  | reroute srcip srcport oldip oldport newip newport reply =>
      obtain ⟨hMain, hReply⟩ := Bool.and_eq_true_iff.mp h
      have hWaiting : s.main = .waiting := of_decide_eq_true hMain
      have hBrokers : reply.brokerobjects ≠ 0 := of_decide_eq_true hReply
      exact ⟨hWaiting, hBrokers⟩

/-- What a local broker has under a name. -/
def collectedAt (className : String) (objectid : Nat) (name : String) : Object Nat where
  className := literal className
  objectid := objectid
  brokerurl := IPPortToUrl localhost 5672
  attrString := fun _ => literal name
  attrUint := fun _ => 5672
  attrBool := fun _ => false
  attrRef := fun _ => 1

def answering (brokerobjects : Nat) : BrokerReply where
  brokerobjects := brokerobjects
  linkobjects := []
  unreachable := fun _ => true

/-- A queue, an exchange that is ignored and a link are reported, the broker
disconnects while the link is handled, and its objects are copied twice. The
first backup does not answer. -/
def twoBackups : List (Action Nat) :=
  [.objectProps (collectedAt "queue" 1 "jobs"), .objectProps (collectedAt "exchange" 2 "amq.topic"),
    .objectProps (collectedAt "link" 3 "10.0.0.2"), .objectProps (collectedAt "agent" 4 "local"),
    .handleEvent, .deleteEvent, .handleEvent, .deleteEvent, .handleEvent,
    .brokerDisconnected (IPPortToUrl localhost 5672), .deleteEvent,
    .copyObjects localhost 5672 localhost 5673, .copyObjectsThread (answering 0),
    .copyObjects localhost 5672 localhost 5673]

theorem no_fault_twoBackups :
    ∃ s : State Nat, s.main = .copying 16 ∧ s.eventpipe = [10] ∧
      ∃ t, step s (.copyObjectsThread (answering 1)) = some t := by
  have hExec : (exec (guarded step ready) .init twoBackups).map (fun s =>
      decide (s.main = .copying 16) && decide (s.eventpipe = [10])) = some true := by
    decide
  obtain ⟨s, hs, hState⟩ := Option.map_eq_some_iff.mp hExec
  simp only [Bool.and_eq_true, decide_eq_true_iff] at hState
  obtain ⟨hMain, hPipe⟩ := hState
  exact ⟨s, hMain, hPipe, no_fault (Run.of_guarded ready_sound hs) ⟨⟨16, hMain⟩, trivial⟩⟩

end Sample

end QpidRecovery.Pointers
