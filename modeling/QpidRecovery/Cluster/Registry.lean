import QpidRecovery.Acceptor.Descriptors
import QpidRecovery.Proposer.Accounts
import QpidRecovery.Requestor.Descriptors
import QpidRecovery.Requestor.LostAcceptors

/-! What is registered in the selectors of the three processes. A connection
that an acceptor could not accept, a client that a requestor could not connect
and a server socket that could not be made are registered as -1, and a
registration does not test whether the array has an entry left. Nothing else goes
wrong. -/
namespace QpidRecovery

open Transition

section Loops
variable {Fd Id : Type} [DecidableEq Fd] {before live : List Fd}

/-- What every iteration of the acceptor has to meet. -/
def Acceptor.Registers (u : Opened (Loop Fd) Fd) (e : LoopEvent Fd) : Prop :=
  Accepts e ∧ Call.AllFit (u.process.calls e) u.process.fs

/-- What every iteration of the requestor has to meet. -/
def Requestor.Registers (cfg : Config) (u : Opened (State Fd) Fd) (action : Action Fd) : Prop :=
  Connects cfg u.process action ∧ Call.AllFit (calls cfg u.process action) u.process.fs

/-- What every iteration of the proposer has to meet. -/
def Proposer.Registers [DecidableEq Id] (u : Opened (State Fd Id) Fd) (action : Action Fd Id) :
    Prop :=
  Call.AllFit (calls u.process action) u.process.fs

/-- The acceptor's registry, after both server sockets were made. -/
theorem Acceptor.staysSound_iff (start : Time) (requestsfd paxossfd : Fd) (hBefore : before.Nodup)
    (hKernel : Call.openedAfter [.opened requestsfd, .opened paxossfd] before = some live)
    (events : List (LoopEvent Fd)) :
    Opened.StaysSound Loop.step Loop.calls Loop.holding
        (.started Loop.fs (.init start requestsfd paxossfd) live) events ↔
      Along (Opened.step Loop.step Loop.calls) Registers
        (.started Loop.fs (.init start requestsfd paxossfd) live) events := by
  apply Opened.sound_iff (fun _ e => Accepts e)
  · exact fun s e t hStep => step_selects hStep
  · exact fun s e t hStep hOk => step_accounted hStep hOk
  · exact fun s e t hStep hNone => accepts_of_registered hStep hNone
  · exact init_consistent start hBefore hKernel

/-- The requestor's registry, whether or not its server socket was made. -/
theorem Requestor.staysSound_iff (cfg : Config) (start : Time) (querysfd : Fd) (made : Bool)
    (landmark : Option (IPString × Fd)) (acceptorIPs proposerIPs : List IPString)
    (hBefore : before.Nodup)
    (hKernel : Call.openedAfter
      (((if made then [querysfd] else []) ++ landmark.toList.map Prod.snd).map .opened) before =
        some live) (actions : List (Action Fd)) :
    Opened.StaysSound (step cfg) (calls cfg) (owned querysfd)
        (.started State.fs (started cfg start querysfd made landmark acceptorIPs proposerIPs) live)
        actions ↔
      made = true ∧ Along (Opened.step (step cfg) (calls cfg)) (Registers cfg)
        (.started State.fs (started cfg start querysfd made landmark acceptorIPs proposerIPs) live)
        actions := by
  cases made with
  | false =>
      constructor
      · intro h
        exact absurd h.start (Opened.not_registry_of_none rfl (started_none _ _ _ _ _ _))
      · rintro ⟨hMade, _⟩
        cases hMade
  | true =>
      rw [Opened.sound_iff (Connects cfg)]
      · exact ⟨fun h => ⟨rfl, h⟩, fun h => h.2⟩
      · exact fun s action t hStep => step_selects hStep
      · intro s action t hStep hOk
        have hAccounted := (step_accounted (fun _ => trivial) hOk hStep).frame
          ((↑[querysfd] : Multiset Fd), 0)
        exact hAccounted.of_eq (add_comm _ _) (add_comm _ _)
      · exact fun s action t hStep hNone => connects_of_registered hStep hNone
      · exact init_consistent cfg start acceptorIPs proposerIPs hBefore hKernel

/-- The proposer's loop keeps its registry sound whatever fails, as long as the
array has room. -/
theorem Proposer.staysSound_iff [DecidableEq Id] (start : Time) (recoveryfd : Fd)
    (requestsfd querysfd : Option Fd) (backupbrokers : List Text) (hBefore : before.Nodup)
    (hKernel : Call.openedAfter
      ((recoveryfd :: (requestsfd.toList ++ querysfd.toList)).map .opened) before = some live)
    (actions : List (Action Fd Id)) :
    Opened.StaysSound step calls (owned recoveryfd requestsfd querysfd)
        (.started State.fs (.init start (some recoveryfd) requestsfd querysfd backupbrokers) live)
        actions ↔
      requestsfd ≠ none ∧ querysfd ≠ none ∧ Along (Opened.step step calls) Registers
        (.started State.fs (.init start (some recoveryfd) requestsfd querysfd backupbrokers) live)
        actions := by
  cases requestsfd with
  | none =>
      constructor
      · intro h
        apply absurd h.start
        apply Opened.not_registry_of_none rfl
        exact FileSelector.registered_registerFD FileSelector.registered_self
      · rintro ⟨hRequest, _⟩
        exact absurd rfl hRequest
  | some requestsfd =>
      cases querysfd with
      | none =>
          constructor
          · intro h
            exact absurd h.start
              (Opened.not_registry_of_none rfl FileSelector.registered_self)
          · rintro ⟨_, hQuery, _⟩
            exact absurd rfl hQuery
      | some querysfd =>
          have hBooks : ∀ (s : State Fd Id) action t, step s action = some t →
              Books (fun _ => True) (calls s action) s t :=
            fun s action t hStep => step_books trivial (fun _ _ _ _ => trivial) hStep
          rw [Opened.sound_iff (fun _ _ => True)]
          · simp only [true_and]
            exact ⟨fun h => ⟨by simp, by simp, h⟩, fun h => h.2.2⟩
          · exact fun s action t hStep => (hBooks s action t hStep).fs
          · intro s action t hStep _
            have hAccounted := (hBooks s action t hStep).accounted.frame
              ((↑[recoveryfd, requestsfd, querysfd] : Multiset Fd), 0)
            exact hAccounted.of_eq (add_comm _ _) (add_comm _ _)
          · exact fun _ _ _ _ _ => trivial
          · exact init_consistent start backupbrokers hBefore hKernel

/-- The registries of the three loops. The kernel hands out no descriptor that
is open, and `before` are those that are open when a process starts. -/
theorem registry_sound_iff [DecidableEq Id] (hBefore : before.Nodup) :
    (∀ (start : Time) (requestsfd paxossfd : Fd) (live : List Fd)
      (events : List (Acceptor.LoopEvent Fd)),
      Call.openedAfter [.opened requestsfd, .opened paxossfd] before = some live →
      (Opened.StaysSound Acceptor.Loop.step Acceptor.Loop.calls Acceptor.Loop.holding
          (.started Acceptor.Loop.fs (.init start requestsfd paxossfd) live) events ↔
        Along (Opened.step Acceptor.Loop.step Acceptor.Loop.calls) Acceptor.Registers
          (.started Acceptor.Loop.fs (.init start requestsfd paxossfd) live) events)) ∧
    (∀ (cfg : Requestor.Config) (start : Time) (querysfd : Fd) (made : Bool)
      (landmark : Option (IPString × Fd)) (acceptorIPs proposerIPs : List IPString)
      (live : List Fd) (actions : List (Requestor.Action Fd)),
      Call.openedAfter
        (((if made then [querysfd] else []) ++ landmark.toList.map Prod.snd).map .opened) before =
          some live →
      (Opened.StaysSound (Requestor.step cfg) (Requestor.calls cfg) (Requestor.owned querysfd)
          (.started Requestor.State.fs
            (Requestor.started cfg start querysfd made landmark acceptorIPs proposerIPs) live)
          actions ↔
        made = true ∧ Along (Opened.step (Requestor.step cfg) (Requestor.calls cfg))
          (Requestor.Registers cfg)
          (.started Requestor.State.fs
            (Requestor.started cfg start querysfd made landmark acceptorIPs proposerIPs) live)
          actions)) ∧
    ∀ (start : Time) (recoveryfd : Fd) (requestsfd querysfd : Option Fd) (backupbrokers : List Text)
      (live : List Fd) (actions : List (Proposer.Action Fd Id)),
      Call.openedAfter
        ((recoveryfd :: (requestsfd.toList ++ querysfd.toList)).map .opened) before = some live →
      (Opened.StaysSound Proposer.step Proposer.calls
          (Proposer.owned recoveryfd requestsfd querysfd)
          (.started Proposer.State.fs
            (.init start (some recoveryfd) requestsfd querysfd backupbrokers) live) actions ↔
        requestsfd ≠ none ∧ querysfd ≠ none ∧
          Along (Opened.step Proposer.step Proposer.calls) Proposer.Registers
            (.started Proposer.State.fs
              (.init start (some recoveryfd) requestsfd querysfd backupbrokers) live) actions) := by
  refine ⟨?_, ?_, ?_⟩
  · intro start requestsfd paxossfd live events hKernel
    exact Acceptor.staysSound_iff start requestsfd paxossfd hBefore hKernel events
  · intro cfg start querysfd made landmark acceptorIPs proposerIPs live actions hKernel
    exact Requestor.staysSound_iff cfg start querysfd made landmark acceptorIPs proposerIPs hBefore
      hKernel actions
  · intro start recoveryfd requestsfd querysfd backupbrokers live actions hKernel
    exact Proposer.staysSound_iff start recoveryfd requestsfd querysfd backupbrokers hBefore hKernel
      actions

end Loops

section FailedAccept

/-- The acceptor accepts on 3 and 4. -/
def acceptorLoop : Opened (Acceptor.Loop Nat) Nat :=
  .started Acceptor.Loop.fs (.init 0 3 4) [4, 3, 2, 1, 0]

theorem failed_accept_registered :
    ¬ ∀ events : List (Acceptor.LoopEvent Nat),
      Opened.StaysSound Acceptor.Loop.step Acceptor.Loop.calls Acceptor.Loop.holding acceptorLoop
        events := by
  intro h
  have hExec : (exec (Opened.step Acceptor.Loop.step Acceptor.Loop.calls) acceptorLoop
      [.accept none]).map Opened.array = some (some ⟨[some 3, some 4, none]⟩) := by
    decide
  obtain ⟨u, hRun, hArray⟩ := Option.map_eq_some_iff.mp hExec
  exact Opened.not_registry_of_none hArray (by decide) ((h [.accept none]).last hRun)

/-- An accepted connection that is closed again, an acceptor change whose
client is connected, and a proposer that loses its broker. -/
theorem registry_sound_connected :
    Opened.StaysSound Acceptor.Loop.step Acceptor.Loop.calls Acceptor.Loop.holding acceptorLoop
        [.accept (some 5), .receiveError 5] ∧
      Opened.StaysSound (Requestor.step Requestor.oneAndOne) (Requestor.calls Requestor.oneAndOne)
        (Requestor.owned 3)
        (.started Requestor.State.fs
          (Requestor.started Requestor.oneAndOne 0 3 true none [localhost] [localhost])
          [3, 2, 1, 0])
        [.addAcceptors (Requestor.connected 10)] ∧
      Opened.StaysSound Proposer.step Proposer.calls (Proposer.owned 3 (some 4) (some 5))
        (.started Proposer.State.fs
          (.init 0 (some 3) (some 4) (some 5) [] : Proposer.State Nat Nat) [5, 4, 3, 2, 1, 0])
        [Proposer.watchBroker 1] := by
  obtain ⟨hAcceptor, hRequestor, hProposer⟩ :=
    @registry_sound_iff Nat Nat _ [2, 1, 0] _ (by decide)
  refine ⟨(hAcceptor 0 3 4 _ _ rfl).mpr ?_, (hRequestor _ 0 3 true none _ _ _ _ rfl).mpr ⟨rfl, ?_⟩,
    (hProposer 0 3 (some 4) (some 5) [] _ _ rfl).mpr ⟨by decide, by decide, ?_⟩⟩
  · refine fun u _ => ⟨⟨by simp [Acceptor.Accepts], by decide⟩, fun v _ => ⟨⟨trivial, ?_⟩, trivial⟩⟩
    exact ⟨trivial, trivial, trivial⟩
  · refine fun u _ => ⟨⟨?_, by decide⟩, trivial⟩
    intro o r s ap hCall _ _ i _
    cases hCall
    simp [Requestor.connected]
  · exact fun u _ => ⟨(by decide : Call.AllFit _ _), trivial⟩

end FailedAccept

end QpidRecovery
