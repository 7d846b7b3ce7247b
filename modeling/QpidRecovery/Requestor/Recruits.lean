import QpidRecovery.Requestor.Configuration
import QpidRecovery.Setting.NameList

/-! Where the recruits come from. The requestor hands out the names of its two
lists in their order, and asks no host twice to become a proposer. -/
namespace QpidRecovery.Requestor

open NameList

section Fill

/-- `strcpy` into an array for an address. -/
def copyIP (name : Text) : Option IPString :=
  if h : 0 ∉ name ∧ name.length < IP_LENGTH then some ⟨name, h.1, h.2⟩ else none

/-- The loop that fills the new list behind the acceptors that are left. A
`none` is the end of the names, or one that is too long. -/
def fillAcceptors : Nat → VectorAndIndex Text → Option (List IPString × VectorAndIndex Text)
  | 0, v => some ([], v)
  | missing + 1, v =>
      let accip := v.getAnElement
      (accip.1.bind copyIP).bind fun ip =>
        (fillAcceptors missing accip.2).map fun filled => (ip :: filled.1, filled.2)

theorem copyIP_bytes (ip : IPString) : copyIP ip.bytes = some ip := dif_pos ⟨ip.noNul, ip.fits⟩

/-- Names that fit are taken off the list as `newAcceptors` takes them. -/
theorem fillAcceptors_eq {v : VectorAndIndex Text} {ips : List IPString}
    (hLeft : v.left = ips.map CString.bytes) (missing : Nat) :
    (fillAcceptors missing v).map (fun filled => (filled.1, filled.2.left)) =
      if missing ≤ ips.length then
        some (ips.take missing, (ips.drop missing).map CString.bytes)
      else none := by
  induction missing generalizing v ips with
  | zero => simp [fillAcceptors, hLeft]
  | succ missing ih =>
      cases ips with
      | nil =>
          rw [if_neg (by simp), fillAcceptors, VectorAndIndex.getAnElement_nil hLeft]
          rfl
      | cons ip ips =>
          obtain ⟨hFirst, hRest⟩ := VectorAndIndex.getAnElement_cons hLeft
          have hMore := ih hRest
          rw [fillAcceptors, hFirst, Option.bind_some, copyIP_bytes, Option.bind_some]
          by_cases hEnough : missing ≤ ips.length
          · have hAll : missing + 1 ≤ (ip :: ips).length := Nat.succ_le_succ hEnough
            rw [if_pos hEnough] at hMore
            obtain ⟨filled, hFill, hPair⟩ := Option.map_eq_some_iff.mp hMore
            obtain ⟨hTaken, hLast⟩ := Prod.mk.inj hPair
            rw [if_pos hAll, hFill, Option.map_some, Option.map_some, hTaken, hLast]
            rfl
          · have hShort : ¬ missing + 1 ≤ (ip :: ips).length :=
              fun h => hEnough (Nat.le_of_succ_le_succ h)
            rw [if_neg hEnough, Option.map_eq_none_iff] at hMore
            rw [if_neg hShort, hMore]
            rfl

/-- The list that is proposed is what the loop leaves in the array, and the
names that remain are those of the list it reads from. -/
theorem newAcceptors_fills {Fd : Type} {cfg : Config} {s : State Fd} {v : VectorAndIndex Text}
    (hLeft : v.left = s.acceptorIPs.map CString.bytes)
    (hFew : s.acceptors.length ≤ cfg.expectedAcceptors) :
    (newAcceptors cfg s).map (fun l => (l.1, l.2.map CString.bytes)) =
      (fillAcceptors (cfg.expectedAcceptors - s.acceptors.length) v).map
        fun filled => (copyIPArray s.acceptors ++ filled.1, filled.2.left) := by
  have hFill := congrArg (Option.map fun l => (copyIPArray s.acceptors ++ l.1, l.2))
    (fillAcceptors_eq hLeft (cfg.expectedAcceptors - s.acceptors.length))
  rw [Option.map_map] at hFill
  refine Eq.trans ?_ hFill.symm
  unfold newAcceptors
  dsimp only
  by_cases hEnough : cfg.expectedAcceptors - s.acceptors.length ≤ s.acceptorIPs.length
  · rw [if_pos ⟨hFew, hEnough⟩, if_pos hEnough]
    rfl
  · rw [if_neg (fun h => hEnough h.2), if_neg hEnough]
    rfl

end Fill

section Draws
variable {Fd : Type} {cfg : Config} {s t u : State Fd} {asked more : List IPString}

/-- What one iteration takes off the lists, with the requests to proposers that
it writes. -/
structure Draws (s t : State Fd) (asked : List IPString) : Prop where
  proposers : s.proposerIPs = asked ++ t.proposerIPs
  acceptors : t.acceptorIPs <:+ s.acceptorIPs
  kept : (copyIPArray t.proposers).Sublist (copyIPArray s.proposers ++ asked)
  sent : ∃ new, t.sent = s.sent ++ new ∧
    ∀ q ∈ new, q.port = .requestProposer → q.ip ∈ copyIPArray s.proposers ++ asked

/-- An iteration that takes no proposer off its list and writes no request. -/
theorem Draws.quiet (hProposers : t.proposerIPs = s.proposerIPs)
    (hAcceptors : t.acceptorIPs <:+ s.acceptorIPs)
    (hKept : (copyIPArray t.proposers).Sublist (copyIPArray s.proposers))
    (hSent : t.sent = s.sent) : Draws s t [] where
  proposers := hProposers.symm
  acceptors := hAcceptors
  kept := by rwa [List.append_nil]
  sent := ⟨[], by rw [List.append_nil, hSent], nofun⟩

theorem Draws.same (hProposers : t.proposerIPs = s.proposerIPs)
    (hAcceptors : t.acceptorIPs = s.acceptorIPs)
    (hKept : copyIPArray t.proposers = copyIPArray s.proposers) (hSent : t.sent = s.sent) :
    Draws s t [] :=
  .quiet hProposers (hAcceptors ▸ List.suffix_refl _) (hKept ▸ List.Sublist.refl _) hSent

theorem Draws.trans (h : Draws s t asked) (hNext : Draws t u more) :
    Draws s u (asked ++ more) := by
  have hMore : (copyIPArray t.proposers ++ more).Sublist
      (copyIPArray s.proposers ++ (asked ++ more)) := by
    rw [← List.append_assoc]
    exact h.kept.append_right more
  constructor
  · rw [h.proposers, hNext.proposers, List.append_assoc]
  · exact hNext.acceptors.trans h.acceptors
  · exact hNext.kept.trans hMore
  · obtain ⟨first, hFirst, hTo⟩ := h.sent
    obtain ⟨second, hSecond, hTo'⟩ := hNext.sent
    refine ⟨first ++ second, by rw [hSecond, hFirst, List.append_assoc], ?_⟩
    intro q hq hPort
    rcases List.mem_append.mp hq with hOld | hNew
    · rw [← List.append_assoc]
      exact List.mem_append_left _ (hTo q hOld hPort)
    · exact hMore.subset (hTo' q hNew hPort)

theorem sendRequests_to {o : Outcomes Fd} {port : Port} {r : ParticipateRequest} {first : Nat}
    {ips : List IPString} {q : SentRequest} (h : q ∈ sendRequests o port r first ips) :
    q.port = port ∧ q.ip ∈ ips := by
  induction ips generalizing first with
  | nil => cases h
  | cons ip rest ih =>
      rcases List.mem_append.mp h with hHead | hTail
      · split at hHead
        · rw [List.mem_singleton.mp hHead]
          exact ⟨rfl, List.mem_cons_self⟩
        · cases hHead
      · obtain ⟨hPort, hMem⟩ := ih hTail
        exact ⟨hPort, List.mem_cons_of_mem _ hMem⟩

/-- A commit takes nothing off the lists. A new acceptor list is announced to
the proposers that are there. -/
theorem Commit.draws [DecidableEq Fd] {o : Outcomes Fd} {r : PaxosResult} {returned : Int}
    (h : Commit cfg o s r t returned) : Draws s t [] := by
  cases h with
  | nothing | adopted | noted => exact .same rfl rfl rfl rfl
  | installed ap =>
      refine ⟨rfl, List.suffix_refl _, ?_, ?_⟩
      · rw [List.append_nil]
        exact List.Sublist.refl _
      · refine ⟨_, List.append_assoc _ _ _, ?_⟩
        intro q hq hPort
        rw [List.append_nil]
        rcases List.mem_append.mp hq with hAcceptors | hProposers
        · have hOther := (sendRequests_to hAcceptors).1
          rw [hPort] at hOther
          cases hOther
        · exact (sendRequests_to hProposers).2

theorem react_draws [DecidableEq Fd] (s : State Fd)
    (r : Reaction (ProposerStateMachine Fd) Fd) : Draws s (s.react r) [] :=
  .same rfl rfl rfl rfl

/-- The list to propose leaves the end of the names. -/
theorem newAcceptors_rest {acc rest : List IPString} (h : newAcceptors cfg s = some (acc, rest)) :
    rest <:+ s.acceptorIPs := by
  unfold newAcceptors at h
  dsimp only at h
  split_ifs at h
  cases h
  exact List.drop_suffix _ _

/-- Every iteration asks at most one host, the next on the list. -/
theorem step_draws [DecidableEq Fd] {action : Action Fd} (h : step cfg s action = some t) :
    ∃ asked, asked.length ≤ 1 ∧ Draws s t asked := by
  cases step_branch h with
  | wait | unaccepted | accepted | acceptorBeat | acceptorLost | unread =>
      exact ⟨[], zero_le_one, .same rfl rfl rfl rfl⟩
  | proposed acc rest hDue hList hCommit =>
      have hDropped : Draws s { s with
          needchangeacceptor := false
          ischangingacceptor := true
          acceptorIPs := rest } [] :=
        .quiet rfl (newAcceptors_rest hList) (List.Sublist.refl _) rfl
      exact ⟨[], zero_le_one,
        (hDropped.trans (react_draws _ _)).trans (handleCommit_commit hCommit).draws⟩
  | recruited newip rest hDue hList hRequest =>
      refine ⟨[newip], le_refl 1, hList, List.suffix_refl _, ?_, _, rfl, ?_⟩
      · unfold copyIPArray
        rw [List.map_append]
        exact List.Sublist.refl _
      · intro q hq _
        rw [List.mem_singleton.mp hq]
        exact List.mem_append_right _ List.mem_cons_self
  | unreached newip rest hList hRequest =>
      exact ⟨[newip], le_refl 1, hList, List.suffix_refl _, List.sublist_append_left _ _, [],
        (List.append_nil _).symm, nofun⟩
  | expired hIdle =>
      exact ⟨[], zero_le_one, .quiet rfl (List.suffix_refl _) (List.filter_sublist.map _) rfl⟩
  | proposerBeat i hProposer =>
      exact ⟨[], zero_le_one, .same rfl rfl (copyIPArray_readMessage _ _ _) rfl⟩
  | proposerLost i hProposer =>
      exact ⟨[], zero_le_one,
        .quiet rfl (List.suffix_refl _) ((List.eraseIdx_sublist _ _).map _) rfl⟩
  | received hProposers hAcceptors hCommit =>
      exact ⟨[], zero_le_one, (react_draws _ _).trans (handleCommit_commit hCommit).draws⟩

/-- What the iterations of a run take off the lists, one after the other. -/
theorem run_draws [DecidableEq Fd] (run : Transition.Run (step cfg) (fun _ _ => True) s t) :
    ∃ asked, Draws s t asked := by
  apply run.invariant (P := fun v => ∃ asked, Draws s v asked)
  · exact ⟨[], .same rfl rfl rfl rfl⟩
  · rintro v action w ⟨asked, hDraws⟩ _ hStep
    obtain ⟨more, _, hNext⟩ := step_draws hStep
    exact ⟨asked ++ more, hDraws.trans hNext⟩

end Draws

section Runs
variable {Fd : Type} [DecidableEq Fd] {cfg : Config}

/-- The names that were handed out are the first ones of the list, and the
proposers are those of them that are left. -/
structure Drawn (first names acceptorNames used : List IPString) (s : State Fd) : Prop where
  proposers : names = used ++ s.proposerIPs
  acceptors : s.acceptorIPs <:+ acceptorNames
  kept : (copyIPArray s.proposers).Sublist (first ++ used)
  sent : ∀ q ∈ s.sent, q.port = .requestProposer → q.ip ∈ first ++ used

omit [DecidableEq Fd] in
theorem Drawn.draws {first names acceptorNames used asked : List IPString} {s t : State Fd}
    (h : Drawn first names acceptorNames used s) (hDraws : Draws s t asked) :
    Drawn first names acceptorNames (used ++ asked) t := by
  have hMore : (copyIPArray s.proposers ++ asked).Sublist (first ++ (used ++ asked)) := by
    rw [← List.append_assoc]
    exact h.kept.append_right asked
  constructor
  · rw [List.append_assoc, ← hDraws.proposers]
    exact h.proposers
  · exact hDraws.acceptors.trans h.acceptors
  · exact hDraws.kept.trans hMore
  · obtain ⟨new, hSent, hTo⟩ := hDraws.sent
    intro q hq hPort
    rw [hSent] at hq
    rcases List.mem_append.mp hq with hOld | hNew
    · have hThere := h.sent q hOld hPort
      rw [← List.append_assoc]
      exact List.mem_append_left _ hThere
    · exact hMore.subset (hTo q hNew hPort)

theorem init_drawn (cfg : Config) (start : Time) (querysfd : Fd)
    (landmark : Option (IPString × Fd)) (acceptorIPs proposerIPs : List IPString) :
    Drawn (landmark.toList.map Prod.fst) proposerIPs acceptorIPs []
      (State.init cfg start querysfd landmark acceptorIPs proposerIPs) where
  proposers := rfl
  acceptors := List.suffix_refl _
  kept := by
    rw [List.append_nil]
    cases landmark <;> exact List.Sublist.refl _
  sent := nofun

/-- The proposers of every run stand in the order of their names, behind the
landmark, and no request for a proposer was written to a host that is not among
the names handed out. -/
theorem proposers_drawn (cfg : Config) (start : Time) (querysfd : Fd)
    (landmark : Option (IPString × Fd)) (acceptorIPs proposerIPs : List IPString) (s : State Fd)
    (run : Transition.Run (step cfg) (fun _ _ => True)
      (.init cfg start querysfd landmark acceptorIPs proposerIPs) s) :
    ∃ used, Drawn (landmark.toList.map Prod.fst) proposerIPs acceptorIPs used s := by
  obtain ⟨asked, hDraws⟩ := run_draws run
  exact ⟨[] ++ asked, (init_drawn cfg start querysfd landmark acceptorIPs proposerIPs).draws hDraws⟩

/-- A host whose name is spent and that is not a proposer. Since `before` it was
written no request. -/
structure Gone (ip : IPString) (before : List SentRequest) (s : State Fd) : Prop where
  spent : ip ∉ s.proposerIPs
  lost : ip ∉ copyIPArray s.proposers
  silent : ∃ new, s.sent = before ++ new ∧ ∀ q ∈ new, q.port = .requestProposer → q.ip ≠ ip

omit [DecidableEq Fd] in
theorem Gone.draws {ip : IPString} {before : List SentRequest} {s t : State Fd}
    {asked : List IPString} (h : Gone ip before s) (hDraws : Draws s t asked) :
    Gone ip before t := by
  have hSpent := h.spent
  rw [hDraws.proposers, List.mem_append, not_or] at hSpent
  have hNone : ip ∉ copyIPArray s.proposers ++ asked := by
    rw [List.mem_append, not_or]
    exact ⟨h.lost, hSpent.1⟩
  refine ⟨hSpent.2, fun hMem => hNone (hDraws.kept.subset hMem), ?_⟩
  obtain ⟨new, hSent, hOthers⟩ := h.silent
  obtain ⟨more, hMore, hTo⟩ := hDraws.sent
  refine ⟨new ++ more, by rw [hMore, hSent, List.append_assoc], ?_⟩
  intro q hq hPort
  rcases List.mem_append.mp hq with hOld | hNew
  · exact hOthers q hOld hPort
  · rintro rfl
    exact hNone (hTo q hNew hPort)

/-- Where no name is written twice, a proposer that was lost is not recruited
again, and no more requests are written to it. -/
theorem lost_not_recruited (cfg : Config) (start : Time) (querysfd : Fd)
    (landmark : Option (IPString × Fd)) (acceptorIPs proposerIPs : List IPString)
    (hNames : (landmark.toList.map Prod.fst ++ proposerIPs).Nodup) (s t u : State Fd)
    (hReached : Transition.Run (step cfg) (fun _ _ => True)
      (.init cfg start querysfd landmark acceptorIPs proposerIPs) s)
    (hLoses : Transition.Run (step cfg) (fun _ _ => True) s t)
    (hLater : Transition.Run (step cfg) (fun _ _ => True) t u) (ip : IPString)
    (hProposer : ip ∈ copyIPArray s.proposers) (hLost : ip ∉ copyIPArray t.proposers) :
    Gone ip t.sent u := by
  obtain ⟨used, hBefore⟩ := proposers_drawn cfg start querysfd landmark acceptorIPs proposerIPs s
    hReached
  obtain ⟨asked, hDraws⟩ := run_draws hLoses
  obtain ⟨more, hNext⟩ := run_draws hLater
  have hUnused : ip ∉ s.proposerIPs := by
    rw [hBefore.proposers, ← List.append_assoc, List.nodup_append'] at hNames
    exact fun hMem => hNames.2.2 (hBefore.kept.subset hProposer) hMem
  have hSpent : ip ∉ t.proposerIPs := by
    rw [hDraws.proposers, List.mem_append, not_or] at hUnused
    exact hUnused.2
  have hGone : Gone ip t.sent t := ⟨hSpent, hLost, [], (List.append_nil _).symm, nofun⟩
  exact hGone.draws hNext

end Runs

section Spare

/-- A second host for proposers. -/
def spare : IPString := ⟨[49, 48, 46, 48, 46, 50, 46, 55], by decide, by decide⟩

def withSpare : State Nat := .init oneAndOne 0 0 none [localhost] [localhost, spare]

/-- The first proposer is recruited, lost, and replaced. -/
theorem lost_not_recruited_spare : ∃ t u : State Nat,
    copyIPArray u.proposers = [spare] ∧ Gone localhost t.sent u := by
  have hRecruit : (Transition.exec (step oneAndOne) withSpare
      [.addAcceptors (connected 10), .addProposer (connected 20)]).map
        (fun s => copyIPArray s.proposers) = some [localhost] := by
    decide
  obtain ⟨s, hs, hProposer⟩ := Option.map_eq_some_iff.mp hRecruit
  have hLose : (Transition.exec (step oneAndOne) withSpare
      ([.addAcceptors (connected 10), .addProposer (connected 20)] ++
        [.ready 20 false none (connected 40)])).map
        (fun s => copyIPArray s.proposers) = some [] := by
    decide
  rw [Transition.exec_append hs] at hLose
  obtain ⟨t, ht, hLost⟩ := Option.map_eq_some_iff.mp hLose
  have hReplace : (Transition.exec (step oneAndOne) withSpare
      ([.addAcceptors (connected 10), .addProposer (connected 20)] ++
        ([.ready 20 false none (connected 40)] ++ [.addProposer (connected 40)]))).map
        (fun s => copyIPArray s.proposers) = some [spare] := by
    decide
  rw [Transition.exec_append hs, Transition.exec_append ht] at hReplace
  obtain ⟨u, hu, hReplaced⟩ := Option.map_eq_some_iff.mp hReplace
  refine ⟨t, u, hReplaced, lost_not_recruited oneAndOne 0 0 none [localhost] [localhost, spare]
    (by decide) s t u (.of_exec (fun _ _ _ => trivial) hs) (.of_exec (fun _ _ _ => trivial) ht)
    (.of_exec (fun _ _ _ => trivial) hu) localhost ?_ ?_⟩
  · rw [hProposer]
    exact List.mem_cons_self
  · rw [hLost]
    exact List.not_mem_nil

end Spare

end QpidRecovery.Requestor
