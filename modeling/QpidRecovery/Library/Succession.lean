import QpidRecovery.Library.Majority

/-! A succession of electorates. The candidate that is declared in a term may
appoint the electorate of the next one, or close the succession. The first
candidate is declared without a vote; every later one needs a strict majority
of the electorate of its term. -/
namespace Succession

open Majority

variable {α β : Type*}

/-- A declared candidate, with the electorate it appointed. -/
structure Election (α β : Type*) where
  term : Nat
  candidate : β
  successor : Option (List α)

structure State (α β : Type*) where
  electorate : Nat → Option (List α)
  vote : Nat → α → Option β
  elected : List (Election α β)

def empty : State α β := ⟨fun _ => none, fun _ _ => none, []⟩

namespace State

def cast [DecidableEq α] (s : State α β) (term : Nat) (a : α) (c : β) : State α β :=
  { s with vote := Function.update s.vote term (Function.update (s.vote term) a (some c)) }

def declare (s : State α β) (e : Election α β) : State α β where
  electorate := fun term =>
    if term = e.term + 1 ∧ e.successor.isSome then e.successor else s.electorate term
  vote := s.vote
  elected := s.elected ++ [e]

theorem declare_electorate_of_ne (s : State α β) {e : Election α β} {term : Nat}
    (h : term ≠ e.term + 1) : (s.declare e).electorate term = s.electorate term :=
  if_neg fun hBoth => h hBoth.1

/-- Appointing a new electorate leaves the others in place. -/
theorem declare_electorate (s : State α β) {e : Election α β}
    (hFresh : s.electorate (e.term + 1) = none) {term : Nat} {l : List α}
    (hElectorate : s.electorate term = some l) : (s.declare e).electorate term = some l := by
  rw [s.declare_electorate_of_ne, hElectorate]
  rintro rfl
  rw [hFresh] at hElectorate
  cases hElectorate

theorem vote_cast [DecidableEq α] (s : State α β) (term : Nat) (a : α) (c : β) (term' : Nat) :
    (s.cast term a c).vote term' =
      if term' = term then Function.update (s.vote term) a (some c) else s.vote term' := by
  by_cases hTerm : term' = term
  · subst hTerm
    rw [if_pos rfl]
    exact Function.update_self ..
  · rw [if_neg hTerm]
    exact Function.update_of_ne hTerm _ _

end State

section Step
variable [DecidableEq α] [DecidableEq β]

/-- A member of an electorate votes once in its term, and a candidate is
declared once. -/
inductive Step : State α β → State α β → Prop where
  | found (s : State α β) (e : Election α β) (hFirst : s.elected = []) : Step s (s.declare e)
  | cast (s : State α β) (term : Nat) (l : List α) (a : α) (c : β)
      (hElectorate : s.electorate term = some l) (hMember : a ∈ l)
      (hNew : s.vote term a = none) : Step s (s.cast term a c)
  | declare (s : State α β) (e : Election α β) (l : List α)
      (hElectorate : s.electorate e.term = some l)
      (hMajority : IsMajority l (s.vote e.term) e.candidate)
      (hOnce : ∀ f ∈ s.elected, f.candidate ≠ e.candidate) : Step s (s.declare e)

/-- Every succession that can come about. -/
def Reachable : State α β → Prop := Relation.ReflTransGen Step empty

/-- A declared candidate was voted for, unless it was the first. -/
def Legitimate (s : State α β) (e : Election α β) : Prop :=
  (∃ l, s.electorate e.term = some l ∧ IsMajority l (s.vote e.term) e.candidate) ∨
    (s.electorate e.term = none ∧ ∀ f ∈ s.elected, e.term ≤ f.term)

structure Inv (s : State α β) : Prop where
  terms : (s.elected.map Election.term).Nodup
  appointed : ∀ term l, s.electorate term = some l →
    ∃ e ∈ s.elected, e.term + 1 = term ∧ e.successor = some l
  successor : ∀ e ∈ s.elected, ∀ l, e.successor = some l → s.electorate (e.term + 1) = some l
  legitimate : ∀ e ∈ s.elected, Legitimate s e
  voters : ∀ term a c, s.vote term a = some c → ∃ l, s.electorate term = some l

namespace Inv
variable {s : State α β}

theorem unique (h : Inv s) {e f : Election α β} (he : e ∈ s.elected) (hf : f ∈ s.elected)
    (hTerm : e.term = f.term) : e = f :=
  List.inj_on_of_nodup_map h.terms he hf hTerm

/-- A candidate that can still be declared is the first in its term. -/
theorem fresh_term (h : Inv s) {e : Election α β} {l : List α}
    (hElectorate : s.electorate e.term = some l)
    (hMajority : IsMajority l (s.vote e.term) e.candidate)
    (hOnce : ∀ f ∈ s.elected, f.candidate ≠ e.candidate) : ∀ f ∈ s.elected, f.term ≠ e.term := by
  intro f hf hTerm
  rcases h.legitimate f hf with ⟨l', hOther, hVotes⟩ | ⟨hNone, _⟩
  · rw [hTerm, hElectorate] at hOther
    cases hOther
    rw [hTerm] at hVotes
    exact hOnce f hf (hVotes.unique hMajority)
  · rw [hTerm, hElectorate] at hNone
    cases hNone

/-- Nobody is appointed for the term after one without a declared candidate. -/
theorem fresh_electorate (h : Inv s) {term : Nat} (hNew : ∀ f ∈ s.elected, f.term ≠ term) :
    s.electorate (term + 1) = none := by
  cases hElectorate : s.electorate (term + 1) with
  | none => rfl
  | some l =>
      obtain ⟨f, hf, hTerm, _⟩ := h.appointed _ l hElectorate
      exact absurd (Nat.succ.inj hTerm) (hNew f hf)

/-- Every term that has an electorate comes after the first one. -/
theorem first_lt (h : Inv s) {e : Election α β} (hFirst : ∀ f ∈ s.elected, e.term ≤ f.term)
    {term : Nat} {l : List α} (hElectorate : s.electorate term = some l) : e.term < term := by
  obtain ⟨f, hf, hTerm, _⟩ := h.appointed term l hElectorate
  have hLe := hFirst f hf
  omega

/-- Declaring a candidate in a new term. -/
theorem declare (h : Inv s) {e : Election α β} (hNew : ∀ f ∈ s.elected, f.term ≠ e.term)
    (hLegitimate : (∃ l, s.electorate e.term = some l ∧
      IsMajority l (s.vote e.term) e.candidate) ∨ s.elected = []) : Inv (s.declare e) := by
  have hFresh := h.fresh_electorate hNew
  constructor
  · have hTerm : e.term ∉ s.elected.map Election.term := by
      intro hMem
      obtain ⟨f, hf, hEq⟩ := List.mem_map.mp hMem
      exact hNew f hf hEq
    rw [State.declare, List.map_append, List.map_singleton]
    exact h.terms.append (List.nodup_singleton _) (by simpa [List.disjoint_singleton] using hTerm)
  · intro term l hElectorate
    simp only [State.declare] at hElectorate
    split at hElectorate
    next hNext =>
      exact ⟨e, List.mem_append_right _ (List.mem_singleton_self e), hNext.1.symm, hElectorate⟩
    next hOther =>
      obtain ⟨f, hf, hRest⟩ := h.appointed term l hElectorate
      exact ⟨f, List.mem_append_left _ hf, hRest⟩
  · intro f hf l hSuccessor
    rcases List.mem_append.mp hf with hOld | hLast
    · have hOther : f.term + 1 ≠ e.term + 1 := fun hSame => hNew f hOld (Nat.succ.inj hSame)
      rw [s.declare_electorate_of_ne hOther]
      exact h.successor f hOld l hSuccessor
    · rw [List.mem_singleton.mp hLast] at hSuccessor ⊢
      exact (if_pos ⟨rfl, by rw [hSuccessor]; rfl⟩).trans hSuccessor
  · intro f hf
    rcases List.mem_append.mp hf with hOld | hLast
    · rcases h.legitimate f hOld with ⟨l, hElectorate, hVotes⟩ | ⟨hNone, hFirst⟩
      · exact .inl ⟨l, s.declare_electorate hFresh hElectorate, hVotes⟩
      · have hBefore : f.term < e.term := by
          rcases hLegitimate with ⟨l, hElectorate, _⟩ | hEmpty
          · exact h.first_lt hFirst hElectorate
          · rw [hEmpty] at hOld
            cases hOld
        refine .inr ⟨?_, ?_⟩
        · rw [s.declare_electorate_of_ne (by omega), hNone]
        · intro g hg
          rcases List.mem_append.mp hg with hOld' | hLast
          · exact hFirst g hOld'
          · rw [List.mem_singleton.mp hLast]
            exact Nat.le_of_lt hBefore
    · rw [List.mem_singleton.mp hLast]
      rcases hLegitimate with ⟨l, hElectorate, hVotes⟩ | hEmpty
      · exact .inl ⟨l, s.declare_electorate hFresh hElectorate, hVotes⟩
      · refine .inr ⟨?_, ?_⟩
        · have hNone : s.electorate e.term = none := by
            cases hElectorate : s.electorate e.term with
            | none => rfl
            | some l =>
                obtain ⟨g, hg, _⟩ := h.appointed _ l hElectorate
                rw [hEmpty] at hg
                cases hg
          rw [s.declare_electorate_of_ne (by omega), hNone]
        · intro g hg
          rw [State.declare, hEmpty, List.nil_append] at hg
          rw [List.mem_singleton.mp hg]
  · intro term a c hVote
    obtain ⟨l, hElectorate⟩ := h.voters term a c hVote
    exact ⟨l, s.declare_electorate hFresh hElectorate⟩

theorem cast (h : Inv s) {term : Nat} {l : List α} {a : α} (c : β)
    (hElectorate : s.electorate term = some l) (hNew : s.vote term a = none) :
    Inv (s.cast term a c) where
  terms := h.terms
  appointed := h.appointed
  successor := h.successor
  legitimate := by
    intro e he
    rcases h.legitimate e he with ⟨l', hOther, hVotes⟩ | hFirst
    · refine .inl ⟨l', hOther, ?_⟩
      rw [State.vote_cast]
      split
      next hTerm =>
        rw [hTerm] at hVotes
        exact hVotes.cast c hNew
      · exact hVotes
    · exact .inr hFirst
  voters := by
    intro term' a' c' hVote
    rw [State.vote_cast] at hVote
    split at hVote
    next hTerm => exact ⟨l, hTerm ▸ hElectorate⟩
    · exact h.voters term' a' c' hVote

theorem step (h : Inv s) {t : State α β} (hStep : Step s t) : Inv t := by
  cases hStep with
  | found e hFirst => exact h.declare (by simp [hFirst]) (.inr hFirst)
  | cast term l a c hElectorate _ hNew => exact h.cast c hElectorate hNew
  | declare e l hElectorate hMajority hOnce =>
      exact h.declare (h.fresh_term hElectorate hMajority hOnce) (.inl ⟨l, hElectorate, hMajority⟩)

/-- Nobody is appointed for any term after one that closed the succession. -/
theorem closed (h : Inv s) {e : Election α β} (he : e ∈ s.elected) (hLast : e.successor = none)
    (n : Nat) : s.electorate (e.term + n + 1) = none := by
  induction n with
  | zero =>
      cases hElectorate : s.electorate (e.term + 0 + 1) with
      | none => rfl
      | some l =>
          obtain ⟨f, hf, hTerm, hSuccessor⟩ := h.appointed _ l hElectorate
          rw [h.unique hf he (Nat.succ.inj hTerm), hLast] at hSuccessor
          cases hSuccessor
  | succ n ih =>
      cases hElectorate : s.electorate (e.term + (n + 1) + 1) with
      | none => rfl
      | some l =>
          obtain ⟨f, hf, hTerm, _⟩ := h.appointed _ l hElectorate
          have hEq : f.term = e.term + n + 1 := Nat.succ.inj hTerm
          rcases h.legitimate f hf with ⟨l', hOther, _⟩ | ⟨_, hFirst⟩
          · rw [hEq, ih] at hOther
            cases hOther
          · have hLe := hFirst e he
            omega

/-- At most one candidate closes the succession. -/
theorem last_unique (h : Inv s) {e f : Election α β} (he : e ∈ s.elected) (hf : f ∈ s.elected)
    (hLast : e.successor = none) (hLast' : f.successor = none) : e = f := by
  have hOrder {e f : Election α β} (he : e ∈ s.elected) (hf : f ∈ s.elected)
      (hLast : e.successor = none) : ¬ e.term < f.term := by
    intro hLt
    rcases h.legitimate f hf with ⟨l, hElectorate, _⟩ | ⟨_, hFirst⟩
    · have hClosed := h.closed he hLast (f.term - e.term - 1)
      rw [show e.term + (f.term - e.term - 1) + 1 = f.term by omega, hElectorate] at hClosed
      cases hClosed
    · have hLe := hFirst e he
      omega
  have hLt := hOrder he hf hLast
  have hLt' := hOrder hf he hLast'
  exact h.unique he hf (by omega)

/-- The same as a count. -/
theorem last_length (h : Inv s) :
    (s.elected.filter fun e => e.successor.isNone).length ≤ 1 := by
  have hNodup : (s.elected.filter fun e => e.successor.isNone).Nodup :=
    h.terms.of_map.filter _
  have hSame : ∀ e ∈ s.elected.filter (fun e => e.successor.isNone),
      ∀ f ∈ s.elected.filter (fun e => e.successor.isNone), e = f := by
    intro e he f hf
    rw [List.mem_filter, Option.isNone_iff_eq_none] at he hf
    exact h.last_unique he.1 hf.1 he.2 hf.2
  generalize s.elected.filter (fun e => e.successor.isNone) = last at hNodup hSame
  match last, hNodup, hSame with
  | [], _, _ => exact Nat.zero_le 1
  | [_], _, _ => exact Nat.le_refl 1
  | e :: f :: _, hNodup, hSame =>
      have hEq := hSame e List.mem_cons_self f (List.mem_cons_of_mem _ List.mem_cons_self)
      rw [hEq] at hNodup
      exact absurd List.mem_cons_self (List.nodup_cons.mp hNodup).1

end Inv

theorem Reachable.inv {s : State α β} (h : Reachable s) : Inv s := by
  induction h with
  | refl => exact ⟨List.nodup_nil, by simp [empty], by simp [empty], by simp [empty], by simp [empty]⟩
  | tail _ last ih => exact ih.step last

end Step

end Succession
