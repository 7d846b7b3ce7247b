import Mathlib.Data.Finset.Card
import Mathlib.Data.List.Dedup
import Mathlib.Data.Finset.Image
import Mathlib.Logic.Relation

/-! Votes cast by the members of an electorate. A voter holds at most one
vote, so two candidates cannot both have a strict majority. The electorate is
given as a list that may repeat a voter; a repeated voter still counts once. -/
namespace Majority

variable {α β : Type*} [DecidableEq α] [DecidableEq β]

/-- The number of distinct voters of `electorate` whose vote went to `c`. -/
def votesFor (electorate : List α) (vote : α → Option β) (c : β) : Nat :=
  (electorate.toFinset.filter fun a => vote a = some c).card

/-- Votes for two different candidates come from different voters. -/
theorem votesFor_add_le (electorate : List α) (vote : α → Option β) {c d : β} (h : c ≠ d) :
    votesFor electorate vote c + votesFor electorate vote d ≤ electorate.length := by
  have hDisjoint : Disjoint (electorate.toFinset.filter fun a => vote a = some c)
      (electorate.toFinset.filter fun a => vote a = some d) := by
    rw [Finset.disjoint_filter]
    intro a _ hc hd
    exact h (Option.some.inj (hc.symm.trans hd))
  calc votesFor electorate vote c + votesFor electorate vote d
      = ((electorate.toFinset.filter fun a => vote a = some c) ∪
          electorate.toFinset.filter fun a => vote a = some d).card :=
        (Finset.card_union_of_disjoint hDisjoint).symm
    _ ≤ electorate.toFinset.card :=
        Finset.card_le_card (Finset.union_subset (Finset.filter_subset _ _)
          (Finset.filter_subset _ _))
    _ ≤ electorate.length := List.toFinset_card_le electorate

/-- A strict majority, counted as the double of the votes. -/
def IsMajority (electorate : List α) (vote : α → Option β) (c : β) : Prop :=
  electorate.length < votesFor electorate vote c * 2

theorem IsMajority.unique {electorate : List α} {vote : α → Option β} {c d : β}
    (hc : IsMajority electorate vote c) (hd : IsMajority electorate vote d) : c = d := by
  by_contra h
  have hSum := votesFor_add_le electorate vote h
  unfold IsMajority at hc hd
  omega

/-- Casting the vote of a member who has not voted adds one vote. -/
theorem votesFor_cast_self {electorate : List α} {vote : α → Option β} {a : α} {c : β}
    (hMember : a ∈ electorate) (hNew : vote a = none) :
    votesFor electorate (Function.update vote a (some c)) c = votesFor electorate vote c + 1 := by
  have hSet : (electorate.toFinset.filter fun b => Function.update vote a (some c) b = some c) =
      insert a (electorate.toFinset.filter fun b => vote b = some c) := by
    ext b
    by_cases hb : b = a
    · subst hb
      simp [hMember]
    · simp [hb]
  unfold votesFor
  rw [hSet, Finset.card_insert_of_notMem (by simp [hNew])]

/-- A new vote takes nothing from any candidate. -/
theorem votesFor_cast_le (electorate : List α) {vote : α → Option β} {a : α} (c d : β)
    (hNew : vote a = none) :
    votesFor electorate vote d ≤ votesFor electorate (Function.update vote a (some c)) d := by
  apply Finset.card_le_card
  intro b hb
  rw [Finset.mem_filter] at hb ⊢
  refine ⟨hb.1, ?_⟩
  have hne : b ≠ a := by
    rintro rfl
    rw [hNew] at hb
    cases hb.2
  rw [Function.update_of_ne hne, hb.2]

/-- A majority survives every later vote. -/
theorem IsMajority.cast {electorate : List α} {vote : α → Option β} {a : α} {d : β} (c : β)
    (h : IsMajority electorate vote d) (hNew : vote a = none) :
    IsMajority electorate (Function.update vote a (some c)) d := by
  have hLe := votesFor_cast_le electorate c d hNew
  unfold IsMajority at h ⊢
  omega

/-- An election in progress: the votes cast and the candidates declared so
far. -/
structure Ballot (α β : Type*) where
  vote : α → Option β
  elected : List β

namespace Ballot

def empty : Ballot α β := ⟨fun _ => none, []⟩

/-- A member votes once; a candidate is declared on a strict majority. -/
inductive Step (electorate : List α) : Ballot α β → Ballot α β → Prop where
  | cast (b : Ballot α β) (a : α) (c : β) (hNew : b.vote a = none) :
      Step electorate b { b with vote := Function.update b.vote a (some c) }
  | declare (b : Ballot α β) (c : β) (hMajority : IsMajority electorate b.vote c) :
      Step electorate b { b with elected := c :: b.elected }

/-- Every ballot that an election can lead to. -/
def Reachable (electorate : List α) : Ballot α β → Prop :=
  Relation.ReflTransGen (Step electorate) empty

theorem Reachable.isMajority {electorate : List α} {b : Ballot α β}
    (h : Reachable electorate b) : ∀ c ∈ b.elected, IsMajority electorate b.vote c := by
  induction h with
  | refl =>
      intro c hc
      cases hc
  | tail _ last ih =>
      cases last with
      | cast a d hNew =>
          intro c hc
          exact (ih c hc).cast d hNew
      | declare d hMajority =>
          intro c hc
          rcases List.mem_cons.mp hc with rfl | hc
          · exact hMajority
          · exact ih c hc

/-- No election declares two candidates. -/
theorem Reachable.elected_unique {electorate : List α} {b : Ballot α β}
    (h : Reachable electorate b) {c d : β} (hc : c ∈ b.elected) (hd : d ∈ b.elected) : c = d :=
  (h.isMajority c hc).unique (h.isMajority d hd)

end Ballot

end Majority
