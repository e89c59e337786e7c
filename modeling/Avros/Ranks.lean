import Mathlib.Logic.Function.Basic
import Mathlib.Logic.Relation

/-! Relations that go up in rank: no walk along one comes back, and each leads out of any list
that holds its beginnings. Against the rank, every walk ends. -/
namespace Avros.Ranks
open Relation

variable {α : Type} {R : α → α → Prop} {rank : α → Nat} {p q : α}

theorem climbs (up : ∀ p q, R p q → rank p < rank q) (walk : TransGen R p q) : rank p < rank q := by
  induction walk with
  | single first => exact up _ _ first
  | tail _ last ih => exact Nat.lt_trans ih (up _ _ last)

theorem noCycle (up : ∀ p q, R p q → rank p < rank q) (p : α) : ¬ TransGen R p p :=
  fun walk => Nat.lt_irrefl _ (climbs up walk)

theorem rankBounded (rank : α → Nat) (l : List α) : ∃ top, ∀ p ∈ l, rank p ≤ top := by
  induction l with
  | nil => exact ⟨0,nofun⟩
  | cons p l ih =>
    obtain ⟨top,below⟩ := ih
    refine ⟨max (rank p) top,fun q member => ?_⟩
    rcases List.mem_cons.mp member with rfl | later
    · exact Nat.le_max_left ..
    · exact Nat.le_trans (below q later) (Nat.le_max_right ..)

theorem walkEnds (up : ∀ p q, R p q → rank p < rank q) (l : List α) (begins : ∀ p q, R p q → p ∈ l) (p : α) :
    ∃ r, ReflTransGen R p r ∧ ∀ q, ¬ R r q := by
  obtain ⟨top,below⟩ := rankBounded rank l
  induction left : top + 1 - rank p using Nat.strongRecOn generalizing p with
  | _ n ih =>
    by_cases more : ∃ q, R p q
    · obtain ⟨q,step⟩ := more
      have higher := up p q step
      have inside := below p (begins p q step)
      obtain ⟨r,walk,last⟩ := ih (top + 1 - rank q) (by omega) q rfl
      exact ⟨r,.head step walk,last⟩
    · exact ⟨p,.refl,not_exists.mp more⟩

theorem walkSettles (down : ∀ p q, R p q → rank q < rank p) (p : α) : ∃ r, ReflTransGen R p r ∧ ∀ q, ¬ R r q := by
  induction height : rank p using Nat.strongRecOn generalizing p with
  | _ n ih =>
    by_cases more : ∃ q, R p q
    · obtain ⟨q,step⟩ := more
      obtain ⟨r,walk,last⟩ := ih (rank q) (height ▸ down p q step) q rfl
      exact ⟨r,.head step walk,last⟩
    · exact ⟨p,.refl,not_exists.mp more⟩

theorem leafRanked [DecidableEq α] {S : α → α → Prop} {leaf stem : α} (down : ∀ p q, R p q → rank q < rank p)
    (apart : ∀ p, ¬ R p leaf) (other : stem ≠ leaf)
    (grown : ∀ p q, S p q → p = leaf ∧ q = stem ∨ p ≠ leaf ∧ R p q) :
    ∃ rank', ∀ p q, S p q → (rank' : α → Nat) q < rank' p := by
  refine ⟨Function.update rank leaf (rank stem + 1),fun p q step => ?_⟩
  rcases grown p q step with ⟨rfl,rfl⟩ | ⟨old,before⟩
  · rw [Function.update_self,Function.update_of_ne other]
    exact Nat.lt_succ_self _
  · have away : q ≠ leaf := fun same => apart p (same ▸ before)
    rw [Function.update_of_ne old,Function.update_of_ne away]
    exact down p q before

end Avros.Ranks
