import Mathlib.Algebra.BigOperators.Group.Finset.Piecewise
import Mathlib.Algebra.Order.BigOperators.Group.Finset
import Mathlib.Tactic.Ring

/-!
Counting over a family of `n` agents. `census n f agents` adds up a weight over
the agents `0 .. n-1`; the lemmas say how it moves when one agent changes and what
the weight of one or two agents says about the whole. Updates are stated as
equations between sums, so that linear arithmetic closes what follows.
-/

namespace Transition

open Function

variable {A : Type}

/-- The total weight of the first `n` agents. -/
def census (n : Nat) (f : A → Nat) (agents : Nat → A) : Nat :=
  ∑ i ∈ Finset.range n, f (agents i)

/-- Replacing one agent moves the census by the difference of its two weights. -/
theorem census_update {n i : Nat} (hi : i < n) (f : A → Nat) (agents : Nat → A) (a : A) :
    census n f (update agents i a) + f (agents i) = census n f agents + f a := by
  have hmem : i ∈ Finset.range n := Finset.mem_range.mpr hi
  have hcomp : (fun j => f (update agents i a j)) =
      update (fun j => f (agents j)) i (f a) := by
    funext j
    by_cases hj : j = i
    · subst hj
      simp
    · simp [hj]
  unfold census
  rw [hcomp, Finset.sum_update_of_mem hmem, ← Finset.add_sum_erase _ _ hmem,
    Finset.sdiff_singleton_eq_erase]
  ring

/-- One agent's weight is part of the census. -/
theorem le_census {n i : Nat} (hi : i < n) (f : A → Nat) (agents : Nat → A) :
    f (agents i) ≤ census n f agents :=
  Finset.single_le_sum (f := fun j => f (agents j)) (fun _ _ => Nat.zero_le _)
    (Finset.mem_range.mpr hi)

/-- The weights of two different agents are both part of the census. -/
theorem add_le_census {n i j : Nat} (hi : i < n) (hj : j < n) (hne : i ≠ j)
    (f : A → Nat) (agents : Nat → A) :
    f (agents i) + f (agents j) ≤ census n f agents := by
  have hmem : i ∈ Finset.range n := Finset.mem_range.mpr hi
  have hrest : f (agents j) ≤ ∑ k ∈ (Finset.range n).erase i, f (agents k) :=
    Finset.single_le_sum (f := fun k => f (agents k)) (fun _ _ => Nat.zero_le _)
      (Finset.mem_erase.mpr ⟨hne.symm, Finset.mem_range.mpr hj⟩)
  unfold census
  rw [← Finset.add_sum_erase _ _ hmem]
  exact Nat.add_le_add_left hrest _

/-- A census is zero exactly when no agent has any weight. -/
theorem census_eq_zero {n : Nat} {f : A → Nat} {agents : Nat → A} :
    census n f agents = 0 ↔ ∀ i, i < n → f (agents i) = 0 := by
  simp [census, Finset.sum_eq_zero_iff]

theorem census_mono {n : Nat} {f g : A → Nat} {agents : Nat → A}
    (hle : ∀ i, i < n → f (agents i) ≤ g (agents i)) : census n f agents ≤ census n g agents :=
  Finset.sum_le_sum fun i hi => hle i (Finset.mem_range.mp hi)

/-- If `f` is bounded by `g` at every agent, the slack of one agent is slack of the
whole. -/
theorem census_slack {n i : Nat} (hi : i < n) (f g : A → Nat) (agents : Nat → A)
    (hle : ∀ j, j < n → f (agents j) ≤ g (agents j)) :
    census n f agents + g (agents i) ≤ census n g agents + f (agents i) := by
  have hmem : i ∈ Finset.range n := Finset.mem_range.mpr hi
  have hrest : ∑ k ∈ (Finset.range n).erase i, f (agents k) ≤
      ∑ k ∈ (Finset.range n).erase i, g (agents k) :=
    Finset.sum_le_sum fun j hj => hle j (Finset.mem_range.mp (Finset.mem_of_mem_erase hj))
  unfold census
  rw [← Finset.add_sum_erase _ _ hmem, ← Finset.add_sum_erase (Finset.range n)
    (fun j => g (agents j)) hmem]
  omega

end Transition
