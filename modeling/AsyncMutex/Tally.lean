import Mathlib.Data.Fintype.Card
import Mathlib.Algebra.BigOperators.Group.Finset.Piecewise

/-!
# Tallies

The weight of a finite family of states, and how it changes with one of them.
-/

namespace AsyncMutex

variable {τ α : Type*} [Fintype τ]

def tally (weight : α → ℕ) (states : τ → α) : ℕ :=
  ∑ task, weight (states task)

theorem tally_update [DecidableEq τ] (weight : α → ℕ) (states : τ → α) (task : τ)
    (after : α) :
    tally weight (Function.update states task after) + weight (states task) =
      tally weight states + weight after := by
  have hothers :
      (∑ other ∈ Finset.univ.erase task,
          weight (Function.update states task after other)) =
        ∑ other ∈ Finset.univ.erase task, weight (states other) := by
    apply Finset.sum_congr rfl
    intro other hother
    rw [Function.update_of_ne (Finset.ne_of_mem_erase hother)]
  have hafter := Finset.sum_erase_add Finset.univ
    (fun other => weight (Function.update states task after other)) (Finset.mem_univ task)
  have hbefore := Finset.sum_erase_add Finset.univ
    (fun other => weight (states other)) (Finset.mem_univ task)
  simp only [Function.update_self, hothers] at hafter
  unfold tally
  omega

theorem tally_eq_zero {weight : α → ℕ} {states : τ → α}
    (hzero : ∀ task, weight (states task) = 0) : tally weight states = 0 := by
  apply Finset.sum_eq_zero
  intro task _
  exact hzero task

end AsyncMutex
