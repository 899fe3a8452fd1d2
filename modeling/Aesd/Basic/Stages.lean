import Mathlib.Tactic

set_option autoImplicit false

/-! # Logs of stages

Objects go through numbered stages, and a log records who enters which: the entry `(k, j)` says
that `k` enters its stage `j`. In an orderly log every object enters its stages in order, each
once (`Orderly`). How often a stage was entered, and what was entered before it, is then known
from how far the object has come (`Orderly.count_eq`, `Orderly.mem_before`). -/

namespace Stages

variable {κ : Type*} [DecidableEq κ]

/-- How many stages `k` has entered. -/
def reached (log : List (κ × Nat)) (k : κ) : Nat := log.countP fun entry => entry.1 = k

/-- Every object enters its stages in order. -/
inductive Orderly : List (κ × Nat) → Prop
  | nil : Orderly []
  | snoc {log : List (κ × Nat)} {k : κ} : Orderly log → Orderly (log ++ [(k, reached log k)])

@[simp] theorem reached_nil (k : κ) : reached [] k = 0 := rfl

@[simp] theorem reached_concat_self (log : List (κ × Nat)) (k : κ) (j : Nat) :
    reached (log ++ [(k, j)]) k = reached log k + 1 := by
  simp [reached]

theorem reached_concat_ne (log : List (κ × Nat)) {k k' : κ} (j : Nat) (hne : k' ≠ k) :
    reached (log ++ [(k', j)]) k = reached log k := by
  simp [reached, hne]

/-- **A stage was entered once if the object is past it**, and else not at all. -/
theorem Orderly.count_eq {log : List (κ × Nat)} (h : Orderly log) (k : κ) (j : Nat) :
    log.count (k, j) = if j < reached log k then 1 else 0 := by
  induction h with
  | nil => rfl
  | snoc h ih =>
      rename_i log k'
      have hlast : [(k', reached log k')].count (k, j)
          = if k' = k ∧ reached log k' = j then 1 else 0 := by
        rw [List.count_singleton]
        simp only [beq_iff_eq, Prod.mk.injEq]
      rw [List.count_append, ih, hlast]
      by_cases hk : k' = k
      · -- its own stage: the next one, which it has not entered before
        subst hk
        simp only [reached_concat_self, true_and]
        split_ifs <;> omega
      · simp only [reached_concat_ne _ _ hk, hk, false_and, if_false, Nat.add_zero]

theorem Orderly.mem_iff {log : List (κ × Nat)} (h : Orderly log) (k : κ) (j : Nat) :
    (k, j) ∈ log ↔ j < reached log k := by
  rw [← List.count_pos_iff, h.count_eq]
  split <;> simp [*]

/-- An initial part of an orderly log is orderly. -/
theorem Orderly.of_append {log log' : List (κ × Nat)} (h : Orderly (log ++ log')) :
    Orderly log := by
  induction log' using List.reverseRecOn with
  | nil => rwa [List.append_nil] at h
  | append_singleton log' entry ih =>
      rw [← List.append_assoc] at h
      generalize hr : log ++ log' ++ [entry] = r at h
      cases h with
      | nil => exact absurd hr (by simp)
      | snoc h =>
          obtain ⟨heq, -⟩ := List.append_inj' hr rfl
          exact ih (heq ▸ h)

/-- **Before a stage is entered, all earlier ones have been.** -/
theorem Orderly.mem_before {log log' : List (κ × Nat)} {k : κ} {i j : Nat}
    (h : Orderly (log ++ (k, j) :: log')) (hij : i < j) : (k, i) ∈ log := by
  have h' : Orderly (log ++ [(k, j)]) := by
    rw [List.append_cons] at h
    exact h.of_append
  generalize hr : log ++ [(k, j)] = r at h'
  cases h' with
  | nil => exact absurd hr (by simp)
  | snoc h' =>
      obtain ⟨rfl, hlast⟩ := List.append_inj' hr rfl
      cases hlast
      exact (h'.mem_iff k i).mpr hij

end Stages
