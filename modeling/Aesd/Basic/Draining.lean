import Mathlib.Tactic

set_option autoImplicit false

/-! # Draining a content in pieces

A reader moves through a content by steps of its own choice: `pos n` is where step `n` starts and
`step n` how far it goes. If every step below the end makes progress and stays inside
(`Drains`), the end is reached after as many steps as there are elements left, nothing happens
from there on, and the pieces make up the rest of the content, whatever the steps are. -/

namespace Draining

variable {α : Type*} {content : List α} {pos step : Nat → Nat}

/-- The steps drain the content. -/
structure Drains (content : List α) (pos step : Nat → Nat) : Prop where
  next : ∀ n, pos (n + 1) = pos n + step n
  below : ∀ n, pos n < content.length → 0 < step n ∧ pos n + step n ≤ content.length
  at_end : ∀ n, content.length ≤ pos n → step n = 0

namespace Drains

theorem mono (h : Drains content pos step) (m n : Nat) : pos m ≤ pos (m + n) := by
  induction n with
  | zero => exact Nat.le_refl _
  | succ n ih =>
      rw [← Nat.add_assoc, h.next]
      omega

/-- No step goes beyond the end. -/
theorem pos_le (h : Drains content pos step) (hstart : pos 0 ≤ content.length) (n : Nat) :
    pos n ≤ content.length := by
  induction n with
  | zero => exact hstart
  | succ n ih =>
      rw [h.next]
      rcases Nat.lt_or_ge (pos n) content.length with hlt | hge
      · exact (h.below n hlt).2
      · rw [h.at_end n hge]
        exact ih

/-- After `n` steps the end is reached, or `n` elements have been passed. -/
theorem progress (h : Drains content pos step) (n : Nat) :
    content.length ≤ pos n ∨ pos 0 + n ≤ pos n := by
  induction n with
  | zero => exact Or.inr (Nat.le_refl _)
  | succ n ih =>
      rw [h.next]
      rcases Nat.lt_or_ge (pos n) content.length with hlt | hge
      · have hstep := (h.below n hlt).1
        right
        omega
      · left
        omega

/-- **The end is reached** after as many steps as there are elements left. -/
theorem reaches (h : Drains content pos step) {n : Nat} (hn : content.length - pos 0 ≤ n) :
    content.length ≤ pos n := by
  rcases h.progress n with hend | hmore
  · exact hend
  · omega

/-- **The pieces make up the content**, from where the first step starts. -/
theorem flatten (h : Drains content pos step) (n : Nat) :
    ((List.range n).map fun i => (content.drop (pos i)).take (step i)).flatten
      = (content.drop (pos 0)).take (pos n - pos 0) := by
  induction n with
  | zero => simp
  | succ n ih =>
      have hle : pos 0 ≤ pos n := by simpa using h.mono 0 n
      have hsum : pos (n + 1) - pos 0 = pos n - pos 0 + step n := by
        rw [h.next]
        omega
      have hdrop : content.drop (pos n) = (content.drop (pos 0)).drop (pos n - pos 0) := by
        rw [List.drop_drop]
        congr 1
        omega
      rw [List.range_succ, List.map_append, List.flatten_append, ih, hsum, List.take_add]
      simp [hdrop]

/-- From the end on, they make up all of it. -/
theorem flatten_of_reached (h : Drains content pos step) {n : Nat}
    (hn : content.length - pos 0 ≤ n) :
    ((List.range n).map fun i => (content.drop (pos i)).take (step i)).flatten
      = content.drop (pos 0) := by
  rw [h.flatten, List.take_of_length_le]
  rw [List.length_drop]
  have := h.reaches hn
  omega

end Drains

end Draining
