import Mathlib.Tactic

set_option autoImplicit false

/-! # Gathering pieces into groups

Pieces arrive one after another and are concatenated into a group until a piece that *closes*
the group has arrived. `gather` returns the closed groups and the group still open; nothing is
lost or reordered (`flatten_gather`). -/

namespace Gather

variable {α : Type*} (closes : List α → Bool)

/-- One more piece. -/
def gatherStep (acc : List (List α) × List α) (piece : List α) : List (List α) × List α :=
  if closes piece then (acc.1 ++ [acc.2 ++ piece], []) else (acc.1, acc.2 ++ piece)

/-- The closed groups of a sequence of pieces, and the open one. -/
def gather (pieces : List (List α)) : List (List α) × List α :=
  pieces.foldl (gatherStep closes) ([], [])

@[simp] theorem gather_nil : gather closes ([] : List (List α)) = ([], []) := rfl

theorem gather_concat (pieces : List (List α)) (piece : List α) :
    gather closes (pieces ++ [piece]) = gatherStep closes (gather closes pieces) piece :=
  List.foldl_append ..

/-- **Nothing is lost or reordered.** -/
theorem flatten_gather (pieces : List (List α)) :
    (gather closes pieces).1.flatten ++ (gather closes pieces).2 = pieces.flatten := by
  induction pieces using List.reverseRecOn with
  | nil => rfl
  | append_singleton pieces piece ih =>
      rw [gather_concat, List.flatten_concat, ← ih, gatherStep]
      cases closes piece with
      | true => simp
      | false => simp

end Gather
