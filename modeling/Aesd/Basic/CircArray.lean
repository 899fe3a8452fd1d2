import Mathlib.Data.List.DropRight
import Mathlib.Tactic

set_option autoImplicit false

/-! # Windows of a circular array

An array of `n` slots is read around its end: slot `i` of a walk that starts at `start` is
slot `(start + i) % n`. `window` lists the first `k` slots of such a walk. A bounded queue kept
in the array writes at the end of its window; what that does to the window is
`window_update_append` while there is room and `window_update_rotate` once the window is the
whole array. On lists the same two cases are `rtake_concat`: the last `n` elements of a
sequence that grew by one. -/

namespace CircArray

variable {α : Type*} {n : Nat}

/-- The `k` slots from `start` on, around an array of `n` slots. -/
def window (n : Nat) (slot : Nat → α) (start k : Nat) : List α :=
  (List.range k).map (fun i => slot ((start + i) % n))

@[simp] theorem window_zero (slot : Nat → α) (start : Nat) : window n slot start 0 = [] := rfl

@[simp] theorem window_length (slot : Nat → α) (start k : Nat) :
    (window n slot start k).length = k := by
  simp [window]

theorem window_getElem (slot : Nat → α) (start k i : Nat) (h : i < (window n slot start k).length) :
    (window n slot start k)[i] = slot ((start + i) % n) := by
  simp [window]

theorem window_succ (slot : Nat → α) (start k : Nat) :
    window n slot start (k + 1) = window n slot start k ++ [slot ((start + k) % n)] := by
  simp [window, List.range_succ]

theorem window_cons (slot : Nat → α) (start k : Nat) :
    window n slot start (k + 1) = slot (start % n) :: window n slot (start + 1) k := by
  simp only [window, List.range_succ_eq_map, List.map_cons, List.map_map, Nat.add_zero,
    List.cons.injEq, true_and]
  refine List.map_congr_left (fun i _ => ?_)
  show slot ((start + (i + 1)) % n) = slot ((start + 1 + i) % n)
  rw [show start + (i + 1) = start + 1 + i by omega]

/-- Only the residue of the start matters. -/
theorem window_start_mod (slot : Nat → α) (start k : Nat) :
    window n slot (start % n) k = window n slot start k := by
  simp [window, Nat.mod_add_mod]

theorem window_congr {slot slot' : Nat → α} {start k : Nat}
    (h : ∀ i, i < k → slot ((start + i) % n) = slot' ((start + i) % n)) :
    window n slot start k = window n slot' start k :=
  List.map_congr_left (fun i hi => h i (List.mem_range.mp hi))

/-- Two distinct steps of a walk shorter than one turn are at distinct slots. -/
theorem add_mod_ne {start i j : Nat} (hij : i < j) (hj : j < i + n) :
    (start + i) % n ≠ (start + j) % n := by
  intro h
  have hdvd : n ∣ (start + j) - (start + i) := (Nat.modEq_iff_dvd' (by omega)).mp h
  have hle := Nat.le_of_dvd (by omega) hdvd
  omega

/-- A write outside the window leaves it unchanged. -/
theorem window_update_outside (slot : Nat → α) (start k j : Nat) (x : α)
    (hk : k ≤ j) (hj : j < n) :
    window n (Function.update slot ((start + j) % n) x) start k = window n slot start k :=
  window_congr (fun i hi => Function.update_of_ne (add_mod_ne (by omega) (by omega)) _ _)

/-- **Room left**: a write just behind the window extends it by the new element. -/
theorem window_update_append (slot : Nat → α) (start k : Nat) (x : α) (hk : k < n) :
    window n (Function.update slot ((start + k) % n) x) start (k + 1)
      = window n slot start k ++ [x] := by
  rw [window_succ, window_update_outside slot start k k x (Nat.le_refl k) hk,
    Function.update_self]

/-- **Full turn**: a write at the start of a window that is the whole array drops the oldest
element and appends the new one, once the start has moved on. -/
theorem window_update_rotate (slot : Nat → α) (start : Nat) (x : α) (hn : 0 < n) :
    window n (Function.update slot (start % n) x) (start + 1) n
      = (window n slot start n).tail ++ [x] := by
  obtain ⟨m, rfl⟩ : ∃ m, n = m + 1 := ⟨n - 1, by omega⟩
  -- a walk that starts one further on ends at the slot just written
  have hlast : (start + 1 + m) % (m + 1) = start % (m + 1) := by
    rw [show start + 1 + m = start + (m + 1) by omega, Nat.add_mod_right]
  have h := window_update_append slot (start + 1) m x (Nat.lt_succ_self m)
  rw [hlast] at h
  rw [h, window_cons, List.tail_cons]

/-! ## The last `n` elements of a sequence -/

theorem rtake_of_length_le {xs : List α} (h : xs.length ≤ n) : xs.rtake n = xs := by
  simp [List.rtake, Nat.sub_eq_zero_of_le h]

theorem length_rtake (xs : List α) : (xs.rtake n).length = min xs.length n := by
  simp [List.rtake]
  omega

/-- One more element: the last `n` elements gain it, and lose the oldest one when there were
already `n`. -/
theorem rtake_concat (xs : List α) (x : α) (hn : 0 < n) :
    (xs ++ [x]).rtake n
      = (if xs.length < n then xs.rtake n else (xs.rtake n).tail) ++ [x] := by
  obtain ⟨m, rfl⟩ : ∃ m, n = m + 1 := ⟨n - 1, by omega⟩
  rw [List.rtake_concat_succ]
  by_cases h : xs.length < m + 1
  · rw [if_pos h, rtake_of_length_le (by omega), rtake_of_length_le (by omega)]
  · rw [if_neg h]
    simp only [List.rtake, List.tail_drop]
    congr 2
    omega

/-- Keeping the last `n` of a kept suffix and one more is keeping the last `n` of all. -/
theorem rtake_rtake_append (xs ys : List α) :
    (xs.rtake n ++ ys).rtake n = (xs ++ ys).rtake n := by
  by_cases h : xs.length ≤ n
  · rw [rtake_of_length_le h]
  · simp only [List.rtake, List.length_append, List.length_drop, List.drop_append, List.drop_drop]
    congr 2 <;> omega

/-- The whole is what was dropped followed by what was kept. -/
theorem rdrop_append_rtake (xs : List α) : xs.rdrop n ++ xs.rtake n = xs := by
  simp [List.rdrop, List.rtake]

end CircArray
