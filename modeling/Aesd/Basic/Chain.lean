import Mathlib.Logic.Function.Basic
import Mathlib.Tactic

set_option autoImplicit false

/-! # Null-terminated chains

A memory of elements that point to each other: `links x` is the next pointer of `x`, if `x` is there
at all. `Chain links p xs` says that the elements `xs` are what one meets from the pointer `p` on
until the null pointer. A chain depends only on its elements (`Chain.congr`), it grows and shrinks
at the front (`Chain.push`, `Chain.pop`), and it has no cycle (`Chain.nodup`). -/

/-- From the pointer `p` one comes to `xs`, one after the other, and then to the null pointer. -/
inductive Chain {α : Type*} (links : α → Option (Option α)) : Option α → List α → Prop
  | nil : Chain links none []
  | cons {x : α} {next : Option α} {xs : List α} (there : links x = some next)
      (rest : Chain links next xs) : Chain links (some x) (x :: xs)

namespace Chain

variable {α : Type*} {links links' : α → Option (Option α)} {p : Option α} {x : α} {xs ys : List α}

/-- The first element. -/
theorem head?_eq (h : Chain links p xs) : xs.head? = p := by
  cases h with
  | nil => rfl
  | cons => rfl

/-- There is one chain from a pointer. -/
theorem unique (h : Chain links p xs) (h' : Chain links p ys) : xs = ys := by
  induction h generalizing ys with
  | nil =>
      cases h'
      rfl
  | cons there rest ih =>
      cases h' with
      | cons there' rest' =>
          rw [there] at there'
          obtain rfl := Option.some.inj there'
          rw [ih rest']

/-- Each element begins a chain of its own. -/
theorem of_mem (h : Chain links p xs) (hx : x ∈ xs) :
    ∃ front back, xs = front ++ x :: back ∧ Chain links (some x) (x :: back) := by
  induction h with
  | nil => cases hx
  | @cons y next xs there rest ih =>
      rcases List.mem_cons.mp hx with rfl | hx
      · exact ⟨[], xs, rfl, cons there rest⟩
      · obtain ⟨front, back, rfl, hback⟩ := ih hx
        exact ⟨y :: front, back, rfl, hback⟩

/-- **A chain has no cycle.** -/
theorem nodup (h : Chain links p xs) : xs.Nodup := by
  induction h with
  | nil => exact List.nodup_nil
  | @cons x next xs there rest ih =>
      refine List.nodup_cons.mpr ⟨fun hx => ?_, ih⟩
      -- the chain from `x` would be longer than itself
      obtain ⟨front, back, hxs, hback⟩ := rest.of_mem hx
      have hsame := (cons there rest).unique hback
      have hlength := congrArg List.length hsame
      rw [hxs, List.length_cons, List.length_append, List.length_cons] at hlength
      omega

/-- **A chain depends on its elements only.** -/
theorem congr (h : Chain links p xs) (hsame : ∀ y ∈ xs, links' y = links y) :
    Chain links' p xs := by
  induction h with
  | nil => exact nil
  | @cons y next xs there rest ih =>
      apply cons
      · rw [hsame y List.mem_cons_self, there]
      · exact ih fun z hz => hsame z (List.mem_cons_of_mem y hz)

/-- A new element in front. -/
theorem push (h : Chain links p xs) (hx : x ∉ xs) (there : links' x = some p)
    (hsame : ∀ y, y ≠ x → links' y = links y) : Chain links' (some x) (x :: xs) := by
  apply cons there
  apply h.congr
  intro y hy
  apply hsame
  rintro rfl
  exact hx hy

/-- The chain behind its first element. -/
theorem pop {next : Option α} (h : Chain links (some x) xs) (there : links x = some next) :
    Chain links next xs.tail := by
  cases h with
  | cons there' rest =>
      rw [there] at there'
      obtain rfl := Option.some.inj there'
      exact rest

end Chain
