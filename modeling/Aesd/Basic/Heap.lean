import Mathlib.Logic.Function.Basic
import Mathlib.Tactic

set_option autoImplicit false

/-! # A heap of separately allocated blocks

A heap maps addresses to the contents of the live block that starts there. `alloc` adds or
replaces a block, `free` removes one, `load` and `store` access a range of cells inside one
block and fail when the block is not live or the range leaves it. The lemmas are the usual
algebra: what an operation does at its own address, that it leaves the others alone, and that
a block allocated at a fresh address and freed again leaves no trace (`free_alloc`). -/

/-- The live blocks of a heap, by the address they start at. -/
@[ext] structure Heap (α : Type*) where
  block : Nat → Option (List α)

namespace Heap

variable {α : Type*}

/-- No block is live. -/
def empty : Heap α := ⟨fun _ => none⟩

/-- `a` is the address of a live block. -/
def Live (h : Heap α) (a : Nat) : Prop := (h.block a).isSome

instance (h : Heap α) (a : Nat) : Decidable (h.Live a) :=
  inferInstanceAs (Decidable ((h.block a).isSome = true))

/-- Make `cells` the contents of the block at `a`. -/
def alloc (h : Heap α) (a : Nat) (cells : List α) : Heap α :=
  ⟨Function.update h.block a (some cells)⟩

/-- Remove the block at `a`. -/
def free (h : Heap α) (a : Nat) : Heap α := ⟨Function.update h.block a none⟩

/-- The `len` cells from offset `off` of the block at `a`. -/
def load (h : Heap α) (a off len : Nat) : Option (List α) :=
  match h.block a with
  | none => none
  | some cells => if off + len ≤ cells.length then some ((cells.drop off).take len) else none

/-- `cells` with the range from `off` on replaced by `xs`. -/
def overwrite (cells : List α) (off : Nat) (xs : List α) : List α :=
  cells.take off ++ xs ++ cells.drop (off + xs.length)

/-- Write `xs` from offset `off` of the block at `a` on. -/
def store (h : Heap α) (a off : Nat) (xs : List α) : Option (Heap α) :=
  match h.block a with
  | none => none
  | some cells =>
      if off + xs.length ≤ cells.length then some (h.alloc a (overwrite cells off xs)) else none

@[simp] theorem block_empty (a : Nat) : (empty : Heap α).block a = none := rfl

@[simp] theorem block_alloc_self (h : Heap α) (a : Nat) (cells : List α) :
    (h.alloc a cells).block a = some cells :=
  Function.update_self ..

theorem block_alloc_ne (h : Heap α) {a b : Nat} (cells : List α) (hne : b ≠ a) :
    (h.alloc a cells).block b = h.block b :=
  Function.update_of_ne hne ..

@[simp] theorem block_free_self (h : Heap α) (a : Nat) : (h.free a).block a = none :=
  Function.update_self ..

theorem block_free_ne (h : Heap α) {a b : Nat} (hne : b ≠ a) : (h.free a).block b = h.block b :=
  Function.update_of_ne hne ..

theorem live_iff {h : Heap α} {a : Nat} : h.Live a ↔ ∃ cells, h.block a = some cells :=
  Option.isSome_iff_exists

theorem live_of_block {h : Heap α} {a : Nat} {cells : List α} (hb : h.block a = some cells) :
    h.Live a :=
  live_iff.mpr ⟨cells, hb⟩

theorem block_eq_none_of_not_live {h : Heap α} {a : Nat} (hl : ¬ h.Live a) : h.block a = none := by
  simpa [Live] using hl

@[simp] theorem live_alloc (h : Heap α) (a b : Nat) (cells : List α) :
    (h.alloc a cells).Live b ↔ b = a ∨ h.Live b := by
  by_cases hb : b = a
  · subst hb
    simp [Live]
  · simp [Live, block_alloc_ne h cells hb, hb]

@[simp] theorem live_free (h : Heap α) (a b : Nat) : (h.free a).Live b ↔ b ≠ a ∧ h.Live b := by
  by_cases hb : b = a
  · subst hb
    simp [Live]
  · simp [Live, block_free_ne h hb, hb]

/-- **A fresh block leaves no trace once it is freed.** -/
theorem free_alloc {h : Heap α} {a : Nat} (cells : List α) (hl : ¬ h.Live a) :
    (h.alloc a cells).free a = h := by
  ext1
  simp only [free, alloc, Function.update_idem]
  rw [← block_eq_none_of_not_live hl, Function.update_eq_self]

@[simp] theorem alloc_alloc (h : Heap α) (a : Nat) (cells cells' : List α) :
    (h.alloc a cells).alloc a cells' = h.alloc a cells' := by
  simp [alloc]

theorem load_of_block {h : Heap α} {a off len : Nat} {cells : List α}
    (hb : h.block a = some cells) (hr : off + len ≤ cells.length) :
    h.load a off len = some ((cells.drop off).take len) := by
  simp [load, hb, hr]

theorem store_of_block {h : Heap α} {a off : Nat} {cells xs : List α}
    (hb : h.block a = some cells) (hr : off + xs.length ≤ cells.length) :
    h.store a off xs = some (h.alloc a (overwrite cells off xs)) := by
  simp [store, hb, hr]

/-- Filling a block in two adjacent pieces leaves exactly the two pieces in it. -/
theorem overwrite_overwrite {cells xs ys : List α} (hlen : cells.length = xs.length + ys.length) :
    overwrite (overwrite cells 0 xs) xs.length ys = xs ++ ys := by
  have htail : (xs ++ cells.drop xs.length).drop (xs.length + ys.length) = [] :=
    List.drop_of_length_le (by simp; omega)
  simp [overwrite, htail]

theorem length_overwrite {cells xs : List α} {off : Nat} (hr : off + xs.length ≤ cells.length) :
    (overwrite cells off xs).length = cells.length := by
  simp [overwrite]
  omega

/-! ## Ownership

`h.Exactly owned`: the live blocks of `h` are exactly the pairs (address, contents) of the
list `owned`, each at its own address. -/

/-- The heap consists of exactly the given blocks. -/
structure Exactly (h : Heap α) (owned : List (Nat × List α)) : Prop where
  nodup : (owned.map Prod.fst).Nodup
  block_iff : ∀ a cells, h.block a = some cells ↔ (a, cells) ∈ owned

theorem exactly_empty : (empty : Heap α).Exactly [] where
  nodup := List.nodup_nil
  block_iff := by simp

theorem Exactly.perm {h : Heap α} {owned owned' : List (Nat × List α)} (hx : h.Exactly owned)
    (hp : owned.Perm owned') : h.Exactly owned' where
  nodup := (hp.map Prod.fst).nodup_iff.mp hx.nodup
  block_iff := fun a cells => (hx.block_iff a cells).trans hp.mem_iff

theorem Exactly.live_iff {h : Heap α} {owned : List (Nat × List α)} (hx : h.Exactly owned)
    {a : Nat} : h.Live a ↔ a ∈ owned.map Prod.fst := by
  rw [Heap.live_iff]
  constructor
  · rintro ⟨cells, hb⟩
    exact List.mem_map.mpr ⟨(a, cells), (hx.block_iff a cells).mp hb, rfl⟩
  · intro ha
    obtain ⟨⟨_, cells⟩, hm, rfl⟩ := List.mem_map.mp ha
    exact ⟨cells, (hx.block_iff _ cells).mpr hm⟩

theorem Exactly.block {h : Heap α} {owned : List (Nat × List α)} (hx : h.Exactly owned)
    {cell : Nat × List α} (hm : cell ∈ owned) : h.block cell.1 = some cell.2 :=
  (hx.block_iff cell.1 cell.2).mpr hm

/-- A fresh block is owned in addition to the others. -/
theorem Exactly.alloc {h : Heap α} {owned : List (Nat × List α)} (hx : h.Exactly owned) {a : Nat}
    (hfresh : ¬ h.Live a) (cells : List α) : (h.alloc a cells).Exactly ((a, cells) :: owned) where
  nodup := List.nodup_cons.mpr ⟨fun ha => hfresh (hx.live_iff.mpr ha), hx.nodup⟩
  block_iff := by
    intro b cells'
    by_cases hb : b = a
    · subst hb
      have hnot : (b, cells') ∉ owned := fun hm =>
        hfresh (hx.live_iff.mpr (List.mem_map.mpr ⟨_, hm, rfl⟩))
      simp [hnot, eq_comm]
    · rw [block_alloc_ne h cells hb, hx.block_iff]
      simp [hb]

/-- A freed block is owned no longer. -/
theorem Exactly.free {h : Heap α} {owned : List (Nat × List α)} {a : Nat} {cells : List α}
    (hx : h.Exactly ((a, cells) :: owned)) : (h.free a).Exactly owned := by
  obtain ⟨hnot, hnodup⟩ := List.nodup_cons.mp hx.nodup
  refine ⟨hnodup, fun b cells' => ?_⟩
  by_cases hb : b = a
  · subst hb
    have hmem : (b, cells') ∉ owned := fun hm => hnot (List.mem_map.mpr ⟨_, hm, rfl⟩)
    simp [hmem]
  · rw [block_free_ne h hb, hx.block_iff]
    simp [hb]

end Heap
