import Mathlib.Tactic

set_option autoImplicit false

/-! # Positions in a concatenation

A sequence of pieces of given sizes, laid end to end, is addressed in two ways: by a pair
(piece, offset inside the piece) and by a position in the concatenation. `flatPos` goes from
the pair to the position, `locate` from the position to the pair, and `locate_eq_some_iff`
says that they are inverse to each other between the pairs inside the pieces and the
positions below the total. Empty pieces are allowed; `locate` never returns one. -/

namespace FlatIndex

/-- The position of offset `o` in piece `i`. -/
def flatPos (sizes : List Nat) (i o : Nat) : Nat := (sizes.take i).sum + o

/-- The piece and the offset in it of position `p`, if `p` is below the total. -/
def locate : List Nat → Nat → Option (Nat × Nat)
  | [], _ => none
  | s :: rest, p =>
      if p < s then some (0, p) else (locate rest (p - s)).map (fun io => (io.1 + 1, io.2))

/-- The pairs that address a byte: a piece, and an offset below its size. -/
def Inside (sizes : List Nat) (i o : Nat) : Prop := ∃ s, sizes[i]? = some s ∧ o < s

instance (sizes : List Nat) (i o : Nat) : Decidable (Inside sizes i o) :=
  match h : sizes[i]? with
  | none => .isFalse fun hin => by
      obtain ⟨s, hs, -⟩ := hin
      rw [h] at hs
      cases hs
  | some s => decidable_of_iff (o < s)
      ⟨fun ho => ⟨s, h, ho⟩, fun hin => by
        obtain ⟨s', hs, ho⟩ := hin
        rw [h] at hs
        rwa [Option.some.inj hs]⟩

@[simp] theorem flatPos_zero (sizes : List Nat) (o : Nat) : flatPos sizes 0 o = o := by
  simp [flatPos]

@[simp] theorem flatPos_cons_succ (s : Nat) (rest : List Nat) (i o : Nat) :
    flatPos (s :: rest) (i + 1) o = s + flatPos rest i o := by
  simp [flatPos, Nat.add_assoc]

@[simp] theorem inside_cons_zero (s : Nat) (rest : List Nat) (o : Nat) :
    Inside (s :: rest) 0 o ↔ o < s := by
  simp [Inside]

@[simp] theorem inside_cons_succ (s : Nat) (rest : List Nat) (i o : Nat) :
    Inside (s :: rest) (i + 1) o ↔ Inside rest i o := by
  simp [Inside]

theorem not_inside_nil (i o : Nat) : ¬ Inside [] i o := by
  simp [Inside]

theorem Inside.lt_length {sizes : List Nat} {i o : Nat} (h : Inside sizes i o) :
    i < sizes.length := by
  obtain ⟨s, hs, _⟩ := h
  exact (List.getElem?_eq_some_iff.mp hs).1

/-- A byte of a piece is at a position below the total. -/
theorem Inside.flatPos_lt {sizes : List Nat} {i o : Nat} (h : Inside sizes i o) :
    flatPos sizes i o < sizes.sum := by
  induction sizes generalizing i with
  | nil => exact absurd h (not_inside_nil i o)
  | cons s rest ih =>
      rw [List.sum_cons]
      cases i with
      | zero =>
          rw [inside_cons_zero] at h
          rw [flatPos_zero]
          omega
      | succ i =>
          rw [inside_cons_succ] at h
          rw [flatPos_cons_succ]
          have := ih h
          omega

/-- **`locate` and `flatPos` are inverse to each other.** -/
theorem locate_eq_some_iff {sizes : List Nat} {p i o : Nat} :
    locate sizes p = some (i, o) ↔ Inside sizes i o ∧ flatPos sizes i o = p := by
  induction sizes generalizing p i with
  | nil =>
      constructor
      · intro h
        cases h
      · rintro ⟨h, _⟩
        exact absurd h (not_inside_nil i o)
  | cons s rest ih =>
      rw [locate]
      by_cases hp : p < s
      · -- the position is in the first piece
        rw [if_pos hp]
        cases i with
        | zero =>
            rw [inside_cons_zero, flatPos_zero]
            constructor
            · intro h
              cases h
              exact ⟨hp, rfl⟩
            · rintro ⟨_, rfl⟩
              rfl
        | succ i =>
            rw [flatPos_cons_succ]
            constructor
            · intro h
              cases h
            · rintro ⟨_, h⟩
              omega
      · -- it is `s` bytes further on in the rest
        rw [if_neg hp, Option.map_eq_some_iff]
        cases i with
        | zero =>
            rw [inside_cons_zero, flatPos_zero]
            constructor
            · rintro ⟨io, _, h⟩
              cases h
            · rintro ⟨h, rfl⟩
              exact absurd h hp
        | succ i =>
            rw [inside_cons_succ, flatPos_cons_succ]
            constructor
            · rintro ⟨⟨i', o'⟩, hio, h⟩
              obtain ⟨rfl, rfl⟩ : i' = i ∧ o' = o := by simpa using h
              obtain ⟨hin, hpos⟩ := ih.mp hio
              exact ⟨hin, by omega⟩
            · rintro ⟨hin, hpos⟩
              exact ⟨(i, o), ih.mpr ⟨hin, by omega⟩, rfl⟩

/-- There is no byte at a position from the total on. -/
theorem locate_eq_none_iff {sizes : List Nat} {p : Nat} :
    locate sizes p = none ↔ sizes.sum ≤ p := by
  induction sizes generalizing p with
  | nil => simp [locate]
  | cons s rest ih =>
      rw [locate, List.sum_cons]
      by_cases hp : p < s
      · rw [if_pos hp]
        constructor
        · intro h
          cases h
        · intro h
          omega
      · rw [if_neg hp, Option.map_eq_none_iff, ih]
        omega

/-- Every position below the total has its byte. -/
theorem exists_locate (sizes : List Nat) {p : Nat} (hp : p < sizes.sum) :
    ∃ i o, locate sizes p = some (i, o) := by
  cases h : locate sizes p with
  | none =>
      have := locate_eq_none_iff.mp h
      omega
  | some io => exact ⟨io.1, io.2, rfl⟩

/-- The positions of the bytes of piece `i`. -/
def pieceRange (sizes : List Nat) (i : Nat) : Set Nat :=
  Set.Ico (sizes.take i).sum (sizes.take (i + 1)).sum

/-- A position is in the range of a piece exactly if `locate` finds it there. -/
theorem locate_eq_some_iff_mem_pieceRange {sizes : List Nat} {p i : Nat} :
    locate sizes p = some (i, p - (sizes.take i).sum) ↔ p ∈ pieceRange sizes i := by
  rw [locate_eq_some_iff, pieceRange, Set.mem_Ico, List.take_add_one, List.sum_append, flatPos]
  constructor
  · rintro ⟨⟨s, hs, ho⟩, hpos⟩
    rw [hs, Option.toList_some, List.sum_singleton]
    omega
  · rintro ⟨hle, hlt⟩
    cases hs : sizes[i]? with
    | none =>
        rw [hs, Option.toList_none, List.sum_nil] at hlt
        omega
    | some s =>
        rw [hs, Option.toList_some, List.sum_singleton] at hlt
        exact ⟨⟨s, hs, by omega⟩, by omega⟩

/-- The ranges of different pieces have no position in common. -/
theorem pieceRange_unique {sizes : List Nat} {p i j : Nat} (hi : p ∈ pieceRange sizes i)
    (hj : p ∈ pieceRange sizes j) : i = j := by
  have h := (locate_eq_some_iff_mem_pieceRange.mpr hi).symm.trans
    (locate_eq_some_iff_mem_pieceRange.mpr hj)
  exact (Prod.mk.inj (Option.some.inj h)).1

/-! ## Reading the concatenation -/

section Pieces

variable {α : Type*}

/-- From a byte of a piece on, the concatenation is the rest of that piece followed by the
later pieces. -/
theorem flatten_drop_flatPos {pieces : List (List α)} {i o : Nat} {piece : List α}
    (hi : pieces[i]? = some piece) (ho : o ≤ piece.length) :
    pieces.flatten.drop (flatPos (pieces.map List.length) i o)
      = piece.drop o ++ (pieces.drop (i + 1)).flatten := by
  induction pieces generalizing i with
  | nil => simp at hi
  | cons q rest ih =>
      cases i with
      | zero =>
          have hq : q = piece := by simpa using hi
          subst hq
          rw [flatPos_zero, List.flatten_cons, List.drop_append_of_le_length ho]
          rfl
      | succ i =>
          have hrest : rest[i]? = some piece := by simpa using hi
          calc (q :: rest).flatten.drop (flatPos ((q :: rest).map List.length) (i + 1) o)
              = (q ++ rest.flatten).drop (q.length + flatPos (rest.map List.length) i o) := by
                rw [List.map_cons, flatPos_cons_succ, List.flatten_cons]
            _ = rest.flatten.drop (flatPos (rest.map List.length) i o) :=
                List.drop_length_add_append ..
            _ = piece.drop o ++ (rest.drop (i + 1)).flatten := ih hrest

/-- A read that stays inside its piece returns the bytes of the concatenation. -/
theorem take_drop_piece {pieces : List (List α)} {i o len : Nat} {piece : List α}
    (hi : pieces[i]? = some piece) (ho : o + len ≤ piece.length) :
    (piece.drop o).take len
      = (pieces.flatten.drop (flatPos (pieces.map List.length) i o)).take len := by
  rw [flatten_drop_flatPos hi (by omega), List.take_append_of_le_length]
  rw [List.length_drop]
  omega

/-- A piece of the middle of three parts is a piece of the whole, behind the first part. -/
theorem take_drop_middle {whole front middle back : List α}
    (hwhole : whole = front ++ middle ++ back) {p n : Nat} (hle : p + n ≤ middle.length) :
    (middle.drop p).take n = (whole.drop (front.length + p)).take n
      ∧ front.length + p + n ≤ whole.length := by
  subst hwhole
  constructor
  · rw [List.append_assoc, List.drop_length_add_append,
      List.drop_append_of_le_length (by omega), List.take_append_of_le_length]
    rw [List.length_drop]
    omega
  · simp only [List.length_append]
    omega

end Pieces

end FlatIndex
