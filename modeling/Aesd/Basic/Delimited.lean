import Mathlib.Tactic

set_option autoImplicit false

/-! # Delimited streams

A stream of records, each followed by a delimiter, with an incomplete record behind the last
one: `framed d records tail`. Every list is such a stream in exactly one way, and `List.splitOn`
finds it (`framed_splitOn`, `splitOn_framed`).

`Cut d pieces r` says that the record `r` and its delimiter arrive in non-empty pieces: none but
the last ends with the delimiter. -/

namespace Delimited

variable {α : Type*}

/-- The records, each followed by the delimiter, and the tail. -/
def framed (d : α) (records : List (List α)) (tail : List α) : List α :=
  (records.map (· ++ [d])).flatten ++ tail

@[simp] theorem framed_nil (d : α) (tail : List α) : framed d [] tail = tail := rfl

theorem framed_cons (d : α) (r : List α) (records : List (List α)) (tail : List α) :
    framed d (r :: records) tail = r ++ d :: framed d records tail := by
  simp [framed]

/-! ## One record in pieces -/

/-- The record `r` with its delimiter, cut into non-empty pieces. -/
inductive Cut (d : α) : List (List α) → List α → Prop
  | last {r : List α} : d ∉ r → Cut d [r ++ [d]] r
  | piece {c r : List α} {rest : List (List α)} :
      c ≠ [] → d ∉ c → Cut d rest r → Cut d (c :: rest) (c ++ r)

/-- Every way to cut it is one. -/
theorem Cut.of_flatten {d : α} {pieces : List (List α)} {r : List α}
    (hne : ∀ c ∈ pieces, c ≠ []) (hr : d ∉ r) (hflat : pieces.flatten = r ++ [d]) :
    Cut d pieces r := by
  induction pieces generalizing r with
  | nil => exact absurd hflat (by simp)
  | cons c rest ih =>
      rw [List.flatten_cons] at hflat
      rcases List.eq_nil_or_concat rest.flatten with hnil | ⟨_, _, hlast⟩
      · have hrest : rest = [] := by
          cases rest with
          | nil => rfl
          | cons c' rest' =>
              rw [List.flatten_cons] at hnil
              exact absurd (List.append_eq_nil_iff.mp hnil).1 (hne c' (by simp))
        rw [hnil, List.append_nil] at hflat
        rw [hrest, hflat]
        exact .last hr
      · -- the delimiter is behind `c`, so `c` is a proper piece of the record
        rw [hlast, List.concat_eq_append, ← List.append_assoc] at hflat
        obtain ⟨rfl, hd⟩ := List.append_inj' hflat rfl
        rw [List.mem_append, not_or] at hr
        refine .piece (hne c (by simp)) hr.1 ?_
        exact ih (fun c' hc' => hne c' (List.mem_cons_of_mem _ hc')) hr.2
          (by rw [hlast, List.concat_eq_append, hd])

/-! ## Streams and `splitOn` -/

variable [DecidableEq α]

/-- As many records as there are delimiters. -/
theorem count_framed {d : α} {records : List (List α)} {tail : List α}
    (hrecords : ∀ r ∈ records, d ∉ r) (htail : d ∉ tail) :
    (framed d records tail).count d = records.length := by
  induction records with
  | nil => exact List.count_eq_zero_of_not_mem htail
  | cons r rest ih =>
      have hr : r.count d = 0 := List.count_eq_zero_of_not_mem (hrecords r (by simp))
      have hrest := ih fun r' hr' => hrecords r' (List.mem_cons_of_mem _ hr')
      calc (framed d (r :: rest) tail).count d
          = r.count d + ((framed d rest tail).count d + 1) := by
            rw [framed_cons, List.count_append, List.count_cons_self]
        _ = (r :: rest).length := by
            rw [hr, hrest, Nat.zero_add, List.length_cons]

/-- Splitting recovers the records. -/
theorem splitOn_framed {d : α} {records : List (List α)} {tail : List α}
    (hrecords : ∀ r ∈ records, d ∉ r) (htail : d ∉ tail) :
    (framed d records tail).splitOn d = records ++ [tail] := by
  induction records with
  | nil => exact List.splitOn_eq_singleton htail
  | cons r rest ih =>
      rw [framed_cons, List.splitOn_append_cons_self_of_not_mem (hrecords r (by simp)),
        ih (fun r' hr' => hrecords r' (List.mem_cons_of_mem _ hr')), List.cons_append]

/-- **Every list is a delimited stream.** -/
theorem framed_splitOn (d : α) (xs : List α) :
    ∃ (records : List (List α)) (tail : List α), xs.splitOn d = records ++ [tail]
      ∧ xs = framed d records tail ∧ (∀ r ∈ records, d ∉ r) ∧ d ∉ tail := by
  have hexists : ∃ (records : List (List α)) (tail : List α),
      xs = framed d records tail ∧ (∀ r ∈ records, d ∉ r) ∧ d ∉ tail := by
    induction xs with
    | nil => exact ⟨[], [], rfl, by simp, by simp⟩
    | cons x xs ih =>
        obtain ⟨records, tail, hxs, hrecords, htail⟩ := ih
        by_cases hx : x = d
        · -- a delimiter is an empty record in front
          refine ⟨[] :: records, tail, by rw [framed_cons, hxs, hx]; rfl, ?_, htail⟩
          intro r hr
          rcases List.mem_cons.mp hr with rfl | hr
          · simp
          · exact hrecords r hr
        · -- another byte joins the first record, or the tail if there is none
          cases records with
          | nil =>
              exact ⟨[], x :: tail, by rw [hxs]; rfl, by simp,
                by simp [htail, Ne.symm hx]⟩
          | cons r rest =>
              refine ⟨(x :: r) :: rest, tail, by rw [framed_cons, hxs, framed_cons]; rfl, ?_,
                htail⟩
              intro r' hr'
              rcases List.mem_cons.mp hr' with rfl | hr'
              · simp [hrecords r (by simp), Ne.symm hx]
              · exact hrecords r' (List.mem_cons_of_mem _ hr')
  obtain ⟨records, tail, hxs, hrecords, htail⟩ := hexists
  refine ⟨records, tail, ?_, hxs, hrecords, htail⟩
  rw [hxs]
  exact splitOn_framed hrecords htail

end Delimited
