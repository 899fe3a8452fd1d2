import Mathlib.Data.List.Basic
import Mathlib.Tactic

set_option autoImplicit false

/-! # The content of a file

A file is a list of bytes. Writing at an offset replaces what is there, and fills a gap behind
the end (`writeAt`). Consecutive writes are one write (`writeAt_writeAt`), and only a write at
the end is an append (`writeAt_length`). -/

namespace ByteFile

variable {α : Type*} (fill : α)

/-- `content` after `buf` was written at offset `p`. -/
def writeAt (content : List α) (p : Nat) (buf : List α) : List α :=
  content.take p ++ List.replicate (p - content.length) fill ++ buf
    ++ content.drop (p + buf.length)

/-- At the beginning. -/
theorem writeAt_zero (content buf : List α) :
    writeAt fill content 0 buf = buf ++ content.drop buf.length := by
  simp [writeAt]

/-- At the end. -/
@[simp] theorem writeAt_length (content buf : List α) :
    writeAt fill content content.length buf = content ++ buf := by
  simp [writeAt]

theorem writeAt_nil {content : List α} {p : Nat} (hp : p ≤ content.length) :
    writeAt fill content p [] = content := by
  simp [writeAt, Nat.sub_eq_zero_of_le hp]

/-- **Consecutive writes are one write.** -/
theorem writeAt_writeAt {content : List α} {p : Nat} (hp : p ≤ content.length) (a b : List α) :
    writeAt fill (writeAt fill content p a) (p + a.length) b
      = writeAt fill content p (a ++ b) := by
  have hhead : (content.take p ++ a).length = p + a.length := by
    rw [List.length_append, List.length_take, Nat.min_eq_left hp]
  have hfirst : writeAt fill content p a
      = (content.take p ++ a) ++ content.drop (p + a.length) := by
    simp [writeAt, Nat.sub_eq_zero_of_le hp]
  have hgap : p + a.length - (writeAt fill content p a).length = 0 := by
    rw [hfirst, List.length_append, hhead]
    omega
  calc writeAt fill (writeAt fill content p a) (p + a.length) b
      = (writeAt fill content p a).take (p + a.length) ++ b
          ++ (writeAt fill content p a).drop (p + a.length + b.length) := by
        rw [writeAt, hgap, List.replicate_zero, List.append_nil]
    _ = content.take p ++ a ++ b ++ content.drop (p + (a ++ b).length) := by
        rw [hfirst, ← hhead, List.take_left, List.drop_length_add_append, hhead, List.drop_drop,
          List.length_append, Nat.add_assoc]
    _ = writeAt fill content p (a ++ b) := by
        simp [writeAt, Nat.sub_eq_zero_of_le hp]

/-- A file never gets shorter, and it reaches behind what was written. -/
theorem length_writeAt {content : List α} {p : Nat} (hp : p ≤ content.length) (buf : List α) :
    (writeAt fill content p buf).length = max content.length (p + buf.length) := by
  simp only [writeAt, List.length_append, List.length_take, List.length_replicate,
    List.length_drop]
  omega

end ByteFile
