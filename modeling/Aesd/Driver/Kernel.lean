import Aesd.Basic.Heap
import Aesd.Driver.CircularBuffer

set_option autoImplicit false

/-! # The kernel around the driver

The state `main.c` works on, and the kernel services it calls. The state is the one
`struct aesd_dev`, the memory handed out by `kmalloc`, and the position of every open file.

The services are not part of the driver. What they decide on their own is an argument of the
call: the block `kmalloc` picks (`KmallocBlock`) and the number of bytes a copy from or to user
space leaves uncopied. What the driver relies on beyond that is collected in `KernelApi`. A
call that leaves the defined behaviour of C (an access outside a live block, a `kfree` of
something else than `NULL` or a live block) or that would block for ever is a `Fault`. -/

namespace Aesd

open CInt

/-- Ways in which a call does not return in a defined state. -/
inductive Fault
  /-- An access outside the block a pointer points to, or through no block at all. -/
  | outOfBounds
  /-- A `kfree` of a pointer that is neither `NULL` nor a live block. -/
  | badFree
  /-- A lock of a mutex that is already held and that nobody will release. -/
  | deadlock
  /-- A signed integer overflow. -/
  | signedOverflow
  /-- The iterations granted to a loop are used up. -/
  | unfinished
  deriving DecidableEq, Repr

/-- A sequence of two computations returns what the second returns on the value of the first. -/
theorem bind_eq_ok {ε α β : Type} {x : Except ε α} {f : α → Except ε β} {b : β} :
    (x >>= f) = .ok b ↔ ∃ a, x = .ok a ∧ f a = .ok b := by
  cases x with
  | error e => simp [bind, Except.bind]
  | ok a => simp [bind, Except.bind]

/-! ## Error numbers and limits -/

def EBADF : Int := 9
def ENOMEM : Int := 12
def EFAULT : Int := 14
def EINVAL : Int := 22
def ENOTTY : Int := 25

/-- `MAX_RW_COUNT`: the VFS passes no larger count to `read` and `write`. -/
def maxRwCount : Nat := 0x7ffff000

/-- `SEEK_SET`, `SEEK_CUR` and `SEEK_END`. -/
def SEEK_SET : Int := 0
def SEEK_CUR : Int := 1
def SEEK_END : Int := 2

/-- **What the driver relies on in the kernel.** `kmalloc` fails above a limit far below
`SIZE_MAX`; `fixed_size_llseek` returns an error without moving or moves to the value it
returns, and for `SEEK_SET` and `SEEK_END` it succeeds exactly on the range `[0, size]`. -/
structure KernelApi where
  /-- `KMALLOC_MAX_SIZE`. -/
  kmallocMaxSize : Nat
  kmallocMaxSize_lt : kmallocMaxSize < 2 ^ 48
  /-- `fixed_size_llseek(filp, off, whence, size)` on a file at a position: the returned value
  and the position afterwards. -/
  fixedSizeLlseek : (fPos : Nat) → (off whence : Int) → (size : Nat) → Int × Nat
  llseek_stays : ∀ fPos off whence size,
    (fixedSizeLlseek fPos off whence size).1 < 0 →
      (fixedSizeLlseek fPos off whence size).2 = fPos
  llseek_moves : ∀ fPos off whence size,
    0 ≤ (fixedSizeLlseek fPos off whence size).1 →
      ((fixedSizeLlseek fPos off whence size).2 : Int) = (fixedSizeLlseek fPos off whence size).1
  llseek_set : ∀ fPos off size,
    (fixedSizeLlseek fPos off SEEK_SET size).1
      = if 0 ≤ off ∧ off ≤ size then off else -EINVAL
  llseek_end : ∀ fPos off size,
    (fixedSizeLlseek fPos off SEEK_END size).1
      = if 0 ≤ size + off ∧ size + off ≤ size then size + off else -EINVAL

/-- The position `fixed_size_llseek` is asked for, as a file offset; `none` for a `whence` it
does not know. -/
def seekTarget (fPos : Nat) (off whence : Int) (size : Nat) : Option Int :=
  if whence = SEEK_SET then some off
  else if whence = SEEK_CUR then some (fPos + off)
  else if whence = SEEK_END then some (size + off)
  else none

/-- `fixed_size_llseek` of Linux; with `SEEK_CUR` and `off = 0` it only tells the position. -/
def genericLlseek (fPos : Nat) (off whence : Int) (size : Nat) : Int × Nat :=
  match seekTarget fPos off whence size with
  | none => (-EINVAL, fPos)
  | some target =>
      if whence = SEEK_CUR ∧ off = 0 then (fPos, fPos)
      else if 0 ≤ target ∧ target ≤ size then (target, target.toNat)
      else (-EINVAL, fPos)

/-- It fails where it is, or it moves to the position it returns. -/
theorem genericLlseek_cases (fPos : Nat) (off whence : Int) (size : Nat) :
    genericLlseek fPos off whence size = (-EINVAL, fPos)
    ∨ ∃ n : Nat, genericLlseek fPos off whence size = ((n : Int), n) := by
  rw [genericLlseek]
  cases seekTarget fPos off whence size with
  | none => exact Or.inl rfl
  | some target =>
      by_cases htell : whence = SEEK_CUR ∧ off = 0
      · exact Or.inr ⟨fPos, if_pos htell⟩
      · by_cases hin : 0 ≤ target ∧ target ≤ size
        · refine Or.inr ⟨target.toNat, ?_⟩
          rw [Int.toNat_of_nonneg hin.1]
          simp only [if_neg htell, if_pos hin]
        · left
          simp only [if_neg htell, if_neg hin]

/-- The services of Linux on a machine with 4 KiB pages. -/
def KernelApi.linux : KernelApi where
  kmallocMaxSize := 2 ^ 22
  kmallocMaxSize_lt := by decide
  fixedSizeLlseek := genericLlseek
  llseek_stays := by
    intro fPos off whence size hneg
    rcases genericLlseek_cases fPos off whence size with h | ⟨n, h⟩
    · rw [h]
    · rw [h] at hneg
      exact absurd hneg (Int.not_lt.mpr (Int.natCast_nonneg n))
  llseek_moves := by
    intro fPos off whence size hpos
    rcases genericLlseek_cases fPos off whence size with h | ⟨n, h⟩
    · rw [h] at hpos
      exact absurd hpos (by simp [EINVAL])
    · rw [h]
  llseek_set := by
    intro fPos off size
    simp only [genericLlseek, seekTarget, SEEK_SET, SEEK_CUR, if_true, zero_ne_one, false_and,
      if_false]
    split_ifs <;> rfl
  llseek_end := by
    intro fPos off size
    simp only [genericLlseek, seekTarget, SEEK_SET, SEEK_CUR, SEEK_END]
    norm_num
    split_ifs <;> rfl

/-! ## The state -/

/-- `struct aesd_dev`; `lock` says whether the mutex is held. -/
structure AesdDev where
  circularBuffer : AesdCircularBuffer
  stagingEntry : AesdBufferEntry
  lock : Bool

/-- `aesd_device` as the module image contains it. -/
def AesdDev.zero : AesdDev where
  circularBuffer :=
    ⟨Vector.replicate maxWriteOperationsSupported .zero, 0, 0, 0, 0⟩
  stagingEntry := .zero
  lock := false

/-- A `struct file`, by name. -/
abbrev FileId := Nat

/-- The device `aesd_device`, the live `kmalloc` blocks, and `f_pos` of every open file. The
`private_data` of every open file is `&aesd_device`, the only device there is. -/
@[ext] structure Kernel where
  aesdDevice : AesdDev
  heap : Heap UInt8
  fPos : FileId → Option Nat

namespace Kernel

/-! ## Services -/

/-- `mutex_lock(&aesd_device.lock)`. -/
def mutexLock (k : Kernel) : Except Fault Kernel :=
  if k.aesdDevice.lock then .error .deadlock
  else .ok { k with aesdDevice := { k.aesdDevice with lock := true } }

/-- `mutex_unlock(&aesd_device.lock)`. -/
def mutexUnlock (k : Kernel) : Kernel :=
  { k with aesdDevice := { k.aesdDevice with lock := false } }

/-- The block `kmalloc` picks, and what happens to be in it. -/
structure KmallocBlock where
  addr : Nat
  junk : Nat → UInt8

/-- `kmalloc(size, GFP_KERNEL)`. It fails for `none` and above the limit, never hands out a
block that is still in use, and returns `ZERO_SIZE_PTR` for size `0`. -/
def kmalloc (api : KernelApi) (k : Kernel) (size : Nat) (choice : Option KmallocBlock) :
    KPtr × Kernel :=
  if size = 0 then (.zeroSizePtr, k)
  else match choice with
    | none => (.null, k)
    | some b =>
        if api.kmallocMaxSize < size ∨ k.heap.Live b.addr then (.null, k)
        else (.block b.addr,
          { k with heap := k.heap.alloc b.addr ((List.range size).map b.junk) })

/-- `kfree`. The kernel also takes the pointer `kmalloc(0)` returns; the driver has no reason to
pass it, and here that is a bad free too. -/
def kfree (k : Kernel) : KPtr → Except Fault Kernel
  | .null => .ok k
  | .zeroSizePtr => .error .badFree
  | .block a =>
      if k.heap.Live a then .ok { k with heap := k.heap.free a } else .error .badFree

/-- Read `len` bytes from offset `off` of the block `p` points to. -/
def load (k : Kernel) (p : KPtr) (off len : Nat) : Except Fault (List UInt8) :=
  if len = 0 then .ok []
  else match p with
    | .block a =>
        match k.heap.load a off len with
        | some bytes => .ok bytes
        | none => .error .outOfBounds
    | _ => .error .outOfBounds

/-- Write `bytes` from offset `off` of the block `p` points to on. -/
def store (k : Kernel) (p : KPtr) (off : Nat) (bytes : List UInt8) : Except Fault Kernel :=
  if bytes.length = 0 then .ok k
  else match p with
    | .block a =>
        match k.heap.store a off bytes with
        | some heap => .ok { k with heap := heap }
        | none => .error .outOfBounds
    | _ => .error .outOfBounds

/-- `memcpy(dst + off, src, n)`. -/
def memcpy (k : Kernel) (dst : KPtr) (off : Nat) (src : KPtr) (n : Nat) : Except Fault Kernel := do
  let bytes ← k.load src 0 n
  k.store dst off bytes

/-- `copy_from_user(dst + off, buf, count)`, where `buf` are the `count` bytes of the user: the
number of bytes not copied, and the state. The rest of the range is filled with zero bytes. -/
def copyFromUser (k : Kernel) (dst : KPtr) (off : Nat) (buf : List UInt8) (uncopied : Nat) :
    Except Fault (Nat × Kernel) := do
  let left := min uncopied buf.length
  let k ← k.store dst off (buf.take (buf.length - left) ++ List.replicate left 0)
  return (left, k)

/-- `copy_to_user(buf, src + off, n)`: the number of bytes not copied, and the bytes that
arrived. -/
def copyToUser (k : Kernel) (src : KPtr) (off n uncopied : Nat) :
    Except Fault (Nat × List UInt8) := do
  let bytes ← k.load src off n
  let left := min uncopied n
  return (left, bytes.take (n - left))

end Kernel

end Aesd
