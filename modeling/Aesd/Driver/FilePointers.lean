import Aesd.Driver.CharDevice

set_option autoImplicit false

/-! # Where the files stand

The positions of the open files are a part of the kernel state of their own, which the memory
services and the lock neither look at nor change. So a write does the same wherever the files stand
(`aesdWrite_withFPos`), and leaves them there (`aesdWrite_fPos`). -/

namespace Aesd

open CInt Kernel

/-- The same state with the files at other positions. -/
def Kernel.withFPos (k : Kernel) (fPos : FileId → Option Nat) : Kernel := { k with fPos := fPos }

section

variable {api : KernelApi} {k k' : Kernel} (fPos : FileId → Option Nat)

theorem Kernel.mutexLock_withFPos :
    (k.withFPos fPos).mutexLock = k.mutexLock.map fun k => k.withFPos fPos := by
  unfold Kernel.mutexLock
  show (if k.aesdDevice.lock then _ else _) = _
  split <;> rfl

theorem Kernel.kfree_withFPos (p : KPtr) :
    (k.withFPos fPos).kfree p = (k.kfree p).map fun k => k.withFPos fPos := by
  cases p with
  | null | zeroSizePtr => rfl
  | block a =>
      show (if k.heap.Live a then _ else _) = Except.map _ (if k.heap.Live a then _ else _)
      split <;> rfl

theorem Kernel.store_withFPos (p : KPtr) (off : Nat) (bytes : List UInt8) :
    (k.withFPos fPos).store p off bytes
      = (k.store p off bytes).map fun k => k.withFPos fPos := by
  unfold Kernel.store
  split
  · rfl
  · cases p with
    | null | zeroSizePtr => rfl
    | block a =>
        have hheap : (k.withFPos fPos).heap = k.heap := rfl
        cases hstore : k.heap.store a off bytes with
        | none => simp only [hheap, hstore, Except.map]
        | some heap => simp only [hstore, Except.map, Kernel.withFPos]

theorem Kernel.kmalloc_withFPos (size : Nat) (choice : Option KmallocBlock) :
    (k.withFPos fPos).kmalloc api size choice
      = ((k.kmalloc api size choice).1, (k.kmalloc api size choice).2.withFPos fPos) := by
  unfold Kernel.kmalloc
  split
  · rfl
  · cases choice with
    | none => rfl
    | some b =>
        show (if api.kmallocMaxSize < size ∨ k.heap.Live b.addr then _ else _) = _
        by_cases hno : api.kmallocMaxSize < size ∨ k.heap.Live b.addr
        · simp only [if_pos hno]
        · simp only [if_neg hno]
          rfl

theorem Kernel.memcpy_withFPos (dst : KPtr) (off : Nat) (src : KPtr) (n : Nat) :
    (k.withFPos fPos).memcpy dst off src n
      = (k.memcpy dst off src n).map fun k => k.withFPos fPos := by
  show (k.load src 0 n >>= fun bytes => (k.withFPos fPos).store dst off bytes)
    = (k.load src 0 n >>= fun bytes => k.store dst off bytes).map _
  cases k.load src 0 n with
  | error e => rfl
  | ok bytes => exact Kernel.store_withFPos fPos dst off bytes

theorem Kernel.copyFromUser_withFPos (dst : KPtr) (off : Nat) (buf : List UInt8) (uncopied : Nat) :
    (k.withFPos fPos).copyFromUser dst off buf uncopied
      = (k.copyFromUser dst off buf uncopied).map fun lk => (lk.1, lk.2.withFPos fPos) := by
  unfold Kernel.copyFromUser
  simp only [Kernel.store_withFPos]
  cases Kernel.store _ _ _ _ <;> rfl

theorem commitStaging_withFPos :
    commitStaging (k.withFPos fPos) = (commitStaging k).map fun k => k.withFPos fPos := by
  have hload : (k.withFPos fPos).load k.aesdDevice.stagingEntry.buffptr
      (sizeTSub k.aesdDevice.stagingEntry.size 1) 1 = k.load k.aesdDevice.stagingEntry.buffptr
      (sizeTSub k.aesdDevice.stagingEntry.size 1) 1 := rfl
  have hdevice : (k.withFPos fPos).aesdDevice = k.aesdDevice := rfl
  unfold commitStaging
  simp only [hdevice, hload]
  cases hlast : k.load k.aesdDevice.stagingEntry.buffptr
      (sizeTSub k.aesdDevice.stagingEntry.size 1) 1 with
  | error e => rfl
  | ok last =>
      by_cases hnl : last = [newline]
      · have hfree := Kernel.kfree_withFPos
          (k := { k with aesdDevice := { k.aesdDevice with circularBuffer :=
            (k.aesdDevice.circularBuffer.addEntry k.aesdDevice.stagingEntry).2 } }) fPos
          (k.aesdDevice.circularBuffer.addEntry k.aesdDevice.stagingEntry).1
        simp only [Kernel.withFPos] at hfree
        simp only [bind, Except.bind, if_pos hnl, Kernel.withFPos, hfree]
        cases Kernel.kfree _ _ <;> rfl
      · simp only [bind, Except.bind, if_neg hnl]
        rfl

/-- A write does not look at the positions of the files. -/
theorem aesdWrite_withFPos (buf : List UInt8) (choice : Option KmallocBlock) (uncopied : Nat) :
    aesdWrite api (k.withFPos fPos) buf choice uncopied
      = (aesdWrite api k buf choice uncopied).map fun rk => (rk.1, rk.2.withFPos fPos) := by
  unfold aesdWrite
  rw [Kernel.mutexLock_withFPos]
  cases k.mutexLock with
  | error e => rfl
  | ok q =>
      have hdevice : (q.withFPos fPos).aesdDevice = q.aesdDevice := rfl
      simp only [Except.map, bind, Except.bind, hdevice, Kernel.kmalloc_withFPos]
      generalize
        q.kmalloc api (sizeT (buf.length + q.aesdDevice.stagingEntry.size)) choice = allocated
      obtain ⟨bufferptr, q₁⟩ := allocated
      by_cases hnull : bufferptr = .null
      · simp only [if_pos hnull]
        rfl
      · simp only [if_neg hnull, Kernel.memcpy_withFPos]
        cases q₁.memcpy bufferptr 0 q.aesdDevice.stagingEntry.buffptr
            q.aesdDevice.stagingEntry.size with
        | error e => rfl
        | ok q₂ =>
            simp only [Except.map, Kernel.copyFromUser_withFPos]
            cases q₂.copyFromUser bufferptr q.aesdDevice.stagingEntry.size buf uncopied with
            | error e => rfl
            | ok copied =>
                obtain ⟨left, q₃⟩ := copied
                by_cases hleft : left > 0
                · simp only [Except.map, if_pos hleft, Kernel.kfree_withFPos]
                  cases q₃.kfree bufferptr <;> rfl
                · simp only [Except.map, if_neg hleft, Kernel.kfree_withFPos]
                  cases q₃.kfree q.aesdDevice.stagingEntry.buffptr with
                  | error e => rfl
                  | ok q₄ =>
                      have hcommit := commitStaging_withFPos (k := { q₄ with aesdDevice :=
                        { q₄.aesdDevice with stagingEntry :=
                          ⟨bufferptr, sizeT (q.aesdDevice.stagingEntry.size + buf.length)⟩ } }) fPos
                      simp only [Kernel.withFPos] at hcommit
                      simp only [Kernel.withFPos, hcommit]
                      cases commitStaging _ <;> rfl

/-- It leaves them where they are. -/
theorem aesdWrite_fPos {buf : List UInt8} {choice : Option KmallocBlock} {uncopied : Nat} {ret : Int}
    (hw : aesdWrite api k buf choice uncopied = .ok (ret, k')) : k'.fPos = k.fPos := by
  have hwith : aesdWrite api k buf choice uncopied
      = (aesdWrite api k buf choice uncopied).map fun rk => (rk.1, rk.2.withFPos k.fPos) :=
    aesdWrite_withFPos k.fPos buf choice uncopied
  rw [hw] at hwith
  rw [(Prod.mk.inj (Except.ok.inj hwith)).2]
  rfl

theorem Kernel.call_write_fPos {f : FileId} {buf : List UInt8} {choice : Option KmallocBlock}
    {uncopied : Nat} {r : SysRet}
    (hcall : k.call api (.write f buf choice uncopied) = .ok (r, k')) : k'.fPos = k.fPos := by
  cases hp : k.fPos f with
  | none =>
      simp only [Kernel.call, hp] at hcall
      rw [(Prod.mk.inj (Except.ok.inj hcall)).2]
  | some p =>
      simp only [Kernel.call, hp] at hcall
      obtain ⟨⟨ret, k₁⟩, hw, hret⟩ := bind_eq_ok.mp hcall
      obtain ⟨-, rfl⟩ := Prod.mk.inj (Except.ok.inj hret)
      exact aesdWrite_fPos hw

end

end Aesd
