import Aesd.Driver.Device

set_option autoImplicit false

/-! # What each call does to the memory of the device

One lemma for each file operation, on a kernel state that represents a memory: it never ends in
a fault, and it returns what the memory says. A read never changes the kernel state, a seek
only the position it returns, and a write either fails and leaves the state as it was, or
appends its bytes (`aesdWrite_cases`). -/

namespace Aesd

open CInt CircArray FlatIndex Gather Kernel

/-! ## The lock -/

/-- The state with the lock held. -/
def Kernel.locked (k : Kernel) : Kernel :=
  { k with aesdDevice := { k.aesdDevice with lock := true } }

theorem Kernel.mutexLock_eq {k : Kernel} (h : k.aesdDevice.lock = false) :
    k.mutexLock = .ok k.locked := by
  simp [mutexLock, h, locked]

theorem Kernel.mutexUnlock_locked {k : Kernel} (h : k.aesdDevice.lock = false) :
    k.locked.mutexUnlock = k := by
  obtain ⟨⟨ring, staging, lock⟩, heap, fPos⟩ := k
  cases h
  rfl

section

variable {api : KernelApi} {k : Kernel} {d : Device} {staged : Option Cell} {ring : List Cell}

/-! ## Memory -/

/-- Loading from a live block. -/
theorem Kernel.load_of_block {k : Kernel} {a : Nat} (off len : Nat) {cells : List UInt8}
    (hb : k.heap.block a = some cells) (hr : off + len ≤ cells.length) :
    k.load (.block a) off len = .ok ((cells.drop off).take len) := by
  rw [load]
  by_cases hlen : len = 0
  · rw [if_pos hlen, hlen, List.take_zero]
  · rw [if_neg hlen]
    simp only [Heap.load_of_block hb hr]

/-- Storing into a block just allocated. -/
theorem Kernel.store_alloc (k : Kernel) (heap : Heap UInt8) {a : Nat} (off : Nat)
    (cells bytes : List UInt8) (hr : off + bytes.length ≤ cells.length) :
    Kernel.store { k with heap := heap.alloc a cells } (.block a) off bytes
      = .ok { k with heap := heap.alloc a (Heap.overwrite cells off bytes) } := by
  rw [store]
  by_cases hlen : bytes.length = 0
  · have hnil : bytes = [] := List.eq_nil_of_length_eq_zero hlen
    rw [if_pos hlen, hnil]
    simp [Heap.overwrite]
  · rw [if_neg hlen]
    simp only [Heap.store_of_block (heap.block_alloc_self a cells) hr, Heap.alloc_alloc]

/-- `kmalloc` fails, or it hands out a fresh block of the requested size below the limit. -/
theorem Kernel.kmalloc_cases (api : KernelApi) (k : Kernel) (size : Nat) (hsize : size ≠ 0)
    (choice : Option KmallocBlock) :
    k.kmalloc api size choice = (.null, k)
    ∨ ∃ (a : Nat) (cells : List UInt8), ¬ k.heap.Live a ∧ cells.length = size
        ∧ size ≤ api.kmallocMaxSize
        ∧ k.kmalloc api size choice = (.block a, { k with heap := k.heap.alloc a cells }) := by
  unfold kmalloc
  rw [if_neg hsize]
  cases choice with
  | none => exact Or.inl rfl
  | some b =>
      by_cases hno : api.kmallocMaxSize < size ∨ k.heap.Live b.addr
      · exact Or.inl (if_pos hno)
      · obtain ⟨hle, hfresh⟩ := not_or.mp hno
        refine Or.inr ⟨b.addr, (List.range size).map b.junk, hfresh, by simp, by omega, ?_⟩
        exact if_neg hno

/-! ## Reads and seeks -/

/-- **`aesd_read`.** It returns the bytes of the content from the position on, up to the end of
the command that holds the position, or fails without moving. -/
theorem Kernel.Represents.aesdRead_eq (h : k.Represents api d staged ring)
    (count p uncopied : Nat) :
    let n := d.readLen count p
    let bytes := (d.flat.drop p).take n
    aesdRead k count p uncopied
      = .ok (if min uncopied n > 0 then (-EFAULT, bytes.take (n - min uncopied n), p, k)
          else ((n : Int), bytes, p + n, k)) := by
  intro n bytes
  have hfit : AesdCircularBuffer.totalSize k.aesdDevice.circularBuffer.live < 2 ^ 64 := by
    have := h.flat_length_lt
    rw [h.totalSize_eq]
    omega
  have hfind := h.wellFormed.findEntryOffsetForFpos_eq hfit p
  rw [h.liveSizes_eq] at hfind
  cases hloc : locate (d.commands.map List.length) p with
  | none =>
      -- no command holds the position
      have hn : n = 0 := by simp only [n, Device.readLen, hloc]
      have hb : bytes = [] := by simp only [bytes, hn, List.take_zero]
      rw [hloc] at hfind
      simp only [aesdRead, mutexLock_eq h.unlocked, bind, Except.bind, pure, Except.pure]
      rw [show k.locked.aesdDevice.circularBuffer.findEntryOffsetForFpos p = none from hfind]
      simp [hn, hb, mutexUnlock_locked h.unlocked]
  | some io =>
      obtain ⟨i, o⟩ := io
      obtain ⟨c, hc, ho, hpos⟩ := Device.locate_commands hloc
      obtain ⟨a, hslot, hblock⟩ := h.slot_eq hc
      have hn : n = min count (c.length - o) := by
        simp [n, Device.readLen, hloc, List.getD_eq_getElem?_getD, hc]
      have hclen : c.length < 2 ^ 64 := by
        have hmem := List.mem_of_getElem? hc
        have := h.flat_length_lt
        have hle : c.length ≤ d.flat.length := by
          rw [← d.sum_lengths]
          exact List.single_le_sum (by simp) _ (List.mem_map.mpr ⟨c, hmem, rfl⟩)
        omega
      have hbytes : (c.drop o).take n = bytes := by
        rw [take_drop_piece hc (by omega), hpos]
        rfl
      have hload : k.locked.load (.block a) o n = .ok bytes := by
        rw [← hbytes]
        exact load_of_block (k := k.locked) o n hblock (by omega)
      rw [hloc] at hfind
      simp only [aesdRead, mutexLock_eq h.unlocked, bind, Except.bind, pure, Except.pure]
      rw [show k.locked.aesdDevice.circularBuffer.findEntryOffsetForFpos p
        = some (k.aesdDevice.circularBuffer.liveSlot i, o) from hfind]
      simp only [show k.locked.aesdDevice.circularBuffer = k.aesdDevice.circularBuffer from rfl,
        hslot, sizeTSub_of_le (Nat.le_of_lt ho) hclen, ← hn, copyToUser, hload, bind, Except.bind,
        pure, Except.pure]
      -- the position moves only if everything could be copied
      by_cases hleft : min uncopied n > 0
      · simp [hleft, EFAULT, mutexUnlock_locked h.unlocked]
      · have hzero : min uncopied n = 0 := by omega
        have hlen : bytes.length ≤ n := List.length_take_le _ _
        simp [hzero, mutexUnlock_locked h.unlocked, List.take_of_length_le hlen]

/-- `aesd_llseek` leaves the device alone. -/
theorem Kernel.Represents.aesdLlseek_eq (h : k.Represents api d staged ring) (p : Nat)
    (off whence : Int) :
    aesdLlseek api k p off whence
      = .ok ((api.fixedSizeLlseek p off whence d.flat.length).1,
          (api.fixedSizeLlseek p off whence d.flat.length).2, k) := by
  have hsize : k.aesdDevice.circularBuffer.size = d.flat.length := by
    have := h.flat_length_lt
    rw [h.wellFormed.size_eq, h.totalSize_eq, sizeT_of_lt (by omega)]
  simp only [aesdLlseek, mutexLock_eq h.unlocked, bind, Except.bind, pure, Except.pure]
  rw [mutexUnlock_locked h.unlocked, ← hsize]
  rfl

/-- `aesd_adjust_file_offset` moves exactly when the position it is given is not negative. -/
theorem aesdAdjustFileOffset_eq (hk : k.aesdDevice.lock = false) (p writeCmd writeCmdOffset : Nat) :
    let fpos := k.aesdDevice.circularBuffer.getEntryFpos writeCmd writeCmdOffset
    aesdAdjustFileOffset k p writeCmd writeCmdOffset
      = .ok (if fpos ≥ 0 then (0, fpos.toNat, k) else (-EINVAL, p, k)) := by
  intro fpos
  simp only [aesdAdjustFileOffset, mutexLock_eq hk, bind, Except.bind, pure, Except.pure]
  rw [show k.locked.aesdDevice.circularBuffer.getEntryFpos writeCmd writeCmdOffset = fpos from rfl,
    mutexUnlock_locked hk]
  split <;> rfl

/-- `aesd_ioctl` leaves the device alone, and a call that fails does not move. -/
theorem Kernel.Represents.aesdIoctl_cases (h : k.Represents api d staged ring) (p cmd : Nat)
    (seekto : AesdSeekto) (uncopied : Nat) :
    ∃ (ret : Int) (p' : Nat), aesdIoctl k p cmd seekto uncopied = .ok (ret, p', k)
      ∧ (ret < 0 → p' = p) := by
  have hadj := aesdAdjustFileOffset_eq h.unlocked p seekto.writeCmd seekto.writeCmdOffset
  unfold aesdIoctl
  rw [hadj]
  by_cases hcmd : cmd = AESDCHAR_IOCSEEKTO
  · rw [if_pos hcmd]
    by_cases hleft : min uncopied sizeofAesdSeekto ≠ 0
    · exact ⟨_, _, if_pos hleft, fun _ => rfl⟩
    · rw [if_neg hleft]
      split
      · exact ⟨_, _, rfl, fun hneg => absurd hneg (Int.lt_irrefl 0)⟩
      · exact ⟨_, _, rfl, fun _ => rfl⟩
  · exact ⟨_, _, if_neg hcmd, fun _ => rfl⟩

/-! ## Writes -/

/-- The owned blocks, with the staged one in front. -/
theorem Kernel.Represents.kfree_staging (h : k.Represents api d staged ring) {a : Nat}
    (hfresh : ¬ k.heap.Live a) (cells : List UInt8) :
    ∃ heap : Heap UInt8,
      Kernel.kfree { k.locked with heap := k.heap.alloc a cells } k.aesdDevice.stagingEntry.buffptr
        = .ok { k.locked with heap := heap }
      ∧ heap.Exactly ((a, cells) :: ring) := by
  have hx := h.heap.alloc hfresh cells
  rw [h.staging]
  cases staged with
  | none => exact ⟨_, rfl, hx⟩
  | some cell =>
      have hx' : (k.heap.alloc a cells).Exactly (cell :: (a, cells) :: ring) :=
        hx.perm (List.Perm.swap _ _ _)
      have hlive : (k.heap.alloc a cells).Live cell.1 := Heap.live_of_block (hx'.block (by simp))
      refine ⟨_, if_pos hlive, hx'.free⟩

/-- Copying the staged bytes into the new block. -/
theorem Kernel.Represents.memcpy_staging (h : k.Represents api d staged ring) {a : Nat}
    (hfresh : ¬ k.heap.Live a) (cells : List UInt8) (hlen : d.pending.length ≤ cells.length) :
    Kernel.memcpy { k.locked with heap := k.heap.alloc a cells } (.block a) 0
        k.aesdDevice.stagingEntry.buffptr k.aesdDevice.stagingEntry.size
      = .ok { k.locked with heap := k.heap.alloc a (Heap.overwrite cells 0 d.pending) } := by
  have hload : Kernel.load { k.locked with heap := k.heap.alloc a cells }
      k.aesdDevice.stagingEntry.buffptr 0 k.aesdDevice.stagingEntry.size = .ok d.pending := by
    rw [h.staging, ← h.pending]
    cases staged with
    | none => rfl
    | some cell =>
        have hb : (k.heap.alloc a cells).block cell.1 = some cell.2 :=
          (h.heap.alloc hfresh cells).block (by simp)
        have := load_of_block (k := { k.locked with heap := k.heap.alloc a cells })
          0 cell.2.length hb (by omega)
        rw [List.drop_zero, List.take_length] at this
        exact this
  simp only [memcpy, hload, bind, Except.bind]
  exact store_alloc k.locked k.heap 0 cells d.pending (by omega)

/-- Copying the user's bytes behind them. -/
theorem copyFromUser_behind (k : Kernel) (heap : Heap UInt8) {a : Nat} {cells : List UInt8}
    (pend buf : List UInt8) (uncopied : Nat) (hlen : cells.length = buf.length + pend.length) :
    ∃ copied : List UInt8,
      Kernel.copyFromUser { k with heap := heap.alloc a (Heap.overwrite cells 0 pend) } (.block a)
          pend.length buf uncopied
        = .ok (min uncopied buf.length, { k with heap := heap.alloc a (pend ++ copied) })
      ∧ (min uncopied buf.length = 0 → copied = buf) := by
  set copied := buf.take (buf.length - min uncopied buf.length)
    ++ List.replicate (min uncopied buf.length) 0 with hcopied
  have hclen : copied.length = buf.length := by
    simp [hcopied]
  refine ⟨copied, ?_, fun hzero => by simp [hcopied, hzero]⟩
  have hin : (Heap.overwrite cells 0 pend).length = cells.length :=
    Heap.length_overwrite (by omega)
  have hstore := store_alloc k heap (a := a) pend.length (Heap.overwrite cells 0 pend) copied
    (by omega)
  rw [Heap.overwrite_overwrite (by omega)] at hstore
  simp only [copyFromUser, ← hcopied, hstore, bind, Except.bind]
  rfl

theorem Kernel.Represents.staging_size (h : k.Represents api d staged ring) :
    k.aesdDevice.stagingEntry.size = d.pending.length := by
  rw [h.staging, ← h.pending]
  cases staged <;> rfl

theorem Kernel.Represents.pending_length_le (h : k.Represents api d staged ring) :
    d.pending.length ≤ api.kmallocMaxSize := by
  rw [← h.pending]
  cases staged with
  | none => exact Nat.zero_le _
  | some cell => exact h.small cell (by simp)

/-- Freeing what the ring gives back leaves the blocks of the ring it keeps. -/
theorem kfree_evicted (q : Kernel) {cell : Cell} {ring : List Cell}
    (hx : q.heap.Exactly (cell :: ring)) (hlen : ring.length ≤ maxWriteOperationsSupported) :
    ∃ heap : Heap UInt8,
      q.kfree (AesdCircularBuffer.evictedPtr (ring.map entryOf)) = .ok { q with heap := heap }
      ∧ heap.Exactly ((ring ++ [cell]).rtake maxWriteOperationsSupported) := by
  have hrot : (cell :: ring).Perm (ring ++ [cell]) := (List.perm_append_singleton cell ring).symm
  rw [AesdCircularBuffer.evictedPtr, AesdCircularBuffer.evicted, List.length_map,
    rtake_concat _ _ (by decide), rtake_of_length_le hlen]
  by_cases hroom : ring.length < maxWriteOperationsSupported
  · -- nothing falls out, and `kfree(NULL)` does nothing
    rw [if_pos hroom, if_pos hroom]
    exact ⟨q.heap, rfl, hx.perm hrot⟩
  · rw [if_neg hroom, if_neg hroom]
    cases ring with
    | nil => exact absurd (by decide) hroom
    | cons oldest rest =>
        have hx' : q.heap.Exactly (oldest :: (rest ++ [cell])) := hx.perm hrot
        have hlive : q.heap.Live oldest.1 := Heap.live_of_block (hx'.block (by simp))
        exact ⟨q.heap.free oldest.1, if_pos hlive, hx'.free⟩

/-- The last byte of a block, as the driver loads it. -/
theorem load_last {q : Kernel} {a : Nat} {cells : List UInt8} (hb : q.heap.block a = some cells)
    (hne : cells ≠ []) (hlen : cells.length < 2 ^ 64) :
    q.load (.block a) (sizeTSub cells.length 1) 1 = .ok cells.getLast?.toList := by
  have hpos := List.length_pos_iff.mpr hne
  rw [sizeTSub_of_le hpos hlen, load_of_block _ 1 hb (by omega), List.drop_length_sub_one hne,
    List.getLast?_eq_some_getLast hne]
  rfl

/-- A new block of a size `kmalloc` allows among the blocks of the ring. -/
theorem Kernel.Represents.small_concat (h : k.Represents api d staged ring) (cell : Cell)
    (hsmall : cell.2.length ≤ api.kmallocMaxSize) :
    ∀ c ∈ ring ++ [cell], c.2.length ≤ api.kmallocMaxSize := by
  intro c hc
  rcases List.mem_append.mp hc with hc | hc
  · exact h.small c (List.mem_append_right _ hc)
  · rw [List.mem_singleton.mp hc]
    exact hsmall

/-- The ring has taken the pending string, and the staging entry is empty. -/
theorem Kernel.Represents.committed (h : k.Represents api d staged ring) {a : Nat}
    {buf : List UInt8} (hend : endsCommand (d.pending ++ buf) = true)
    (hsmall : (d.pending ++ buf).length ≤ api.kmallocMaxSize) {k' : Kernel}
    (hunlocked : k'.aesdDevice.lock = false)
    (hbuffer : k'.aesdDevice.circularBuffer
      = (k.aesdDevice.circularBuffer.addEntry (entryOf (a, d.pending ++ buf))).2)
    (hstaging : k'.aesdDevice.stagingEntry = .zero)
    (hheap : k'.heap.Exactly
      ((ring ++ [(a, d.pending ++ buf)]).rtake maxWriteOperationsSupported)) :
    k'.Represents api (d.write buf) none
      ((ring ++ [(a, d.pending ++ buf)]).rtake maxWriteOperationsSupported) := by
  obtain ⟨hcommands, hpending⟩ := Device.write_of_ends d buf hend
  exact {
    unlocked := hunlocked
    wellFormed := hbuffer ▸ h.wellFormed.addEntry _
    live := by
      rw [hbuffer, h.wellFormed.live_addEntry, h.live]
      simp [List.rtake, List.map_drop]
    commands := by
      rw [hcommands, ← h.commands]
      simp [List.rtake, List.map_drop]
    staging := hstaging
    pending := hpending.symm
    staged_ne := by simp
    heap := hheap
    small := fun c hc => h.small_concat _ hsmall c (List.mem_of_mem_drop hc) }

/-- The staging entry holds the longer pending string, and the ring is as it was. -/
theorem Kernel.Represents.extended (h : k.Represents api d staged ring) {a : Nat}
    {buf : List UInt8} (hend : endsCommand (d.pending ++ buf) = false)
    (hne : d.pending ++ buf ≠ []) (hsmall : (d.pending ++ buf).length ≤ api.kmallocMaxSize)
    {k' : Kernel} (hunlocked : k'.aesdDevice.lock = false)
    (hbuffer : k'.aesdDevice.circularBuffer = k.aesdDevice.circularBuffer)
    (hstaging : k'.aesdDevice.stagingEntry = entryOf (a, d.pending ++ buf))
    (hheap : k'.heap.Exactly ((a, d.pending ++ buf) :: ring)) :
    k'.Represents api (d.write buf) (some (a, d.pending ++ buf)) ring := by
  obtain ⟨hcommands, hpending⟩ := Device.write_of_open d buf hend
  exact {
    unlocked := hunlocked
    wellFormed := hbuffer ▸ h.wellFormed
    live := by rw [hbuffer, h.live]
    commands := by rw [hcommands, h.commands]
    staging := hstaging
    pending := hpending.symm
    staged_ne := by simpa using hne
    heap := hheap
    small := fun c hc => h.small_concat (a, d.pending ++ buf) hsmall c
      (by simpa [or_comm] using hc) }

/-- The ring after a write: one more entry if the write commits a command, else as it was. -/
def Kernel.RingStep (k k' : Kernel) (commits : Bool) : Prop :=
  if commits then
    ∃ e, k'.aesdDevice.circularBuffer = (k.aesdDevice.circularBuffer.addEntry e).2
  else
    k'.aesdDevice.circularBuffer = k.aesdDevice.circularBuffer

/-- **The end-of-command test and the commit.** The staging entry is a block of its own that
holds the whole new pending string. -/
theorem Kernel.Represents.commitStaging_spec (h : k.Represents api d staged ring)
    {heap : Heap UInt8} {a : Nat} (buf : List UInt8)
    (hx : heap.Exactly ((a, d.pending ++ buf) :: ring)) (hne : d.pending ++ buf ≠ [])
    (hsmall : (d.pending ++ buf).length ≤ api.kmallocMaxSize) :
    ∃ k' : Kernel,
      commitStaging
        { k.locked with
          heap := heap
          aesdDevice := { k.locked.aesdDevice with stagingEntry := entryOf (a, d.pending ++ buf) } }
        = .ok k'
      ∧ k'.mutexUnlock.Shows api (d.write buf) ∧ k'.fPos = k.fPos
      ∧ k.RingStep k' (endsCommand (d.pending ++ buf)) := by
  set s := d.pending ++ buf with hs
  set q : Kernel := { k.locked with
          heap := heap
          aesdDevice := { k.locked.aesdDevice with stagingEntry := entryOf (a, s) } } with hq
  have hlim := api.kmallocMaxSize_lt
  have hlast : q.load (.block a) (sizeTSub s.length 1) 1 = .ok s.getLast?.toList :=
    load_last ((hx.block_iff a s).mpr (by simp)) hne (by omega)
  have hringlen : ring.length ≤ maxWriteOperationsSupported := by
    rw [← List.length_map (f := Prod.snd), h.commands]
    exact d.length_le
  have hload : commitStaging q
      = if s.getLast?.toList = [newline] then
          (do
            let k ← Kernel.kfree
              { q with aesdDevice := { q.aesdDevice with
                circularBuffer := (q.aesdDevice.circularBuffer.addEntry (entryOf (a, s))).2 } }
              (q.aesdDevice.circularBuffer.addEntry (entryOf (a, s))).1
            return { k with aesdDevice := { k.aesdDevice with stagingEntry := .zero } })
        else .ok q := by
    simp only [commitStaging]
    rw [show q.aesdDevice.stagingEntry = entryOf (a, s) from rfl]
    simp only [entryOf, hlast, bind, Except.bind]
    rfl
  rw [hload]
  cases hend : endsCommand s with
  | true =>
      have hnl : s.getLast?.toList = [newline] := by
        rw [endsCommand, beq_iff_eq] at hend
        rw [hend, Option.toList_some]
      rw [if_pos hnl]
      have hadd : (q.aesdDevice.circularBuffer.addEntry (entryOf (a, s))).1
          = AesdCircularBuffer.evictedPtr (ring.map entryOf) := by
        rw [← h.live]
        exact h.wellFormed.addEntry_fst (entryOf (a, s))
      -- what the ring gives back is the block it no longer refers to
      obtain ⟨heap', hfree, hx'⟩ := kfree_evicted
        { q with aesdDevice := { q.aesdDevice with
            circularBuffer := (q.aesdDevice.circularBuffer.addEntry (entryOf (a, s))).2 } }
        hx hringlen
      rw [hadd, hfree]
      exact ⟨_, rfl, ⟨_, _, h.committed hend hsmall rfl rfl rfl hx'⟩, rfl, entryOf (a, s), rfl⟩
  | false =>
      have hnl : ¬ s.getLast?.toList = [newline] := by
        intro hc
        rw [endsCommand, beq_eq_false_iff_ne] at hend
        exact hend (by simpa using hc)
      rw [if_neg hnl]
      exact ⟨_, rfl, ⟨_, _, h.extended hend hne hsmall rfl rfl rfl hx⟩, rfl, rfl⟩

/-- Without memory nothing is touched. -/
theorem Kernel.Represents.aesdWrite_noMemory (h : k.Represents api d staged ring)
    {buf : List UInt8} {choice : Option KmallocBlock} {uncopied : Nat}
    (hsum : sizeT (buf.length + d.pending.length) = buf.length + d.pending.length)
    (hfail : k.locked.kmalloc api (buf.length + d.pending.length) choice = (.null, k.locked)) :
    aesdWrite api k buf choice uncopied = .ok (-ENOMEM, k) := by
  have hstaging : k.locked.aesdDevice.stagingEntry = k.aesdDevice.stagingEntry := rfl
  simp only [aesdWrite, mutexLock_eq h.unlocked, bind, Except.bind, hstaging, h.staging_size,
    hsum, hfail, if_true]
  rw [mutexUnlock_locked h.unlocked]
  rfl

section

variable {buf : List UInt8} {choice : Option KmallocBlock} {uncopied a : Nat}
  {cells : List UInt8} (h : k.Represents api d staged ring)
  (hsum : sizeT (buf.length + d.pending.length) = buf.length + d.pending.length)
  (hfresh : ¬ k.heap.Live a) (hlen : cells.length = buf.length + d.pending.length)
  (halloc : k.locked.kmalloc api (buf.length + d.pending.length) choice
    = (.block a, { k.locked with heap := k.locked.heap.alloc a cells }))

include h hsum hfresh hlen halloc

/-- If the copy from user space fails, the new block is freed again. -/
theorem Kernel.Represents.aesdWrite_badCopy (hleft : min uncopied buf.length > 0) :
    aesdWrite api k buf choice uncopied = .ok (-EFAULT, k) := by
  have hstaging : k.locked.aesdDevice.stagingEntry = k.aesdDevice.stagingEntry := rfl
  have hheap : k.locked.heap = k.heap := rfl
  have hmemcpy := h.memcpy_staging hfresh cells (by omega)
  obtain ⟨copied, hcopy, -⟩ := copyFromUser_behind k.locked k.heap (a := a)
    d.pending buf uncopied hlen
  rw [h.staging_size] at hmemcpy
  have hlive : (k.heap.alloc a (d.pending ++ copied)).Live a := by simp
  have hkfree : Kernel.kfree { k.locked with heap := k.heap.alloc a (d.pending ++ copied) }
      (.block a) = .ok k.locked := by
    rw [kfree, if_pos hlive]
    simp only [Heap.free_alloc _ (show ¬ k.heap.Live a from hfresh)]
    rfl
  simp only [aesdWrite, mutexLock_eq h.unlocked, bind, Except.bind, hstaging, h.staging_size,
    hsum, halloc, hheap, hmemcpy, hcopy, hleft, hkfree, reduceCtorEq, if_true, if_false]
  rw [mutexUnlock_locked h.unlocked]
  rfl

/-- Otherwise the old block is freed, and the new one is the staging entry. -/
theorem Kernel.Represents.aesdWrite_done (hne : d.pending ++ buf ≠ [])
    (hmax : buf.length + d.pending.length ≤ api.kmallocMaxSize)
    (hzero : min uncopied buf.length = 0) :
    ∃ k' : Kernel, aesdWrite api k buf choice uncopied = .ok ((buf.length : Int), k')
        ∧ k'.Shows api (d.write buf) ∧ k'.fPos = k.fPos
        ∧ k.RingStep k' (endsCommand (d.pending ++ buf)) := by
  have hstaging : k.locked.aesdDevice.stagingEntry = k.aesdDevice.stagingEntry := rfl
  have hheap : k.locked.heap = k.heap := rfl
  have hmemcpy := h.memcpy_staging hfresh cells (by omega)
  obtain ⟨copied, hcopy, hall⟩ := copyFromUser_behind k.locked k.heap (a := a)
    d.pending buf uncopied hlen
  rw [h.staging_size] at hmemcpy
  rw [hall hzero] at hcopy
  obtain ⟨heap, hfree, hx⟩ := h.kfree_staging hfresh (d.pending ++ buf)
  obtain ⟨k', hcommit, hshows, hfpos, hring⟩ := h.commitStaging_spec buf hx hne (by
    rw [List.length_append]
    omega)
  have hnew : sizeT (d.pending.length + buf.length) = (d.pending ++ buf).length := by
    rw [List.length_append, Nat.add_comm]
    exact hsum
  have hleft : ¬ min uncopied buf.length > 0 := by omega
  refine ⟨k'.mutexUnlock, ?_, hshows, hfpos, hring⟩
  rw [entryOf] at hcommit
  simp only [aesdWrite, mutexLock_eq h.unlocked, bind, Except.bind, hstaging, h.staging_size,
    hsum, halloc, hheap, hmemcpy, hcopy, hleft, hfree, hnew, hcommit, reduceCtorEq, if_false]
  rfl

end

/-- **`aesd_write`** of at least one byte, or on top of pending bytes: it fails for lack of
memory or because of a copy from user space, and leaves the state exactly as it was; or it
returns the number of bytes, they are appended, and the ring takes at most one step. -/
theorem Kernel.Represents.aesdWrite_cases (h : k.Represents api d staged ring) (buf : List UInt8)
    (choice : Option KmallocBlock) (uncopied : Nat) (hne : d.pending ++ buf ≠ [])
    (hcount : buf.length ≤ maxRwCount) :
    aesdWrite api k buf choice uncopied = .ok (-ENOMEM, k)
    ∨ aesdWrite api k buf choice uncopied = .ok (-EFAULT, k)
    ∨ ∃ k' : Kernel, aesdWrite api k buf choice uncopied = .ok ((buf.length : Int), k')
        ∧ k'.Shows api (d.write buf) ∧ k'.fPos = k.fPos
        ∧ k.RingStep k' (endsCommand (d.pending ++ buf)) := by
  have hlim := api.kmallocMaxSize_lt
  have hpend := h.pending_length_le
  have hpos := List.length_pos_iff.mpr hne
  rw [List.length_append] at hpos
  have hsum : sizeT (buf.length + d.pending.length) = buf.length + d.pending.length :=
    sizeT_of_lt (by unfold maxRwCount at hcount; omega)
  rcases kmalloc_cases api k.locked (buf.length + d.pending.length) (by omega) choice with
    hfail | ⟨a, cells, hfresh, hlen, hmax, halloc⟩
  · exact Or.inl (h.aesdWrite_noMemory hsum hfail)
  · right
    by_cases hleft : min uncopied buf.length > 0
    · exact Or.inl (h.aesdWrite_badCopy hsum hfresh hlen halloc hleft)
    · exact Or.inr (h.aesdWrite_done hsum hfresh hlen halloc hne hmax (by omega))

end

end Aesd
