import Aesd.Driver.Runs

set_option autoImplicit false

/-! # Memory safety and failure of calls

* a write stays inside its blocks if it has a byte to look at, and only then
  (`aesdWrite_inRange_iff`);
* the live blocks are the staged one and those of the ring, each owned once (`run_ownsExactly`);
* a call that fails leaves no trace (`failed_call_leaves_no_trace`). -/

namespace Aesd

open CInt CircArray Kernel

/-! ## Accesses of a write -/

/-- One call of `aesd_write` stays in range: the allocated sum does not wrap, no access leaves
its block, and the byte that is compared with `'\n'` after a copy that succeeded is a byte of
the staging buffer. -/
structure WriteInRange (api : KernelApi) (k : Kernel) (buf : List UInt8)
    (choice : Option KmallocBlock) (uncopied : Nat) : Prop where
  no_wrap : buf.length + k.aesdDevice.stagingEntry.size < 2 ^ 64
  no_fault : ∃ ret, aesdWrite api k buf choice uncopied = .ok ret
  test_inside : min uncopied buf.length = 0 →
    1 ≤ sizeT (k.aesdDevice.stagingEntry.size + buf.length)

/-- The condition for it: `count + staging_entry.size` is not zero. -/
def Kernel.HasByte (k : Kernel) (buf : List UInt8) : Prop :=
  1 ≤ buf.length + k.aesdDevice.stagingEntry.size

/-- Every call of the run is one of the VFS, and every write of it meets the condition in the
state it is made in. -/
def Kernel.WritesMeet (api : KernelApi) (k : Kernel) : List DevCall → Prop
  | [] => True
  | c :: rest =>
      c.InRange ∧ (∀ f buf choice uncopied, c = .write f buf choice uncopied → k.HasByte buf)
        ∧ match k.call api c with
          | .ok (_, k') => k'.WritesMeet api rest
          | .error _ => True

section

variable {api : KernelApi} {k : Kernel} {d : Device}

/-- **A write is in range exactly if there is a byte to look at.** -/
theorem Kernel.Shows.writeInRange_iff (h : k.Shows api d) (buf : List UInt8)
    (hcount : buf.length ≤ maxRwCount) (choice : Option KmallocBlock) (uncopied : Nat) :
    WriteInRange api k buf choice uncopied ↔ k.HasByte buf := by
  have hsize := h.staging_size
  rw [HasByte, hsize]
  constructor
  · -- without a byte to look at the call faults
    intro hin
    by_contra hno
    have hd : d.pending = [] := List.eq_nil_of_length_eq_zero (by omega)
    have hb : buf = [] := List.eq_nil_of_length_eq_zero (by omega)
    obtain ⟨ret, hok⟩ := hin.no_fault
    rw [hb, h.aesdWrite_empty hd] at hok
    cases hok
  · intro hbyte
    obtain ⟨staged, ring, hr⟩ := h
    have hpend := hr.pending_length_le
    have hlim := api.kmallocMaxSize_lt
    have hsum : buf.length + d.pending.length < 2 ^ 64 := by
      unfold maxRwCount at hcount
      omega
    refine ⟨by rwa [hsize], ?_, fun _ => ?_⟩
    · have hne : d.pending ++ buf ≠ [] := by
        intro hnil
        have hlen := congrArg List.length hnil
        rw [List.length_append, List.length_nil] at hlen
        omega
      rcases hr.aesdWrite_cases buf choice uncopied hne hcount with hw | hw | ⟨k', hw, -⟩
      · exact ⟨_, hw⟩
      · exact ⟨_, hw⟩
      · exact ⟨_, hw⟩
    · rw [hsize, sizeT_of_lt (by omega)]
      omega

/-- A run whose writes meet the condition returns, and it ends in a state that shows a memory. -/
theorem Kernel.Shows.run_of_writesMeet (h : k.Shows api d) {calls : List DevCall}
    (hmeet : k.WritesMeet api calls) :
    ∃ (rs : List SysRet) (k' : Kernel) (d' : Device),
      k.run api calls = .ok (rs, k') ∧ k'.Shows api d' := by
  induction calls generalizing k d with
  | nil => exact ⟨[], k, d, rfl, h⟩
  | cons c rest ih =>
      obtain ⟨hc, hbyte, hrest⟩ := hmeet
      rcases h.call_cases c hc with ⟨-, hd, f, choice, uncopied, rfl⟩ | ⟨r, k₁, hcall, h₁, -⟩
      · have hno := hbyte f [] choice uncopied rfl
        rw [HasByte, h.staging_size, hd] at hno
        exact absurd hno (by simp)
      · rw [hcall] at hrest
        obtain ⟨rs, k', d', hrun, hd'⟩ := ih h₁ hrest
        exact ⟨r :: rs, k', d', run_cons.mpr ⟨r, k₁, rs, hcall, hrun, rfl⟩, hd'⟩

end

/-- **When `aesd_write` stays in range.** After every run whose writes all had a byte to look at,
the accesses of the next write are in range if and only if it has one too. -/
theorem aesdWrite_inRange_iff (api : KernelApi) (dev : AesdDev) (calls : List DevCall)
    (hmeet : (Kernel.loaded dev).WritesMeet api calls) :
    ∃ (rs : List SysRet) (k : Kernel), (Kernel.loaded dev).run api calls = .ok (rs, k)
      ∧ ∀ (buf : List UInt8) (choice : Option KmallocBlock) (uncopied : Nat),
        buf.length ≤ maxRwCount →
          (WriteInRange api k buf choice uncopied ↔ k.HasByte buf) := by
  obtain ⟨rs, k, d, hrun, hshows⟩ := (Kernel.loaded_shows api dev).run_of_writesMeet hmeet
  exact ⟨rs, k, hrun, fun buf choice uncopied hcount =>
    hshows.writeInRange_iff buf hcount choice uncopied⟩

theorem aesdWrite_inRange_iff_afterOneByte :
    ∃ (rs : List SysRet) (k : Kernel),
      (Kernel.loaded .zero).run .linux [.openFile 0, .write 0 [65] (some ⟨7, fun _ => 0⟩) 0]
        = .ok (rs, k)
      ∧ ∀ (buf : List UInt8) (choice : Option KmallocBlock) (uncopied : Nat),
        buf.length ≤ maxRwCount →
          (WriteInRange .linux k buf choice uncopied ↔ k.HasByte buf) :=
  aesdWrite_inRange_iff .linux .zero _ (by
    refine ⟨trivial, by simp, ?_⟩
    show _ ∧ _ ∧ _
    refine ⟨by simp [DevCall.InRange, maxRwCount], ?_, trivial⟩
    rintro f buf choice uncopied ⟨⟩
    simp [Kernel.HasByte])

/-- An empty write right after the module is loaded looks at the byte in front of its buffer. -/
theorem aesdWrite_empty_outOfBounds :
    ∃ (rs : List SysRet) (k : Kernel),
      (Kernel.loaded .zero).run .linux [.openFile 0] = .ok (rs, k)
      ∧ k.aesdDevice.stagingEntry.size = 0
      ∧ aesdWrite .linux k [] none 0 = .error .outOfBounds
      ∧ ¬ WriteInRange .linux k [] none 0 := by
  refine ⟨_, _, rfl, rfl, rfl, fun hin => ?_⟩
  obtain ⟨ret, hok⟩ := hin.no_fault
  cases hok

/-! ## Ownership -/

/-- The pointers the device holds: the staging buffer, if it is not empty, and the buffers of the
live entries. -/
def AesdDev.pointers (dev : AesdDev) : List KPtr :=
  (if dev.stagingEntry.size = 0 then [] else [dev.stagingEntry.buffptr])
    ++ dev.circularBuffer.live.map AesdBufferEntry.buffptr

/-- **The device owns the kernel memory.** The live blocks are exactly the blocks it points to,
and it points to none of them twice. -/
structure Kernel.OwnsExactly (k : Kernel) : Prop where
  nodup : k.aesdDevice.pointers.Nodup
  live_iff : ∀ a, k.heap.Live a ↔ KPtr.block a ∈ k.aesdDevice.pointers
  /-- No pointer is dangling, and the block behind it has the size of the entry. -/
  points : ∀ e ∈ k.aesdDevice.stagingEntry :: k.aesdDevice.circularBuffer.live,
    e = .zero ∨ ∃ (a : Nat) (cells : List UInt8),
      e.buffptr = .block a ∧ k.heap.block a = some cells ∧ cells.length = e.size

/-- The pointers of a state that represents a memory. -/
theorem Kernel.Represents.pointers_eq {api : KernelApi} {k : Kernel} {d : Device}
    {staged : Option Cell} {ring : List Cell} (h : k.Represents api d staged ring) :
    k.aesdDevice.pointers = (staged.toList ++ ring).map fun cell => KPtr.block cell.1 := by
  have hring : k.aesdDevice.circularBuffer.live.map AesdBufferEntry.buffptr
      = ring.map fun cell => KPtr.block cell.1 := by
    rw [h.live, List.map_map]
    rfl
  rw [AesdDev.pointers, hring, h.staging, List.map_append]
  cases hst : staged with
  | none => rfl
  | some cell =>
      have hne : ¬ (stagingOf (some cell)).size = 0 := by
        have := h.staged_ne cell (by rw [hst]; rfl)
        simpa [stagingOf, entryOf] using this
      rw [if_neg hne]
      rfl

theorem Kernel.Shows.ownsExactly {api : KernelApi} {k : Kernel} {d : Device}
    (h : k.Shows api d) : k.OwnsExactly := by
  obtain ⟨staged, ring, h⟩ := h
  have hmap : (staged.toList ++ ring).map (fun cell => KPtr.block cell.1)
      = ((staged.toList ++ ring).map Prod.fst).map KPtr.block := by
    rw [List.map_map]
    rfl
  -- blocks of the heap are at different addresses, so pointers to them differ
  have hinj : Function.Injective KPtr.block := fun a b hab => KPtr.block.inj hab
  have hpoints : ∀ cell ∈ staged.toList ++ ring, ∃ (a : Nat) (cells : List UInt8),
      (entryOf cell).buffptr = .block a ∧ k.heap.block a = some cells
        ∧ cells.length = (entryOf cell).size :=
    fun cell hmem => ⟨cell.1, cell.2, rfl, h.heap.block hmem, rfl⟩
  refine ⟨?_, fun a => ?_, ?_⟩
  · rw [h.pointers_eq, hmap]
    exact h.heap.nodup.map hinj
  · rw [h.pointers_eq, hmap, List.mem_map_of_injective hinj, h.heap.live_iff]
  · intro e he
    rcases List.mem_cons.mp he with rfl | he
    · rw [h.staging]
      cases hst : staged with
      | none => exact Or.inl rfl
      | some cell => exact Or.inr (hpoints cell (by simp [hst]))
    · rw [h.live] at he
      obtain ⟨cell, hmem, rfl⟩ := List.mem_map.mp he
      exact Or.inr (hpoints cell (List.mem_append_right _ hmem))

/-- **Ownership over whole runs.** A run without empty writes frees only `NULL` and live blocks,
since it returns, and the blocks it leaves are exactly the ones the device points to. -/
theorem run_ownsExactly (api : KernelApi) (dev : AesdDev) (calls : List DevCall)
    (hcalls : ∀ c ∈ calls, c.Counted) :
    ∃ (rs : List SysRet) (k : Kernel), (Kernel.loaded dev).run api calls = .ok (rs, k)
      ∧ k.OwnsExactly := by
  have hinit := Kernel.loaded_shows api dev
  obtain ⟨rs, k, hrun⟩ := hinit.run_ok calls hcalls
  exact ⟨rs, k, hrun, (hinit.run (fun c hc => (hcalls c hc).inRange) hrun).ownsExactly⟩

theorem run_ownsExactly_appendThenFail :
    ∃ (rs : List SysRet) (k : Kernel),
      (Kernel.loaded .zero).run .linux
          [.openFile 0, .write 0 [65] (some ⟨1, fun _ => 0⟩) 0,
            .write 0 [66, newline] (some ⟨2, fun _ => 0⟩) 1,
            .write 0 [66, newline] (some ⟨2, fun _ => 0⟩) 0]
        = .ok (rs, k)
      ∧ k.OwnsExactly :=
  run_ownsExactly .linux .zero _ (by simp [DevCall.Counted, maxRwCount])

/-! ## Failed calls -/

/-- **A failed call leaves no trace.** In every state a run can lead to, a call that returns a
negative value leaves the device, the kernel memory and all positions as they were, with the
lock free; and whatever is called afterwards goes on as if it had not been made. -/
theorem failed_call_leaves_no_trace (api : KernelApi) (dev : AesdDev) (calls : List DevCall)
    (rs : List SysRet) (k : Kernel) (hcalls : ∀ c ∈ calls, c.InRange)
    (hrun : (Kernel.loaded dev).run api calls = .ok (rs, k)) (c : DevCall) (hc : c.InRange)
    (r : SysRet) (k' : Kernel) (hcall : k.call api c = .ok (r, k')) (hneg : r.ret < 0) :
    k' = k ∧ k'.aesdDevice.lock = false
      ∧ ∀ later, k.run api (c :: later)
          = (k.run api later).map fun (rs', k'') => (r :: rs', k'') := by
  have hshows := (Kernel.loaded_shows api dev).run hcalls hrun
  have hk : k' = k := (hshows.call hc hcall).2 hneg
  subst hk
  refine ⟨rfl, hshows.unlocked, fun later => ?_⟩
  rw [Kernel.run, hcall]
  simp only [bind, Except.bind]
  cases k'.run api later with
  | error e => rfl
  | ok rk => rfl

theorem failed_call_leaves_no_trace_badCopy :
    ∃ (rs : List SysRet) (k k' : Kernel),
      (Kernel.loaded .zero).run .linux
          [.openFile 0, .write 0 [65] (some ⟨1, fun _ => 0⟩) 0] = .ok (rs, k)
      ∧ k.call .linux (.write 0 [66, newline] (some ⟨2, fun _ => 0⟩) 1)
        = .ok (.value (-EFAULT), k')
      ∧ k' = k := by
  refine ⟨_, _, _, rfl, rfl, ?_⟩
  exact (failed_call_leaves_no_trace .linux .zero
    [.openFile 0, .write 0 [65] (some ⟨1, fun _ => 0⟩) 0] _ _
    (by simp [DevCall.InRange, maxRwCount]) rfl
    (.write 0 [66, newline] (some ⟨2, fun _ => 0⟩) 1) (by simp [DevCall.InRange, maxRwCount])
    (.value (-EFAULT)) _ rfl (by simp [SysRet.value, EFAULT])).1

end Aesd
