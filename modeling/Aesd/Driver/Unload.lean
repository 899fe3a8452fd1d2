import Aesd.Driver.Commits

set_option autoImplicit false

/-! # What is left when the module is unloaded

`aesd_cleanup_module` frees what the ten slots of the ring point to, without looking at which of
them are in use. This works because an unused slot is always as `memset` has left it
(`UnusedZero`, kept by `addEntry` and so by every run): the pointers it frees are those of the
live entries and `NULL`. It does not look at the staging entry, so a pending string is never
freed (`cleanup_frees_iff`). -/

namespace Aesd

open CInt CircArray Kernel

/-! ## Unused slots -/

namespace AesdCircularBuffer

variable {buffer : AesdCircularBuffer}

/-- A slot that holds no live entry is as `memset` has left it. -/
def UnusedZero (buffer : AesdCircularBuffer) : Prop :=
  ∀ i < maxWriteOperationsSupported, (∀ j < buffer.numEntries, buffer.liveSlot j ≠ i) →
    buffer.slot i = .zero

theorem unusedZero_init (buffer : AesdCircularBuffer) : buffer.init.UnusedZero := by
  intro i hi _
  simp [slot, init, Vector.getD, hi]

theorem slot_addEntry_ne (e : AesdBufferEntry) {i : Nat} (hne : i ≠ buffer.inOffs)
    (hin : buffer.inOffs < maxWriteOperationsSupported) :
    (buffer.addEntry e).2.slot i = buffer.slot i := by
  cases hf : buffer.full with
  | true =>
      rw [addEntry_of_full e hf, slot_eq_update hin rfl]
      exact Function.update_of_ne hne ..
  | false =>
      rw [addEntry_of_not_full e hf, slot_eq_update hin rfl]
      exact Function.update_of_ne hne ..

/-- In a full ring every slot is the slot of a live entry. -/
theorem exists_liveSlot_of_full (hf : buffer.numEntries = maxWriteOperationsSupported)
    (hout : buffer.outOffs < maxWriteOperationsSupported) {i : Nat}
    (hi : i < maxWriteOperationsSupported) : ∃ j < buffer.numEntries, buffer.liveSlot j = i := by
  have hmax := maxWriteOperationsSupported_eq
  refine ⟨(i + 10 - buffer.outOffs) % 10, by omega, ?_⟩
  rw [liveSlot, hmax]
  omega

/-- One add keeps the unused slots as they are. -/
theorem UnusedZero.addEntry (hu : buffer.UnusedZero) (h : buffer.WellFormed) (e : AesdBufferEntry) :
    (buffer.addEntry e).2.UnusedZero := by
  have h' := h.addEntry e
  intro i hi hno
  cases hf : buffer.full with
  | true =>
      -- the ring stays full, and nothing is unused
      have hfull : (buffer.addEntry e).2.numEntries = maxWriteOperationsSupported := by
        rw [addEntry_of_full e hf]
        exact full_iff.mp hf
      obtain ⟨j, hj, hslot⟩ := exists_liveSlot_of_full hfull h'.outOffs_lt hi
      exact absurd hslot (hno j hj)
  | false =>
      have hnum : (buffer.addEntry e).2.numEntries = buffer.numEntries + 1 := by
        rw [addEntry_of_not_full e hf]
        exact h.uint8_numEntries hf
      have hlive : ∀ j, (buffer.addEntry e).2.liveSlot j = buffer.liveSlot j := by
        intro j
        rw [addEntry_of_not_full e hf]
        rfl
      -- the slot that is written is now the slot of the newest entry
      have hne : i ≠ buffer.inOffs := by
        rintro rfl
        apply hno buffer.numEntries (by omega)
        rw [hlive, h.inOffs_eq, liveSlot]
      rw [slot_addEntry_ne e hne h.inOffs_lt]
      apply hu i hi
      intro j hj
      rw [← hlive]
      exact hno j (by omega)

/-- **The ten slots** are those of the live entries, and empty ones. -/
theorem WellFormed.slots_perm (h : buffer.WellFormed) (hu : buffer.UnusedZero) :
    ∃ m, ((List.range maxWriteOperationsSupported).map buffer.slot).Perm
      (buffer.live ++ List.replicate m .zero) := by
  have hnodup := h.nodup_liveSlots (Nat.le_refl _)
  have hsub : (List.range buffer.numEntries).map buffer.liveSlot
      ⊆ List.range maxWriteOperationsSupported := by
    intro i hi
    obtain ⟨j, -, rfl⟩ := List.mem_map.mp hi
    exact List.mem_range.mpr (Nat.mod_lt _ (by decide))
  obtain ⟨slots, hslots, hsublist⟩ := List.subperm_of_subset hnodup hsub
  obtain ⟨rest, hrest⟩ := hsublist.exists_perm_append
  -- the slots of the live entries, and `rest`, are the ten slots in another order
  have hperm := hrest.trans (hslots.append_right rest)
  refine ⟨rest.length, ?_⟩
  have hlive : ((List.range buffer.numEntries).map buffer.liveSlot).map buffer.slot
      = buffer.live := by
    rw [List.map_map]
    rfl
  -- what is not a slot of a live entry is in `rest`
  have hdisj := List.disjoint_of_nodup_append (hperm.nodup_iff.mp List.nodup_range)
  have hzero : rest.map buffer.slot = List.replicate rest.length .zero := by
    rw [List.eq_replicate_iff, List.length_map]
    refine ⟨rfl, fun entry hentry => ?_⟩
    obtain ⟨i, hi, rfl⟩ := List.mem_map.mp hentry
    refine hu i (List.mem_range.mp (hperm.mem_iff.mpr (List.mem_append_right _ hi))) ?_
    rintro j hj rfl
    exact hdisj (List.mem_map.mpr ⟨j, List.mem_range.mpr hj, rfl⟩) hi
  have hmap := hperm.map buffer.slot
  rwa [List.map_append, hlive, hzero] at hmap

end AesdCircularBuffer

/-! ## Unused slots over runs -/

section

variable {api : KernelApi} {k k' : Kernel} {d : Device}

/-- **What one call does to the ring**: at most one add. -/
theorem Kernel.Shows.call_ring (h : k.Shows api d) {c : DevCall} (hc : c.InRange) {r : SysRet}
    (hcall : k.call api c = .ok (r, k')) :
    k'.aesdDevice.circularBuffer = k.aesdDevice.circularBuffer
      ∨ ∃ e, k'.aesdDevice.circularBuffer = (k.aesdDevice.circularBuffer.addEntry e).2 := by
  cases c with
  | openFile | release | read | llseek | ioctl =>
      obtain ⟨fPos, rfl⟩ := h.call_moves id hcall
      exact Or.inl rfl
  | write f buf choice uncopied =>
      cases hp : k.fPos f with
      | none =>
          simp only [Kernel.call, hp] at hcall
          cases hcall
          exact Or.inl rfl
      | some p =>
          simp only [Kernel.call, hp] at hcall
          obtain ⟨⟨ret, k₁⟩, hw, hcall⟩ := bind_eq_ok.mp hcall
          cases hcall
          by_cases hne : d.pending ++ buf = []
          · -- nothing written and nothing pending: the call faults
            obtain ⟨hd, rfl⟩ := List.append_eq_nil_iff.mp hne
            rw [h.aesdWrite_empty hd] at hw
            cases hw
          · obtain ⟨staged, ring, hr⟩ := h
            rcases hr.aesdWrite_cases buf choice uncopied hne hc with
              hw' | hw' | ⟨k₂, hw', -, -, hring⟩
            · rw [hw] at hw'
              cases hw'
              exact Or.inl rfl
            · rw [hw] at hw'
              cases hw'
              exact Or.inl rfl
            · rw [hw] at hw'
              cases hw'
              cases hend : endsCommand (d.pending ++ buf) with
              | true =>
                  rw [RingStep, hend, if_pos rfl] at hring
                  exact Or.inr hring
              | false =>
                  rw [RingStep, hend, if_neg (by decide)] at hring
                  exact Or.inl hring

/-- **What every add keeps, every run keeps.** -/
theorem Kernel.Shows.run_ring {P : AesdCircularBuffer → Prop}
    (hadd : ∀ buffer e, buffer.WellFormed → P buffer → P (buffer.addEntry e).2)
    {calls : List DevCall} {rs : List SysRet} (h : k.Shows api d)
    (hP : P k.aesdDevice.circularBuffer) (hcalls : ∀ c ∈ calls, c.InRange)
    (hrun : k.run api calls = .ok (rs, k')) : P k'.aesdDevice.circularBuffer := by
  induction calls generalizing k d rs with
  | nil =>
      cases hrun
      exact hP
  | cons c rest ih =>
      obtain ⟨r, k₁, rs', hcall, hrest, rfl⟩ := run_cons.mp hrun
      have hc := hcalls c (by simp)
      refine ih (h.call hc hcall).1 ?_ (fun c' hc' => hcalls c' (List.mem_cons_of_mem _ hc')) hrest
      rcases h.call_ring hc hcall with heq | ⟨e, heq⟩
      · rwa [heq]
      · obtain ⟨staged, ring, hr⟩ := h
        rw [heq]
        exact hadd _ e hr.wellFormed hP

/-! ## The cleanup loop -/

/-- `kfree` of one pointer after the other. -/
def Kernel.kfreeAll (k : Kernel) (pointers : List KPtr) : Except Fault Kernel :=
  pointers.foldlM Kernel.kfree k

/-- Freeing `NULL` pointers and the pointers to some of the owned blocks, each once, leaves the
other blocks. -/
theorem Kernel.kfreeAll_eq {pointers : List KPtr} {cells rest : List Cell}
    (hx : k.heap.Exactly (cells ++ rest))
    (hperm : (pointers.filter (· ≠ .null)).Perm (cells.map fun cell => KPtr.block cell.1)) :
    ∃ heap : Heap UInt8, k.kfreeAll pointers = .ok { k with heap := heap }
      ∧ heap.Exactly rest := by
  induction pointers generalizing k cells with
  | nil =>
      have hnil : cells = [] := List.map_eq_nil_iff.mp (List.perm_nil.mp hperm.symm)
      rw [hnil] at hx
      exact ⟨k.heap, rfl, hx⟩
  | cons p pointers ih =>
      cases p with
      | null =>
          rw [List.filter_cons_of_neg (by simp)] at hperm
          exact ih hx hperm
      | zeroSizePtr =>
          rw [List.filter_cons_of_pos (by simp)] at hperm
          have hmem := hperm.mem_iff.mp (List.mem_cons_self ..)
          simp at hmem
      | block a =>
          rw [List.filter_cons_of_pos (by simp)] at hperm
          obtain ⟨cell, hcell, ha⟩ := List.mem_map.mp (hperm.mem_iff.mp (List.mem_cons_self ..))
          obtain rfl : cell.1 = a := KPtr.block.inj ha
          -- the block is one of the owned ones, and from now on it is not
          obtain ⟨front, back, rfl⟩ := List.append_of_mem hcell
          have hmove : (front ++ cell :: back).Perm (cell :: (front ++ back)) :=
            List.perm_middle
          have hx' : k.heap.Exactly (cell :: (front ++ back ++ rest)) :=
            hx.perm (hmove.append_right rest)
          have hlive : k.heap.Live cell.1 := Heap.live_of_block (hx'.block (by simp))
          have hperm' := (hperm.trans (hmove.map fun cell => KPtr.block cell.1)).cons_inv
          obtain ⟨heap, hfree, hrest⟩ := ih (k := { k with heap := k.heap.free cell.1 })
            hx'.free hperm'
          refine ⟨heap, ?_, hrest⟩
          rw [kfreeAll, List.foldlM_cons, kfree, if_pos hlive]
          exact hfree

theorem aesdCleanupModule_eq (k : Kernel) :
    aesdCleanupModule k = k.kfreeAll (((List.range maxWriteOperationsSupported).map
      k.aesdDevice.circularBuffer.slot).map AesdBufferEntry.buffptr) := by
  rw [aesdCleanupModule, kfreeAll, List.foldlM_map, List.foldlM_map]

/-- **What `aesd_cleanup_module` leaves**: the block of the staging entry, if there is one. -/
theorem Kernel.Represents.cleanup {staged : Option Cell} {ring : List Cell}
    (h : k.Represents api d staged ring) (hu : k.aesdDevice.circularBuffer.UnusedZero) :
    ∃ heap : Heap UInt8, aesdCleanupModule k = .ok { k with heap := heap }
      ∧ heap.Exactly staged.toList := by
  rw [aesdCleanupModule_eq]
  apply kfreeAll_eq (h.heap.perm List.perm_append_comm)
  obtain ⟨m, hslots⟩ := h.wellFormed.slots_perm hu
  have hzero : (List.replicate m AesdBufferEntry.zero.buffptr).filter (· ≠ .null) = [] := by
    rw [List.filter_eq_nil_iff]
    intro p hp
    rw [List.eq_of_mem_replicate hp]
    decide
  have hblocks : ((ring.map entryOf).map AesdBufferEntry.buffptr).filter (· ≠ .null)
      = ring.map fun cell => KPtr.block cell.1 := by
    rw [List.map_map, List.filter_eq_self.mpr]
    · rfl
    · intro p hp
      obtain ⟨cell, -, rfl⟩ := List.mem_map.mp hp
      simp [entryOf]
  -- of the ten pointers those that are not `NULL` are the blocks of the ring
  have hptrs := (hslots.map AesdBufferEntry.buffptr).filter (· ≠ .null)
  rwa [h.live, List.map_append, List.map_replicate, List.filter_append, hzero, hblocks,
    List.append_nil] at hptrs

end

/-! ## Module unload -/

/-- **`aesd_cleanup_module` releases everything**: it passes only `NULL` and live blocks to `kfree`,
since it returns, each of them once, since a freed block is not live, and no block is left. -/
def Kernel.ReleasesAll (k : Kernel) : Prop :=
  ∃ k', aesdCleanupModule k = .ok k' ∧ ∀ a, ¬ k'.heap.Live a

/-- **What unloading releases.** After any run without empty writes, `aesd_cleanup_module` frees
every block but that of the staging entry, and so it releases everything exactly if the staging
entry is empty. -/
theorem cleanup_frees_iff (api : KernelApi) (dev : AesdDev) (calls : List DevCall)
    (hcalls : ∀ c ∈ calls, c.Counted) :
    ∃ (rs : List SysRet) (k : Kernel), (Kernel.loaded dev).run api calls = .ok (rs, k)
      ∧ (∃ k', aesdCleanupModule k = .ok k'
          ∧ ∀ a, k'.heap.Live a ↔ k.aesdDevice.stagingEntry.buffptr = .block a)
      ∧ (k.ReleasesAll ↔ k.aesdDevice.stagingEntry.size = 0) := by
  have hinit := Kernel.loaded_shows api dev
  have hrange : ∀ c ∈ calls, c.InRange := fun c hc => (hcalls c hc).inRange
  obtain ⟨rs, k, hrun⟩ := hinit.run_ok calls hcalls
  have hu := hinit.run_ring (fun _ e hwf hu => hu.addEntry hwf e)
    dev.circularBuffer.unusedZero_init hrange hrun
  obtain ⟨staged, ring, hr⟩ := hinit.run hrange hrun
  obtain ⟨heap, hclean, hx⟩ := hr.cleanup hu
  have hleft : ∀ a, heap.Live a ↔ k.aesdDevice.stagingEntry.buffptr = .block a := by
    intro a
    rw [hx.live_iff, hr.staging]
    cases staged with
    | none => simp [stagingOf, AesdBufferEntry.zero]
    | some cell => simp [stagingOf, entryOf, eq_comm]
  refine ⟨rs, k, hrun, ⟨_, hclean, hleft⟩, ?_⟩
  constructor
  · rintro ⟨k', hclean', hnone⟩
    obtain rfl := Except.ok.inj (hclean.symm.trans hclean')
    cases staged with
    | none =>
        rw [hr.staging]
        rfl
    | some cell =>
        exfalso
        apply hnone cell.1
        rw [hleft, hr.staging]
        rfl
  · intro hzero
    refine ⟨_, hclean, fun a hlive => ?_⟩
    rw [hleft, hr.staging] at hlive
    cases staged with
    | none => cases hlive
    | some cell =>
        rw [hr.staging] at hzero
        exact hr.staged_ne cell rfl (List.eq_nil_of_length_eq_zero hzero)

theorem cleanup_frees_iff_oneCommand :
    ∃ (rs : List SysRet) (k : Kernel),
      (Kernel.loaded .zero).run .linux
          [.openFile 0, .write 0 [65, newline] (some ⟨1, fun _ => 0⟩) 0] = .ok (rs, k)
      ∧ (∃ k', aesdCleanupModule k = .ok k'
          ∧ ∀ a, k'.heap.Live a ↔ k.aesdDevice.stagingEntry.buffptr = .block a)
      ∧ (k.ReleasesAll ↔ k.aesdDevice.stagingEntry.size = 0) :=
  cleanup_frees_iff .linux .zero _ (by simp [DevCall.Counted, maxRwCount])

/-- A string without a newline is still allocated after the module is gone. -/
theorem not_releasesAll_pending :
    ∃ (rs : List SysRet) (k : Kernel),
      (Kernel.loaded .zero).run .linux [.openFile 0, .write 0 [65] (some ⟨1, fun _ => 0⟩) 0]
        = .ok (rs, k)
      ∧ (∃ k', aesdCleanupModule k = .ok k' ∧ k'.heap.Live 1) ∧ ¬ k.ReleasesAll := by
  refine ⟨_, _, rfl, ⟨_, rfl, by decide⟩, ?_⟩
  rintro ⟨k', hclean, hnone⟩
  obtain rfl := Except.ok.inj hclean
  exact hnone 1 (by decide)

end Aesd
