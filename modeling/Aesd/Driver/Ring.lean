import Aesd.Basic.CircArray
import Aesd.Driver.CircularBuffer

set_option autoImplicit false

/-! # The circular buffer as a queue of the ten most recent entries

`AesdCircularBuffer.WellFormed` is the invariant that ties the five coupled fields together;
`init` establishes it and `addEntry` keeps it. Under it the buffer is described by the list
`live` of its entries, oldest first, and one call of `addEntry` is

* on `live`: append, and keep the last ten (`live_addEntry`);
* as a result: the `buffptr` of the entry that fell out, or `NULL` (`addEntry_fst`).

`RingBuffer` bundles a buffer with the invariant. -/

namespace Aesd

open CInt CircArray

namespace AesdCircularBuffer

/-! ## The live entries and the invariant -/

/-- The live entries, oldest first: `num_entries` slots from `out_offs` on, around the array. -/
def live (buffer : AesdCircularBuffer) : List AesdBufferEntry :=
  window maxWriteOperationsSupported buffer.slot buffer.outOffs buffer.numEntries

/-- The bytes of a list of entries. -/
def totalSize (entries : List AesdBufferEntry) : Nat := (entries.map AesdBufferEntry.size).sum

/-- The invariant of the buffer. The size counter is exact as a `size_t`. -/
structure WellFormed (buffer : AesdCircularBuffer) : Prop where
  outOffs_lt : buffer.outOffs < maxWriteOperationsSupported
  numEntries_le : buffer.numEntries ≤ maxWriteOperationsSupported
  inOffs_eq : buffer.inOffs = (buffer.outOffs + buffer.numEntries) % maxWriteOperationsSupported
  size_eq : buffer.size = sizeT (totalSize buffer.live)

@[simp] theorem length_live (buffer : AesdCircularBuffer) :
    buffer.live.length = buffer.numEntries :=
  window_length ..

@[simp] theorem totalSize_nil : totalSize [] = 0 := rfl

@[simp] theorem totalSize_cons (e : AesdBufferEntry) (entries : List AesdBufferEntry) :
    totalSize (e :: entries) = e.size + totalSize entries := by
  simp [totalSize]

@[simp] theorem totalSize_singleton (e : AesdBufferEntry) : totalSize [e] = e.size := by
  simp [totalSize]

@[simp] theorem totalSize_append (entries entries' : List AesdBufferEntry) :
    totalSize (entries ++ entries') = totalSize entries + totalSize entries' := by
  simp [totalSize]

theorem WellFormed.inOffs_lt {buffer : AesdCircularBuffer} (h : buffer.WellFormed) :
    buffer.inOffs < maxWriteOperationsSupported := by
  rw [h.inOffs_eq]
  exact Nat.mod_lt _ (by decide)

theorem WellFormed.live_getElem? {buffer : AesdCircularBuffer} {i : Nat}
    (hi : i < buffer.numEntries) :
    buffer.live[i]? = some (buffer.slot ((buffer.outOffs + i) % maxWriteOperationsSupported)) := by
  have hlen : i < buffer.live.length := by rwa [length_live]
  rw [List.getElem?_eq_getElem hlen]
  exact congrArg some (window_getElem _ _ _ _ hlen)

theorem init_wellFormed (buffer : AesdCircularBuffer) : buffer.init.WellFormed where
  outOffs_lt := by simp [init]
  numEntries_le := by simp [init]
  inOffs_eq := rfl
  size_eq := rfl

@[simp] theorem live_init (buffer : AesdCircularBuffer) : buffer.init.live = [] := rfl

/-! ## One call of `aesd_circular_buffer_add_entry` -/

/-- The entries that fall out when one more entry arrives: none, or the oldest one. -/
def evicted (entries : List AesdBufferEntry) : List AesdBufferEntry :=
  if entries.length < maxWriteOperationsSupported then [] else entries.take 1

/-- The pointer handed back for what fell out. -/
def evictedPtr (entries : List AesdBufferEntry) : KPtr :=
  match evicted entries with
  | [] => .null
  | e :: _ => e.buffptr

/-- Writing an entry changes that slot only. -/
theorem slot_eq_update {buffer buffer' : AesdCircularBuffer} {i : Nat} {e : AesdBufferEntry}
    (hi : i < maxWriteOperationsSupported)
    (hset : buffer'.entry = buffer.entry.setIfInBounds i e) :
    buffer'.slot = Function.update buffer.slot i e := by
  funext j
  by_cases hj : j = i
  · subst hj
    simp [slot, hset, Vector.getD, hi]
  · simp [slot, hset, Vector.getD, hj, Ne.symm hj]

theorem full_iff {buffer : AesdCircularBuffer} :
    buffer.full = true ↔ buffer.numEntries = maxWriteOperationsSupported := by
  simp [full]

/-- One add to a full buffer. -/
theorem addEntry_of_full {buffer : AesdCircularBuffer} (e : AesdBufferEntry)
    (hf : buffer.full = true) :
    buffer.addEntry e = ((buffer.slot buffer.inOffs).buffptr,
      { entry := buffer.entry.setIfInBounds buffer.inOffs e
        inOffs := (buffer.inOffs + 1) % maxWriteOperationsSupported
        outOffs := (buffer.outOffs + 1) % maxWriteOperationsSupported
        numEntries := buffer.numEntries
        size := sizeT (sizeTSub buffer.size (buffer.slot buffer.inOffs).size + e.size) }) := by
  simp [addEntry, hf]

/-- One add to a buffer with room. -/
theorem addEntry_of_not_full {buffer : AesdCircularBuffer} (e : AesdBufferEntry)
    (hf : buffer.full = false) :
    buffer.addEntry e = (.null,
      { entry := buffer.entry.setIfInBounds buffer.inOffs e
        inOffs := (buffer.inOffs + 1) % maxWriteOperationsSupported
        outOffs := buffer.outOffs
        numEntries := uint8 (buffer.numEntries + 1)
        size := sizeT (buffer.size + e.size) }) := by
  simp [addEntry, hf]

section AddEntry

variable {buffer : AesdCircularBuffer}

/-- In a full ring the next slot to write is the oldest entry's. -/
theorem WellFormed.inOffs_eq_outOffs (h : buffer.WellFormed) (hf : buffer.full = true) :
    buffer.inOffs = buffer.outOffs := by
  rw [h.inOffs_eq, full_iff.mp hf, Nat.add_mod_right, Nat.mod_eq_of_lt h.outOffs_lt]

/-- In a full ring the oldest live entry is in the slot about to be overwritten. -/
theorem WellFormed.live_of_full (h : buffer.WellFormed) (hf : buffer.full = true) :
    buffer.live = buffer.slot buffer.inOffs :: buffer.live.tail := by
  rw [live, full_iff.mp hf, window_cons, List.tail_cons, Nat.mod_eq_of_lt h.outOffs_lt,
    h.inOffs_eq_outOffs hf]

theorem WellFormed.numEntries_lt (h : buffer.WellFormed) (hf : buffer.full = false) :
    buffer.numEntries < maxWriteOperationsSupported := by
  refine lt_of_le_of_ne h.numEntries_le (fun hn => ?_)
  rw [full_iff.mpr hn] at hf
  cases hf

theorem WellFormed.uint8_numEntries (h : buffer.WellFormed) (hf : buffer.full = false) :
    uint8 (buffer.numEntries + 1) = buffer.numEntries + 1 := by
  have hmax := maxWriteOperationsSupported_eq
  have hn := h.numEntries_lt hf
  exact uint8_of_lt (by omega)

/-- **The live entries after one add**: append, and keep the last ten. -/
theorem WellFormed.live_addEntry (h : buffer.WellFormed) (e : AesdBufferEntry) :
    (buffer.addEntry e).2.live = (buffer.live ++ [e]).rtake maxWriteOperationsSupported := by
  have hin := h.inOffs_lt
  have hnum := h.numEntries_le
  have hkeep : buffer.live.rtake maxWriteOperationsSupported = buffer.live :=
    rtake_of_length_le (by rw [length_live]; exact hnum)
  rw [rtake_concat _ _ (by decide), length_live, hkeep]
  cases hf : buffer.full with
  | true =>
      -- the write goes to the slot of the oldest entry, and `out_offs` moves on
      have hn := full_iff.mp hf
      rw [if_neg (by omega), addEntry_of_full e hf, live, slot_eq_update hin rfl,
        window_start_mod, h.inOffs_eq_outOffs hf, hn, live, hn]
      have hrot := window_update_rotate (n := maxWriteOperationsSupported) buffer.slot
        buffer.outOffs e (by decide)
      rwa [Nat.mod_eq_of_lt h.outOffs_lt] at hrot
  | false =>
      -- the write goes just behind the live entries
      have hn := h.numEntries_lt hf
      rw [if_pos hn, addEntry_of_not_full e hf, live, slot_eq_update hin rfl,
        h.uint8_numEntries hf, h.inOffs_eq]
      exact window_update_append buffer.slot buffer.outOffs buffer.numEntries e hn

/-- **What one add hands back**: the pointer of the entry that fell out. -/
theorem WellFormed.addEntry_fst (h : buffer.WellFormed) (e : AesdBufferEntry) :
    (buffer.addEntry e).1 = evictedPtr buffer.live := by
  rw [evictedPtr, evicted, length_live]
  cases hf : buffer.full with
  | true =>
      have hn := full_iff.mp hf
      rw [if_neg (by omega), addEntry_of_full e hf, h.live_of_full hf]
      rfl
  | false =>
      rw [if_pos (h.numEntries_lt hf), addEntry_of_not_full e hf]

theorem WellFormed.live_addEntry_of_full (h : buffer.WellFormed) (e : AesdBufferEntry)
    (hf : buffer.full = true) : (buffer.addEntry e).2.live = buffer.live.tail ++ [e] := by
  have hn := full_iff.mp hf
  have hlen : ¬ buffer.live.length < maxWriteOperationsSupported := by
    rw [length_live]
    omega
  rw [h.live_addEntry e, rtake_concat _ _ (by decide), if_neg hlen,
    rtake_of_length_le (by rw [length_live]; exact h.numEntries_le)]

theorem WellFormed.live_addEntry_of_not_full (h : buffer.WellFormed) (e : AesdBufferEntry)
    (hf : buffer.full = false) : (buffer.addEntry e).2.live = buffer.live ++ [e] := by
  have hn := h.numEntries_lt hf
  rw [h.live_addEntry e, rtake_of_length_le]
  rw [List.length_append, length_live]
  exact hn

/-- One add keeps the invariant. -/
theorem WellFormed.addEntry (h : buffer.WellFormed) (e : AesdBufferEntry) :
    (buffer.addEntry e).2.WellFormed := by
  have hout := h.outOffs_lt
  have hnum := h.numEntries_le
  have hmax := maxWriteOperationsSupported_eq
  cases hf : buffer.full with
  | true =>
      have hn := full_iff.mp hf
      have hlive := h.live_addEntry_of_full e hf
      have hsize := h.size_eq
      rw [h.live_of_full hf, totalSize_cons] at hsize
      rw [addEntry_of_full e hf] at hlive ⊢
      refine ⟨Nat.mod_lt _ (by decide), hnum, ?_, ?_⟩
      · show (buffer.inOffs + 1) % _ = ((buffer.outOffs + 1) % _ + buffer.numEntries) % _
        rw [h.inOffs_eq_outOffs hf, hn, Nat.add_mod_right, Nat.mod_mod]
      · rw [hlive, totalSize_append, totalSize_singleton]
        show sizeT (sizeTSub buffer.size (buffer.slot buffer.inOffs).size + e.size) = _
        rw [hsize, sizeTSub_sizeT_add, sizeT_add_sizeT]
  | false =>
      have hn := h.numEntries_lt hf
      have hlive := h.live_addEntry_of_not_full e hf
      rw [addEntry_of_not_full e hf] at hlive ⊢
      refine ⟨hout, ?_, ?_, ?_⟩
      · show uint8 (buffer.numEntries + 1) ≤ _
        rw [h.uint8_numEntries hf]
        omega
      · show (buffer.inOffs + 1) % _ = (buffer.outOffs + uint8 (buffer.numEntries + 1)) % _
        rw [h.uint8_numEntries hf, h.inOffs_eq, Nat.mod_add_mod, Nat.add_assoc]
      · rw [hlive, totalSize_append, totalSize_singleton]
        show sizeT (buffer.size + e.size) = _
        rw [h.size_eq, sizeT_add_sizeT]

/-- The counter never drops below zero in the subtraction of a full add, as long as the live
bytes fit a `size_t`. -/
theorem WellFormed.evicted_size_le (h : buffer.WellFormed) (hf : buffer.full = true)
    (hfit : totalSize buffer.live < 2 ^ 64) :
    (buffer.slot buffer.inOffs).size ≤ buffer.size := by
  rw [h.size_eq, sizeT_of_lt hfit, h.live_of_full hf, totalSize_cons]
  exact Nat.le_add_right _ _

end AddEntry

end AesdCircularBuffer

/-! ## Runs of adds -/

/-- A buffer together with its invariant. -/
structure RingBuffer where
  buffer : AesdCircularBuffer
  wellFormed : buffer.WellFormed

namespace RingBuffer

open AesdCircularBuffer

/-- A buffer just initialised. -/
def init (buffer : AesdCircularBuffer) : RingBuffer := ⟨buffer.init, init_wellFormed buffer⟩

/-- The ring after one add. -/
def add (r : RingBuffer) (e : AesdBufferEntry) : RingBuffer :=
  ⟨(r.buffer.addEntry e).2, r.wellFormed.addEntry e⟩

/-- The ring after the adds of `entries`, in order. -/
def addAll (r : RingBuffer) (entries : List AesdBufferEntry) : RingBuffer := entries.foldl add r

@[simp] theorem addAll_nil (r : RingBuffer) : r.addAll [] = r := rfl

theorem addAll_concat (r : RingBuffer) (entries : List AesdBufferEntry) (e : AesdBufferEntry) :
    r.addAll (entries ++ [e]) = (r.addAll entries).add e :=
  List.foldl_append ..

/-- **Any number of adds**: the live entries are the last ten of the old ones and the new
ones. -/
theorem live_addAll (r : RingBuffer) (entries : List AesdBufferEntry) :
    (r.addAll entries).buffer.live
      = (r.buffer.live ++ entries).rtake maxWriteOperationsSupported := by
  induction entries using List.reverseRecOn with
  | nil =>
      rw [addAll_nil, List.append_nil, rtake_of_length_le]
      rw [length_live]
      exact r.wellFormed.numEntries_le
  | append_singleton entries e ih =>
      have hstep := (r.addAll entries).wellFormed.live_addEntry e
      rw [addAll_concat, ← List.append_assoc, ← rtake_rtake_append, ← ih]
      exact hstep

end RingBuffer

namespace AesdCircularBuffer

/-- The buffer after calls of `addEntry` with `entries`, in order. -/
def addEntries (buffer : AesdCircularBuffer) (entries : List AesdBufferEntry) :
    AesdCircularBuffer :=
  entries.foldl (fun buffer e => (buffer.addEntry e).2) buffer

theorem addEntries_eq_addAll (r : RingBuffer) (entries : List AesdBufferEntry) :
    r.buffer.addEntries entries = (r.addAll entries).buffer := by
  induction entries generalizing r with
  | nil => rfl
  | cons e rest ih => exact ih (r.add e)

theorem addEntries_init_eq (old : AesdCircularBuffer) (entries : List AesdBufferEntry) :
    old.init.addEntries entries = ((RingBuffer.init old).addAll entries).buffer :=
  addEntries_eq_addAll (RingBuffer.init old) entries

theorem addEntries_init_wellFormed (old : AesdCircularBuffer) (entries : List AesdBufferEntry) :
    (old.init.addEntries entries).WellFormed := by
  rw [addEntries_init_eq]
  exact RingBuffer.wellFormed _

theorem live_addEntries_init (old : AesdCircularBuffer) (entries : List AesdBufferEntry) :
    (old.init.addEntries entries).live = entries.rtake maxWriteOperationsSupported := by
  rw [addEntries_init_eq, RingBuffer.live_addAll]
  rfl

/-- The oldest of the last ten of a longer sequence is the element ten places before its
end. -/
theorem evictedPtr_rtake (entries : List AesdBufferEntry) :
    evictedPtr (entries.rtake maxWriteOperationsSupported)
      = if maxWriteOperationsSupported ≤ entries.length then
          (entries.getD (entries.length - maxWriteOperationsSupported) .zero).buffptr
        else .null := by
  have hmax := maxWriteOperationsSupported_eq
  have hlen := length_rtake (n := maxWriteOperationsSupported) entries
  rw [evictedPtr, evicted]
  by_cases h : maxWriteOperationsSupported ≤ entries.length
  · have hlt : entries.length - maxWriteOperationsSupported < entries.length := by omega
    rw [if_neg (by omega), if_pos h, List.rtake, List.drop_eq_getElem_cons hlt,
      List.getD_eq_getElem?_getD, List.getElem?_eq_getElem hlt]
    rfl
  · rw [if_pos (by omega), if_neg h]

/-- **The ring holds the last ten entries.** After `aesd_circular_buffer_init` and any sequence
of adds, all five fields describe the last ten entries of the sequence; every call on the way
handed back the pointer of the entry ten calls before it, or `NULL`, and its subtraction did
not go below zero unless the live bytes had outgrown `size_t`. -/
theorem addEntries_init_holds_last_ten (old : AesdCircularBuffer)
    (entries : List AesdBufferEntry) :
    let buffer := old.init.addEntries entries
    let live := entries.rtake maxWriteOperationsSupported
    (buffer.numEntries = min entries.length maxWriteOperationsSupported
      ∧ buffer.inOffs < maxWriteOperationsSupported
      ∧ buffer.outOffs < maxWriteOperationsSupported
      ∧ buffer.inOffs = (buffer.outOffs + buffer.numEntries) % maxWriteOperationsSupported)
    ∧ (List.range buffer.numEntries).map
        (fun i => buffer.slot ((buffer.outOffs + i) % maxWriteOperationsSupported)) = live
    ∧ buffer.size = sizeT (totalSize live)
    ∧ ∀ (i : Nat) (e : AesdBufferEntry), entries[i]? = some e →
        let before := old.init.addEntries (entries.take i)
        (before.addEntry e).1
            = (if maxWriteOperationsSupported ≤ i then
                (entries.getD (i - maxWriteOperationsSupported) .zero).buffptr
              else .null)
          ∧ (before.full = true →
              totalSize ((entries.take i).rtake maxWriteOperationsSupported) < 2 ^ 64 →
              (before.slot before.inOffs).size ≤ before.size) := by
  have hwf := addEntries_init_wellFormed old
  have hlive := live_addEntries_init old
  refine ⟨⟨?_, (hwf entries).inOffs_lt, (hwf entries).outOffs_lt, (hwf entries).inOffs_eq⟩,
    hlive entries, ?_, ?_⟩
  · rw [← length_live, hlive, length_rtake]
  · rw [(hwf entries).size_eq, hlive]
  · intro i e hi
    have hlt : i < entries.length := (List.getElem?_eq_some_iff.mp hi).1
    have htake : (entries.take i).length = i := List.length_take_of_le (Nat.le_of_lt hlt)
    refine ⟨?_, fun hf hfit => (hwf _).evicted_size_le hf (by rwa [hlive])⟩
    rw [(hwf _).addEntry_fst, hlive, evictedPtr_rtake, htake]
    by_cases hten : maxWriteOperationsSupported ≤ i
    · have hmax := maxWriteOperationsSupported_eq
      rw [if_pos hten, if_pos hten, List.getD_eq_getElem?_getD, List.getD_eq_getElem?_getD,
        List.getElem?_take_of_lt (by omega)]
    · rw [if_neg hten, if_neg hten]

end AesdCircularBuffer

end Aesd
