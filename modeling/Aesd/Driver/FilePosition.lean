import Aesd.Basic.FlatIndex
import Aesd.Driver.Ring

set_option autoImplicit false

/-! # File positions and ring entries

The two walks of the ring, in terms of the concatenation of the live entries:

* `aesd_circular_buffer_find_entry_offset_for_fpos` is `FlatIndex.locate` on the sizes of the
  live entries (`findEntryOffsetForFpos_eq`). Its do/while loop stops at `in_offs`, which is
  also where it starts in a full ring; the induction is on the number of slots still to come,
  and `add_mod_ne` says that the stop mark is not met before the last one.
* `aesd_circular_buffer_get_entry_fpos` is `FlatIndex.flatPos` narrowed to `int`
  (`getEntryFpos_eq`), and so `flatPos` itself as long as the live bytes fit an `int`
  (`getEntryFpos_of_inside`). -/

namespace Aesd

open CInt CircArray FlatIndex

namespace AesdCircularBuffer

variable {buffer : AesdCircularBuffer}

/-- The sizes of the live entries, oldest first. -/
def liveSizes (buffer : AesdCircularBuffer) : List Nat := buffer.live.map AesdBufferEntry.size

/-- The slot of the `i`-th oldest live entry. -/
def liveSlot (buffer : AesdCircularBuffer) (i : Nat) : Nat :=
  (buffer.outOffs + i) % maxWriteOperationsSupported

theorem sum_liveSizes (buffer : AesdCircularBuffer) :
    buffer.liveSizes.sum = totalSize buffer.live := rfl

theorem liveSizes_getElem? {i : Nat} (hi : i < buffer.numEntries) :
    buffer.liveSizes[i]? = some (buffer.slot (buffer.liveSlot i)).size := by
  rw [liveSizes, List.getElem?_map, WellFormed.live_getElem? hi]
  rfl

theorem inside_liveSizes {i o : Nat} :
    Inside buffer.liveSizes i o
      ↔ i < buffer.numEntries ∧ o < (buffer.slot (buffer.liveSlot i)).size := by
  constructor
  · rintro hin
    have hi : i < buffer.numEntries := by simpa [liveSizes] using hin.lt_length
    obtain ⟨s, hs, ho⟩ := hin
    obtain rfl := Option.some.inj ((liveSizes_getElem? hi).symm.trans hs)
    exact ⟨hi, ho⟩
  · rintro ⟨hi, ho⟩
    exact ⟨_, liveSizes_getElem? hi, ho⟩

/-! ## `aesd_circular_buffer_find_entry_offset_for_fpos` -/

/-- One iteration of the loop. -/
theorem findLoop_succ (charOffset fuel currentOffs currentSize : Nat) :
    buffer.findLoop charOffset (fuel + 1) currentOffs currentSize
      = if charOffset < sizeT (currentSize + (buffer.slot currentOffs).size) then
          some (some (currentOffs, sizeTSub charOffset currentSize))
        else if (currentOffs + 1) % maxWriteOperationsSupported ≠ buffer.inOffs then
          buffer.findLoop charOffset fuel ((currentOffs + 1) % maxWriteOperationsSupported)
            (sizeT (currentSize + (buffer.slot currentOffs).size))
        else some none := rfl

/-- The iteration that comes to the slot of `charOffset`. -/
theorem findLoop_found {charOffset acc start : Nat} (fuel : Nat) (rest : List Nat)
    (hacc : acc ≤ charOffset)
    (hp : charOffset < acc + (buffer.slot (start % maxWriteOperationsSupported)).size)
    (hfit : acc + (buffer.slot (start % maxWriteOperationsSupported)).size < 2 ^ 64) :
    buffer.findLoop charOffset (fuel + 1) (start % maxWriteOperationsSupported) acc
      = some ((locate ((buffer.slot (start % maxWriteOperationsSupported)).size :: rest)
          (charOffset - acc)).map fun io =>
            ((start + io.1) % maxWriteOperationsSupported, io.2)) := by
  have hloc : charOffset - acc < (buffer.slot (start % maxWriteOperationsSupported)).size := by
    omega
  rw [findLoop_succ, sizeT_of_lt hfit, if_pos hp, locate, if_pos hloc,
    sizeTSub_of_le hacc (by omega)]
  rfl

/-- **The do/while loop.** At a slot from which `k + 1` slots remain before `in_offs`, with
`acc` bytes passed, the loop looks `charOffset - acc` up in the sizes of those slots. -/
theorem findLoop_eq (charOffset : Nat) (k : Nat) :
    ∀ (start acc fuel : Nat), k + 1 ≤ maxWriteOperationsSupported → k + 1 ≤ fuel →
      buffer.inOffs = (start + (k + 1)) % maxWriteOperationsSupported →
      acc ≤ charOffset →
      acc + totalSize (window maxWriteOperationsSupported buffer.slot start (k + 1)) < 2 ^ 64 →
      buffer.findLoop charOffset fuel (start % maxWriteOperationsSupported) acc
        = some ((locate ((window maxWriteOperationsSupported buffer.slot start (k + 1)).map
            AesdBufferEntry.size) (charOffset - acc)).map
              (fun io => ((start + io.1) % maxWriteOperationsSupported, io.2))) := by
  induction k with
  | zero =>
      intro start acc fuel _ hfuel hin hacc hfit
      obtain ⟨fuel, rfl⟩ : ∃ f, fuel = f + 1 := ⟨fuel - 1, by omega⟩
      rw [window_cons, totalSize_cons] at hfit
      rw [window_cons, List.map_cons]
      by_cases hp : charOffset < acc + (buffer.slot (start % maxWriteOperationsSupported)).size
      · exact findLoop_found fuel _ hacc hp (by omega)
      · have hloc : ¬ charOffset - acc
            < (buffer.slot (start % maxWriteOperationsSupported)).size := by omega
        -- the only slot left has been passed, and the loop stops at `in_offs`
        have hstop : ¬ (start % maxWriteOperationsSupported + 1) % maxWriteOperationsSupported
            ≠ buffer.inOffs := by
          rw [hin, Nat.mod_add_mod, not_not]
        rw [findLoop_succ, sizeT_of_lt (by omega), if_neg hp, if_neg hstop, locate, if_neg hloc]
        rfl
  | succ k ih =>
      intro start acc fuel hk hfuel hin hacc hfit
      obtain ⟨fuel, rfl⟩ : ∃ f, fuel = f + 1 := ⟨fuel - 1, by omega⟩
      rw [window_cons, totalSize_cons] at hfit
      rw [window_cons, List.map_cons]
      by_cases hp : charOffset < acc + (buffer.slot (start % maxWriteOperationsSupported)).size
      · exact findLoop_found fuel _ hacc hp (by omega)
      · have hloc : ¬ charOffset - acc
            < (buffer.slot (start % maxWriteOperationsSupported)).size := by omega
        have hne : (start + 1) % maxWriteOperationsSupported ≠ buffer.inOffs := by
          rw [hin]
          exact add_mod_ne (by omega) (by omega)
        -- a slot is passed: its size goes from what is looked up to `acc`
        have hrest := ih (start + 1)
          (acc + (buffer.slot (start % maxWriteOperationsSupported)).size) fuel (by omega)
          (by omega) (by rw [hin]; congr 1; omega) (by omega) (by omega)
        rw [findLoop_succ, sizeT_of_lt (by omega), if_neg hp, Nat.mod_add_mod, if_pos hne, hrest,
          locate, if_neg hloc, Option.map_map]
        congr 2
        · funext io
          simp only [Function.comp]
          rw [show start + 1 + io.1 = start + (io.1 + 1) by omega]
        · congr 1
          omega

/-- The loop ends within ten iterations, whatever the sizes are. -/
theorem findLoop_isSome (charOffset acc : Nat) (hout : buffer.outOffs < maxWriteOperationsSupported)
    (hin : buffer.inOffs < maxWriteOperationsSupported) :
    (buffer.findLoop charOffset maxWriteOperationsSupported buffer.outOffs acc).isSome := by
  have key : ∀ (k start acc fuel : Nat), k + 1 ≤ fuel →
      buffer.inOffs = (start + (k + 1)) % maxWriteOperationsSupported →
      (buffer.findLoop charOffset fuel (start % maxWriteOperationsSupported) acc).isSome := by
    intro k
    induction k with
    | zero =>
        intro start acc fuel hfuel hstop
        obtain ⟨fuel, rfl⟩ : ∃ f, fuel = f + 1 := ⟨fuel - 1, by omega⟩
        rw [findLoop_succ, Nat.mod_add_mod, ← hstop]
        split
        · rfl
        · simp
    | succ k ih =>
        intro start acc fuel hfuel hstop
        obtain ⟨fuel, rfl⟩ : ∃ f, fuel = f + 1 := ⟨fuel - 1, by omega⟩
        rw [findLoop_succ, Nat.mod_add_mod]
        split
        · rfl
        · split
          · exact ih (start + 1) _ fuel (by omega) (by rw [hstop]; congr 1; omega)
          · rfl
  -- how many slots there are from `out_offs` to the next visit of `in_offs`
  obtain ⟨k, hk, hstop⟩ : ∃ k < 10, buffer.inOffs = (buffer.outOffs + (k + 1)) % 10 := by
    have hmax := maxWriteOperationsSupported_eq
    by_cases hlt : buffer.outOffs < buffer.inOffs
    · exact ⟨buffer.inOffs - buffer.outOffs - 1, by omega, by omega⟩
    · exact ⟨buffer.inOffs + 10 - buffer.outOffs - 1, by omega, by omega⟩
  have h := key k buffer.outOffs acc maxWriteOperationsSupported hk hstop
  rwa [Nat.mod_eq_of_lt hout] at h

/-- **Position lookup is lookup in the concatenation of the live entries.** -/
theorem WellFormed.findEntryOffsetForFpos_eq (h : buffer.WellFormed)
    (hfit : totalSize buffer.live < 2 ^ 64) (charOffset : Nat) :
    buffer.findEntryOffsetForFpos charOffset
      = (locate buffer.liveSizes charOffset).map (fun io => (buffer.liveSlot io.1, io.2)) := by
  rw [findEntryOffsetForFpos]
  cases hn : buffer.numEntries with
  | zero =>
      have hlive : buffer.live = [] := by simp [live, hn]
      simp [empty, hn, liveSizes, hlive, locate]
  | succ k =>
      have hloop := @findLoop_eq buffer charOffset k buffer.outOffs 0
        maxWriteOperationsSupported (hn ▸ h.numEntries_le) (hn ▸ h.numEntries_le)
        (hn ▸ h.inOffs_eq) (Nat.zero_le _) (by rw [live, hn] at hfit; omega)
      have hempty : buffer.empty = false := by simp [empty, hn]
      rw [Nat.mod_eq_of_lt h.outOffs_lt] at hloop
      rw [hempty, hloop, liveSizes, live, hn]
      rfl

/-! ## `aesd_circular_buffer_get_entry_fpos` -/

/-- **The accumulation loop**: the sum of the sizes, as an `int`. -/
theorem entryFposLoop_eq (i : Nat) (hi : i ≤ buffer.numEntries) :
    buffer.entryFposLoop i = intOfSizeT (buffer.liveSizes.take i).sum := by
  induction i with
  | zero =>
      rw [List.take_zero, List.sum_nil, entryFposLoop]
      exact (intOfSizeT_eq_iff.mpr (Nat.zero_le _)).symm
  | succ i ih =>
      have htake : (buffer.liveSizes.take (i + 1)).sum
          = (buffer.liveSizes.take i).sum + (buffer.slot (buffer.liveSlot i)).size := by
        rw [List.take_add_one, liveSizes_getElem? (by omega)]
        simp
      rw [htake, entryFposLoop, ih (by omega)]
      exact intOfSizeT_add _ _

theorem getEntryFpos_of_not_inside (h : buffer.WellFormed) {index offset : Nat}
    (hin : ¬ Inside buffer.liveSizes index offset) : buffer.getEntryFpos index offset = -1 := by
  rw [inside_liveSizes] at hin
  rw [getEntryFpos]
  by_cases hi : buffer.numEntries ≤ index
  · rw [if_pos hi]
  · -- the command exists, so the offset is behind its end
    have hmax := maxWriteOperationsSupported_eq
    have hout := h.outOffs_lt
    have hnum := h.numEntries_le
    have hsize : (buffer.slot (buffer.liveSlot index)).size ≤ offset := by
      by_contra hc
      exact hin ⟨by omega, by omega⟩
    rw [if_neg hi, uint32_of_lt (by omega)]
    exact if_pos hsize

/-- **The position of a byte of a live entry**, as an `int`. -/
theorem getEntryFpos_eq (h : buffer.WellFormed) {index offset : Nat}
    (hin : Inside buffer.liveSizes index offset) :
    buffer.getEntryFpos index offset = intOfSizeT (flatPos buffer.liveSizes index offset) := by
  obtain ⟨hi, ho⟩ := inside_liveSizes.mp hin
  have hmax := maxWriteOperationsSupported_eq
  have hout := h.outOffs_lt
  have hnum := h.numEntries_le
  have hsize : ¬ (buffer.slot ((buffer.outOffs + index) % maxWriteOperationsSupported)).size
      ≤ offset := Nat.not_le.mpr ho
  calc buffer.getEntryFpos index offset
      = intOfSizeT (sizeT (sizeTOfInt (buffer.entryFposLoop index) + offset)) := by
        rw [getEntryFpos, if_neg (by omega), uint32_of_lt (by omega), if_neg hsize]
    _ = intOfSizeT (flatPos buffer.liveSizes index offset) := by
        rw [entryFposLoop_eq index (Nat.le_of_lt hi), intOfSizeT_add, flatPos]

/-- The position is exact while the live bytes fit an `int`. -/
theorem getEntryFpos_of_inside (h : buffer.WellFormed) (hfit : totalSize buffer.live ≤ INT_MAX)
    {index offset : Nat} (hin : Inside buffer.liveSizes index offset) :
    buffer.getEntryFpos index offset = (flatPos buffer.liveSizes index offset : Nat) := by
  have hpos := hin.flatPos_lt
  rw [sum_liveSizes] at hpos
  rw [getEntryFpos_eq h hin]
  exact intOfSizeT_eq_iff.mpr (by omega)

/-! ## The two walks are inverse to each other -/

theorem getEntryFpos_nonneg_iff (h : buffer.WellFormed) (hfit : totalSize buffer.live ≤ INT_MAX)
    {index offset : Nat} :
    0 ≤ buffer.getEntryFpos index offset ↔ Inside buffer.liveSizes index offset := by
  constructor
  · intro hpos
    by_contra hin
    rw [getEntryFpos_of_not_inside h hin] at hpos
    omega
  · intro hin
    rw [getEntryFpos_of_inside h hfit hin]
    exact Int.natCast_nonneg _

theorem WellFormed.liveSlot_inj (h : buffer.WellFormed) {i j : Nat} (hi : i < buffer.numEntries)
    (hj : j < buffer.numEntries) (hij : buffer.liveSlot i = buffer.liveSlot j) : i = j := by
  have hnum := h.numEntries_le
  rcases Nat.lt_trichotomy i j with hlt | heq | hgt
  · exact absurd hij (add_mod_ne hlt (by omega))
  · exact heq
  · exact absurd hij.symm (add_mod_ne hgt (by omega))

/-- Slots of different live entries are different. -/
theorem WellFormed.nodup_liveSlots (h : buffer.WellFormed) {n : Nat} (hn : n ≤ buffer.numEntries) :
    ((List.range n).map buffer.liveSlot).Nodup := by
  apply List.Nodup.map_on _ List.nodup_range
  intro i hi j hj hij
  rw [List.mem_range] at hi hj
  exact h.liveSlot_inj (by omega) (by omega) hij

/-- A byte of a live entry is found where its position says. -/
theorem find_flatPos (h : buffer.WellFormed) (hfit : totalSize buffer.live < 2 ^ 64)
    {index offset : Nat} (hin : Inside buffer.liveSizes index offset) :
    buffer.findEntryOffsetForFpos (flatPos buffer.liveSizes index offset)
      = some (buffer.liveSlot index, offset) := by
  rw [h.findEntryOffsetForFpos_eq hfit, locate_eq_some_iff.mpr ⟨hin, rfl⟩]
  rfl

/-- **Seek and lookup round trip.** On every ring reached by adds from the initial one whose
live bytes fit an `int`, `aesd_circular_buffer_get_entry_fpos` and
`aesd_circular_buffer_find_entry_offset_for_fpos` are inverse bijections between the pairs
(command, offset) inside the live entries and the positions below the total. -/
theorem getEntryFpos_find_inverse (old : AesdCircularBuffer) (entries : List AesdBufferEntry)
    (hfit : totalSize (old.init.addEntries entries).live ≤ INT_MAX) :
    let buffer := old.init.addEntries entries
    let valid := {io : Nat × Nat | io.1 < buffer.numEntries
      ∧ io.2 < (buffer.slot (buffer.liveSlot io.1)).size}
    (∀ index offset, 0 ≤ buffer.getEntryFpos index offset ↔ (index, offset) ∈ valid)
    ∧ (∀ index offset, 0 ≤ buffer.getEntryFpos index offset →
        buffer.getEntryFpos index offset < totalSize buffer.live
        ∧ buffer.findEntryOffsetForFpos (buffer.getEntryFpos index offset).toNat
            = some (buffer.liveSlot index, offset))
    ∧ (∀ p, p < totalSize buffer.live → ∃ index offset, (index, offset) ∈ valid
        ∧ buffer.findEntryOffsetForFpos p = some (buffer.liveSlot index, offset)
        ∧ buffer.getEntryFpos index offset = p)
    ∧ Set.BijOn (fun io => (buffer.getEntryFpos io.1 io.2).toNat) valid
        (Set.Iio (totalSize buffer.live)) := by
  intro buffer valid
  have h : buffer.WellFormed := addEntries_init_wellFormed old entries
  have hfit64 : totalSize buffer.live < 2 ^ 64 := by
    have hmax : INT_MAX < 2 ^ 64 := by decide
    exact lt_of_le_of_lt hfit hmax
  have hvalid : ∀ index offset, (index, offset) ∈ valid ↔ Inside buffer.liveSizes index offset :=
    fun _ _ => inside_liveSizes.symm
  have hnonneg : ∀ index offset, 0 ≤ buffer.getEntryFpos index offset ↔ (index, offset) ∈ valid :=
    fun index offset => (getEntryFpos_nonneg_iff h hfit).trans (hvalid index offset).symm
  have hto : ∀ index offset, (index, offset) ∈ valid →
      (buffer.getEntryFpos index offset).toNat < totalSize buffer.live
      ∧ buffer.findEntryOffsetForFpos (buffer.getEntryFpos index offset).toNat
          = some (buffer.liveSlot index, offset) := by
    intro index offset hin
    rw [hvalid] at hin
    rw [getEntryFpos_of_inside h hfit hin, Int.toNat_natCast]
    exact ⟨hin.flatPos_lt, find_flatPos h hfit64 hin⟩
  have hfrom : ∀ p, p < totalSize buffer.live → ∃ index offset, (index, offset) ∈ valid
      ∧ buffer.findEntryOffsetForFpos p = some (buffer.liveSlot index, offset)
      ∧ buffer.getEntryFpos index offset = p := by
    intro p hp
    obtain ⟨index, offset, hloc⟩ := exists_locate buffer.liveSizes hp
    obtain ⟨hin, hpos⟩ := locate_eq_some_iff.mp hloc
    refine ⟨index, offset, (hvalid index offset).mpr hin, ?_, ?_⟩
    · rw [h.findEntryOffsetForFpos_eq hfit64, hloc]
      rfl
    · rw [getEntryFpos_of_inside h hfit hin, hpos]
  refine ⟨hnonneg, fun index offset hpos => ?_, hfrom, ?_, ?_, ?_⟩
  · obtain ⟨hlt, hfind⟩ := hto index offset ((hnonneg index offset).mp hpos)
    exact ⟨by omega, hfind⟩
  · exact fun io hio => (hto io.1 io.2 hio).1
  · intro io hio io' hio' heq
    -- equal positions are found at the same slot and offset
    have hslot := (hto io.1 io.2 hio).2
    rw [show (buffer.getEntryFpos io.1 io.2).toNat = (buffer.getEntryFpos io'.1 io'.2).toNat
      from heq, (hto io'.1 io'.2 hio').2] at hslot
    obtain ⟨hs, ho⟩ : buffer.liveSlot io'.1 = buffer.liveSlot io.1 ∧ io'.2 = io.2 := by
      simpa using hslot
    exact Prod.ext (h.liveSlot_inj hio.1 hio'.1 hs.symm) ho.symm
  · intro p hp
    obtain ⟨index, offset, hin, _, hpos⟩ := hfrom p hp
    exact ⟨(index, offset), hin, by simp [hpos]⟩

/-- Twelve adds, two of them of zero bytes: the ring is full and has wrapped. -/
theorem getEntryFpos_find_inverse_wrapped :
    let buffer := (AesdCircularBuffer.mk (.replicate 10 .zero) 3 4 5 6).init.addEntries
      ((List.range 12).map (fun i => ⟨.block i, i % 6⟩))
    ∀ p, p < 29 → ∃ index offset,
      buffer.findEntryOffsetForFpos p = some (buffer.liveSlot index, offset)
      ∧ buffer.getEntryFpos index offset = p := by
  intro buffer p hp
  have hlive : totalSize buffer.live = 29 := by
    rw [live_addEntries_init]
    decide
  have h := getEntryFpos_find_inverse (.mk (.replicate 10 .zero) 3 4 5 6)
    ((List.range 12).map (fun i => ⟨.block i, i % 6⟩)) (by rw [hlive]; decide)
  obtain ⟨index, offset, _, hfind, hpos⟩ := h.2.2.1 p (by rw [hlive]; exact hp)
  exact ⟨index, offset, hfind, hpos⟩

end AesdCircularBuffer

end Aesd
