import Aesd.Driver.Calls

set_option autoImplicit false

/-! # The two walks of the ring, to the last detail

`findEntryOffsetForFpos` and `getEntryFpos` say what the two walks compute. This module looks at
how they do it:

* the lookup loop with all its locals (`findDoWhile`): which slots it reads, and when it stores
  into `*entry_offset_byte_rtn` (`findEntryInspecting_spec`);
* the position in `int` arithmetic: it is exact up to `INT_MAX`, and wrong for every byte
  behind that (`seekExact_iff`). -/

namespace Aesd

open CInt CircArray FlatIndex Kernel

namespace AesdCircularBuffer

variable {buffer : AesdCircularBuffer}

/-! ## The lookup loop and its locals -/

/-- The locals of `aesd_circular_buffer_find_entry_offset_for_fpos`, the variable behind
`entry_offset_byte_rtn`, and the slots the loop has inspected so far. -/
structure FindLocals where
  currentOffs : Nat
  currentSize : Nat
  pEntry : Option Nat
  entryOffsetByteRtn : Nat
  inspected : List Nat
  deriving DecidableEq, Repr

/-- What the function returns and has stored, as `findEntryOffsetForFpos` gives it. -/
def FindLocals.found (l : FindLocals) : Option (Nat × Nat) :=
  l.pEntry.map fun slot => (slot, l.entryOffsetByteRtn)

/-- The body of the do/while loop. -/
def findBody (buffer : AesdCircularBuffer) (charOffset : Nat) (l : FindLocals) : FindLocals :=
  let l := { l with inspected := l.inspected ++ [l.currentOffs] }
  if charOffset < sizeT (l.currentSize + (buffer.slot l.currentOffs).size) then
    { l with
      entryOffsetByteRtn := sizeTSub charOffset l.currentSize
      pEntry := some l.currentOffs }
  else
    { l with
      currentSize := sizeT (l.currentSize + (buffer.slot l.currentOffs).size)
      currentOffs := (l.currentOffs + 1) % maxWriteOperationsSupported }

/-- The do/while loop. The first argument bounds the number of iterations. -/
def findDoWhile (buffer : AesdCircularBuffer) (charOffset : Nat) :
    Nat → FindLocals → Option FindLocals
  | 0, _ => none
  | fuel + 1, l =>
      let l := buffer.findBody charOffset l
      if l.currentOffs ≠ buffer.inOffs ∧ l.pEntry = none then
        buffer.findDoWhile charOffset fuel l
      else
        some l

/-- `aesd_circular_buffer_find_entry_offset_for_fpos`, where `rtn` is in
`*entry_offset_byte_rtn` when it is called: the locals it returns with. -/
def findEntryInspecting (buffer : AesdCircularBuffer) (charOffset rtn : Nat) :
    Option FindLocals :=
  let l : FindLocals := ⟨buffer.outOffs, 0, none, rtn, []⟩
  if buffer.empty then some l
  else buffer.findDoWhile charOffset maxWriteOperationsSupported l

/-- One iteration: the slot is inspected, and either it is the result or the walk moves on. -/
theorem findBody_cases (buffer : AesdCircularBuffer) (charOffset : Nat) (l : FindLocals) :
    (charOffset < sizeT (l.currentSize + (buffer.slot l.currentOffs).size)
      ∧ buffer.findBody charOffset l
        = { l with
            inspected := l.inspected ++ [l.currentOffs]
            entryOffsetByteRtn := sizeTSub charOffset l.currentSize
            pEntry := some l.currentOffs })
    ∨ (¬ charOffset < sizeT (l.currentSize + (buffer.slot l.currentOffs).size)
      ∧ buffer.findBody charOffset l
        = { l with
            inspected := l.inspected ++ [l.currentOffs]
            currentSize := sizeT (l.currentSize + (buffer.slot l.currentOffs).size)
            currentOffs := (l.currentOffs + 1) % maxWriteOperationsSupported }) := by
  by_cases hc : charOffset < sizeT (l.currentSize + (buffer.slot l.currentOffs).size)
  · exact Or.inl ⟨hc, if_pos hc⟩
  · exact Or.inr ⟨hc, if_neg hc⟩

/-- **The loop computes what `findLoop` says**, and stores nothing if it finds nothing. -/
theorem findDoWhile_found (buffer : AesdCircularBuffer) (charOffset fuel : Nat) (l : FindLocals)
    (hl : l.pEntry = none) :
    buffer.findLoop charOffset fuel l.currentOffs l.currentSize
        = (buffer.findDoWhile charOffset fuel l).map FindLocals.found
      ∧ ∀ l', buffer.findDoWhile charOffset fuel l = some l' → l'.pEntry = none →
        l'.entryOffsetByteRtn = l.entryOffsetByteRtn := by
  induction fuel generalizing l with
  | zero => exact ⟨rfl, fun l' h => by cases h⟩
  | succ fuel ih =>
      rw [findLoop_succ, findDoWhile]
      rcases findBody_cases buffer charOffset l with ⟨hc, hbody⟩ | ⟨hc, hbody⟩
      · -- the entry is found, and `p_entry` ends the loop
        have hstop : ¬ ((buffer.findBody charOffset l).currentOffs ≠ buffer.inOffs
            ∧ (buffer.findBody charOffset l).pEntry = none) := by
          rw [hbody]
          simp
        simp only [if_pos hc, if_neg hstop]
        constructor
        · rw [hbody]
          rfl
        · rintro l' ⟨⟩ hnone
          rw [hbody] at hnone
          cases hnone
      · -- the walk goes on until it is back at `in_offs`
        have hpe : (buffer.findBody charOffset l).pEntry = none := by rw [hbody]; exact hl
        have hrtn : (buffer.findBody charOffset l).entryOffsetByteRtn = l.entryOffsetByteRtn := by
          rw [hbody]
        have hoffs : (buffer.findBody charOffset l).currentOffs
            = (l.currentOffs + 1) % maxWriteOperationsSupported := by
          rw [hbody]
        have hsize : (buffer.findBody charOffset l).currentSize
            = sizeT (l.currentSize + (buffer.slot l.currentOffs).size) := by
          rw [hbody]
        obtain ⟨heq, hkeep⟩ := ih (buffer.findBody charOffset l) hpe
        rw [if_neg hc, ← hoffs, ← hsize]
        by_cases hgo : (buffer.findBody charOffset l).currentOffs ≠ buffer.inOffs
        · simp only [if_pos hgo, if_pos (And.intro hgo hpe)]
          exact ⟨heq, fun l' h hnone => (hkeep l' h hnone).trans hrtn⟩
        · have hstop : ¬ ((buffer.findBody charOffset l).currentOffs ≠ buffer.inOffs
              ∧ (buffer.findBody charOffset l).pEntry = none) := fun h => hgo h.1
          simp only [if_neg hgo, if_neg hstop]
          refine ⟨?_, ?_⟩
          · rw [Option.map_some, FindLocals.found, hpe]
            rfl
          · rintro l' ⟨⟩ _
            exact hrtn

/-- Every iteration inspects one slot. -/
theorem findBody_inspected (charOffset : Nat) (l : FindLocals) :
    (buffer.findBody charOffset l).inspected = l.inspected ++ [l.currentOffs] := by
  rcases findBody_cases buffer charOffset l with ⟨-, hbody⟩ | ⟨-, hbody⟩
  · rw [hbody]
  · rw [hbody]

/-- If the slot is not the result, the walk moves on to the next one. -/
theorem findBody_currentOffs {charOffset : Nat} {l : FindLocals}
    (hnone : (buffer.findBody charOffset l).pEntry = none) :
    (buffer.findBody charOffset l).currentOffs
      = (l.currentOffs + 1) % maxWriteOperationsSupported := by
  rcases findBody_cases buffer charOffset l with ⟨-, hbody⟩ | ⟨-, hbody⟩
  · rw [hbody] at hnone
    cases hnone
  · rw [hbody]

/-- **Which slots the loop inspects**: with `k + 1` slots to come before `in_offs`, some first
part of them, in order. -/
theorem findDoWhile_inspected (charOffset : Nat) {k start fuel : Nat} {l l' : FindLocals}
    (hstart : l.currentOffs = start % maxWriteOperationsSupported)
    (hin : buffer.inOffs = (start + (k + 1)) % maxWriteOperationsSupported)
    (hrun : buffer.findDoWhile charOffset fuel l = some l') :
    ∃ n ≤ k + 1, l'.inspected
      = l.inspected ++ window maxWriteOperationsSupported id start n := by
  induction k generalizing start fuel l with
  | zero =>
      cases fuel with
      | zero => cases hrun
      | succ fuel =>
          -- the walk has come to `in_offs`
          have hstop : ¬ ((buffer.findBody charOffset l).currentOffs ≠ buffer.inOffs
              ∧ (buffer.findBody charOffset l).pEntry = none) := by
            rintro ⟨hne, hnone⟩
            rw [findBody_currentOffs hnone, hstart, Nat.mod_add_mod] at hne
            exact hne hin.symm
          rw [findDoWhile] at hrun
          simp only [if_neg hstop, Option.some.injEq] at hrun
          refine ⟨1, Nat.le_refl _, ?_⟩
          rw [← hrun, findBody_inspected, hstart]
          rfl
  | succ k ih =>
      cases fuel with
      | zero => cases hrun
      | succ fuel =>
          rw [findDoWhile] at hrun
          by_cases hgo : (buffer.findBody charOffset l).currentOffs ≠ buffer.inOffs
              ∧ (buffer.findBody charOffset l).pEntry = none
          · simp only [if_pos hgo] at hrun
            have hnext : (buffer.findBody charOffset l).currentOffs
                = (start + 1) % maxWriteOperationsSupported := by
              rw [findBody_currentOffs hgo.2, hstart, Nat.mod_add_mod]
            obtain ⟨n, hn, hrest⟩ := ih hnext (by rw [hin]; congr 1; omega) hrun
            refine ⟨n + 1, by omega, ?_⟩
            rw [hrest, findBody_inspected, hstart, window_cons, List.append_assoc]
            rfl
          · simp only [if_neg hgo, Option.some.injEq] at hrun
            refine ⟨1, by omega, ?_⟩
            rw [← hrun, findBody_inspected, hstart]
            rfl

/-- The loop ends, whatever the sizes are. -/
theorem WellFormed.exists_findEntryInspecting (h : buffer.WellFormed) (charOffset rtn : Nat) :
    ∃ l, buffer.findEntryInspecting charOffset rtn = some l
      ∧ l.found = buffer.findEntryOffsetForFpos charOffset
      ∧ (l.pEntry = none → l.entryOffsetByteRtn = rtn) := by
  rw [findEntryInspecting, findEntryOffsetForFpos]
  cases buffer.empty with
  | true => exact ⟨_, rfl, rfl, fun _ => rfl⟩
  | false =>
      obtain ⟨heq, hkeep⟩ := findDoWhile_found buffer charOffset
        maxWriteOperationsSupported ⟨buffer.outOffs, 0, none, rtn, []⟩ rfl
      have hends := findLoop_isSome charOffset 0 h.outOffs_lt h.inOffs_lt
      rw [heq, Option.isSome_map] at hends
      obtain ⟨l, hl⟩ := Option.isSome_iff_exists.mp hends
      refine ⟨l, hl, ?_, hkeep l hl⟩
      show l.found = (buffer.findLoop charOffset _ buffer.outOffs 0).join
      rw [heq, hl]
      rfl

/-- The inspected slots are those of the oldest entries, up to some entry. -/
theorem WellFormed.findEntryInspecting_inspected (h : buffer.WellFormed) {charOffset rtn : Nat}
    {l : FindLocals} (hl : buffer.findEntryInspecting charOffset rtn = some l) :
    ∃ n ≤ buffer.numEntries, l.inspected = (List.range n).map buffer.liveSlot := by
  rw [findEntryInspecting] at hl
  cases hn : buffer.numEntries with
  | zero =>
      have hempty : buffer.empty = true := by simp [empty, hn]
      simp only [hempty, if_true, Option.some.injEq] at hl
      exact ⟨0, Nat.le_refl 0, by rw [← hl]; rfl⟩
  | succ k =>
      have hempty : buffer.empty = false := by simp [empty, hn]
      simp only [hempty, Bool.false_eq_true, if_false] at hl
      exact findDoWhile_inspected charOffset (Nat.mod_eq_of_lt h.outOffs_lt).symm
        (by rw [h.inOffs_eq, hn]) hl

/-- The positions of the bytes of the `i`-th oldest live entry. -/
def byteRange (buffer : AesdCircularBuffer) (i : Nat) : Set Nat := pieceRange buffer.liveSizes i

/-- **Position lookup, to the last detail.** On every ring reached by adds from the initial one
whose live bytes fit a `size_t`, the loop ends. It returns the one live entry that has
`charOffset` in its byte range, with the distance to the start of that range; it returns `NULL`
and leaves `*entry_offset_byte_rtn` alone exactly from the total on; and it has inspected slots
of live entries only, none of them twice. -/
theorem findEntryInspecting_spec (old : AesdCircularBuffer) (entries : List AesdBufferEntry)
    (hfit : totalSize (old.init.addEntries entries).live < 2 ^ 64) (charOffset rtn : Nat) :
    let buffer := old.init.addEntries entries
    ∃ l, buffer.findEntryInspecting charOffset rtn = some l
      ∧ l.found = buffer.findEntryOffsetForFpos charOffset
      ∧ ((l.pEntry = none ∧ l.entryOffsetByteRtn = rtn) ↔ totalSize buffer.live ≤ charOffset)
      ∧ (charOffset < totalSize buffer.live → ∃ i < buffer.numEntries,
          charOffset ∈ buffer.byteRange i ∧ (∀ j, charOffset ∈ buffer.byteRange j → j = i)
          ∧ l.pEntry = some (buffer.liveSlot i)
          ∧ l.entryOffsetByteRtn = charOffset - totalSize (buffer.live.take i))
      ∧ (∀ slot ∈ l.inspected, ∃ i < buffer.numEntries, slot = buffer.liveSlot i)
      ∧ l.inspected.Nodup := by
  intro buffer
  have h : buffer.WellFormed := addEntries_init_wellFormed old entries
  obtain ⟨l, hl, hfound, hkeep⟩ := h.exists_findEntryInspecting charOffset rtn
  obtain ⟨n, hn, hinsp⟩ := h.findEntryInspecting_inspected hl
  have hlookup := hfound.trans (h.findEntryOffsetForFpos_eq hfit charOffset)
  refine ⟨l, hl, hfound, ?_, ?_, ?_, ?_⟩
  · constructor
    · rintro ⟨hnone, -⟩
      rw [FindLocals.found, hnone, Option.map_none, eq_comm, Option.map_eq_none_iff,
        locate_eq_none_iff] at hlookup
      exact hlookup
    · intro hge
      have hloc : locate buffer.liveSizes charOffset = none := locate_eq_none_iff.mpr hge
      rw [hloc, Option.map_none, FindLocals.found, Option.map_eq_none_iff] at hlookup
      exact ⟨hlookup, hkeep hlookup⟩
  · intro hlt
    obtain ⟨i, o, hloc⟩ := exists_locate buffer.liveSizes hlt
    obtain ⟨hin, hpos⟩ := locate_eq_some_iff.mp hloc
    have hstart : (buffer.liveSizes.take i).sum = totalSize (buffer.live.take i) := by
      rw [liveSizes, ← List.map_take, totalSize]
    have ho : o = charOffset - (buffer.liveSizes.take i).sum := by
      rw [← hpos, flatPos]
      omega
    have hmem : charOffset ∈ buffer.byteRange i := by
      rw [ho] at hloc
      exact locate_eq_some_iff_mem_pieceRange.mp hloc
    rw [hloc, Option.map_some, FindLocals.found, Option.map_eq_some_iff] at hlookup
    obtain ⟨slot, hslot, heq⟩ := hlookup
    obtain ⟨rfl, hrtn⟩ := Prod.mk.inj heq
    refine ⟨i, (inside_liveSizes.mp hin).1, hmem, fun j hj => pieceRange_unique hj hmem, hslot, ?_⟩
    rw [hrtn, ho, hstart]
  · intro slot hslot
    rw [hinsp] at hslot
    obtain ⟨i, hi, rfl⟩ := List.mem_map.mp hslot
    exact ⟨i, Nat.lt_of_lt_of_le (List.mem_range.mp hi) hn, rfl⟩
  · rw [hinsp]
    exact h.nodup_liveSlots hn

/-- A full ring that has wrapped, with empty entries at both ends. -/
theorem findEntryInspecting_spec_wrapped :
    let buffer := (AesdCircularBuffer.mk (.replicate 10 .zero) 3 4 5 6).init.addEntries
      ((List.range 13).map (fun i => ⟨.block i, i % 3⟩))
    ∃ l, buffer.findEntryInspecting 4 77 = some l
      ∧ l.found = buffer.findEntryOffsetForFpos 4
      ∧ ((l.pEntry = none ∧ l.entryOffsetByteRtn = 77) ↔ totalSize buffer.live ≤ 4)
      ∧ (4 < totalSize buffer.live → ∃ i < buffer.numEntries,
          4 ∈ buffer.byteRange i ∧ (∀ j, 4 ∈ buffer.byteRange j → j = i)
          ∧ l.pEntry = some (buffer.liveSlot i)
          ∧ l.entryOffsetByteRtn = 4 - totalSize (buffer.live.take i))
      ∧ (∀ slot ∈ l.inspected, ∃ i < buffer.numEntries, slot = buffer.liveSlot i)
      ∧ l.inspected.Nodup :=
  findEntryInspecting_spec _ _ (by rw [live_addEntries_init]; decide) 4 77

/-! ## Positions as `int` -/

/-- **The seek to byte `offset` of command `index` is exact**: a byte of a live entry is at the
sum of the sizes of the older entries and the offset, and everything else is out of range;
`aesd_adjust_file_offset` moves accordingly. -/
structure SeekExact (buffer : AesdCircularBuffer) (index offset : Nat) : Prop where
  out_of_range : buffer.getEntryFpos index offset < 0
    ↔ buffer.numEntries ≤ index ∨ (buffer.slot (buffer.liveSlot index)).size ≤ offset
  exact_position : index < buffer.numEntries →
    offset < (buffer.slot (buffer.liveSlot index)).size →
      buffer.getEntryFpos index offset = (totalSize (buffer.live.take index) + offset : Nat)
  adjusts : ∀ (k : Kernel) (fPos : Nat), k.aesdDevice.lock = false →
    k.aesdDevice.circularBuffer = buffer →
      aesdAdjustFileOffset k fPos index offset
        = .ok (if index < buffer.numEntries
                ∧ offset < (buffer.slot (buffer.liveSlot index)).size then
              (0, totalSize (buffer.live.take index) + offset, k)
            else (-EINVAL, fPos, k))

/-- **When a seek is exact.** On every ring reached by adds from the initial one, whatever the
sizes: exactly if the byte does not exist, or its position fits an `int`. -/
theorem seekExact_iff (old : AesdCircularBuffer) (entries : List AesdBufferEntry)
    (index offset : Nat) :
    let buffer := old.init.addEntries entries
    buffer.SeekExact index offset ↔
      (index < buffer.numEntries → offset < (buffer.slot (buffer.liveSlot index)).size →
        totalSize (buffer.live.take index) + offset ≤ INT_MAX) := by
  intro buffer
  have h : buffer.WellFormed := addEntries_init_wellFormed old entries
  have hpos : flatPos buffer.liveSizes index offset
      = totalSize (buffer.live.take index) + offset := by
    rw [flatPos, liveSizes, ← List.map_take, totalSize]
  constructor
  · intro hexact hi ho
    have heq := hexact.exact_position hi ho
    rw [getEntryFpos_eq h (inside_liveSizes.mpr ⟨hi, ho⟩), hpos] at heq
    exact intOfSizeT_eq_iff.mp heq
  · intro hfits
    by_cases hin : Inside buffer.liveSizes index offset
    · -- the byte exists, and no bit of its position is lost
      obtain ⟨hi, ho⟩ := inside_liveSizes.mp hin
      have heq : buffer.getEntryFpos index offset
          = (totalSize (buffer.live.take index) + offset : Nat) := by
        rw [getEntryFpos_eq h hin, hpos]
        exact intOfSizeT_eq_iff.mpr (hfits hi ho)
      refine ⟨?_, fun _ _ => heq, ?_⟩
      · rw [heq]
        exact iff_of_false (Int.not_lt.mpr (Int.natCast_nonneg _)) (by omega)
      · intro k fPos hlock hk
        rw [aesdAdjustFileOffset_eq hlock, hk, heq, if_pos (Int.natCast_nonneg _),
          if_pos (And.intro hi ho), Int.toNat_natCast]
    · -- it does not, and the call says so whatever the sizes are
      have hout : ¬ (index < buffer.numEntries
          ∧ offset < (buffer.slot (buffer.liveSlot index)).size) := by
        rwa [← inside_liveSizes]
      have hneg := getEntryFpos_of_not_inside h hin
      refine ⟨?_, fun hi ho => absurd ⟨hi, ho⟩ hout, ?_⟩
      · rw [hneg]
        exact iff_of_true (by decide) (by omega)
      · intro k fPos hlock hk
        rw [aesdAdjustFileOffset_eq hlock, hk, hneg, if_neg (by decide), if_neg hout]

/-- Two entries of 2 GiB and one byte: the byte exists, at a position that as an `int` is
negative, and the seek to it is refused. -/
theorem not_seekExact_behind_INT_MAX :
    let buffer := (AesdCircularBuffer.mk (.replicate 10 .zero) 0 0 0 0).init.addEntries
      [⟨.block 1, 2 ^ 31⟩, ⟨.block 2, 1⟩]
    totalSize buffer.live < 2 ^ 64 ∧ 1 < buffer.numEntries
      ∧ 0 < (buffer.slot (buffer.liveSlot 1)).size
      ∧ buffer.getEntryFpos 1 0 = -2147483648 ∧ ¬ buffer.SeekExact 1 0 := by
  have hpos : ((AesdCircularBuffer.mk (.replicate 10 .zero) 0 0 0 0).init.addEntries
      [⟨.block 1, 2 ^ 31⟩, ⟨.block 2, 1⟩]).getEntryFpos 1 0 = -2147483648 := by decide
  refine ⟨by decide, by decide, by decide, hpos, fun hexact => ?_⟩
  have heq := hexact.exact_position (by decide) (by decide)
  rw [hpos] at heq
  exact absurd heq (by decide)

end AesdCircularBuffer

end Aesd
