import Aesd.Basic.CInt

set_option autoImplicit false

/-! # The circular buffer of the driver

`aesd-circular-buffer.c` and `aesd-circular-buffer.h`, function by function. The fields of the
two structures keep their C types through the reductions of `CInt`: the three counters of the
buffer are `uint8_t`, sizes and offsets are `size_t`, and `getEntryFpos` computes in `int`.
Locking and the memory behind `buffptr` are the caller's business, as in the source. -/

namespace Aesd

open CInt

/-- A kernel pointer: `NULL`, the pointer `kmalloc(0)` returns, or the start of a block. -/
inductive KPtr
  | null
  | zeroSizePtr
  | block (addr : Nat)
  deriving DecidableEq, Repr

/-- `AESDCHAR_MAX_WRITE_OPERATIONS_SUPPORTED`. -/
abbrev maxWriteOperationsSupported : Nat := 10

theorem maxWriteOperationsSupported_eq : maxWriteOperationsSupported = 10 := rfl

/-- `struct aesd_buffer_entry`. -/
structure AesdBufferEntry where
  /-- A location where the buffer contents in `buffptr` are stored. -/
  buffptr : KPtr
  /-- Number of bytes stored in `buffptr`. -/
  size : Nat
  deriving DecidableEq, Repr

/-- An entry after `memset(…, 0, …)`. -/
def AesdBufferEntry.zero : AesdBufferEntry := ⟨.null, 0⟩

/-- `struct aesd_circular_buffer`. -/
structure AesdCircularBuffer where
  /-- The most recent write operations. -/
  entry : Vector AesdBufferEntry maxWriteOperationsSupported
  /-- Where the next write is stored. -/
  inOffs : Nat
  /-- The first location to read from. -/
  outOffs : Nat
  /-- Total number of entries in the buffer. -/
  numEntries : Nat
  /-- Total number of bytes stored in the buffer. -/
  size : Nat
  deriving DecidableEq, Repr

namespace AesdCircularBuffer

/-- `buffer->entry[i]`. An index from 10 on is outside the C array; the offsets of a well-formed
buffer (`WellFormed`) never are. -/
def slot (buffer : AesdCircularBuffer) (i : Nat) : AesdBufferEntry :=
  buffer.entry.getD i .zero

/-- `aesd_circular_buffer_empty`. -/
def empty (buffer : AesdCircularBuffer) : Bool := buffer.numEntries == 0

/-- `aesd_circular_buffer_full`. -/
def full (buffer : AesdCircularBuffer) : Bool :=
  buffer.numEntries == maxWriteOperationsSupported

/-- The do/while loop of `aesd_circular_buffer_find_entry_offset_for_fpos`, from the iteration
that inspects slot `currentOffs`; `some (some (slot, offset))` when it leaves the loop with
`p_entry` set, `some none` when it leaves it at `in_offs`. The first argument bounds the number
of iterations: `none` means that the loop has not ended within it. -/
def findLoop (buffer : AesdCircularBuffer) (charOffset : Nat) :
    Nat → Nat → Nat → Option (Option (Nat × Nat))
  | 0, _, _ => none
  | fuel + 1, currentOffs, currentSize =>
      if charOffset < sizeT (currentSize + (buffer.slot currentOffs).size) then
        -- `p_entry` is set, which ends the loop whatever `in_offs` is
        some (some (currentOffs, sizeTSub charOffset currentSize))
      else
        let currentSize := sizeT (currentSize + (buffer.slot currentOffs).size)
        let currentOffs := (currentOffs + 1) % maxWriteOperationsSupported
        if currentOffs ≠ buffer.inOffs then
          buffer.findLoop charOffset fuel currentOffs currentSize
        else
          some none

/-- `aesd_circular_buffer_find_entry_offset_for_fpos`: the slot `p_entry` points to and the
value stored in `*entry_offset_byte_rtn`, or `none` for `NULL`. The loop ends within ten
iterations for every `in_offs` the source can store (`findLoop_isSome`). -/
def findEntryOffsetForFpos (buffer : AesdCircularBuffer) (charOffset : Nat) :
    Option (Nat × Nat) :=
  if buffer.empty then none
  else (buffer.findLoop charOffset maxWriteOperationsSupported buffer.outOffs 0).join

/-- `aesd_circular_buffer_add_entry`: the replaced `buffptr` (to be freed, or `NULL`) and the
buffer afterwards. -/
def addEntry (buffer : AesdCircularBuffer) (addEntry : AesdBufferEntry) :
    KPtr × AesdCircularBuffer :=
  let (replacedEntry, buffer) :=
    if buffer.full then
      ((buffer.slot buffer.inOffs).buffptr,
        { buffer with
          size := sizeTSub buffer.size (buffer.slot buffer.inOffs).size
          outOffs := (buffer.outOffs + 1) % maxWriteOperationsSupported })
    else
      (.null, { buffer with numEntries := uint8 (buffer.numEntries + 1) })
  (replacedEntry,
    { buffer with
      entry := buffer.entry.setIfInBounds buffer.inOffs addEntry
      size := sizeT (buffer.size + addEntry.size)
      inOffs := (buffer.inOffs + 1) % maxWriteOperationsSupported })

/-- The accumulation loop of `aesd_circular_buffer_get_entry_fpos`: `entry_fpos` after the first
`i` iterations. Each `+=` adds a `size_t` to the `int` accumulator. The `uint8_t` counter never
wraps, since `index` is below `num_entries`. -/
def entryFposLoop (buffer : AesdCircularBuffer) : Nat → Int
  | 0 => 0
  | i + 1 =>
      intOfSizeT (sizeT (sizeTOfInt (buffer.entryFposLoop i)
        + (buffer.slot ((buffer.outOffs + i) % maxWriteOperationsSupported)).size))

/-- `aesd_circular_buffer_get_entry_fpos`. -/
def getEntryFpos (buffer : AesdCircularBuffer) (index offset : Nat) : Int :=
  if buffer.numEntries ≤ index then
    -1
  else if (buffer.slot (uint32 (buffer.outOffs + index) % maxWriteOperationsSupported)).size
      ≤ offset then
    -1
  else
    intOfSizeT (sizeT (sizeTOfInt (buffer.entryFposLoop index) + offset))

/-- `aesd_circular_buffer_init`: whatever was in the buffer is overwritten with zero bytes. -/
def init (_buffer : AesdCircularBuffer) : AesdCircularBuffer where
  entry := Vector.replicate maxWriteOperationsSupported .zero
  inOffs := 0
  outOffs := 0
  numEntries := 0
  size := 0

end AesdCircularBuffer

end Aesd
