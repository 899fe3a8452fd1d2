import Aesd.Basic.FlatIndex
import Aesd.Basic.Gather
import Aesd.Driver.CharDevice
import Aesd.Driver.FilePosition

set_option autoImplicit false

/-! # What the device is for

The device remembers the last ten commands written to it, and the beginning of the next one.
A command is ended by a write whose last byte is a newline. `Device` is such a memory, with no
pointers, indices or sizes in it; its fields carry the facts that every reachable memory
satisfies. `Device.write` is the effect of one successful write, and `Device.flat` the bytes a
reader sees.

`Kernel.Represents` connects a kernel state to a `Device`: it says where each command and the
pending bytes lie in the kernel memory, and that nothing else does. -/

namespace Aesd

open CInt CircArray FlatIndex Gather

/-- Does a write of these bytes end a command? -/
def endsCommand (bytes : List UInt8) : Bool := bytes.getLast? == some newline

/-- The memory of the device. -/
@[ext] structure Device where
  /-- The complete commands, oldest first. -/
  commands : List (List UInt8)
  /-- The bytes of the command that is not complete yet. -/
  pending : List UInt8
  length_le : commands.length ≤ maxWriteOperationsSupported
  commands_end : ∀ c ∈ commands, endsCommand c = true
  pending_open : endsCommand pending = false

namespace Device

/-- The device after the module is loaded. -/
def empty : Device where
  commands := []
  pending := []
  length_le := Nat.zero_le _
  commands_end := by simp
  pending_open := rfl

/-- The memory after a successful write. -/
def write (d : Device) (buf : List UInt8) : Device :=
  if h : endsCommand (d.pending ++ buf) = true then
    { commands := (d.commands ++ [d.pending ++ buf]).rtake maxWriteOperationsSupported
      pending := []
      length_le := by rw [length_rtake]; exact Nat.min_le_right _ _
      commands_end := by
        intro c hc
        rcases List.mem_append.mp (List.mem_of_mem_drop hc) with hc | hc
        · exact d.commands_end c hc
        · rwa [List.mem_singleton.mp hc]
      pending_open := rfl }
  else
    { d with
      pending := d.pending ++ buf
      pending_open := Bool.eq_false_iff.mpr h }

/-- The bytes a reader sees: the complete commands, one after the other. -/
def flat (d : Device) : List UInt8 := d.commands.flatten

/-- How many bytes a read of `count` bytes at position `p` returns: it stops at the end of the
command that holds the position. -/
def readLen (d : Device) (count p : Nat) : Nat :=
  match locate (d.commands.map List.length) p with
  | none => 0
  | some (i, o) => min count ((d.commands.getD i []).length - o)

theorem write_of_ends (d : Device) (buf : List UInt8) (h : endsCommand (d.pending ++ buf) = true) :
    (d.write buf).commands = (d.commands ++ [d.pending ++ buf]).rtake maxWriteOperationsSupported
      ∧ (d.write buf).pending = [] := by
  simp [write, h]

theorem write_of_open (d : Device) (buf : List UInt8)
    (h : endsCommand (d.pending ++ buf) = false) :
    (d.write buf).commands = d.commands ∧ (d.write buf).pending = d.pending ++ buf := by
  simp [write, h]

theorem endsCommand_append {xs ys : List UInt8} (h : ys ≠ []) :
    endsCommand (xs ++ ys) = endsCommand ys := by
  rw [endsCommand, endsCommand, List.getLast?_append_of_ne_nil _ h]

theorem ne_nil_of_endsCommand {xs : List UInt8} (h : endsCommand xs = true) : xs ≠ [] := by
  rintro rfl
  cases h

/-- A write of nothing changes nothing. -/
@[simp] theorem write_nil (d : Device) : d.write [] = d := by
  have h : endsCommand (d.pending ++ []) = false := by
    rw [List.append_nil]
    exact d.pending_open
  ext1
  · exact (write_of_open d [] h).1
  · rw [(write_of_open d [] h).2, List.append_nil]

theorem sum_lengths (d : Device) : (d.commands.map List.length).sum = d.flat.length := by
  rw [flat, List.length_flatten]

/-- What a read finds at a position of the flat content. -/
theorem locate_commands {d : Device} {p i o : Nat}
    (h : locate (d.commands.map List.length) p = some (i, o)) :
    ∃ c, d.commands[i]? = some c ∧ o < c.length
      ∧ flatPos (d.commands.map List.length) i o = p := by
  obtain ⟨⟨s, hs, ho⟩, hpos⟩ := locate_eq_some_iff.mp h
  rw [List.getElem?_map, Option.map_eq_some_iff] at hs
  obtain ⟨c, hc, rfl⟩ := hs
  exact ⟨c, hc, ho, hpos⟩

theorem readLen_le_count (d : Device) (count p : Nat) : d.readLen count p ≤ count := by
  rw [readLen]
  split
  · exact Nat.zero_le _
  · exact Nat.min_le_left _ _

/-- At or behind the end a read returns nothing. -/
theorem readLen_of_le {d : Device} {p : Nat} (count : Nat) (h : d.flat.length ≤ p) :
    d.readLen count p = 0 := by
  rw [readLen, locate_eq_none_iff.mpr (by rw [sum_lengths]; exact h)]

/-- Below the end a read of at least one byte makes progress and stays inside the content. -/
theorem readLen_of_lt {d : Device} {count p : Nat} (hcount : 0 < count) (h : p < d.flat.length) :
    0 < d.readLen count p ∧ p + d.readLen count p ≤ d.flat.length := by
  obtain ⟨i, o, hloc⟩ := exists_locate (d.commands.map List.length)
    (by rw [sum_lengths]; exact h)
  obtain ⟨c, hc, ho, hpos⟩ := locate_commands hloc
  have hread : d.readLen count p = min count (c.length - o) := by
    rw [readLen, hloc]
    simp [List.getD_eq_getElem?_getD, hc]
  have hdrop := congrArg List.length (flatten_drop_flatPos hc (Nat.le_of_lt ho))
  rw [List.length_drop, List.length_append, List.length_drop, hpos] at hdrop
  rw [hread]
  have hle : c.length - o ≤ d.flat.length - p := by
    show _ ≤ d.commands.flatten.length - p
    omega
  omega

end Device

/-! ## Representation -/

/-- A block of kernel memory: its address and its contents. -/
abbrev Cell := Nat × List UInt8

/-- The entry for a block and all its bytes. -/
def entryOf (cell : Cell) : AesdBufferEntry := ⟨.block cell.1, cell.2.length⟩

/-- The staging entry, with or without a block. -/
def stagingOf : Option Cell → AesdBufferEntry
  | none => .zero
  | some cell => entryOf cell

/-- **The kernel state shows the memory `d`**, with the pending bytes in `staged` and the
commands in `ring`: the ring is well-formed and its live entries are the blocks of `ring`, the
staging entry is the block `staged` if there is one, and these are all blocks of the heap, each
referenced once. -/
structure Kernel.Represents (api : KernelApi) (k : Kernel) (d : Device) (staged : Option Cell)
    (ring : List Cell) : Prop where
  unlocked : k.aesdDevice.lock = false
  wellFormed : k.aesdDevice.circularBuffer.WellFormed
  live : k.aesdDevice.circularBuffer.live = ring.map entryOf
  commands : ring.map Prod.snd = d.commands
  staging : k.aesdDevice.stagingEntry = stagingOf staged
  pending : (staged.map Prod.snd).getD [] = d.pending
  staged_ne : ∀ cell ∈ staged, cell.2 ≠ []
  heap : k.heap.Exactly (staged.toList ++ ring)
  small : ∀ cell ∈ staged.toList ++ ring, cell.2.length ≤ api.kmallocMaxSize

/-- The kernel state shows the memory `d`. -/
def Kernel.Shows (api : KernelApi) (k : Kernel) (d : Device) : Prop :=
  ∃ staged ring, k.Represents api d staged ring

namespace Kernel.Represents

variable {api : KernelApi} {k : Kernel} {d : Device} {staged : Option Cell} {ring : List Cell}

theorem liveSizes_eq (h : k.Represents api d staged ring) :
    k.aesdDevice.circularBuffer.liveSizes = d.commands.map List.length := by
  rw [AesdCircularBuffer.liveSizes, h.live, ← h.commands, List.map_map, List.map_map]
  rfl

theorem totalSize_eq (h : k.Represents api d staged ring) :
    AesdCircularBuffer.totalSize k.aesdDevice.circularBuffer.live = d.flat.length := by
  rw [← AesdCircularBuffer.sum_liveSizes, h.liveSizes_eq, d.sum_lengths]

theorem numEntries_eq (h : k.Represents api d staged ring) :
    k.aesdDevice.circularBuffer.numEntries = d.commands.length := by
  rw [← AesdCircularBuffer.length_live, h.live, ← h.commands, List.length_map, List.length_map]

/-- The live bytes are far below `SIZE_MAX`: there are at most ten blocks. -/
theorem flat_length_lt (h : k.Represents api d staged ring) : d.flat.length < 2 ^ 52 := by
  have hsmall : ∀ n ∈ d.commands.map List.length, n ≤ api.kmallocMaxSize := by
    intro n hn
    rw [← h.commands, List.map_map] at hn
    obtain ⟨cell, hcell, rfl⟩ := List.mem_map.mp hn
    exact h.small cell (List.mem_append_right _ hcell)
  have hsum := List.sum_le_card_nsmul _ _ hsmall
  have hlen := d.length_le
  have hmax := maxWriteOperationsSupported_eq
  have hlim := api.kmallocMaxSize_lt
  rw [d.sum_lengths, List.length_map, smul_eq_mul] at hsum
  have : d.commands.length * api.kmallocMaxSize ≤ 10 * api.kmallocMaxSize :=
    Nat.mul_le_mul_right _ (by omega)
  omega

/-- The slot of a command holds its block. -/
theorem slot_eq (h : k.Represents api d staged ring) {i : Nat} {c : List UInt8}
    (hc : d.commands[i]? = some c) :
    ∃ a, k.aesdDevice.circularBuffer.slot (k.aesdDevice.circularBuffer.liveSlot i)
        = ⟨.block a, c.length⟩ ∧ k.heap.block a = some c := by
  rw [← h.commands, List.getElem?_map, Option.map_eq_some_iff] at hc
  obtain ⟨cell, hcell, rfl⟩ := hc
  have hi : i < k.aesdDevice.circularBuffer.numEntries := by
    rw [h.numEntries_eq, ← h.commands, List.length_map]
    exact (List.getElem?_eq_some_iff.mp hcell).1
  have hslot := AesdCircularBuffer.WellFormed.live_getElem? hi
  rw [h.live, List.getElem?_map, hcell] at hslot
  refine ⟨cell.1, (Option.some.inj hslot).symm, h.heap.block ?_⟩
  exact List.mem_append_right _ (List.mem_of_getElem? hcell)

end Kernel.Represents

end Aesd
