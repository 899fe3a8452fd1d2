import Aesd.Driver.Kernel

set_option autoImplicit false

/-! # The character device

`aesd-char-driver/main.c`, function by function. The file operations take the position of the
file they are called on and return the new one; `Kernel.call` is one call of the VFS on an open
file, and `Kernel.run` a sequence of them, in the order in which they took the device lock.
Apart from the copy in `aesd_ioctl`, which touches nothing shared, each operation does all its
work under that lock. -/

namespace Aesd

open CInt Kernel

/-- The byte `'\n'`. -/
def newline : UInt8 := 10

/-- `struct aesd_seekto`. -/
structure AesdSeekto where
  /-- The zero referenced write command to seek into. -/
  writeCmd : Nat
  /-- The zero referenced offset within the write. -/
  writeCmdOffset : Nat
  deriving DecidableEq, Repr

/-- `sizeof(struct aesd_seekto)`. -/
def sizeofAesdSeekto : Nat := 8

/-- `_IOWR(type, nr, size)`. -/
def iowr (type nr size : Nat) : Nat := 3 * 2 ^ 30 + size * 2 ^ 16 + type * 2 ^ 8 + nr

/-- `AESD_IOC_MAGIC`. -/
def AESD_IOC_MAGIC : Nat := 0x16

/-- `AESDCHAR_IOCSEEKTO`. -/
def AESDCHAR_IOCSEEKTO : Nat := iowr AESD_IOC_MAGIC 1 sizeofAesdSeekto

/-- `aesd_open`: `private_data` is set, and the file starts at position `0`. -/
def aesdOpen (k : Kernel) (f : FileId) : Int × Kernel :=
  (0, { k with fPos := Function.update k.fPos f (some 0) })

/-- `aesd_release`. -/
def aesdRelease (k : Kernel) (f : FileId) : Int × Kernel :=
  (0, { k with fPos := Function.update k.fPos f none })

/-- `aesd_llseek`: the returned value, the new position and the state. -/
def aesdLlseek (api : KernelApi) (k : Kernel) (fPos : Nat) (off whence : Int) :
    Except Fault (Int × Nat × Kernel) := do
  let k ← k.mutexLock
  let (retval, fPos) := api.fixedSizeLlseek fPos off whence k.aesdDevice.circularBuffer.size
  return (retval, fPos, k.mutexUnlock)

/-- `aesd_read`: the returned value, the bytes that arrived in user space, the new position and
the state. -/
def aesdRead (k : Kernel) (count fPos uncopied : Nat) :
    Except Fault (Int × List UInt8 × Nat × Kernel) := do
  let k ← k.mutexLock
  let buffer := k.aesdDevice.circularBuffer
  let (retval, delivered) ←
    match buffer.findEntryOffsetForFpos fPos with
    | none => pure ((0 : Int), [])
    | some (slot, bufferEntryOff) => do
        let entry := buffer.slot slot
        let n := min count (sizeTSub entry.size bufferEntryOff)
        let (left, delivered) ← k.copyToUser entry.buffptr bufferEntryOff n uncopied
        pure (if left > 0 then -EFAULT else (n : Int), delivered)
  let fPos := if retval > 0 then fPos + retval.toNat else fPos
  return (retval, delivered, fPos, k.mutexUnlock)

/-- The end of the successful branch of `aesd_write`: the staging entry goes to the ring if its
last byte is a newline, and what the ring gives back is freed. -/
def commitStaging (k : Kernel) : Except Fault Kernel := do
  let staging := k.aesdDevice.stagingEntry
  let last ← k.load staging.buffptr (sizeTSub staging.size 1) 1
  if last = [newline] then
    let (bufferptr, ring) := k.aesdDevice.circularBuffer.addEntry staging
    let k := { k with aesdDevice := { k.aesdDevice with circularBuffer := ring } }
    let k ← k.kfree bufferptr
    return { k with aesdDevice := { k.aesdDevice with stagingEntry := .zero } }
  else
    return k

/-- `aesd_write` of the user bytes `buf` (`count` is their number): the returned value and the
state. The position is only logged, never read or moved. -/
def aesdWrite (api : KernelApi) (k : Kernel) (buf : List UInt8) (choice : Option KmallocBlock)
    (uncopied : Nat) : Except Fault (Int × Kernel) := do
  let count := buf.length
  let k ← k.mutexLock
  let staging := k.aesdDevice.stagingEntry
  let (bufferptr, k) := k.kmalloc api (sizeT (count + staging.size)) choice
  if bufferptr = .null then
    return (-ENOMEM, k.mutexUnlock)
  else
    let k ← k.memcpy bufferptr 0 staging.buffptr staging.size
    let (left, k) ← k.copyFromUser bufferptr staging.size buf uncopied
    if left > 0 then
      let k ← k.kfree bufferptr
      return (-EFAULT, k.mutexUnlock)
    else
      let k ← k.kfree staging.buffptr
      let staging : AesdBufferEntry := ⟨bufferptr, sizeT (staging.size + count)⟩
      let k ← commitStaging { k with aesdDevice := { k.aesdDevice with stagingEntry := staging } }
      return ((count : Int), k.mutexUnlock)

/-- `aesd_adjust_file_offset`: the returned value, the new position and the state. -/
def aesdAdjustFileOffset (k : Kernel) (fPos writeCmd writeCmdOffset : Nat) :
    Except Fault (Int × Nat × Kernel) := do
  let k ← k.mutexLock
  let newFpos := k.aesdDevice.circularBuffer.getEntryFpos writeCmd writeCmdOffset
  let (retval, fPos) := if newFpos ≥ 0 then ((0 : Int), newFpos.toNat) else (-EINVAL, fPos)
  return (retval, fPos, k.mutexUnlock)

/-- `aesd_ioctl`, where `arg` points to the `seekto` of the user. -/
def aesdIoctl (k : Kernel) (fPos cmd : Nat) (seekto : AesdSeekto) (uncopied : Nat) :
    Except Fault (Int × Nat × Kernel) :=
  if cmd = AESDCHAR_IOCSEEKTO then
    if min uncopied sizeofAesdSeekto ≠ 0 then
      .ok (-EFAULT, fPos, k)
    else
      aesdAdjustFileOffset k fPos seekto.writeCmd seekto.writeCmdOffset
  else
    .ok (-ENOTTY, fPos, k)

/-- `aesd_init_module`, given what `alloc_chrdev_region` and `aesd_setup_cdev` return: the
returned value and the state. -/
def aesdInitModule (k : Kernel) (regionRet cdevRet : Int) : Int × Kernel :=
  if regionRet < 0 then (regionRet, k)
  else
    (cdevRet,
      { k with
        aesdDevice :=
          { circularBuffer := k.aesdDevice.circularBuffer.init
            stagingEntry := .zero
            lock := false } })

/-- `aesd_cleanup_module`, as far as it touches the device: the loop of
`AESD_CIRCULAR_BUFFER_FOREACH` over all slots. -/
def aesdCleanupModule (k : Kernel) : Except Fault Kernel :=
  let buffer := k.aesdDevice.circularBuffer
  (List.range maxWriteOperationsSupported).foldlM
    (fun k index => k.kfree (buffer.slot index).buffptr) k

/-! ## Calls through the VFS -/

/-- A call on a file, together with what the kernel services decide during it. -/
inductive DevCall
  | openFile (f : FileId)
  | release (f : FileId)
  | write (f : FileId) (buf : List UInt8) (choice : Option KmallocBlock) (uncopied : Nat)
  | read (f : FileId) (count uncopied : Nat)
  | llseek (f : FileId) (off whence : Int)
  | ioctl (f : FileId) (cmd : Nat) (seekto : AesdSeekto) (uncopied : Nat)

/-- What a call returns: its value, and the bytes a `read` has put into the user's buffer. -/
structure SysRet where
  ret : Int
  bytes : List UInt8
  deriving DecidableEq, Repr

/-- The value of a call without data. -/
def SysRet.value (ret : Int) : SysRet := ⟨ret, []⟩

/-- One call. The VFS rejects calls on files that are not open. -/
def Kernel.call (api : KernelApi) (k : Kernel) : DevCall → Except Fault (SysRet × Kernel)
  | .openFile f =>
      match k.fPos f with
      | some _ => .ok (.value (-EBADF), k)
      | none => .ok (.value (aesdOpen k f).1, (aesdOpen k f).2)
  | .release f =>
      match k.fPos f with
      | none => .ok (.value (-EBADF), k)
      | some _ => .ok (.value (aesdRelease k f).1, (aesdRelease k f).2)
  | .write f buf choice uncopied =>
      match k.fPos f with
      | none => .ok (.value (-EBADF), k)
      | some _ => do
          let (ret, k) ← aesdWrite api k buf choice uncopied
          return (.value ret, k)
  | .read f count uncopied =>
      match k.fPos f with
      | none => .ok (.value (-EBADF), k)
      | some fPos => do
          let (ret, bytes, fPos, k) ← aesdRead k count fPos uncopied
          return (⟨ret, bytes⟩, { k with fPos := Function.update k.fPos f (some fPos) })
  | .llseek f off whence =>
      match k.fPos f with
      | none => .ok (.value (-EBADF), k)
      | some fPos => do
          let (ret, fPos, k) ← aesdLlseek api k fPos off whence
          return (.value ret, { k with fPos := Function.update k.fPos f (some fPos) })
  | .ioctl f cmd seekto uncopied =>
      match k.fPos f with
      | none => .ok (.value (-EBADF), k)
      | some fPos => do
          let (ret, fPos, k) ← aesdIoctl k fPos cmd seekto uncopied
          return (.value ret, { k with fPos := Function.update k.fPos f (some fPos) })

/-- A run: the calls in order, with what they returned. -/
def Kernel.run (api : KernelApi) (k : Kernel) : List DevCall → Except Fault (List SysRet × Kernel)
  | [] => .ok ([], k)
  | c :: rest => do
      let (r, k) ← k.call api c
      let (rs, k) ← k.run api rest
      return (r :: rs, k)

end Aesd
