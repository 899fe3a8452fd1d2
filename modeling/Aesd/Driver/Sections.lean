import Aesd.Basic.Apart
import Aesd.Driver.Drain
import Aesd.Driver.Readers
import Aesd.Driver.Safety

set_option autoImplicit false

/-! # The driver, access by access

`CharDevice` has every call in one piece. Here the calls on open files are taken apart into their
accesses to the device and to kernel memory, and the accesses of different calls may come between
each other. The lock of the device does not protect where the files stand: the VFS makes a copy of
the position before it calls `aesd_read` or `aesd_write`, and stores it when they have returned, and
for a character device it takes no lock to do so. So the driver is an object in the sense of
`Monitor.CopyingObject`. Its calls are those of `CharDevice` when they have the device for
themselves (`driver_apply`), and they come to their end whatever copy they work on
(`driver_works`). -/

namespace Aesd

open CInt Kernel Monitor

/-! ## The sections -/

/-- A call on an open file. -/
inductive FileCall
  | write (f : FileId) (buf : List UInt8) (choice : Option KmallocBlock) (uncopied : Nat)
  | read (f : FileId) (count uncopied : Nat)
  | llseek (f : FileId) (off whence : Int)
  | ioctl (f : FileId) (cmd : Nat) (seekto : AesdSeekto) (uncopied : Nat)

/-- The same call, as the VFS makes it. -/
def FileCall.devCall : FileCall → DevCall
  | .write f buf choice uncopied => .write f buf choice uncopied
  | .read f count uncopied => .read f count uncopied
  | .llseek f off whence => .llseek f off whence
  | .ioctl f cmd seekto uncopied => .ioctl f cmd seekto uncopied

/-- The file it is made on. -/
def FileCall.file : FileCall → FileId
  | .write f .. | .read f .. | .llseek f .. | .ioctl f .. => f

/-- `file->f_pos` of an open file. -/
def Kernel.position (k : Kernel) (f : FileId) : Nat := (k.fPos f).getD 0

/-- An assignment to the staging entry. -/
def Kernel.setStaging (k : Kernel) (e : AesdBufferEntry) : Kernel :=
  { k with aesdDevice := { k.aesdDevice with stagingEntry := e } }

/-- `aesd_circular_buffer_add_entry` of the staging entry. -/
def Kernel.addStaging (k : Kernel) : KPtr × Kernel :=
  let (replaced, ring) := k.aesdDevice.circularBuffer.addEntry k.aesdDevice.stagingEntry
  (replaced, { k with aesdDevice := { k.aesdDevice with circularBuffer := ring } })

/-- `aesd_llseek` between `mutex_lock` and `mutex_unlock`. -/
def llseekSection (api : KernelApi) (f : FileId) (off whence : Int) : Prog Fault Kernel SysRet := do
  let size ← .look fun k => k.aesdDevice.circularBuffer.size
  let fPos ← .look fun k => k.position f
  let (retval, fPos) := api.fixedSizeLlseek fPos off whence size
  .assign fun k => k.seekTo f fPos
  return .value retval

/-- `aesd_read` between `mutex_lock` and `mutex_unlock`, and what becomes of `*f_pos`, which is not
the position of the file but the copy. -/
def readSection (fPos count uncopied : Nat) : Prog Fault Kernel (SysRet × Nat) := do
  let found ← .look fun k => k.aesdDevice.circularBuffer.findEntryOffsetForFpos fPos
  match found with
  | none => return (.value 0, fPos)
  | some (slot, bufferEntryOff) => do
      let entry ← .look fun k => k.aesdDevice.circularBuffer.slot slot
      let n := min count (sizeTSub entry.size bufferEntryOff)
      let (left, delivered) ← .tryLook fun k => k.copyToUser entry.buffptr bufferEntryOff n uncopied
      let retval : Int := if left > 0 then -EFAULT else n
      return (⟨retval, delivered⟩, if retval > 0 then fPos + retval.toNat else fPos)

/-- The end of the section of `aesd_write`: the staging entry goes to the ring if its last byte is
a newline. -/
def commitSection : Prog Fault Kernel Unit := do
  let staging ← .look fun k => k.aesdDevice.stagingEntry
  let last ← .tryLook fun k => k.load staging.buffptr (sizeTSub staging.size 1) 1
  if last = [newline] then
    let bufferptr ← .update fun k => .ok k.addStaging
    .tryAssign fun k => k.kfree bufferptr
    .assign fun k => k.setStaging .zero
  else
    return ()

/-- `aesd_write` between `mutex_lock` and `mutex_unlock`. -/
def writeSection (api : KernelApi) (buf : List UInt8) (choice : Option KmallocBlock)
    (uncopied : Nat) : Prog Fault Kernel SysRet := do
  let count := buf.length
  let size ← .look fun k => k.aesdDevice.stagingEntry.size
  let bufferptr ← .update fun k => .ok (k.kmalloc api (sizeT (count + size)) choice)
  if bufferptr = .null then
    return .value (-ENOMEM)
  else
    let staging ← .look fun k => k.aesdDevice.stagingEntry
    .tryAssign fun k => k.memcpy bufferptr 0 staging.buffptr staging.size
    let left ← .update fun k => k.copyFromUser bufferptr staging.size buf uncopied
    if left > 0 then
      .tryAssign fun k => k.kfree bufferptr
      return .value (-EFAULT)
    else
      .tryAssign fun k => k.kfree staging.buffptr
      .assign fun k => k.setStaging ⟨bufferptr, k.aesdDevice.stagingEntry.size⟩
      .assign fun k => k.setStaging
        ⟨k.aesdDevice.stagingEntry.buffptr, sizeT (k.aesdDevice.stagingEntry.size + count)⟩
      commitSection
      return .value count

/-- `aesd_adjust_file_offset` between `mutex_lock` and `mutex_unlock`. -/
def adjustSection (f : FileId) (writeCmd writeCmdOffset : Nat) : Prog Fault Kernel SysRet := do
  let newFpos ← .look fun k => k.aesdDevice.circularBuffer.getEntryFpos writeCmd writeCmdOffset
  if newFpos ≥ 0 then
    .assign fun k => k.seekTo f newFpos.toNat
    return .value 0
  else
    return .value (-EINVAL)

/-- A section that looks at the position of the file itself, and not at a copy. -/
def inPlace (p : Prog Fault Kernel SysRet) (_ : Option Nat) :
    Prog Fault Kernel (SysRet × Option (Option Nat)) := do
  let r ← p
  return (r, none)

/-- `aesd_ioctl` looks at the command and copies its argument outside the section. -/
def ioctlBody (f : FileId) (cmd : Nat) (seekto : AesdSeekto) (uncopied : Nat) :
    CopyingCall Fault Kernel (Option Nat) SysRet :=
  if cmd = AESDCHAR_IOCSEEKTO then
    if min uncopied sizeofAesdSeekto ≠ 0 then
      .atOnce (.value (-EFAULT))
    else
      .inSection (inPlace (adjustSection f seekto.writeCmd seekto.writeCmdOffset))
  else
    .atOnce (.value (-ENOTTY))

theorem eq_of_ioctlBody {f : FileId} {cmd : Nat} {seekto : AesdSeekto} {uncopied : Nat}
    {p : Option Nat → Prog Fault Kernel (SysRet × Option (Option Nat))}
    (h : ioctlBody f cmd seekto uncopied = .inSection p) :
    p = inPlace (adjustSection f seekto.writeCmd seekto.writeCmdOffset) := by
  unfold ioctlBody at h
  split at h
  · split at h
    · cases h
    · cases h
      rfl
  · cases h

/-- What the VFS stores in the file when `aesd_read` or `aesd_write` has returned: the copy that it
has given them, or nothing if they have failed. -/
def vfsStore (ret : Int) (pos : Option Nat) : Option (Option Nat) :=
  if ret ≥ 0 then some pos else none

/-- What a call does, given a copy of the position of its file. -/
def FileCall.body (api : KernelApi) : FileCall → CopyingCall Fault Kernel (Option Nat) SysRet
  | .write _ buf choice uncopied => .inSection fun pos => do
      let r ← writeSection api buf choice uncopied
      return (r, vfsStore r.ret pos)
  | .read _ count uncopied => .inSection fun pos => do
      let (r, fPos) ← readSection (pos.getD 0) count uncopied
      return (r, vfsStore r.ret (some fPos))
  | .llseek f off whence => .inSection (inPlace (llseekSection api f off whence))
  | .ioctl f cmd seekto uncopied => ioctlBody f cmd seekto uncopied

/-! ## What a section leaves alone -/

/-- A property of the kernel state that does not depend on the memory. -/
structure MemoryStable (P : Kernel → Prop) : Prop where
  memory : ∀ (k : Kernel) (heap : Heap UInt8), P k → P { k with heap := heap }

/-- A property that no access of a section changes: it does not depend on the ring, the staging
entry, or where an open file stands, either. -/
structure SectionStable (P : Kernel → Prop) : Prop extends MemoryStable P where
  staging : ∀ (k : Kernel) (e : AesdBufferEntry), P k → P (k.setStaging e)
  added : ∀ k : Kernel, P k → P k.addStaging.2
  moved : ∀ (k : Kernel) (f : FileId) (p : Nat), P k → P (k.seekTo f p)

section

variable {P : Kernel → Prop} {k k' : Kernel}

theorem MemoryStable.kfree (hP : MemoryStable P) {p : KPtr} (hk : P k)
    (hfree : k.kfree p = .ok k') : P k' := by
  unfold Kernel.kfree at hfree
  split at hfree
  · rwa [← Except.ok.inj hfree]
  · cases hfree
  · split at hfree
    · rw [← Except.ok.inj hfree]
      exact hP.memory k _ hk
    · cases hfree

theorem MemoryStable.store (hP : MemoryStable P) {p : KPtr} {off : Nat} {bytes : List UInt8}
    (hk : P k) (hstore : k.store p off bytes = .ok k') : P k' := by
  unfold Kernel.store at hstore
  split at hstore
  · rwa [← Except.ok.inj hstore]
  · split at hstore
    · split at hstore
      · rw [← Except.ok.inj hstore]
        exact hP.memory k _ hk
      · cases hstore
    · cases hstore

theorem MemoryStable.kmalloc (hP : MemoryStable P) (api : KernelApi) (size : Nat)
    (choice : Option KmallocBlock) (hk : P k) : P (k.kmalloc api size choice).2 := by
  unfold Kernel.kmalloc
  split
  · exact hk
  · split
    · exact hk
    · split
      · exact hk
      · exact hP.memory k _ hk

theorem MemoryStable.memcpy (hP : MemoryStable P) {dst src : KPtr} {off n : Nat} (hk : P k)
    (hcopy : k.memcpy dst off src n = .ok k') : P k' := by
  obtain ⟨bytes, -, hstore⟩ := bind_eq_ok.mp hcopy
  exact hP.store hk hstore

theorem MemoryStable.copyFromUser (hP : MemoryStable P) {dst : KPtr} {off uncopied left : Nat}
    {buf : List UInt8} (hk : P k)
    (hcopy : k.copyFromUser dst off buf uncopied = .ok (left, k')) : P k' := by
  obtain ⟨k₁, hstore, hret⟩ := bind_eq_ok.mp hcopy
  obtain ⟨-, rfl⟩ := Prod.mk.inj (Except.ok.inj hret)
  exact hP.store hk hstore

theorem SectionStable.llseekSection (hP : SectionStable P) (api : KernelApi) (f : FileId)
    (off whence : Int) : (llseekSection api f off whence).Keeps P := by
  apply (Prog.keeps_look _).bind
  intro size
  apply (Prog.keeps_look _).bind
  intro fPos
  apply (Prog.keeps_assign fun k => hP.moved k f _).bind
  exact fun _ => Prog.keeps_pure _

theorem SectionStable.adjustSection (hP : SectionStable P) (f : FileId)
    (writeCmd writeCmdOffset : Nat) : (adjustSection f writeCmd writeCmdOffset).Keeps P := by
  apply (Prog.keeps_look _).bind
  intro newFpos
  split
  · apply (Prog.keeps_assign fun k => hP.moved k f _).bind
    exact fun _ => Prog.keeps_pure _
  · exact Prog.keeps_pure _

/-- The section of `aesd_read` changes nothing. -/
theorem readSection_keeps (fPos count uncopied : Nat) :
    (readSection fPos count uncopied).Keeps P := by
  apply (Prog.keeps_look _).bind
  rintro (_ | ⟨slot, bufferEntryOff⟩)
  · exact Prog.keeps_pure _
  · apply (Prog.keeps_look _).bind
    intro entry
    apply (Prog.keeps_tryLook _).bind
    exact fun _ => Prog.keeps_pure _

theorem SectionStable.commitSection (hP : SectionStable P) : commitSection.Keeps P := by
  apply (Prog.keeps_look _).bind
  intro staging
  apply (Prog.keeps_tryLook _).bind
  intro last
  split
  · apply Prog.Keeps.bind
    · apply Prog.keeps_update
      intro k b k' hk hok
      rw [← (Prod.mk.inj (Except.ok.inj hok)).2]
      exact hP.added k hk
    · intro bufferptr
      apply (Prog.keeps_tryAssign fun _ _ => hP.kfree).bind
      exact fun _ => Prog.keeps_assign fun k => hP.staging k _
  · exact Prog.keeps_pure _

theorem SectionStable.writeSection (hP : SectionStable P) (api : KernelApi) (buf : List UInt8)
    (choice : Option KmallocBlock) (uncopied : Nat) :
    (writeSection api buf choice uncopied).Keeps P := by
  -- one access after the other, as `writeSection` makes them
  apply (Prog.keeps_look _).bind
  intro size
  apply Prog.Keeps.bind
  · apply Prog.keeps_update
    intro k b k' hk hok
    rw [← (Prod.mk.inj (Except.ok.inj hok)).2]
    exact hP.kmalloc api _ choice hk
  · intro bufferptr
    split
    · exact Prog.keeps_pure _
    · apply (Prog.keeps_look _).bind
      intro staging
      apply (Prog.keeps_tryAssign fun _ _ => hP.memcpy).bind
      intro _
      apply (Prog.keeps_update fun _ _ _ => hP.copyFromUser).bind
      intro left
      split
      · apply (Prog.keeps_tryAssign fun _ _ => hP.kfree).bind
        exact fun _ => Prog.keeps_pure _
      · apply (Prog.keeps_tryAssign fun _ _ => hP.kfree).bind
        intro _
        apply (Prog.keeps_assign fun k => hP.staging k _).bind
        intro _
        apply (Prog.keeps_assign fun k => hP.staging k _).bind
        intro _
        apply hP.commitSection.bind
        exact fun _ => Prog.keeps_pure _

theorem SectionStable.body (hP : SectionStable P) {api : KernelApi} {c : FileCall}
    {p : Option Nat → Prog Fault Kernel (SysRet × Option (Option Nat))}
    (hc : c.body api = .inSection p) (pos : Option Nat) : (p pos).Keeps P := by
  cases c with
  | write f buf choice uncopied =>
      cases hc
      exact (hP.writeSection api buf choice uncopied).bind fun _ => Prog.keeps_pure _
  | read f count uncopied =>
      cases hc
      exact (readSection_keeps _ count uncopied).bind fun _ => Prog.keeps_pure _
  | llseek f off whence =>
      cases hc
      exact (hP.llseekSection api f off whence).bind fun _ => Prog.keeps_pure _
  | ioctl f cmd seekto uncopied =>
      obtain rfl := eq_of_ioctlBody hc
      exact (hP.adjustSection f _ _).bind fun _ => Prog.keeps_pure _

end

theorem sectionStable_lock : SectionStable fun k => k.aesdDevice.lock = true where
  memory _ _ hk := hk
  staging _ _ hk := hk
  added _ hk := hk
  moved _ _ _ hk := hk

/-! ## Where the files stand -/

/-- The positions of the open files, which the VFS looks at and sets without the lock. -/
def filePositions : Cells Kernel FileId (Option Nat) where
  get := Kernel.fPos
  set := Kernel.withFPos
  get_set _ _ := rfl
  set_set _ _ _ := rfl
  set_get _ := rfl

section

variable {api : KernelApi} {f : FileId}

theorem readSection_blind (fPos count uncopied : Nat) :
    (readSection fPos count uncopied).Blind filePositions := by
  apply (Prog.blind_look fun _ _ => rfl).bind
  rintro (_ | ⟨slot, bufferEntryOff⟩)
  · exact Prog.blind_pure _
  · apply (Prog.blind_look fun _ _ => rfl).bind
    intro entry
    apply (Prog.blind_tryLook fun _ _ => rfl).bind
    exact fun _ => Prog.blind_pure _

theorem commitSection_blind : commitSection.Blind filePositions := by
  apply (Prog.blind_look fun _ _ => rfl).bind
  intro staging
  apply (Prog.blind_tryLook fun _ _ => rfl).bind
  intro last
  split
  · apply (Prog.blind_update fun _ _ => rfl).bind
    intro bufferptr
    apply (Prog.blind_tryAssign fun k fPos => Kernel.kfree_withFPos fPos bufferptr).bind
    exact fun _ => Prog.blind_assign fun _ _ => rfl
  · exact Prog.blind_pure _

/-- A write has nothing to do with where the files stand. -/
theorem writeSection_blind (buf : List UInt8) (choice : Option KmallocBlock) (uncopied : Nat) :
    (writeSection api buf choice uncopied).Blind filePositions := by
  apply (Prog.blind_look fun _ _ => rfl).bind
  intro size
  apply Prog.Blind.bind
  · apply Prog.blind_update
    intro k fPos
    exact congrArg Except.ok (Kernel.kmalloc_withFPos fPos _ choice)
  · intro bufferptr
    split
    · exact Prog.blind_pure _
    · apply (Prog.blind_look fun _ _ => rfl).bind
      intro staging
      apply (Prog.blind_tryAssign fun k fPos => Kernel.memcpy_withFPos fPos _ _ _ _).bind
      intro _
      apply (Prog.blind_update fun k fPos =>
        Kernel.copyFromUser_withFPos fPos _ _ buf uncopied).bind
      intro left
      split
      · apply (Prog.blind_tryAssign fun k fPos => Kernel.kfree_withFPos fPos bufferptr).bind
        exact fun _ => Prog.blind_pure _
      · apply (Prog.blind_tryAssign fun k fPos => Kernel.kfree_withFPos fPos staging.buffptr).bind
        intro _
        apply (Prog.blind_assign fun _ _ => rfl).bind
        intro _
        apply (Prog.blind_assign fun _ _ => rfl).bind
        intro _
        apply commitSection_blind.bind
        exact fun _ => Prog.blind_pure _

theorem llseekSection_localTo (off whence : Int) :
    (llseekSection api f off whence).LocalTo filePositions f := by
  apply (Prog.localTo_look fun _ _ _ => rfl).bind
  intro size
  -- it looks at the position of its own file
  apply (Prog.localTo_look fun k fPos hf => congrArg (Option.getD · 0) hf).bind
  intro fPos
  apply Prog.LocalTo.bind
  · exact Prog.localTo_store (some (some (api.fixedSizeLlseek fPos off whence size).2))
  · exact fun _ => Prog.localTo_pure _

theorem adjustSection_localTo (writeCmd writeCmdOffset : Nat) :
    (adjustSection f writeCmd writeCmdOffset).LocalTo filePositions f := by
  apply (Prog.localTo_look fun _ _ _ => rfl).bind
  intro newFpos
  split
  · apply (Prog.localTo_store (some (some newFpos.toNat))).bind
    exact fun _ => Prog.localTo_pure _
  · exact Prog.localTo_pure _

/-- **A call looks at the position of its own file only.** -/
theorem FileCall.body_localTo {c : FileCall}
    {p : Option Nat → Prog Fault Kernel (SysRet × Option (Option Nat))}
    (hc : c.body api = .inSection p) (pos : Option Nat) :
    (p pos).LocalTo filePositions c.file := by
  cases c with
  | write f buf choice uncopied =>
      cases hc
      exact (writeSection_blind buf choice uncopied).localTo.bind fun _ => Prog.localTo_pure _
  | read f count uncopied =>
      cases hc
      exact (readSection_blind _ count uncopied).localTo.bind fun _ => Prog.localTo_pure _
  | llseek f off whence =>
      cases hc
      exact (llseekSection_localTo off whence).bind fun _ => Prog.localTo_pure _
  | ioctl f cmd seekto uncopied =>
      obtain rfl := eq_of_ioctlBody hc
      exact (adjustSection_localTo _ _).bind fun _ => Prog.localTo_pure _

end

/-- **The driver** as an object with one lock, whose calls get copies of the positions. -/
def driver (api : KernelApi) :
    CopyingObject Fault Kernel FileCall SysRet FileId (Option Nat) where
  cells := filePositions
  cell := FileCall.file
  acquire := Kernel.mutexLock
  release := Kernel.mutexUnlock
  call := FileCall.body api
  Held k := k.aesdDevice.lock = true
  held k k' h := by
    unfold Kernel.mutexLock at h
    split at h
    · cases h
    · rw [← Except.ok.inj h]
  waits k k' hk h := by
    unfold Kernel.mutexLock at h
    rw [if_pos hk] at h
    cases h
  keeps _ _ hc pos := sectionStable_lock.body hc pos
  localTo _ _ hc pos := FileCall.body_localTo hc pos
  acquire_set _ fPos := Kernel.mutexLock_withFPos fPos
  release_set _ _ := rfl
  held_set _ _ hk := hk

/-! ## A call that has the device for itself -/

section

variable {api : KernelApi} {k : Kernel} {f : FileId} {p : Nat}

theorem Kernel.locked_position (hp : k.fPos f = some p) : k.locked.position f = p := by
  show (k.fPos f).getD 0 = p
  rw [hp]
  rfl

theorem driver_apply_atOnce {c : FileCall} {r : SysRet} (hc : c.body api = .atOnce r) :
    (driver api).whole.apply c k = .ok (r, k) := by
  unfold Object.apply
  rw [CopyingObject.whole_atOnce (o := driver api) hc]

/-- Its copy is the position of the file, and nobody else moves that before it is stored. -/
theorem driver_apply_section {c : FileCall}
    {q : Option Nat → Prog Fault Kernel (SysRet × Option (Option Nat))}
    (hk : k.aesdDevice.lock = false) (hc : c.body api = .inSection q) :
    (driver api).whole.apply c k = (q (k.fPos c.file)).exec k.locked >>= fun rv =>
      .ok (rv.1.1, (filePositions.store c.file rv.1.2 rv.2).mutexUnlock) := by
  unfold Object.apply
  rw [CopyingObject.whole_inSection (o := driver api) hc]
  show (k.mutexLock >>= fun s => ((driver api).wholeSection c q).exec s
    >>= fun rs => .ok (rs.1, rs.2.mutexUnlock)) = _
  rw [mutexLock_eq hk]
  show (((driver api).wholeSection c q).exec k.locked >>= _) = _
  unfold CopyingObject.wholeSection
  rw [Prog.exec_look_bind, Prog.exec_bind]
  show (((q (k.fPos c.file)).exec k.locked >>= _) >>= _) = _
  cases (q (k.fPos c.file)).exec k.locked <;> rfl

theorem driver_apply_inPlace {c : FileCall} {q : Prog Fault Kernel SysRet}
    (hk : k.aesdDevice.lock = false) (hc : c.body api = .inSection (inPlace q)) :
    (driver api).whole.apply c k
      = q.exec k.locked >>= fun rs => .ok (rs.1, rs.2.mutexUnlock) := by
  rw [driver_apply_section hk hc]
  unfold inPlace
  rw [Prog.exec_bind]
  cases q.exec k.locked with
  | error e => rfl
  | ok rs =>
      show Except.ok (rs.1, (filePositions.store c.file none rs.2).mutexUnlock)
        = .ok (rs.1, rs.2.mutexUnlock)
      rw [Cells.store_none]

theorem driver_apply_llseek (hk : k.aesdDevice.lock = false) (hp : k.fPos f = some p)
    (off whence : Int) :
    (driver api).whole.apply (.llseek f off whence) k = k.call api (.llseek f off whence) := by
  rw [driver_apply_inPlace hk rfl]
  simp only [Kernel.call, hp, aesdLlseek, mutexLock_eq hk, llseekSection, Prog.exec_look_bind,
    Prog.exec_assign_bind, Prog.exec_pure, Kernel.locked_position hp]
  rfl

theorem driver_apply_ioctl (hk : k.aesdDevice.lock = false) (hp : k.fPos f = some p) (cmd : Nat)
    (seekto : AesdSeekto) (uncopied : Nat) :
    (driver api).whole.apply (.ioctl f cmd seekto uncopied) k
      = k.call api (.ioctl f cmd seekto uncopied) := by
  have hbody : FileCall.body api (.ioctl f cmd seekto uncopied)
    = ioctlBody f cmd seekto uncopied := rfl
  simp only [Kernel.call, hp, aesdIoctl]
  unfold ioctlBody at hbody
  split_ifs at hbody ⊢ with hcmd hcopy
  · rw [driver_apply_atOnce hbody]
    show _ = Except.ok _
    rw [Kernel.restore_fPos hp]
  · rw [driver_apply_inPlace hk hbody]
    simp only [aesdAdjustFileOffset, mutexLock_eq hk, Prog.ok_bind, adjustSection,
      Prog.exec_look_bind]
    by_cases hpos : k.locked.aesdDevice.circularBuffer.getEntryFpos seekto.writeCmd
        seekto.writeCmdOffset ≥ 0
    · rw [if_pos hpos, if_pos hpos]
      rfl
    · rw [if_neg hpos, if_neg hpos]
      show Except.ok _ = Except.ok (_, ({ k.locked.mutexUnlock with
        fPos := Function.update k.fPos f (some p) } : Kernel))
      rw [Kernel.mutexUnlock_locked hk, Kernel.restore_fPos hp]
  · rw [driver_apply_atOnce hbody]
    show _ = Except.ok _
    rw [Kernel.restore_fPos hp]

theorem driver_apply_read (hk : k.aesdDevice.lock = false) (hp : k.fPos f = some p)
    (count uncopied : Nat) :
    (driver api).whole.apply (.read f count uncopied) k = k.call api (.read f count uncopied) := by
  -- a call that does not move the file stores the position that is there
  have hstay : (⟨k.locked.mutexUnlock.aesdDevice, k.locked.mutexUnlock.heap,
      Function.update k.locked.mutexUnlock.fPos f (some p)⟩ : Kernel) = k.locked.mutexUnlock := by
    rw [Kernel.mutexUnlock_locked hk, Kernel.restore_fPos hp]
  rw [driver_apply_section hk rfl]
  show ((readSection ((k.fPos f).getD 0) count uncopied >>= _).exec k.locked >>= _) = _
  rw [Prog.exec_bind]
  simp only [Kernel.call, hp, aesdRead, mutexLock_eq hk, readSection, Prog.exec_look_bind,
    Option.getD_some, Prog.ok_bind]
  generalize k.locked = q at hstay ⊢
  cases hfind : q.aesdDevice.circularBuffer.findEntryOffsetForFpos p with
  | none => rfl
  | some found =>
      obtain ⟨slot, bufferEntryOff⟩ := found
      simp only [Prog.exec_look_bind, Prog.exec_tryLook_bind, Prog.exec_pure]
      cases hcopy : q.copyToUser (q.aesdDevice.circularBuffer.slot slot).buffptr bufferEntryOff
          (min count (sizeTSub (q.aesdDevice.circularBuffer.slot slot).size bufferEntryOff))
          uncopied with
      | error e => rfl
      | ok copied =>
          simp only [Prog.ok_bind]
          show Except.ok _ = Except.ok _
          generalize (if copied.1 > 0 then -EFAULT else
            ((min count (sizeTSub (q.aesdDevice.circularBuffer.slot slot).size
              bufferEntryOff) : Nat) : Int)) = retval
          show Except.ok (_, (filePositions.store f (vfsStore retval
              (some (if retval > 0 then p + retval.toNat else p))) q).mutexUnlock)
            = .ok ((⟨retval, copied.2⟩ : SysRet), (⟨q.mutexUnlock.aesdDevice, q.mutexUnlock.heap,
              Function.update q.mutexUnlock.fPos f
                (some (if retval > 0 then p + retval.toNat else p))⟩ : Kernel))
          unfold vfsStore
          by_cases hret : retval ≥ 0
          · rw [if_pos hret]
            rfl
          · rw [if_neg hret, Cells.store_none, if_neg fun hpos => hret (Int.le_of_lt hpos)]
            rw [hstay]

theorem exec_commitSection (k : Kernel) :
    commitSection.exec k = (commitStaging k).map fun k => ((), k) := by
  unfold commitSection commitStaging
  simp only [Prog.exec_look_bind, Prog.exec_tryLook_bind]
  cases hlast : k.load k.aesdDevice.stagingEntry.buffptr (sizeTSub k.aesdDevice.stagingEntry.size 1)
      1 with
  | error e => rfl
  | ok last =>
      show Prog.exec _ k = Except.map _ (if last = [newline] then _ else _)
      by_cases hnl : last = [newline]
      · rw [if_pos hnl, if_pos hnl]
        simp only [Prog.exec_update_bind, Prog.exec_tryAssign_bind, Prog.exec_assign, Prog.ok_bind,
          Kernel.addStaging]
        cases hfree : Kernel.kfree _ _ with
        | error e => rfl
        | ok k' => rfl
      · rw [if_neg hnl, if_neg hnl]
        rfl

theorem commitSection_unlock (k : Kernel) (n : Int) :
    ((commitSection >>= fun _ => pure (SysRet.value n)).exec k
        >>= fun rs => .ok (rs.1, rs.2.mutexUnlock))
      = (commitStaging k >>= fun k => pure (n, k.mutexUnlock))
        >>= fun nk => pure (SysRet.value nk.1, nk.2) := by
  rw [Prog.exec_bind, exec_commitSection]
  cases hcommit : commitStaging k <;> rfl

/-- The section of a write, and the lock around it. -/
theorem exec_writeSection (hk : k.aesdDevice.lock = false) (hp : k.fPos f = some p)
    (buf : List UInt8) (choice : Option KmallocBlock) (uncopied : Nat) :
    ((writeSection api buf choice uncopied).exec k.locked
        >>= fun rs => .ok (rs.1, rs.2.mutexUnlock))
      = k.call api (.write f buf choice uncopied) := by
  simp only [Kernel.call, hp, aesdWrite, mutexLock_eq hk, writeSection, Prog.exec_look_bind,
    Prog.exec_update_bind]
  generalize k.locked = q
  -- up to the new staging entry, the accesses only change the memory
  have hstable : MemoryStable fun q' => q'.aesdDevice = q.aesdDevice := ⟨fun _ _ h => h⟩
  have hk₁ := hstable.kmalloc api (sizeT (buf.length + q.aesdDevice.stagingEntry.size)) choice rfl
  simp only [Prog.ok_bind]
  generalize q.kmalloc api (sizeT (buf.length + q.aesdDevice.stagingEntry.size)) choice = allocated
    at hk₁ ⊢
  obtain ⟨bufferptr, k₁⟩ := allocated
  replace hk₁ : k₁.aesdDevice = q.aesdDevice := hk₁
  by_cases hnull : bufferptr = .null
  · simp only [if_pos hnull]
    rfl
  · simp only [if_neg hnull, Prog.exec_look_bind, Prog.exec_tryAssign_bind, hk₁]
    cases hcopy : k₁.memcpy bufferptr 0 q.aesdDevice.stagingEntry.buffptr
        q.aesdDevice.stagingEntry.size with
    | error e => rfl
    | ok k₂ =>
        have hk₂ := hstable.memcpy hk₁ hcopy
        simp only [Prog.ok_bind, Prog.exec_update_bind]
        cases hcopy' : k₂.copyFromUser bufferptr q.aesdDevice.stagingEntry.size buf uncopied with
        | error e => rfl
        | ok copied =>
            obtain ⟨left, k₃⟩ := copied
            have hk₃ := hstable.copyFromUser hk₂ hcopy'
            by_cases hleft : left > 0
            · simp only [Prog.ok_bind, if_pos hleft, Prog.exec_tryAssign_bind]
              cases hfree : k₃.kfree bufferptr <;> rfl
            · simp only [Prog.ok_bind, if_neg hleft, Prog.exec_tryAssign_bind]
              cases hfree : k₃.kfree q.aesdDevice.stagingEntry.buffptr with
              | error e => rfl
              | ok k₄ =>
                  have hk₄ : k₄.aesdDevice = q.aesdDevice := hstable.kfree hk₃ hfree
                  rw [← hk₄]
                  simp only [Prog.ok_bind, Prog.exec_assign_bind]
                  exact commitSection_unlock _ _

theorem driver_apply_write (hk : k.aesdDevice.lock = false) (hp : k.fPos f = some p)
    (buf : List UInt8) (choice : Option KmallocBlock) (uncopied : Nat) :
    (driver api).whole.apply (.write f buf choice uncopied) k
      = k.call api (.write f buf choice uncopied) := by
  have hsection : ((writeSection api buf choice uncopied).exec k.locked
      >>= fun rs => .ok (rs.1, rs.2.mutexUnlock)) = k.call api (.write f buf choice uncopied) :=
    exec_writeSection hk hp buf choice uncopied
  rw [driver_apply_section hk rfl]
  show ((writeSection api buf choice uncopied >>= _).exec k.locked >>= _) = _
  rw [Prog.exec_bind]
  cases hexec : (writeSection api buf choice uncopied).exec k.locked with
  | error e =>
      rw [hexec] at hsection
      exact hsection
  | ok rs =>
      rw [hexec] at hsection
      replace hsection : Except.ok (rs.1, rs.2.mutexUnlock)
        = k.call api (.write f buf choice uncopied) := hsection
      rw [← hsection]
      -- the file is where it was, and so is the copy
      have hfPos : rs.2.mutexUnlock.fPos = k.fPos := Kernel.call_write_fPos hsection.symm
      replace hfPos : rs.2.fPos = k.fPos := hfPos
      show Except.ok (rs.1, (filePositions.store f (vfsStore rs.1.ret (k.fPos f)) rs.2).mutexUnlock)
        = .ok (rs.1, rs.2.mutexUnlock)
      unfold vfsStore
      split
      · rw [← hfPos]
        exact congrArg (fun k => Except.ok (rs.1, Kernel.mutexUnlock k)) (Cells.store_self rs.2)
      · rw [Cells.store_none]

/-- **A call that has the device for itself is the call of the VFS.** -/
theorem driver_apply {c : FileCall} (hk : k.aesdDevice.lock = false)
    (hp : k.fPos c.file = some p) : (driver api).whole.apply c k = k.call api c.devCall := by
  cases c with
  | write f buf choice uncopied => exact driver_apply_write hk hp buf choice uncopied
  | read f count uncopied => exact driver_apply_read hk hp count uncopied
  | llseek f off whence => exact driver_apply_llseek hk hp off whence
  | ioctl f cmd seekto uncopied => exact driver_apply_ioctl hk hp cmd seekto uncopied

/-- A call on an open file leaves open what is open. -/
theorem FileCall.call_open {d : Device} {c : FileCall} {r : SysRet} {k' : Kernel} {g : FileId}
    (hshows : k.Shows api d) (hp : k.fPos c.file = some p)
    (hcall : k.call api c.devCall = .ok (r, k')) (hg : (k.fPos g).isSome) :
    (k'.fPos g).isSome := by
  by_cases hf : c.devCall.request.file = g
  · cases c with
    | write f buf choice uncopied =>
        rw [Kernel.call_write_fPos hcall]
        exact hg
    | read | llseek | ioctl =>
        -- a position is stored in the file
        subst hf
        simp only [FileCall.file] at hp
        simp only [FileCall.devCall, Kernel.call, hp] at hcall
        obtain ⟨_, -, hret⟩ := bind_eq_ok.mp hcall
        obtain ⟨-, rfl⟩ := Prod.mk.inj (Except.ok.inj hret)
        simp [FileCall.devCall, DevCall.request, Request.file]
  · rw [hshows.call_fPos_ne hcall hf]
    exact hg

end

/-! ## Calls that come to their end -/

section

variable {api : KernelApi} {k : Kernel} {d : Device}

/-- The device shows something when the lock is released. -/
def Kernel.Unlocks (api : KernelApi) (k : Kernel) : Prop := ∃ d, k.mutexUnlock.Shows api d

theorem Kernel.Unlocks.withFPos (h : k.Unlocks api) (fPos : FileId → Option Nat) :
    (k.withFPos fPos).Unlocks api := by
  obtain ⟨d, hshows⟩ := h
  exact ⟨d, hshows.withFPos fPos⟩

theorem Kernel.Shows.unlocks (h : k.Shows api d) : k.locked.Unlocks api := by
  refine ⟨d, ?_⟩
  rw [Kernel.mutexUnlock_locked h.unlocked]
  exact h

theorem Kernel.Shows.call_ok (h : k.Shows api d) {c : DevCall} (hc : c.Counted) :
    ∃ r k', k.call api c = .ok (r, k') ∧ k'.Shows api (d.after c r) := by
  rcases h.call_cases c hc.inRange with ⟨-, -, f, choice, uncopied, rfl⟩ | ⟨r, k', hcall, h', -⟩
  · exact absurd hc.1 (by simp)
  · exact ⟨r, k', hcall, h'⟩

theorem writeSection_ends (hshows : k.Shows api d) {buf : List UInt8}
    (hbuf : 1 ≤ buf.length ∧ buf.length ≤ maxRwCount) (choice : Option KmallocBlock)
    (uncopied : Nat) :
    (writeSection api buf choice uncopied).Ends filePositions (Kernel.Unlocks api) k.locked := by
  -- it does what it does through a file that is open
  have hopen : (k.withFPos fun _ => some 0).Shows api d := hshows.withFPos _
  obtain ⟨r, k₁, hcall, hshows₁⟩ := hopen.call_ok (c := .write 0 buf choice uncopied) hbuf
  rw [← exec_writeSection hopen.unlocked rfl] at hcall
  obtain ⟨rs, hexec, hret⟩ := bind_eq_ok.mp hcall
  obtain ⟨-, rfl⟩ := Prod.mk.inj (Except.ok.inj hret)
  have hends : (writeSection api buf choice uncopied).Ends filePositions (Kernel.Unlocks api)
      (k.withFPos fun _ => some 0).locked :=
    (writeSection_blind buf choice uncopied).ends (fun _ fPos h => h.withFPos fPos) hexec
      ⟨_, hshows₁⟩
  exact hends.set (fun _ fPos h => h.withFPos fPos) k.fPos

theorem readSection_ends (hshows : k.Shows api d) (fPos count uncopied : Nat) :
    (readSection fPos count uncopied).Ends filePositions (Kernel.Unlocks api) k.locked := by
  -- through a file that stands where the copy is
  have hopen : (k.withFPos fun _ => some fPos).Shows api d := hshows.withFPos _
  obtain ⟨r, k₁, hcall, hshows₁⟩ := hopen.call_ok (c := .read 0 count uncopied) trivial
  rw [← driver_apply_read hopen.unlocked rfl, driver_apply_section hopen.unlocked rfl] at hcall
  obtain ⟨rv, hexec, hret⟩ := bind_eq_ok.mp hcall
  obtain ⟨-, rfl⟩ := Prod.mk.inj (Except.ok.inj hret)
  rw [Prog.exec_bind] at hexec
  obtain ⟨rp, hexec, hret⟩ := bind_eq_ok.mp hexec
  have hstate : rp.2 = rv.2 := (Prod.mk.inj (Except.ok.inj hret)).2
  have hunlocks : rp.2.Unlocks api := by
    rw [hstate]
    exact ⟨_, hshows₁.withFPos rv.2.fPos⟩
  have hends : (readSection fPos count uncopied).Ends filePositions (Kernel.Unlocks api)
      (k.withFPos fun _ => some fPos).locked :=
    (readSection_blind fPos count uncopied).ends (fun _ fPos h => h.withFPos fPos) hexec hunlocks
  exact hends.set (fun _ fPos h => h.withFPos fPos) k.fPos

theorem llseekSection_ends (h : k.Unlocks api) (f : FileId) (off whence : Int) :
    (llseekSection api f off whence).Ends filePositions (Kernel.Unlocks api) k := by
  apply Prog.ends_look_bind
  intro fPos₁
  apply Prog.ends_look_bind
  intro fPos₂
  apply Prog.ends_assign_bind
  exact fun fPos₃ => h.withFPos _

theorem adjustSection_ends (h : k.Unlocks api) (f : FileId) (writeCmd writeCmdOffset : Nat) :
    (adjustSection f writeCmd writeCmdOffset).Ends filePositions (Kernel.Unlocks api) k := by
  apply Prog.ends_look_bind
  intro fPos₁
  split
  · apply Prog.ends_assign_bind
    exact fun fPos₂ => h.withFPos _
  · exact h.withFPos fPos₁

/-- **No call faults, whatever copy it works on**, and wherever the files stand. -/
theorem FileCall.body_ends (hshows : k.Shows api d) {c : FileCall} (hc : c.devCall.Counted)
    {p : Option Nat → Prog Fault Kernel (SysRet × Option (Option Nat))}
    (hbody : c.body api = .inSection p) (pos : Option Nat) :
    (p pos).Ends filePositions (Kernel.Unlocks api) k.locked := by
  cases c with
  | write f buf choice uncopied =>
      cases hbody
      exact (writeSection_ends hshows hc choice uncopied).bind fun _ _ h => h
  | read f count uncopied =>
      cases hbody
      exact (readSection_ends hshows _ count uncopied).bind fun _ _ h => h
  | llseek f off whence =>
      cases hbody
      exact (llseekSection_ends hshows.unlocks f off whence).bind fun _ _ h => h
  | ioctl f cmd seekto uncopied =>
      obtain rfl := eq_of_ioctlBody hbody
      exact (adjustSection_ends hshows.unlocks f _ _).bind fun _ _ h => h

theorem driver_works (api : KernelApi) :
    (driver api).Works (fun k => ∃ d, k.Shows api d) fun c => c.devCall.Counted where
  set k fPos := by
    rintro ⟨d, hshows⟩
    exact ⟨d, hshows.withFPos fPos⟩
  section_ends k c p pos := by
    rintro ⟨d, hshows⟩ hc hbody
    exact ⟨k.locked, mutexLock_eq hshows.unlocked, FileCall.body_ends hshows hc hbody pos⟩

end

end Aesd
