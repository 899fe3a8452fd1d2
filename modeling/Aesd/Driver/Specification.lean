import Aesd.Driver.Drain

set_option autoImplicit false

/-! # What a user of the device can observe

A user sees what the calls return, and nothing else. `View` is what these results depend on: the
memory of the device and the position of each open file. `View.Answers` says what may come back
for a request, with no pointer, lock or allocation in it; where the kernel services have a choice,
so has it. The driver gives these answers and can give each of them, over whole sequences of
requests (`run_iff_answers`). -/

namespace Aesd

open CInt FlatIndex Kernel

/-- What the user of a file asks for. -/
inductive Request
  | openFile (f : FileId)
  | release (f : FileId)
  | write (f : FileId) (buf : List UInt8)
  | read (f : FileId) (count : Nat)
  | llseek (f : FileId) (off whence : Int)
  | ioctl (f : FileId) (cmd : Nat) (seekto : AesdSeekto)

/-- The request behind a call, without what the services decide. -/
def DevCall.request : DevCall → Request
  | .openFile f => .openFile f
  | .release f => .release f
  | .write f buf _ _ => .write f buf
  | .read f count _ => .read f count
  | .llseek f off whence => .llseek f off whence
  | .ioctl f cmd seekto _ => .ioctl f cmd seekto

/-- The file it is about. -/
def Request.file : Request → FileId
  | .openFile f | .release f | .write f _ | .read f _ | .llseek f .. | .ioctl f .. => f

/-- The counts the VFS passes to the driver, except `0`. -/
def Request.Counted : Request → Prop
  | .write _ buf => 1 ≤ buf.length ∧ buf.length ≤ maxRwCount
  | _ => True

theorem DevCall.counted_iff (c : DevCall) : c.Counted ↔ c.request.Counted := by
  cases c <;> rfl

/-- What the results of the calls depend on. -/
structure View where
  device : Device
  pos : FileId → Option Nat

/-- File `f` stands at `p`. -/
def View.moveTo (v : View) (f : FileId) (p : Nat) : View :=
  { v with pos := Function.update v.pos f (some p) }

/-- A write of `buf` needs memory for all bytes of the unfinished command. -/
def View.Fits (api : KernelApi) (v : View) (buf : List UInt8) : Prop :=
  buf.length + v.device.pending.length ≤ api.kmallocMaxSize

/-- The position that `AESDCHAR_IOCSEEKTO` asks for, as the `int` in which it is computed. -/
def View.seekPos (v : View) (seekto : AesdSeekto) : Int :=
  intOfSizeT (flatPos (v.device.commands.map List.length) seekto.writeCmd seekto.writeCmdOffset)

/-- The byte that `AESDCHAR_IOCSEEKTO` asks for exists, and its position is an `int`. -/
def View.CanSeek (v : View) (seekto : AesdSeekto) : Prop :=
  Inside (v.device.commands.map List.length) seekto.writeCmd seekto.writeCmdOffset
    ∧ 0 ≤ v.seekPos seekto

instance (v : View) (seekto : AesdSeekto) : Decidable (v.CanSeek seekto) :=
  inferInstanceAs (Decidable (_ ∧ _))

/-- **What may come back for a request.** -/
inductive View.Answers (api : KernelApi) (v : View) : Request → SysRet → View → Prop
  | opened {f : FileId} (closed : v.pos f = none) :
      Answers api v (.openFile f) (.value 0) (v.moveTo f 0)
  | released {f : FileId} {p : Nat} (isOpen : v.pos f = some p) :
      Answers api v (.release f) (.value 0) { v with pos := Function.update v.pos f none }
  | reopened {f : FileId} {p : Nat} (isOpen : v.pos f = some p) :
      Answers api v (.openFile f) (.value (-EBADF)) v
  | badFile {q : Request} (closed : v.pos q.file = none) (other : q ≠ .openFile q.file) :
      Answers api v q (.value (-EBADF)) v
  | noMemory {f : FileId} {p : Nat} {buf : List UInt8} (isOpen : v.pos f = some p) :
      Answers api v (.write f buf) (.value (-ENOMEM)) v
  | unwritten {f : FileId} {p : Nat} {buf : List UInt8} (isOpen : v.pos f = some p)
      (fits : v.Fits api buf) : Answers api v (.write f buf) (.value (-EFAULT)) v
  | written {f : FileId} {p : Nat} {buf : List UInt8} (isOpen : v.pos f = some p)
      (fits : v.Fits api buf) :
      Answers api v (.write f buf) (.value buf.length) { v with device := v.device.write buf }
  /-- Up to the end of the command that holds the position. -/
  | read {f : FileId} {p count : Nat} (isOpen : v.pos f = some p) :
      Answers api v (.read f count)
        ⟨(v.device.readLen count p : Nat), (v.device.flat.drop p).take (v.device.readLen count p)⟩
        (v.moveTo f (p + v.device.readLen count p))
  /-- Some of the bytes may have been delivered, but the file stays where it is. -/
  | unread {f : FileId} {p count m : Nat} (isOpen : v.pos f = some p)
      (part : m < v.device.readLen count p) :
      Answers api v (.read f count) ⟨-EFAULT, (v.device.flat.drop p).take m⟩ v
  | llseek {f : FileId} {p : Nat} {off whence : Int} (isOpen : v.pos f = some p) :
      Answers api v (.llseek f off whence)
        (.value (api.fixedSizeLlseek p off whence v.device.flat.length).1)
        (v.moveTo f (api.fixedSizeLlseek p off whence v.device.flat.length).2)
  | noTty {f : FileId} {p cmd : Nat} {seekto : AesdSeekto} (isOpen : v.pos f = some p)
      (unknown : cmd ≠ AESDCHAR_IOCSEEKTO) :
      Answers api v (.ioctl f cmd seekto) (.value (-ENOTTY)) v
  | unseen {f : FileId} {p : Nat} {seekto : AesdSeekto} (isOpen : v.pos f = some p) :
      Answers api v (.ioctl f AESDCHAR_IOCSEEKTO seekto) (.value (-EFAULT)) v
  | sought {f : FileId} {p : Nat} {seekto : AesdSeekto} (isOpen : v.pos f = some p)
      (canSeek : v.CanSeek seekto) :
      Answers api v (.ioctl f AESDCHAR_IOCSEEKTO seekto) (.value 0)
        (v.moveTo f (v.seekPos seekto).toNat)
  | nowhere {f : FileId} {p : Nat} {seekto : AesdSeekto} (isOpen : v.pos f = some p)
      (cannotSeek : ¬ v.CanSeek seekto) :
      Answers api v (.ioctl f AESDCHAR_IOCSEEKTO seekto) (.value (-EINVAL)) v

/-- Answers to one request after the other. -/
inductive View.AnswersAll (api : KernelApi) : View → List Request → List SysRet → View → Prop
  | nil {v : View} : AnswersAll api v [] [] v
  | cons {v v₁ v₂ : View} {q : Request} {r : SysRet} {qs : List Request} {rs : List SysRet} :
      v.Answers api q r v₁ → AnswersAll api v₁ qs rs v₂ →
        AnswersAll api v (q :: qs) (r :: rs) v₂

/-- Nothing has been written, and no file is open. -/
def View.empty : View := ⟨Device.empty, fun _ => none⟩

/-- The kernel state has this view. -/
structure Kernel.HasView (api : KernelApi) (k : Kernel) (v : View) : Prop where
  shows : k.Shows api v.device
  fPos : k.fPos = v.pos

section

variable {api : KernelApi} {k k' : Kernel} {v v' : View} {f : FileId} {p : Nat}

/-- The view of a kernel state that shows a device. -/
theorem Kernel.Shows.hasView {d : Device} (h : k.Shows api d) : k.HasView api ⟨d, k.fPos⟩ := ⟨h, rfl⟩

/-- A request moves no other file than its own. -/
theorem View.Answers.pos_ne {q : Request} {r : SysRet} (h : v.Answers api q r v')
    (hne : q.file ≠ f) : v'.pos f = v.pos f := by
  have hother : f ≠ q.file := Ne.symm hne
  cases h with
  | opened | released | read | llseek | sought => exact Function.update_of_ne hother _ _
  | reopened | badFile | noMemory | unwritten | written | unread | noTty | unseen | nowhere => rfl

/-- A write moves no file. -/
theorem View.Answers.pos_write {buf : List UInt8} {r : SysRet}
    (h : v.Answers api (.write f buf) r v') : v'.pos = v.pos := by
  cases h <;> rfl

theorem Kernel.HasView.position (h : k.HasView api v) (hp : k.fPos f = some p) :
    v.pos f = some p := by
  rw [← h.fPos]
  exact hp

theorem Kernel.HasView.seekTo (h : k.HasView api v) (f : FileId) (q : Nat) :
    (k.seekTo f q).HasView api (v.moveTo f q) where
  shows := h.shows.seekTo f q
  fPos := by
    show Function.update k.fPos f (some q) = Function.update v.pos f (some q)
    rw [h.fPos]

/-- The driver computes the position of the specification. -/
theorem Kernel.HasView.getEntryFpos_eq (h : k.HasView api v) (seekto : AesdSeekto) :
    k.aesdDevice.circularBuffer.getEntryFpos seekto.writeCmd seekto.writeCmdOffset
      = if Inside (v.device.commands.map List.length) seekto.writeCmd seekto.writeCmdOffset then
          v.seekPos seekto
        else -1 := by
  obtain ⟨staged, ring, hr⟩ := h.shows
  split_ifs with hin
  · rw [← hr.liveSizes_eq] at hin
    rw [AesdCircularBuffer.getEntryFpos_eq hr.wellFormed hin, hr.liveSizes_eq]
    rfl
  · rw [← hr.liveSizes_eq] at hin
    exact AesdCircularBuffer.getEntryFpos_of_not_inside hr.wellFormed hin

theorem Kernel.HasView.canSeek_iff (h : k.HasView api v) (seekto : AesdSeekto) :
    k.aesdDevice.circularBuffer.getEntryFpos seekto.writeCmd seekto.writeCmdOffset ≥ 0
      ↔ v.CanSeek seekto := by
  rw [h.getEntryFpos_eq]
  unfold View.CanSeek
  split_ifs with hin
  · exact ⟨fun hpos => ⟨hin, hpos⟩, fun hcan => hcan.2⟩
  · exact ⟨fun hneg => absurd hneg (by decide), fun hcan => absurd hcan.1 hin⟩

/-! ## Each call, exactly -/

theorem Kernel.HasView.call_read (h : k.HasView api v) (hp : k.fPos f = some p) {count n : Nat}
    (hn : v.device.readLen count p = n) (uncopied : Nat) :
    k.call api (.read f count uncopied)
      = if min uncopied n > 0 then
          .ok (⟨-EFAULT, (v.device.flat.drop p).take (n - min uncopied n)⟩, k)
        else .ok (⟨(n : Int), (v.device.flat.drop p).take n⟩, k.seekTo f (p + n)) := by
  obtain ⟨staged, ring, hr⟩ := h.shows
  have hread := hr.aesdRead_eq count p uncopied
  rw [hn] at hread
  by_cases hleft : min uncopied n > 0
  · rw [if_pos hleft]
    simp only [if_pos hleft, List.take_take, Nat.min_eq_left (Nat.sub_le _ _)] at hread
    simp only [Kernel.call, hp, hread, bind, Except.bind, pure, Except.pure]
    rw [Kernel.restore_fPos hp]
  · rw [if_neg hleft]
    simp only [if_neg hleft] at hread
    simp only [Kernel.call, hp, hread, bind, Except.bind, pure, Except.pure]
    rfl

theorem Kernel.HasView.call_llseek (h : k.HasView api v) (hp : k.fPos f = some p)
    (off whence : Int) :
    let target := api.fixedSizeLlseek p off whence v.device.flat.length
    k.call api (.llseek f off whence) = .ok (.value target.1, k.seekTo f target.2) := by
  intro target
  obtain ⟨staged, ring, hr⟩ := h.shows
  have hseek := hr.aesdLlseek_eq p off whence
  simp only [Kernel.call, hp, hseek, bind, Except.bind, pure, Except.pure]
  rfl

theorem Kernel.HasView.call_ioctl (h : k.HasView api v) (hp : k.fPos f = some p)
    (cmd : Nat) (seekto : AesdSeekto) (uncopied : Nat) :
    k.call api (.ioctl f cmd seekto uncopied)
      = if cmd = AESDCHAR_IOCSEEKTO then
          if min uncopied sizeofAesdSeekto ≠ 0 then .ok (.value (-EFAULT), k)
          else if v.CanSeek seekto then .ok (.value 0, k.seekTo f (v.seekPos seekto).toNat)
          else .ok (.value (-EINVAL), k)
        else .ok (.value (-ENOTTY), k) := by
  have hadjust := aesdAdjustFileOffset_eq h.shows.unlocked p seekto.writeCmd seekto.writeCmdOffset
  simp only [Kernel.call, hp, aesdIoctl, hadjust]
  by_cases hcmd : cmd = AESDCHAR_IOCSEEKTO
  · rw [if_pos hcmd, if_pos hcmd]
    by_cases hcopy : min uncopied sizeofAesdSeekto ≠ 0
    · rw [if_pos hcopy, if_pos hcopy]
      show Except.ok _ = Except.ok _
      rw [Kernel.restore_fPos hp]
    · rw [if_neg hcopy, if_neg hcopy]
      by_cases hcan : v.CanSeek seekto
      · have hpos := h.getEntryFpos_eq seekto
        rw [if_pos hcan.1] at hpos
        rw [if_pos hcan, if_pos ((h.canSeek_iff seekto).mpr hcan), hpos]
        generalize (v.seekPos seekto).toNat = q
        rfl
      · rw [if_neg hcan, if_neg fun hpos => hcan ((h.canSeek_iff seekto).mp hpos)]
        show Except.ok _ = Except.ok _
        rw [Kernel.restore_fPos hp]
  · rw [if_neg hcmd, if_neg hcmd]
    show Except.ok _ = Except.ok _
    rw [Kernel.restore_fPos hp]

theorem Kernel.HasView.sum_eq (h : k.HasView api v) {buf : List UInt8}
    (hcount : buf.length ≤ maxRwCount) :
    sizeT (buf.length + v.device.pending.length) = buf.length + v.device.pending.length := by
  obtain ⟨staged, ring, hr⟩ := h.shows
  have hpend := hr.pending_length_le
  have hlim := api.kmallocMaxSize_lt
  apply sizeT_of_lt
  unfold maxRwCount at hcount
  omega

/-- There is always a block that nobody uses. -/
theorem Kernel.HasView.exists_kmalloc (h : k.HasView api v) (size : Nat) (hpos : size ≠ 0)
    (hmax : size ≤ api.kmallocMaxSize) :
    ∃ (choice : Option KmallocBlock) (a : Nat) (cells : List UInt8), ¬ k.heap.Live a
      ∧ cells.length = size
      ∧ k.locked.kmalloc api size choice
        = (.block a, { k.locked with heap := k.locked.heap.alloc a cells }) := by
  obtain ⟨staged, ring, hr⟩ := h.shows
  -- the live blocks are those the device owns, which are finitely many
  obtain ⟨a, ha⟩ := Infinite.exists_notMem_finset ((staged.toList ++ ring).map Prod.fst).toFinset
  have hfresh : ¬ k.heap.Live a := by
    intro hlive
    apply ha
    rw [List.mem_toFinset]
    exact hr.heap.live_iff.mp hlive
  refine ⟨some ⟨a, fun _ => 0⟩, a, (List.range size).map fun _ => 0, hfresh, by simp, ?_⟩
  have hok : ¬ (api.kmallocMaxSize < size ∨ k.locked.heap.Live a) := by
    rintro (hlarge | hlive)
    · omega
    · exact hfresh hlive
  unfold Kernel.kmalloc
  rw [if_neg hpos]
  exact if_neg hok

/-- A write fails for lack of memory or because of the user's memory, or it is done; and only if
all bytes of the command fit into one block it can be something else than the first. -/
theorem Kernel.HasView.call_write_cases (h : k.HasView api v) (hp : k.fPos f = some p)
    {buf : List UInt8} (hbuf : (Request.write f buf).Counted) (choice : Option KmallocBlock)
    (uncopied : Nat) :
    k.call api (.write f buf choice uncopied) = .ok (.value (-ENOMEM), k)
      ∨ v.Fits api buf ∧ (k.call api (.write f buf choice uncopied) = .ok (.value (-EFAULT), k)
        ∨ ∃ k' : Kernel, k.call api (.write f buf choice uncopied) = .ok (.value buf.length, k')
          ∧ k'.HasView api { v with device := v.device.write buf }) := by
  obtain ⟨hpos, hcount⟩ := hbuf
  obtain ⟨staged, ring, hr⟩ := h.shows
  -- the size that `kmalloc` is asked for does not wrap
  have hsum := h.sum_eq hcount
  have hsize : buf.length + v.device.pending.length ≠ 0 := by omega
  rcases kmalloc_cases api k.locked (buf.length + v.device.pending.length) hsize choice with
    hfail | ⟨a, cells, hfresh, hlen, hmax, halloc⟩
  · exact Or.inl (Kernel.call_write hp buf choice uncopied (hr.aesdWrite_noMemory hsum hfail))
  · refine Or.inr ⟨hmax, ?_⟩
    by_cases hleft : min uncopied buf.length > 0
    · have hwrite := hr.aesdWrite_badCopy hsum hfresh hlen halloc hleft
      exact Or.inl (Kernel.call_write hp buf choice uncopied hwrite)
    · have hne : v.device.pending ++ buf ≠ [] := by
        apply List.append_ne_nil_of_right_ne_nil
        exact List.length_pos_iff.mp hpos
      have hzero : min uncopied buf.length = 0 := by omega
      obtain ⟨k', hwrite, hshows, hfPos, -⟩ :=
        hr.aesdWrite_done hsum hfresh hlen halloc hne hmax hzero
      exact Or.inr ⟨k', Kernel.call_write hp buf choice uncopied hwrite, hshows,
        hfPos.trans h.fPos⟩

/-- With memory, the user decides. -/
theorem Kernel.HasView.exists_write (h : k.HasView api v) (hp : k.fPos f = some p)
    (buf : List UInt8) (hbuf : (Request.write f buf).Counted) (hfits : v.Fits api buf) :
    (∃ (choice : Option KmallocBlock) (uncopied : Nat),
        k.call api (.write f buf choice uncopied) = .ok (.value (-EFAULT), k))
      ∧ ∃ (choice : Option KmallocBlock) (k' : Kernel),
        k.call api (.write f buf choice 0) = .ok (.value buf.length, k')
          ∧ k'.HasView api { v with device := v.device.write buf } := by
  obtain ⟨hpos, hcount⟩ := hbuf
  obtain ⟨staged, ring, hr⟩ := h.shows
  have hsum := h.sum_eq hcount
  obtain ⟨choice, a, cells, hfresh, hlen, halloc⟩ :=
    h.exists_kmalloc (buf.length + v.device.pending.length) (by omega) hfits
  constructor
  · have hleft : min buf.length buf.length > 0 := by omega
    exact ⟨choice, _, Kernel.call_write hp buf choice _
      (hr.aesdWrite_badCopy hsum hfresh hlen halloc hleft)⟩
  · have hne : v.device.pending ++ buf ≠ [] := by
      apply List.append_ne_nil_of_right_ne_nil
      exact List.length_pos_iff.mp hpos
    obtain ⟨k', hwrite, hshows, hfPos, -⟩ :=
      hr.aesdWrite_done hsum hfresh hlen halloc hne hfits (Nat.zero_min _)
    exact ⟨choice, k', Kernel.call_write hp buf choice 0 hwrite, hshows, hfPos.trans h.fPos⟩

/-! ## The driver gives these answers, and every one of them -/

/-- A call on a file that is not open. -/
theorem Kernel.call_closed {c : DevCall} (hclosed : k.fPos c.request.file = none)
    (hother : c.request ≠ .openFile c.request.file) :
    k.call api c = .ok (.value (-EBADF), k) := by
  cases c with
  | openFile f => exact absurd rfl hother
  | release f | write f buf choice uncopied | read f count uncopied | llseek f off whence
  | ioctl f cmd seekto uncopied =>
      have hf : k.fPos f = none := hclosed
      simp only [Kernel.call, hf]

theorem Kernel.HasView.call_answers (h : k.HasView api v) {c : DevCall} (hc : c.Counted)
    {r : SysRet} (hcall : k.call api c = .ok (r, k')) :
    ∃ v', v.Answers api c.request r v' ∧ k'.HasView api v' := by
  cases hp : k.fPos c.request.file with
  | none =>
      have hvp : v.pos c.request.file = none := h.fPos ▸ hp
      cases c with
      | openFile f =>
          have hf : k.fPos f = none := hp
          simp only [Kernel.call, hf] at hcall
          obtain ⟨rfl, rfl⟩ := Prod.mk.inj (Except.ok.inj hcall)
          exact ⟨_, .opened hvp, h.seekTo f 0⟩
      | release f | write f buf choice uncopied | read f count uncopied | llseek f off whence
      | ioctl f cmd seekto uncopied =>
          rw [Kernel.call_closed hp (by simp [DevCall.request])] at hcall
          obtain ⟨rfl, rfl⟩ := Prod.mk.inj (Except.ok.inj hcall)
          exact ⟨v, .badFile hvp (by simp [DevCall.request]), h⟩
  | some p =>
      have hvp : v.pos c.request.file = some p := h.position hp
      cases c with
      | openFile f =>
          have hf : k.fPos f = some p := hp
          simp only [Kernel.call, hf] at hcall
          obtain ⟨rfl, rfl⟩ := Prod.mk.inj (Except.ok.inj hcall)
          exact ⟨v, .reopened hvp, h⟩
      | release f =>
          have hf : k.fPos f = some p := hp
          simp only [Kernel.call, hf] at hcall
          obtain ⟨rfl, rfl⟩ := Prod.mk.inj (Except.ok.inj hcall)
          exact ⟨_, .released hvp, h.shows.withFPos _, by rw [← h.fPos]; rfl⟩
      | write f buf choice uncopied =>
          rcases h.call_write_cases (f := f) hp hc choice uncopied with
            hok | ⟨hfits, hok | ⟨k'', hok, hview⟩⟩
          · rw [hok] at hcall
            obtain ⟨rfl, rfl⟩ := Prod.mk.inj (Except.ok.inj hcall)
            exact ⟨v, .noMemory hvp, h⟩
          · rw [hok] at hcall
            obtain ⟨rfl, rfl⟩ := Prod.mk.inj (Except.ok.inj hcall)
            exact ⟨v, .unwritten hvp hfits, h⟩
          · rw [hok] at hcall
            obtain ⟨rfl, rfl⟩ := Prod.mk.inj (Except.ok.inj hcall)
            exact ⟨_, .written hvp hfits, hview⟩
      | read f count uncopied =>
          rw [h.call_read (f := f) hp rfl] at hcall
          split_ifs at hcall with hleft
          · obtain ⟨rfl, rfl⟩ := Prod.mk.inj (Except.ok.inj hcall)
            exact ⟨v, .unread hvp (by omega), h⟩
          · obtain ⟨rfl, rfl⟩ := Prod.mk.inj (Except.ok.inj hcall)
            exact ⟨_, .read hvp, h.seekTo f _⟩
      | llseek f off whence =>
          rw [h.call_llseek (f := f) hp] at hcall
          obtain ⟨rfl, rfl⟩ := Prod.mk.inj (Except.ok.inj hcall)
          exact ⟨_, .llseek hvp, h.seekTo f _⟩
      | ioctl f cmd seekto uncopied =>
          rw [h.call_ioctl (f := f) hp] at hcall
          split_ifs at hcall with hcmd hcopy hcan
          · obtain ⟨rfl, rfl⟩ := Prod.mk.inj (Except.ok.inj hcall)
            subst hcmd
            exact ⟨v, .unseen hvp, h⟩
          · obtain ⟨rfl, rfl⟩ := Prod.mk.inj (Except.ok.inj hcall)
            subst hcmd
            exact ⟨_, .sought hvp hcan, h.seekTo f _⟩
          · obtain ⟨rfl, rfl⟩ := Prod.mk.inj (Except.ok.inj hcall)
            subst hcmd
            exact ⟨v, .nowhere hvp hcan, h⟩
          · obtain ⟨rfl, rfl⟩ := Prod.mk.inj (Except.ok.inj hcall)
            exact ⟨v, .noTty hvp hcmd, h⟩

theorem Kernel.HasView.answers_call (h : k.HasView api v) {q : Request} (hq : q.Counted)
    {r : SysRet} (hanswer : v.Answers api q r v') :
    ∃ c : DevCall, c.request = q ∧ ∃ k', k.call api c = .ok (r, k') ∧ k'.HasView api v' := by
  have hopen : ∀ {f : FileId} {p : Nat}, v.pos f = some p → k.fPos f = some p := by
    intro f p hp
    rw [h.fPos]
    exact hp
  cases hanswer with
  | @opened f closed =>
      have hf : k.fPos f = none := by rw [h.fPos, closed]
      exact ⟨.openFile f, rfl, k.seekTo f 0, by simp only [Kernel.call, hf]; rfl, h.seekTo f 0⟩
  | @released f p isOpen =>
      refine ⟨.release f, rfl, { k with fPos := Function.update k.fPos f none }, ?_,
        h.shows.withFPos _, ?_⟩
      · simp only [Kernel.call, hopen isOpen]
        rfl
      · show Function.update k.fPos f none = Function.update v.pos f none
        rw [h.fPos]
  | @reopened f p isOpen =>
      exact ⟨.openFile f, rfl, k, by simp only [Kernel.call, hopen isOpen], h⟩
  | badFile closed other =>
      have hclosed : k.fPos q.file = none := by rw [h.fPos, closed]
      cases q with
      | openFile f => exact absurd rfl other
      | release f => exact ⟨.release f, rfl, k, Kernel.call_closed hclosed other, h⟩
      | write f buf => exact ⟨.write f buf none 0, rfl, k, Kernel.call_closed hclosed other, h⟩
      | read f count => exact ⟨.read f count 0, rfl, k, Kernel.call_closed hclosed other, h⟩
      | llseek f off whence =>
          exact ⟨.llseek f off whence, rfl, k, Kernel.call_closed hclosed other, h⟩
      | ioctl f cmd seekto =>
          exact ⟨.ioctl f cmd seekto 0, rfl, k, Kernel.call_closed hclosed other, h⟩
  | @noMemory f p buf isOpen =>
      obtain ⟨staged, ring, hr⟩ := h.shows
      have hsize : buf.length + v.device.pending.length ≠ 0 := by
        have hpos := hq.1
        omega
      -- `kmalloc` may always return `NULL`
      have hfail : k.locked.kmalloc api (buf.length + v.device.pending.length) none
          = (.null, k.locked) := by
        unfold Kernel.kmalloc
        rw [if_neg hsize]
      refine ⟨.write f buf none 0, rfl, k, Kernel.call_write (hopen isOpen) buf none 0 ?_, h⟩
      exact hr.aesdWrite_noMemory (h.sum_eq hq.2) hfail
  | @unwritten f p buf isOpen fits =>
      obtain ⟨⟨choice, uncopied, hcall⟩, -⟩ := h.exists_write (hopen isOpen) buf hq fits
      exact ⟨.write f buf choice uncopied, rfl, k, hcall, h⟩
  | @written f p buf isOpen fits =>
      obtain ⟨-, choice, k', hcall, hview⟩ := h.exists_write (hopen isOpen) buf hq fits
      exact ⟨.write f buf choice 0, rfl, k', hcall, hview⟩
  | @read f p count isOpen =>
      have hcall := h.call_read (hopen isOpen) (rfl : v.device.readLen count p = _) 0
      rw [if_neg (by simp)] at hcall
      exact ⟨.read f count 0, rfl, _, hcall, h.seekTo f _⟩
  | @unread f p count m isOpen part =>
      -- all but `m` of the bytes are left uncopied
      obtain ⟨n, hn⟩ : ∃ n, v.device.readLen count p = n := ⟨_, rfl⟩
      rw [hn] at part
      have hleft : min (n - m) n = n - m := Nat.min_eq_left (Nat.sub_le _ _)
      have hcall := h.call_read (hopen isOpen) hn (n - m)
      rw [hleft, if_pos (by omega), Nat.sub_sub_self (Nat.le_of_lt part)] at hcall
      exact ⟨.read f count (n - m), rfl, k, hcall, h⟩
  | @llseek f p off whence isOpen =>
      exact ⟨.llseek f off whence, rfl, _, h.call_llseek (hopen isOpen) off whence, h.seekTo f _⟩
  | @noTty f p cmd seekto isOpen unknown =>
      have hcall := h.call_ioctl (hopen isOpen) cmd seekto 0
      rw [if_neg unknown] at hcall
      exact ⟨.ioctl f cmd seekto 0, rfl, k, hcall, h⟩
  | @unseen f p seekto isOpen =>
      -- nothing of the user's structure is copied
      have hcall := h.call_ioctl (hopen isOpen) AESDCHAR_IOCSEEKTO seekto sizeofAesdSeekto
      rw [if_pos rfl, if_pos (by decide)] at hcall
      exact ⟨.ioctl f AESDCHAR_IOCSEEKTO seekto sizeofAesdSeekto, rfl, k, hcall, h⟩
  | @sought f p seekto isOpen canSeek =>
      have hcall := h.call_ioctl (hopen isOpen) AESDCHAR_IOCSEEKTO seekto 0
      rw [if_pos rfl, if_neg (by decide), if_pos canSeek] at hcall
      exact ⟨.ioctl f AESDCHAR_IOCSEEKTO seekto 0, rfl, _, hcall, h.seekTo f _⟩
  | @nowhere f p seekto isOpen cannotSeek =>
      have hcall := h.call_ioctl (hopen isOpen) AESDCHAR_IOCSEEKTO seekto 0
      rw [if_pos rfl, if_neg (by decide), if_neg cannotSeek] at hcall
      exact ⟨.ioctl f AESDCHAR_IOCSEEKTO seekto 0, rfl, k, hcall, h⟩

/-- A whole run gives answers. -/
theorem Kernel.HasView.run_answers {calls : List DevCall} {rs : List SysRet}
    (h : k.HasView api v) (hcalls : ∀ c ∈ calls, c.Counted)
    (hrun : k.run api calls = .ok (rs, k')) :
    ∃ v', v.AnswersAll api (calls.map DevCall.request) rs v' ∧ k'.HasView api v' := by
  induction calls generalizing k v rs with
  | nil =>
      obtain ⟨rfl, rfl⟩ := Prod.mk.inj (Except.ok.inj hrun)
      exact ⟨v, .nil, h⟩
  | cons c rest ih =>
      obtain ⟨r, k₁, rs', hcall, hrest, rfl⟩ := Kernel.run_cons.mp hrun
      obtain ⟨v₁, hanswer, h₁⟩ := h.call_answers (hcalls c List.mem_cons_self) hcall
      obtain ⟨v₂, hanswers, h₂⟩ :=
        ih h₁ (fun c' hc' => hcalls c' (List.mem_cons_of_mem _ hc')) hrest
      exact ⟨v₂, .cons hanswer hanswers, h₂⟩

/-- All answers can be given in one run. -/
theorem Kernel.HasView.answers_run {qs : List Request} {rs : List SysRet}
    (h : k.HasView api v) (hqs : ∀ q ∈ qs, q.Counted) (hanswers : v.AnswersAll api qs rs v') :
    ∃ (calls : List DevCall) (k' : Kernel), calls.map DevCall.request = qs
      ∧ k.run api calls = .ok (rs, k') ∧ k'.HasView api v' := by
  induction hanswers generalizing k with
  | nil => exact ⟨[], k, rfl, rfl, h⟩
  | @cons v v₁ v₂ q r qs rs hanswer _ ih =>
      obtain ⟨c, rfl, k₁, hcall, h₁⟩ := h.answers_call (hqs _ List.mem_cons_self) hanswer
      obtain ⟨calls, k₂, rfl, hrun, h₂⟩ := ih h₁ fun q' hq' => hqs q' (List.mem_cons_of_mem _ hq')
      exact ⟨c :: calls, k₂, rfl, Kernel.run_cons.mpr ⟨r, k₁, rs, hcall, hrun, rfl⟩, h₂⟩

end

/-- **What a user can observe of the driver is exactly what the specification allows.** For every
sequence of requests, a sequence of results comes back from the freshly loaded module, for some
decisions of the kernel services, if and only if it is one of the answers of an empty device. -/
theorem run_iff_answers (api : KernelApi) (dev : AesdDev) (qs : List Request)
    (hqs : ∀ q ∈ qs, q.Counted) (rs : List SysRet) :
    (∃ (calls : List DevCall) (k : Kernel), calls.map DevCall.request = qs
        ∧ (Kernel.loaded dev).run api calls = .ok (rs, k))
      ↔ ∃ v, View.empty.AnswersAll api qs rs v := by
  have hinit : (Kernel.loaded dev).HasView api View.empty := ⟨Kernel.loaded_shows api dev, rfl⟩
  constructor
  · rintro ⟨calls, k, rfl, hrun⟩
    have hcalls : ∀ c ∈ calls, c.Counted := by
      intro c hc
      rw [DevCall.counted_iff]
      exact hqs _ (List.mem_map_of_mem hc)
    obtain ⟨v, hanswers, -⟩ := hinit.run_answers hcalls hrun
    exact ⟨v, hanswers⟩
  · rintro ⟨v, hanswers⟩
    obtain ⟨calls, k, hrequests, hrun, -⟩ := hinit.answers_run hqs hanswers
    exact ⟨calls, k, hrequests, hrun⟩

theorem run_iff_answers_writeThenRead :
    (∃ (calls : List DevCall) (k : Kernel),
        calls.map DevCall.request = [.openFile 0, .write 0 [65, newline], .read 0 9]
        ∧ (Kernel.loaded .zero).run .linux calls
          = .ok ([.value 0, .value 2, ⟨2, [65, newline]⟩], k))
      ↔ ∃ v, View.empty.AnswersAll .linux [.openFile 0, .write 0 [65, newline], .read 0 9]
          [.value 0, .value 2, ⟨2, [65, newline]⟩] v :=
  run_iff_answers .linux .zero _ (by
    intro q hq
    simp only [List.mem_cons, List.not_mem_nil, or_false] at hq
    rcases hq with rfl | rfl | rfl
    · trivial
    · exact show 1 ≤ 2 ∧ 2 ≤ maxRwCount by decide
    · trivial) _

end Aesd
