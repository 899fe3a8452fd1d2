import Aesd.Driver.Calls

set_option autoImplicit false

/-! # Runs of the driver

`Kernel.Shows.call_cases` says what any one call does to a state that shows a memory. From it,
by induction on the calls, a run of calls shows the memory that results from the writes that
succeeded (`Shows.run`), and it never faults if no write is empty (`Shows.run_ok`). -/

namespace Aesd

open CInt CircArray FlatIndex Gather Kernel

/-! ## Which calls there are -/

/-- What the VFS passes on: no count is above `MAX_RW_COUNT`. -/
def DevCall.InRange : DevCall → Prop
  | .write _ buf _ _ => buf.length ≤ maxRwCount
  | _ => True

/-- In range, and a write of at least one byte. -/
def DevCall.Counted : DevCall → Prop
  | .write _ buf _ _ => 1 ≤ buf.length ∧ buf.length ≤ maxRwCount
  | _ => True

theorem DevCall.Counted.inRange {c : DevCall} (h : c.Counted) : c.InRange := by
  cases c with
  | write f buf choice uncopied => exact h.2
  | _ => trivial

/-- The bytes a call has added to the device. -/
def DevCall.added : DevCall → SysRet → Option (List UInt8)
  | .write _ buf _ _, r => if 0 ≤ r.ret then some buf else none
  | _, _ => none

/-- The successful writes of a run, in order. -/
def successfulWrites (calls : List DevCall) (rs : List SysRet) : List (List UInt8) :=
  (calls.zip rs).filterMap fun cr => cr.1.added cr.2

/-- The memory after a call that returned `r`. -/
def Device.after (d : Device) (c : DevCall) (r : SysRet) : Device :=
  ((c.added r).map d.write).getD d

/-- The kernel before the module is loaded. -/
def Kernel.boot (dev : AesdDev) : Kernel := ⟨dev, Heap.empty, fun _ => none⟩

/-- The kernel after a successful `aesd_init_module`, whatever was in `aesd_device` before. -/
def Kernel.loaded (dev : AesdDev) : Kernel := (aesdInitModule (Kernel.boot dev) 0 0).2

theorem Kernel.loaded_shows (api : KernelApi) (dev : AesdDev) :
    (Kernel.loaded dev).Shows api Device.empty :=
  ⟨none, [], {
    unlocked := rfl
    wellFormed := dev.circularBuffer.init_wellFormed
    live := rfl
    commands := rfl
    staging := rfl
    pending := rfl
    staged_ne := by simp
    heap := Heap.exactly_empty
    small := by simp }⟩

/-! ## One call -/

section

variable {api : KernelApi} {k k' : Kernel} {d : Device}

/-- The memory does not depend on the positions of the open files. -/
theorem Kernel.Shows.withFPos (h : k.Shows api d) (fPos : FileId → Option Nat) :
    Kernel.Shows api { k with fPos := fPos } d := by
  obtain ⟨staged, ring, h⟩ := h
  exact ⟨staged, ring, { h with }⟩

/-- Putting a position back that is there already. -/
theorem Kernel.restore_fPos {f : FileId} {p : Nat} (hp : k.fPos f = some p) :
    ({ k with fPos := Function.update k.fPos f (some p) } : Kernel) = k := by
  rw [← hp, Function.update_eq_self]

theorem Kernel.Shows.unlocked (h : k.Shows api d) : k.aesdDevice.lock = false := by
  obtain ⟨staged, ring, h⟩ := h
  exact h.unlocked

theorem Kernel.Shows.staging_size (h : k.Shows api d) :
    k.aesdDevice.stagingEntry.size = d.pending.length := by
  obtain ⟨staged, ring, h⟩ := h
  exact h.staging_size

/-- Without pending bytes there is no staging buffer. -/
theorem Kernel.Shows.staging_zero (h : k.Shows api d) (hd : d.pending = []) :
    k.aesdDevice.stagingEntry = .zero := by
  obtain ⟨staged, ring, h⟩ := h
  rw [h.staging]
  cases staged with
  | none => rfl
  | some cell =>
      -- a staged block is never empty
      have hp := h.pending
      rw [hd] at hp
      exact absurd hp (h.staged_ne cell rfl)

/-- An empty write with nothing pending: `kmalloc(0)` succeeds, and the last byte of nothing is
looked at. -/
theorem Kernel.Shows.aesdWrite_empty (h : k.Shows api d) (hd : d.pending = [])
    (choice : Option KmallocBlock) (uncopied : Nat) :
    aesdWrite api k [] choice uncopied = .error .outOfBounds := by
  have hst : k.locked.aesdDevice.stagingEntry = .zero := h.staging_zero hd
  have hk : k.locked.kmalloc api (sizeT (([] : List UInt8).length + AesdBufferEntry.zero.size))
      choice = (.zeroSizePtr, k.locked) := by
    unfold kmalloc
    exact if_pos rfl
  have hmemcpy : k.locked.memcpy .zeroSizePtr 0 AesdBufferEntry.zero.buffptr
      AesdBufferEntry.zero.size = .ok k.locked := rfl
  have hcopy : k.locked.copyFromUser .zeroSizePtr AesdBufferEntry.zero.size [] uncopied
      = .ok (0, k.locked) := by
    simp [copyFromUser, store, bind, Except.bind, pure, Except.pure]
  have hfree : k.locked.kfree AesdBufferEntry.zero.buffptr = .ok k.locked := rfl
  simp only [aesdWrite, mutexLock_eq h.unlocked, bind, Except.bind, hst, hk, hmemcpy, hcopy, hfree,
    reduceCtorEq, gt_iff_lt, Nat.lt_irrefl, if_false]
  rfl

/-- What a write returns on an open file. -/
theorem Kernel.call_write {f : FileId} {p : Nat} (hp : k.fPos f = some p) (buf : List UInt8)
    (choice : Option KmallocBlock) (uncopied : Nat) {ret : Int}
    (hw : aesdWrite api k buf choice uncopied = .ok (ret, k')) :
    k.call api (.write f buf choice uncopied) = .ok (.value ret, k') := by
  simp only [Kernel.call, hp, hw, bind, Except.bind]
  rfl

/-- The call returns, the state shows the memory with what the call has added, and if it has failed
nothing has changed. -/
def Kernel.Returns (api : KernelApi) (k : Kernel) (d : Device) (c : DevCall) : Prop :=
  ∃ (r : SysRet) (k' : Kernel), k.call api c = .ok (r, k') ∧ k'.Shows api (d.after c r)
    ∧ (r.ret < 0 → k' = k)

/-- A call that has failed adds nothing. -/
theorem Device.after_of_neg (d : Device) (c : DevCall) {r : SysRet} (hneg : r.ret < 0) :
    d.after c r = d := by
  cases c with
  | write f buf choice uncopied =>
      rw [Device.after, DevCall.added, if_neg (Int.not_le.mpr hneg)]
      rfl
  | _ => rfl

/-- A call that fails and changes nothing. -/
theorem Kernel.Shows.returns_failed (h : k.Shows api d) {c : DevCall} {r : SysRet}
    (hcall : k.call api c = .ok (r, k)) (hneg : r.ret < 0) : k.Returns api d c := by
  refine ⟨r, k, hcall, ?_, fun _ => rfl⟩
  rwa [d.after_of_neg c hneg]

/-- A call on a file that is not open. -/
theorem Kernel.Shows.returns_badFile (h : k.Shows api d) {c : DevCall}
    (hcall : k.call api c = .ok (.value (-EBADF), k)) : k.Returns api d c :=
  h.returns_failed hcall (by decide)

/-- A call that opens or closes a file or moves its position, and fails only if it leaves it where
it is. -/
theorem Kernel.Shows.returns_moved (h : k.Shows api d) {c : DevCall} {r : SysRet}
    {fPos : FileId → Option Nat} (hcall : k.call api c = .ok (r, { k with fPos := fPos }))
    (hadded : c.added r = none) (hstay : r.ret < 0 → fPos = k.fPos) : k.Returns api d c := by
  refine ⟨r, _, hcall, ?_, fun hneg => by rw [hstay hneg]⟩
  rw [Device.after, hadded]
  exact h.withFPos fPos

/-- A write of at least one byte, or with pending bytes. -/
theorem Kernel.Shows.write_returns (h : k.Shows api d) (f : FileId) {buf : List UInt8}
    (choice : Option KmallocBlock) (uncopied : Nat) (hne : d.pending ++ buf ≠ [])
    (hcount : buf.length ≤ maxRwCount) : k.Returns api d (.write f buf choice uncopied) := by
  cases hp : k.fPos f with
  | none => exact h.returns_badFile (by simp only [Kernel.call, hp])
  | some p =>
      obtain ⟨staged, ring, hr⟩ := id h
      rcases hr.aesdWrite_cases buf choice uncopied hne hcount with hw | hw | ⟨k', hw, hk', -⟩
      · exact h.returns_failed (call_write hp _ _ _ hw) (by decide)
      · exact h.returns_failed (call_write hp _ _ _ hw) (by decide)
      · have hret : (0 : Int) ≤ (SysRet.value (buf.length : Int)).ret := Int.natCast_nonneg _
        refine ⟨_, k', call_write hp _ _ _ hw, ?_, fun hneg => absurd hneg (Int.not_lt.mpr hret)⟩
        rw [Device.after, DevCall.added, if_pos hret]
        exact hk'

theorem Kernel.Shows.read_returns (h : k.Shows api d) (f : FileId) (count uncopied : Nat) :
    k.Returns api d (.read f count uncopied) := by
  cases hp : k.fPos f with
  | none => exact h.returns_badFile (by simp only [Kernel.call, hp])
  | some p =>
      obtain ⟨staged, ring, hr⟩ := id h
      have hread := hr.aesdRead_eq count p uncopied
      by_cases hleft : min uncopied (d.readLen count p) > 0
      · simp only [if_pos hleft] at hread
        apply h.returns_moved (by simp only [Kernel.call, hp, hread, bind, Except.bind]; rfl) rfl
        intro _
        rw [← hp, Function.update_eq_self]
      · simp only [if_neg hleft] at hread
        apply h.returns_moved (by simp only [Kernel.call, hp, hread, bind, Except.bind]; rfl) rfl
        intro hneg
        exact absurd hneg (Int.not_lt.mpr (Int.natCast_nonneg _))

theorem Kernel.Shows.llseek_returns (h : k.Shows api d) (f : FileId) (off whence : Int) :
    k.Returns api d (.llseek f off whence) := by
  cases hp : k.fPos f with
  | none => exact h.returns_badFile (by simp only [Kernel.call, hp])
  | some p =>
      obtain ⟨staged, ring, hr⟩ := id h
      have hseek := hr.aesdLlseek_eq p off whence
      apply h.returns_moved (by simp only [Kernel.call, hp, hseek, bind, Except.bind]; rfl) rfl
      intro hneg
      rw [api.llseek_stays _ _ _ _ hneg, ← hp, Function.update_eq_self]

theorem Kernel.Shows.ioctl_returns (h : k.Shows api d) (f : FileId) (cmd : Nat)
    (seekto : AesdSeekto) (uncopied : Nat) : k.Returns api d (.ioctl f cmd seekto uncopied) := by
  cases hp : k.fPos f with
  | none => exact h.returns_badFile (by simp only [Kernel.call, hp])
  | some p =>
      obtain ⟨staged, ring, hr⟩ := id h
      obtain ⟨ret, p', hio, hstay⟩ := hr.aesdIoctl_cases p cmd seekto uncopied
      apply h.returns_moved (by simp only [Kernel.call, hp, hio, bind, Except.bind]; rfl) rfl
      intro hneg
      rw [hstay hneg, ← hp, Function.update_eq_self]

theorem Kernel.Shows.openFile_returns (h : k.Shows api d) (f : FileId) :
    k.Returns api d (.openFile f) := by
  cases hp : k.fPos f with
  | some p => exact h.returns_badFile (by simp only [Kernel.call, hp])
  | none =>
      apply h.returns_moved (by simp only [Kernel.call, hp]; rfl) rfl
      intro hneg
      exact absurd hneg (Int.lt_irrefl 0)

theorem Kernel.Shows.release_returns (h : k.Shows api d) (f : FileId) :
    k.Returns api d (.release f) := by
  cases hp : k.fPos f with
  | none => exact h.returns_badFile (by simp only [Kernel.call, hp])
  | some p =>
      apply h.returns_moved (by simp only [Kernel.call, hp]; rfl) rfl
      intro hneg
      exact absurd hneg (Int.lt_irrefl 0)

/-- **What one call does.** Either it is an empty write with nothing pending, which faults, or it
returns. -/
theorem Kernel.Shows.call_cases (h : k.Shows api d) (c : DevCall) (hc : c.InRange) :
    (k.call api c = .error .outOfBounds ∧ d.pending = []
      ∧ ∃ f choice uncopied, c = .write f [] choice uncopied)
    ∨ k.Returns api d c := by
  cases c with
  | openFile f => exact Or.inr (h.openFile_returns f)
  | release f => exact Or.inr (h.release_returns f)
  | read f count uncopied => exact Or.inr (h.read_returns f count uncopied)
  | llseek f off whence => exact Or.inr (h.llseek_returns f off whence)
  | ioctl f cmd seekto uncopied => exact Or.inr (h.ioctl_returns f cmd seekto uncopied)
  | write f buf choice uncopied =>
      by_cases hne : d.pending ++ buf = []
      · obtain ⟨hd, rfl⟩ := List.append_eq_nil_iff.mp hne
        cases hp : k.fPos f with
        | none => exact Or.inr (h.returns_badFile (by simp only [Kernel.call, hp]))
        | some p =>
            left
            refine ⟨?_, hd, f, choice, uncopied, rfl⟩
            simp only [Kernel.call, hp, h.aesdWrite_empty hd, bind, Except.bind]
      · exact Or.inr (h.write_returns f choice uncopied hne hc)

/-- The same for a call that is known to have returned. -/
theorem Kernel.Shows.call (h : k.Shows api d) {c : DevCall} (hc : c.InRange) {r : SysRet}
    (hcall : k.call api c = .ok (r, k')) :
    k'.Shows api (d.after c r) ∧ (r.ret < 0 → k' = k) := by
  rcases h.call_cases c hc with ⟨hbad, -⟩ | ⟨r', k'', hok, hshows, hneg⟩
  · rw [hbad] at hcall
    cases hcall
  · rw [hok] at hcall
    obtain ⟨rfl, rfl⟩ := Prod.mk.inj (Except.ok.inj hcall)
    exact ⟨hshows, hneg⟩

/-- The calls of `write`. -/
def DevCall.Writes : DevCall → Prop
  | .write .. => True
  | _ => False

/-- Every other call moves positions only. -/
theorem Kernel.Shows.call_moves (h : k.Shows api d) {c : DevCall} (hquiet : ¬ c.Writes) {r : SysRet}
    (hcall : k.call api c = .ok (r, k')) : ∃ fPos, k' = { k with fPos := fPos } := by
  obtain ⟨staged, ring, hr⟩ := h
  have hstay : ∃ fPos, k = { k with fPos := fPos } := ⟨k.fPos, rfl⟩
  cases c with
  | write f buf choice uncopied => exact absurd trivial hquiet
  | openFile f | release f =>
      rw [Kernel.call] at hcall
      split at hcall <;> cases hcall
      · exact hstay
      · exact ⟨_, rfl⟩
  | read f count uncopied =>
      cases hp : k.fPos f with
      | none =>
          simp only [Kernel.call, hp] at hcall
          cases hcall
          exact hstay
      | some p =>
          have hread := hr.aesdRead_eq count p uncopied
          simp only [Kernel.call, hp, hread, bind, Except.bind] at hcall
          split at hcall <;> cases hcall <;> exact ⟨_, rfl⟩
  | llseek f off whence =>
      cases hp : k.fPos f with
      | none =>
          simp only [Kernel.call, hp] at hcall
          cases hcall
          exact hstay
      | some p =>
          simp only [Kernel.call, hp, hr.aesdLlseek_eq p off whence, bind, Except.bind] at hcall
          cases hcall
          exact ⟨_, rfl⟩
  | ioctl f cmd seekto uncopied =>
      cases hp : k.fPos f with
      | none =>
          simp only [Kernel.call, hp] at hcall
          cases hcall
          exact hstay
      | some p =>
          obtain ⟨ret, p', hio, -⟩ := hr.aesdIoctl_cases p cmd seekto uncopied
          simp only [Kernel.call, hp, hio, bind, Except.bind] at hcall
          cases hcall
          exact ⟨_, rfl⟩

/-! ## Runs -/

theorem Kernel.run_cons {c : DevCall} {rest : List DevCall} {rs : List SysRet} :
    k.run api (c :: rest) = .ok (rs, k') ↔
      ∃ (r : SysRet) (k₁ : Kernel) (rs' : List SysRet), k.call api c = .ok (r, k₁)
        ∧ k₁.run api rest = .ok (rs', k') ∧ rs = r :: rs' := by
  rw [Kernel.run]
  constructor
  · intro h
    obtain ⟨⟨r, k₁⟩, hcall, h⟩ := bind_eq_ok.mp h
    obtain ⟨⟨rs', k₂⟩, hrest, h⟩ := bind_eq_ok.mp h
    cases h
    exact ⟨r, k₁, rs', hcall, hrest, rfl⟩
  · rintro ⟨r, k₁, rs', hcall, hrest, rfl⟩
    exact bind_eq_ok.mpr ⟨_, hcall, bind_eq_ok.mpr ⟨_, hrest, rfl⟩⟩

/-- The memory after a run. -/
def Device.afterAll (d : Device) (calls : List DevCall) (rs : List SysRet) : Device :=
  (successfulWrites calls rs).foldl Device.write d

theorem Device.afterAll_cons (d : Device) (c : DevCall) (calls : List DevCall) (r : SysRet)
    (rs : List SysRet) :
    d.afterAll (c :: calls) (r :: rs) = (d.after c r).afterAll calls rs := by
  simp only [afterAll, successfulWrites, List.zip_cons_cons, List.filterMap_cons, after]
  cases c.added r <;> rfl

/-- **A run shows the memory that its successful writes make.** -/
theorem Kernel.Shows.run {calls : List DevCall} {rs : List SysRet} (h : k.Shows api d)
    (hcalls : ∀ c ∈ calls, c.InRange) (hrun : k.run api calls = .ok (rs, k')) :
    k'.Shows api (d.afterAll calls rs) := by
  induction calls generalizing k d rs with
  | nil =>
      obtain ⟨rfl, rfl⟩ := Prod.mk.inj (Except.ok.inj hrun)
      exact h
  | cons c rest ih =>
      obtain ⟨r, k₁, rs', hcall, hrest, rfl⟩ := run_cons.mp hrun
      rw [Device.afterAll_cons]
      exact ih (h.call (hcalls c (by simp)) hcall).1
        (fun c' hc' => hcalls c' (List.mem_cons_of_mem _ hc')) hrest

/-- **A run without empty writes never faults.** -/
theorem Kernel.Shows.run_ok (h : k.Shows api d) (calls : List DevCall)
    (hcalls : ∀ c ∈ calls, c.Counted) :
    ∃ (rs : List SysRet) (k' : Kernel), k.run api calls = .ok (rs, k') := by
  induction calls generalizing k d with
  | nil => exact ⟨[], k, rfl⟩
  | cons c rest ih =>
      have hc := hcalls c (by simp)
      rcases h.call_cases c hc.inRange with ⟨-, -, f, choice, uncopied, rfl⟩ | ⟨r, k₁, hcall, h₁, -⟩
      · exact absurd hc.1 (by simp)
      · obtain ⟨rs, k', hrest⟩ :=
          ih h₁ (fun c' hc' => hcalls c' (List.mem_cons_of_mem _ hc'))
        exact ⟨r :: rs, k', run_cons.mpr ⟨r, k₁, rs, hcall, hrest, rfl⟩⟩

end

end Aesd
