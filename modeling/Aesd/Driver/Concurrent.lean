import Aesd.Driver.Sections

set_option autoImplicit false

/-! # The driver, called by many threads at once

Any number of calls on open files are made, and their accesses come between each other. No access
faults, and no call is stuck (`driver_safe`). Two overlapping reads through one open file can
deliver the same bytes (`driver_overlapping_reads`). But as long as no two calls on one open file
overlap, every interleaving is explained by some sequence of whole calls of `CharDevice`
(`driver_linearizes`). -/

namespace Aesd

open CInt Kernel Lts Monitor

/-- Completed calls on open files, as calls of the VFS in the order of their completion. -/
def completedCalls {κ : Type} (ds : List (Done κ FileCall SysRet)) : List DevCall :=
  ds.map fun d => d.op.devCall

section

variable {κ : Type} {api : KernelApi} {k k' : Kernel} {d : Device}

/-- Whole calls on open files, one after the other, are a run of the VFS. -/
theorem run_of_sequential {ds : List (Done κ FileCall SysRet)}
    (h : (driver api).whole.Sequential k ds k') (hshows : k.Shows api d)
    (hopen : ∀ x ∈ ds, (k.fPos x.op.file).isSome) (hrange : ∀ x ∈ ds, x.op.devCall.InRange) :
    k.run api (completedCalls ds) = .ok (ds.map Done.ret, k')
      ∧ (∃ d', k'.Shows api d') ∧ ∀ g, (k.fPos g).isSome → (k'.fPos g).isSome := by
  induction h with
  | nil => exact ⟨rfl, ⟨d, hshows⟩, fun _ hg => hg⟩
  | @snoc ds x k₁ k₂ hds happly ih =>
      obtain ⟨hrun, ⟨d₁, hshows₁⟩, hopen₁⟩ :=
        ih (fun y hy => hopen y (List.mem_append_left _ hy))
          fun y hy => hrange y (List.mem_append_left _ hy)
      -- nothing closes a file, so that of the next call is still open
      have hx : x ∈ ds ++ [x] := List.mem_append_right _ (List.mem_singleton_self x)
      obtain ⟨p, hp⟩ := Option.isSome_iff_exists.mp (hopen₁ _ (hopen x hx))
      have hcall : k₁.call api x.op.devCall = .ok (x.ret, k₂) := by
        rw [← driver_apply hshows₁.unlocked hp]
        exact happly
      refine ⟨?_, ⟨_, (hshows₁.call (hrange x hx) hcall).1⟩, ?_⟩
      · unfold completedCalls
        rw [List.map_append, List.map_append]
        exact Kernel.run_concat hrun hcall
      · exact fun g hg => FileCall.call_open hshows₁ hp hcall (hopen₁ g hg)

variable [DecidableEq κ]

/-- Files `0` and `1` have just been opened. -/
def twoOpen : Kernel :=
  { Kernel.loaded .zero with
    fPos := Function.update (Function.update (fun _ => none) 0 (some 0)) 1 (some 0) }

theorem run_twoOpen :
    (Kernel.loaded .zero).run .linux [.openFile 0, .openFile 1]
      = .ok ([.value 0, .value 0], twoOpen) := rfl

/-- **No interleaving of calls breaks the driver**, also if calls on one open file overlap. The next
access of a call in its section never faults, every call that has been made can return, and while no
call is in its section the heap holds exactly the blocks the device owns. -/
theorem driver_safe (api : KernelApi) (dev : AesdDev) (calls : List DevCall)
    (rs : List SysRet) (k : Kernel) (hcalls : ∀ c ∈ calls, c.InRange)
    (hrun : (Kernel.loaded dev).run api calls = .ok (rs, k))
    (t : List (Event κ FileCall SysRet
      × Copying.System Fault Kernel FileCall SysRet (Option Nat) κ))
    (hsteps : Run (Copying.Step (driver api)) (Copying.System.start k) t)
    (hmade : ∀ i c, .invoke i c ∈ labels t → c.devCall.Counted) :
    let s := last (Copying.System.start k) t
    (∀ (i : κ) (c : FileCall) (β : Type) (act : Kernel → Except Fault (β × Kernel))
        (next : β → Prog Fault Kernel (SysRet × Option (Option Nat))),
        s.phase i = .inside c (.access act next) → ∃ b k', act s.shared = .ok (b, k'))
      ∧ (∀ i, s.phase i ≠ .idle → ∃ t' c r, Run (Copying.Step (driver api)) s t'
          ∧ (last s t').phase i = .returned c r)
      ∧ ((∀ i, ¬ (s.phase i).IsInside) → s.shared.OwnsExactly) := by
  have hshows := (Kernel.loaded_shows api dev).run hcalls hrun
  have hsafe := (Copying.Safe.start (κ := κ) (I := fun k => ∃ d, k.Shows api d) ⟨_, hshows⟩).run
    (driver_works api) hsteps hmade
  refine ⟨?_, ?_, ?_⟩
  · intro i c β act next hphase
    exact hsafe.access_ok hphase
  · intro i hi
    exact hsafe.can_return (driver_works api) hi
  · intro hfree
    obtain ⟨d, hshows⟩ := hsafe.sound.free hfree
    exact hshows.ownsExactly

/-- Two reads through file `0`, which work on the same copy. -/
def overlappingReads : List (Event Bool FileCall SysRet) :=
  [.invoke false (.read 0 1 0), .access false, .invoke true (.read 0 1 0), .access true,
    .lock false, .access false, .complete false (.read 0 1 0) (.value 0), .lock true]

theorem overlappingReads_made {i : Bool} {c : FileCall} (hic : .invoke i c ∈ overlappingReads) :
    c.devCall.Counted := by
  simp only [overlappingReads, List.mem_cons, List.not_mem_nil, Event.invoke.injEq, reduceCtorEq,
    or_false, false_or] at hic
  rcases hic with ⟨-, rfl⟩ | ⟨-, rfl⟩ <;> trivial

theorem driver_safe_overlapping :
    ∃ t, Run (Copying.Step (driver .linux)) (Copying.System.start twoOpen) t
      ∧ labels t = overlappingReads
      ∧ ∃ t' c r, Run (Copying.Step (driver .linux)) (last (Copying.System.start twoOpen) t) t'
          ∧ (last (last (Copying.System.start twoOpen) t) t').phase false = .returned c r := by
  have h₁ : Run (Copying.Step (driver .linux)) (Copying.System.start twoOpen) _ := Run.nil.snoc
    (show Copying.Step (driver .linux) _ (.invoke false (.read 0 1 0)) _ from .invoke rfl)
  have h₂ := h₁.snoc (.copy (i := false) rfl rfl)
  have h₃ := h₂.snoc (show Copying.Step (driver .linux) _ (.invoke true (.read 0 1 0)) _ from
    .invoke rfl)
  have h₅ := (h₃.snoc (.copy (i := true) rfl rfl)).snoc (.lock (i := false) rfl rfl rfl)
  have h₆ := h₅.snoc (.access (i := false) rfl rfl)
  have h₈ := (h₆.snoc (show Copying.Step (driver .linux) _
    (.complete false (.read 0 1 0) (.value 0)) _ from .unlock rfl)).snoc
      (.lock (i := true) rfl rfl rfl)
  obtain ⟨-, hreturn, -⟩ := driver_safe .linux .zero [.openFile 0, .openFile 1] _ twoOpen
    (by simp [DevCall.InRange]) run_twoOpen _ h₈ fun i c hic => overlappingReads_made hic
  refine ⟨_, h₈, rfl, hreturn false ?_⟩
  intro hidle
  cases hidle

/-- A read that has its copy returns what it returns at once, wherever the files stand by then, and
the file is moved to the same place. -/
theorem read_returns (hshows : k.Shows api d) (f : FileId) {p : Nat} (hp : k.fPos f = some p)
    (count uncopied : Nat) :
    ∃ r v, k.call api (.read f count uncopied) = .ok (r, filePositions.store f v k)
      ∧ ∀ (s : Copying.System Fault Kernel FileCall SysRet (Option Nat) κ) (i : κ)
        (fPos : FileId → Option Nat), s.phase i = .ready (.read f count uncopied) (some p) →
          s.shared = k.withFPos fPos →
          Copying.Returns (driver api) s i (.read f count uncopied) r
            (filePositions.store f v (k.withFPos fPos)) := by
  obtain ⟨r, k', hcall, -⟩ := hshows.call_ok (c := .read f count uncopied) trivial
  have happly := hcall
  rw [← driver_apply_read hshows.unlocked hp, driver_apply_section hshows.unlocked rfl] at happly
  obtain ⟨⟨⟨r, v⟩, q⟩, hexec, hret⟩ := bind_eq_ok.mp happly
  obtain ⟨rfl, rfl⟩ := Prod.mk.inj (Except.ok.inj hret)
  let body := readSection p count uncopied >>= fun rp =>
    (pure (rp.1, vfsStore rp.1.ret (some rp.2)) : Prog Fault Kernel (SysRet × Option (Option Nat)))
  replace hexec : body.exec k.locked = .ok ((r, v), q) := by
    rw [← hexec]
    show _ = (readSection ((k.fPos f).getD 0) count uncopied >>= _).exec k.locked
    rw [hp]
    rfl
  -- the section changes nothing, and has nothing to do with where the files stand
  have hkeeps : body.Keeps (· = k.locked) :=
    (readSection_keeps p count uncopied).bind fun _ => Prog.keeps_pure _
  have hblind : body.Blind filePositions :=
    (readSection_blind p count uncopied).bind fun _ => Prog.blind_pure _
  obtain rfl : q = k.locked := hkeeps.exec rfl hexec
  have hunlock : (filePositions.store f v k.locked).mutexUnlock = filePositions.store f v k := by
    show filePositions.store f v k.locked.mutexUnlock = _
    rw [Kernel.mutexUnlock_locked hshows.unlocked]
  refine ⟨r, v, hcall.trans (congrArg (fun k => Except.ok (r, k)) hunlock),
    fun s i fPos hphase hshared => ?_⟩
  have hlock : (driver api).acquire s.shared = .ok (k.withFPos fPos).locked := by
    rw [hshared]
    exact mutexLock_eq hshows.unlocked
  have hexec' := hblind.exec k.locked fPos
  rw [hexec] at hexec'
  have hreturns := Copying.returns_of_ready hphase rfl hlock hexec'
  have hunlock' : (k.withFPos fPos).locked.mutexUnlock = k.withFPos fPos :=
    Kernel.mutexUnlock_locked hshows.unlocked
  rw [← hunlock']
  exact hreturns

/-- **Two reads on one open file that overlap can deliver the same bytes**, and move the file only
once: this is why `driver_linearizes` asks that no such calls overlap. -/
theorem driver_overlapping_reads (api : KernelApi) (dev : AesdDev) (calls : List DevCall)
    (rs : List SysRet) (k : Kernel) (hcalls : ∀ c ∈ calls, c.InRange)
    (hrun : (Kernel.loaded dev).run api calls = .ok (rs, k)) (f : FileId) (p : Nat)
    (hp : k.fPos f = some p) (count uncopied : Nat) :
    ∃ (t : List (Event Bool FileCall SysRet
        × Copying.System Fault Kernel FileCall SysRet (Option Nat) Bool)) (r : SysRet)
      (k' : Kernel), Run (Copying.Step (driver api)) (Copying.System.start k) t
      ∧ k.call api (.read f count uncopied) = .ok (r, k')
      ∧ (∀ i, (last (Copying.System.start k) t).phase i = .returned (.read f count uncopied) r)
      ∧ (last (Copying.System.start k) t).shared = k' := by
  have hshows := (Kernel.loaded_shows api dev).run hcalls hrun
  obtain ⟨r, v, hcall, hreturns⟩ := read_returns (κ := Bool) hshows f hp count uncopied
  -- both have their copy before one of them takes the lock
  obtain ⟨t₀, hrun₀, hready, hshared₀⟩ : ∃ t₀, Run (Copying.Step (driver api))
      (Copying.System.start k : Copying.System _ _ _ _ _ Bool) t₀
      ∧ (∀ i, (last (Copying.System.start k) t₀).phase i
        = .ready (.read f count uncopied) (some p))
      ∧ (last (Copying.System.start k) t₀).shared = k := by
    have h₁ : Run (Copying.Step (driver api))
        (Copying.System.start k : Copying.System _ _ _ _ _ Bool) _ := Run.nil.snoc
      (show Copying.Step (driver api) _ (.invoke false (.read f count uncopied)) _ from .invoke rfl)
    have h₂ := h₁.snoc (.copy (i := false) rfl rfl)
    have h₃ := h₂.snoc (show Copying.Step (driver api) _
      (.invoke true (.read f count uncopied)) _ from .invoke rfl)
    refine ⟨_, h₃.snoc (.copy (i := true) rfl rfl), fun i => ?_, rfl⟩
    cases i with
    | false => exact congrArg (Copying.Phase.ready _) hp
    | true => exact congrArg (Copying.Phase.ready _) hp
  obtain ⟨t₁, hrun₁, hreturned₁, hshared₁, hothers₁, -⟩ :=
    hreturns _ false k.fPos (hready false) hshared₀
  obtain ⟨t₂, hrun₂, hreturned₂, hshared₂, hothers₂, -⟩ :=
    hreturns _ true _ ((hothers₁ true (by decide)).trans (hready true)) hshared₁
  refine ⟨t₀ ++ (t₁ ++ t₂), r, _, hrun₀.append (hrun₁.append hrun₂), hcall, fun i => ?_, ?_⟩
  · rw [last_append, last_append]
    cases i with
    | false => exact (hothers₂ false (by decide)).trans hreturned₁
    | true => exact hreturned₂
  · rw [last_append, last_append, hshared₂]
    exact Cells.store_store ..

theorem driver_overlapping_reads_oneLine :
    ∃ (rs : List SysRet) (k : Kernel) (t : List (Event Bool FileCall SysRet
        × Copying.System Fault Kernel FileCall SysRet (Option Nat) Bool)),
      (Kernel.loaded .zero).run .linux
          [.openFile 0, .write 0 [65, newline] (some ⟨1, fun _ => 0⟩) 0] = .ok (rs, k)
        ∧ Run (Copying.Step (driver .linux)) (Copying.System.start k) t
        ∧ ∀ i, (last (Copying.System.start k) t).phase i = .returned (.read 0 1 0) ⟨1, [65]⟩ := by
  obtain ⟨k, hrun, hp⟩ : ∃ k : Kernel, (Kernel.loaded .zero).run .linux
      [.openFile 0, .write 0 [65, newline] (some ⟨1, fun _ => 0⟩) 0]
        = .ok ([.value 0, .value 2], k) ∧ k.fPos 0 = some 0 := ⟨_, rfl, rfl⟩
  obtain ⟨t, r, k', hsteps, hcall, hreturned, -⟩ :=
    driver_overlapping_reads .linux .zero _ _ k (by simp [DevCall.InRange, maxRwCount]) hrun 0 0 hp
      1 0
  -- what one read returns
  have hread := ((Kernel.loaded_shows .linux .zero).run (by simp [DevCall.InRange, maxRwCount])
    hrun).call_read 0 1 0
  rw [show k.seekTo 0 0 = k from Kernel.restore_fPos hp, hcall] at hread
  obtain ⟨rfl, -⟩ := Prod.mk.inj (Except.ok.inj hread)
  exact ⟨_, k, t, hrun, hsteps, hreturned⟩

/-- **Every interleaving of the driver is explained by whole calls**, as long as no two calls on one
open file overlap. The calls that have released the lock, taken in the order in which they did,
return what they return one after the other, and that order respects the real one: a call that
returned before another was made comes before it. While nobody holds the lock, the device and the
memory are as these calls leave them, and so is the position of every file with no call under
way. -/
theorem driver_linearizes (api : KernelApi) (dev : AesdDev) (calls : List DevCall)
    (rs : List SysRet) (k : Kernel) (hcalls : ∀ c ∈ calls, c.InRange)
    (hrun : (Kernel.loaded dev).run api calls = .ok (rs, k))
    (t : List (Event κ FileCall SysRet
      × Copying.System Fault Kernel FileCall SysRet (Option Nat) κ))
    (hsteps : Run (Copying.Step (driver api)) (Copying.System.start k) t)
    (hmade : ∀ i c, .invoke i c ∈ labels t → (k.fPos c.file).isSome ∧ c.devCall.InRange)
    (hapart : Copying.Apart FileCall.file (labels t)) :
    let s := last (Copying.System.start k) t
    ∃ k', Linearizes (driver api).whole k (labels t) (completed (labels t)) k'
      ∧ k.run api (completedCalls (completed (labels t)))
        = .ok ((completed (labels t)).map Done.ret, k')
      ∧ ((∀ i, ¬ (s.phase i).IsInside) → k' = s.shared.withFPos k'.fPos
          ∧ ∀ f, (∀ i c, (s.phase i).active = some c → c.file ≠ f) →
            k'.fPos f = s.shared.fPos f) := by
  have hshows := (Kernel.loaded_shows api dev).run hcalls hrun
  obtain ⟨k', hlin, hstate⟩ := Copying.run_linearizes hsteps hapart
  have hds : ∀ x ∈ completed (labels t), (k.fPos x.op.file).isSome ∧ x.op.devCall.InRange :=
    fun x hx => hmade _ _ (hlin.invoked x hx)
  exact ⟨k', hlin, (run_of_sequential hlin.sequential hshows (fun x hx => (hds x hx).1)
    fun x hx => (hds x hx).2).1, hstate⟩

/-- A read through file `1`, and a write of a command through file `0` that is made while the read
is in its section. -/
def overlappingEvents : List (Event Bool FileCall SysRet) :=
  [.invoke true (.read 1 2 0), .access true, .lock true,
      .invoke false (.write 0 [65, newline] (some ⟨1, fun _ => 0⟩) 0), .access false, .access true,
      .complete true (.read 1 2 0) (.value 0), .lock false]
    ++ List.replicate 13 (.access false)
    ++ [.complete false (.write 0 [65, newline] (some ⟨1, fun _ => 0⟩) 0) (.value 2),
      .ret true (.value 0)]

theorem overlappingEvents_made {i : Bool} {c : FileCall} (hic : .invoke i c ∈ overlappingEvents) :
    (twoOpen.fPos c.file).isSome ∧ c.devCall.InRange := by
  simp only [overlappingEvents, List.mem_append, List.mem_cons, List.mem_replicate,
    List.not_mem_nil, Event.invoke.injEq, reduceCtorEq, and_false, or_false, false_or] at hic
  rcases hic with ⟨-, rfl⟩ | ⟨-, rfl⟩
  · exact ⟨rfl, trivial⟩
  · exact ⟨rfl, show 2 ≤ maxRwCount by decide⟩

theorem overlappingEvents_apart : Copying.Apart FileCall.file overlappingEvents := by
  apply Copying.Apart.of_pairwise
  show [FileCall.read 1 2 0, .write 0 [65, newline] (some ⟨1, fun _ => 0⟩) 0].Pairwise _
  simp [FileCall.file]

theorem exists_overlapping :
    ∃ t, Run (Copying.Step (driver .linux)) (Copying.System.start twoOpen) t
      ∧ labels t = overlappingEvents := by
  have h₁ : Run (Copying.Step (driver .linux)) (Copying.System.start twoOpen) _ := Run.nil.snoc
    (show Copying.Step (driver .linux) _ (.invoke true (.read 1 2 0)) _ from .invoke rfl)
  have h₃ := (h₁.snoc (.copy (i := true) rfl rfl)).snoc (.lock (i := true) rfl rfl rfl)
  have h₄ := h₃.snoc (show Copying.Step (driver .linux) _
    (.invoke false (.write 0 [65, newline] (some ⟨1, fun _ => 0⟩) 0)) _ from .invoke rfl)
  have h₆ := (h₄.snoc (.copy (i := false) rfl rfl)).snoc (.access (i := true) rfl rfl)
  have h₇ := h₆.snoc (show Copying.Step (driver .linux) _
    (.complete true (.read 1 2 0) (.value 0)) _ from .unlock rfl)
  have h₈ := h₇.snoc (.lock (i := false) rfl rfl rfl)
  have h₁₁ := ((h₈.snoc (.access (i := false) rfl rfl)).snoc (.access (i := false) rfl rfl)).snoc
    (.access (i := false) rfl rfl)
  have h₁₄ := ((h₁₁.snoc (.access (i := false) rfl rfl)).snoc (.access (i := false) rfl rfl)).snoc
    (.access (i := false) rfl rfl)
  have h₁₇ := ((h₁₄.snoc (.access (i := false) rfl rfl)).snoc (.access (i := false) rfl rfl)).snoc
    (.access (i := false) rfl rfl)
  have h₁₉ := (h₁₇.snoc (.access (i := false) rfl rfl)).snoc (.access (i := false) rfl rfl)
  have h₂₁ := (h₁₉.snoc (.access (i := false) rfl rfl)).snoc (.access (i := false) rfl rfl)
  exact ⟨_, (h₂₁.snoc (.unlock (i := false) rfl)).snoc (.ret (i := true) rfl), rfl⟩

theorem driver_linearizes_overlapping :
    ∃ t, Run (Copying.Step (driver .linux)) (Copying.System.start twoOpen) t
      ∧ labels t = overlappingEvents
      ∧ ∃ k', Linearizes (driver .linux).whole twoOpen (labels t) (completed (labels t)) k' := by
  obtain ⟨t, hsteps, hlabels⟩ := exists_overlapping
  obtain ⟨k', hlin, -⟩ := driver_linearizes .linux .zero [.openFile 0, .openFile 1] _ twoOpen
    (by simp [DevCall.InRange]) run_twoOpen t hsteps
    (fun i c hic => overlappingEvents_made (hlabels ▸ hic)) (hlabels ▸ overlappingEvents_apart)
  exact ⟨t, hsteps, hlabels, k', hlin⟩

end

end Aesd
