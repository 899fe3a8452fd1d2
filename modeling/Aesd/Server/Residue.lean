import Aesd.Basic.Lts
import Aesd.Server.DeviceFile

set_option autoImplicit false

/-! # What a failed message leaves behind

The driver keeps the bytes of a command that is not complete, and nothing tells it that the rest
will not come. A message of which a later chunk is rejected therefore leaves its first chunks in
the staging entry, and the next message is appended to them: the commands of the ring are lines
of single messages exactly as long as no message that is cut off midway is followed by one that
is taken in full (`run_commitsOwnLines_iff`). -/

namespace Aesd

open CInt CircArray Kernel Lts

section

variable {api : KernelApi} {k k' : Kernel} {d : Device} {f : FileId} {p : Nat}

/-! ## One message -/

/-- One message on its way through `handle_message`: the open file it goes to, and what stdio and
the kernel decide. -/
structure Handling where
  file : FileId
  message : List UInt8
  plan : StdioPlan Services
  env : Services

/-- What `handle_message` prints. -/
def Handling.line (h : Handling) : List UInt8 := cString h.message ++ [newline]

/-- A data message, received up to the newline; stdio cuts its line into writes that the VFS
lets through. -/
structure Handling.Printed (h : Handling) : Prop where
  data : decodeIoctlCommand (cString h.message) = none
  one_line : newline ∉ cString h.message
  prints : h.plan.Prints h.line
  counted : ∀ c ∈ h.plan.chunks, c.bytes.length ≤ maxRwCount

/-- **What the handling of a message commits**: what was pending and the line, if all writes are
granted, and nothing otherwise. -/
theorem Handling.Printed.handled {h : Handling} (hh : h.Printed) (hk : k.Shows api d)
    (hp : k.fPos h.file = some p) {ret : Int}
    (hhandled : handleMessage (deviceFile api h.file) h.message h.plan h.env k = .ok (ret, k')) :
    (k.GrantsAll api h.file h.plan.chunks ∧ k'.Shows api (d.write h.line)
        ∧ k.commits k' = [d.pending ++ h.line])
      ∨ (¬ k.GrantsAll api h.file h.plan.chunks ∧ ∃ taken, newline ∉ taken
        ∧ (taken ≠ [] ↔ k.GrantsFirst api h.plan.chunks) ∧ k'.Shows api (d.write taken)
        ∧ k.commits k' = []) := by
  have hwritable : Writable h.plan.chunks := fun c hc => ⟨hh.prints.ne_nil c hc, hh.counted c hc⟩
  obtain ⟨accepted, hw⟩ := handleMessage_chunks _ hh.data hhandled
  obtain ⟨accepted', k₁, hw', -, hwritten⟩ :=
    writeChunks_cut hk hp hwritable (hh.prints.cut hh.one_line)
  rw [hw] at hw'
  cases hw'
  cases accepted with
  | true =>
      obtain ⟨hgrants, hshows, hstep⟩ := hwritten
      left
      have hend := Device.endsCommand_line d.pending (cString h.message)
      refine ⟨hgrants, hshows, ?_⟩
      rw [hk.commits_eq hshows (by rwa [hend]), Device.committed, if_pos hend]
      rfl
  | false =>
      obtain ⟨hgrants, taken, htaken, hfirst, hshows, hstep⟩ := hwritten
      right
      have hopen := d.endsCommand_of_notMem htaken
      refine ⟨hgrants, taken, htaken, hfirst, hshows, ?_⟩
      rw [hk.commits_eq hshows (by rwa [hopen]), Device.committed, hopen]
      rfl

end

/-! ## Runs -/

/-- What happens to the device: a message is handled, with `file_mutex` held, or somebody opens,
closes, reads or moves a file. -/
inductive DeviceUse
  | handle (h : Handling)
  | call (c : DevCall)

/-- The steps. Nobody but `handle_message` writes. -/
inductive UseStep (api : KernelApi) : Kernel → DeviceUse → Kernel → Prop
  | handle {k k' : Kernel} {h : Handling} {ret : Int} (printed : h.Printed)
      (is_open : (k.fPos h.file).isSome)
      (handled : handleMessage (deviceFile api h.file) h.message h.plan h.env k = .ok (ret, k')) :
      UseStep api k (.handle h) k'
  | call {k k' : Kernel} {c : DevCall} {r : SysRet} (quiet : ¬ c.Writes)
      (called : k.call api c = .ok (r, k')) : UseStep api k (.call c) k'

/-- The line of the message that is handled. -/
def DeviceUse.line : DeviceUse → Option (List UInt8)
  | .handle h => some h.line
  | .call _ => none

/-- A message all of whose chunks are taken. -/
def DeviceUse.TakenInFull (api : KernelApi) (k : Kernel) : DeviceUse → Prop
  | .handle h => k.GrantsAll api h.file h.plan.chunks
  | .call _ => False

/-- A message whose first chunk is taken, and a later one rejected. -/
def DeviceUse.CutOff (api : KernelApi) (k : Kernel) : DeviceUse → Prop
  | .handle h => k.GrantsFirst api h.plan.chunks ∧ ¬ k.GrantsAll api h.file h.plan.chunks
  | .call _ => False

/-- Every command that is committed is the line of the message that is handled. -/
def CommitsOwnLines (k : Kernel) (t : List (DeviceUse × Kernel)) : Prop :=
  ∀ t₁ u k', StepAt t t₁ u k' → ∀ command ∈ (last k t₁).commits k', u.line = some command

/-- No message is cut off. -/
def NoneCutOff (api : KernelApi) (k : Kernel) (t : List (DeviceUse × Kernel)) : Prop :=
  ∀ t₁ u k', StepAt t t₁ u k' → ¬ u.CutOff api (last k t₁)

/-- No message that is cut off is followed by one that is taken in full. -/
def NoneTakenAfterCutOff (api : KernelApi) (k : Kernel) (t : List (DeviceUse × Kernel)) : Prop :=
  ∀ t₁ u k', StepAt t t₁ u k' → u.TakenInFull api (last k t₁) → NoneCutOff api k t₁

section

variable {api : KernelApi} {k k' : Kernel} {d : Device} {u : DeviceUse}

/-- **What one step commits and leaves pending.** -/
theorem UseStep.spec (hstep : UseStep api k u k') (hk : k.Shows api d) :
    ∃ d' : Device, k'.Shows api d'
      ∧ d'.commands = (d.commands ++ k.commits k').rtake maxWriteOperationsSupported
      ∧ ((u.TakenInFull api k ∧ ¬ u.CutOff api k ∧ d'.pending = []
          ∧ ∃ line, u.line = some line ∧ k.commits k' = [d.pending ++ line])
        ∨ (¬ u.TakenInFull api k ∧ (d'.pending = [] ↔ d.pending = [] ∧ ¬ u.CutOff api k)
          ∧ k.commits k' = [])) := by
  cases hstep with
  | handle printed is_open handled =>
      rename_i h ret
      obtain ⟨p, hp⟩ := Option.isSome_iff_exists.mp is_open
      rcases printed.handled hk hp handled with
        ⟨hall, hshows, hcommits⟩ | ⟨hall, taken, htaken, hfirst, hshows, hcommits⟩
      · -- taken in full: the command is what was pending, and the line
        have hwrite := Device.write_of_ends d h.line (Device.endsCommand_line _ _)
        refine ⟨_, hshows, by rw [hwrite.1, hcommits], Or.inl ?_⟩
        exact ⟨hall, fun hcut => hcut.2 hall, hwrite.2, h.line, rfl, hcommits⟩
      · -- rejected: what was taken before that stays pending
        have hwrite := d.write_of_open taken (d.endsCommand_of_notMem htaken)
        refine ⟨_, hshows, ?_, Or.inr ⟨hall, ?_, hcommits⟩⟩
        · rw [hwrite.1, hcommits, List.append_nil, rtake_of_length_le d.length_le]
        rw [hwrite.2, List.append_eq_nil_iff]
        refine and_congr_right fun _ => ?_
        constructor
        · rintro rfl ⟨hg, -⟩
          exact hfirst.mpr hg rfl
        · intro hcut
          by_contra hne
          exact hcut ⟨hfirst.mp hne, hall⟩
  | call quiet called =>
      obtain ⟨fPos, rfl⟩ := hk.call_moves quiet called
      have hcommits : k.commits { k with fPos := fPos } = [] := if_pos rfl
      refine ⟨d, hk.withFPos fPos, ?_, Or.inr ⟨id, (and_iff_left id).symm, hcommits⟩⟩
      rw [hcommits, List.append_nil, rtake_of_length_le d.length_le]

/-- A step commits the line of its own message exactly if it takes none in full or nothing was
pending. -/
theorem UseStep.ownLine_iff (hstep : UseStep api k u k') (hk : k.Shows api d) :
    (∀ command ∈ k.commits k', u.line = some command)
      ↔ (u.TakenInFull api k → d.pending = []) := by
  obtain ⟨d', -, -, ⟨hfull, -, -, line, hline, hcommits⟩ | ⟨hfull, -, hcommits⟩⟩ := hstep.spec hk
  · rw [hcommits, hline]
    simp [hfull]
  · rw [hcommits]
    simp [hfull]

/-- **Along a run**, as long as only own lines are committed, nothing is pending exactly if no
message was cut off. -/
theorem Kernel.Shows.commitsOwnLines (hk : k.Shows api d) (hpending : d.pending = [])
    {t : List (DeviceUse × Kernel)} (hsteps : Run (UseStep api) k t) :
    (CommitsOwnLines k t ↔ NoneTakenAfterCutOff api k t)
      ∧ ∃ d' : Device, (last k t).Shows api d'
        ∧ (CommitsOwnLines k t → (d'.pending = [] ↔ NoneCutOff api k t)) := by
  induction hsteps with
  | nil =>
      refine ⟨iff_of_true ?_ ?_, d, hk, fun _ => iff_of_true hpending ?_⟩ <;>
        exact fun _ _ _ hat => absurd hat not_stepAt_nil
  | snoc hrun hstep ih =>
      rename_i t u k'
      obtain ⟨hiff, d₁, hd₁, hclean⟩ := ih
      have hown := hstep.ownLine_iff hd₁
      obtain ⟨d', hd', -, hcases⟩ := hstep.spec hd₁
      have hconcat : CommitsOwnLines k (t ++ [(u, k')])
          ↔ CommitsOwnLines k t ∧ (u.TakenInFull api (last k t) → d₁.pending = []) := by
        rw [← hown]
        exact forall_stepAt_concat
      have hcut : NoneCutOff api k (t ++ [(u, k')])
          ↔ NoneCutOff api k t ∧ ¬ u.CutOff api (last k t) := forall_stepAt_concat
      have hafter : NoneTakenAfterCutOff api k (t ++ [(u, k')])
          ↔ NoneTakenAfterCutOff api k t
            ∧ (u.TakenInFull api (last k t) → NoneCutOff api k t) := forall_stepAt_concat
      refine ⟨?_, d', by rwa [last_concat], ?_⟩
      · rw [hconcat, hafter, ← hiff]
        exact and_congr_right fun h => imp_congr_right fun _ => hclean h
      · rw [hconcat, hcut]
        rintro ⟨h, hempty⟩
        rw [← hclean h]
        rcases hcases with ⟨hfull, hnot, hpend, -⟩ | ⟨-, hpend, -⟩
        · exact iff_of_true hpend ⟨hempty hfull, hnot⟩
        · exact hpend

/-- What is in the ring was there before, or a step of the run has committed it. -/
theorem Kernel.Shows.mem_ring (hk : k.Shows api d) {t : List (DeviceUse × Kernel)}
    (hsteps : Run (UseStep api) k t) :
    ∃ d' : Device, (last k t).Shows api d' ∧ ∀ c ∈ d'.commands,
      c ∈ d.commands ∨ ∃ t₁ u k', StepAt t t₁ u k' ∧ c ∈ (last k t₁).commits k' := by
  induction hsteps with
  | nil => exact ⟨d, hk, fun c hc => Or.inl hc⟩
  | snoc hrun hstep ih =>
      rename_i t u k'
      obtain ⟨d₁, hd₁, hmem⟩ := ih
      obtain ⟨d', hd', hcommands, -⟩ := hstep.spec hd₁
      refine ⟨d', by rwa [last_concat], fun c hc => ?_⟩
      rw [hcommands] at hc
      rcases List.mem_append.mp (List.mem_of_mem_drop hc) with hold | hnew
      · rcases hmem c hold with hc | ⟨t₁, u₁, k₁, hat, hc⟩
        · exact Or.inl hc
        · exact Or.inr ⟨t₁, u₁, k₁, stepAt_concat.mpr (Or.inl hat), hc⟩
      · exact Or.inr ⟨t, u, k', stepAt_concat.mpr (Or.inr ⟨rfl, rfl⟩), hnew⟩

end

/-- **Residue.** Start with an empty staging entry, in any state a run of the driver can lead to,
and handle data messages of any clients, with any other calls in between and with any writes
rejected. Every command that is committed is the line of the message that is handled if and only
if no message that is cut off midway is followed by one that is taken in full. What is in the ring
at the end was there at the start, or a step of the run has committed it. -/
theorem run_commitsOwnLines_iff (api : KernelApi) (dev : AesdDev) (calls : List DevCall)
    (rs : List SysRet) (k : Kernel) (hcalls : ∀ c ∈ calls, c.InRange)
    (hrun : (Kernel.loaded dev).run api calls = .ok (rs, k))
    (hempty : k.aesdDevice.stagingEntry.size = 0) (t : List (DeviceUse × Kernel))
    (hsteps : Run (UseStep api) k t) :
    (CommitsOwnLines k t ↔ NoneTakenAfterCutOff api k t)
      ∧ ∃ init commands, k.ringContents = .ok init ∧ (last k t).ringContents = .ok commands
        ∧ ∀ c ∈ commands,
          c ∈ init ∨ ∃ t₁ u k', StepAt t t₁ u k' ∧ c ∈ (last k t₁).commits k' := by
  have hshows := (Kernel.loaded_shows api dev).run hcalls hrun
  have hpending : (Device.empty.afterAll calls rs).pending = [] :=
    List.eq_nil_of_length_eq_zero (hshows.staging_size.symm.trans hempty)
  obtain ⟨d', hd', hmem⟩ := hshows.mem_ring hsteps
  exact ⟨(hshows.commitsOwnLines hpending hsteps).1, _, _, hshows.ringContents_eq,
    hd'.ringContents_eq, hmem⟩

/-- The message `"AB"` for file `0`, in two chunks; the second one can be granted or not. -/
def messageAB (second : Option KmallocBlock) : Handling where
  file := 0
  message := [65, 66, 0]
  plan := ⟨[⟨[65], ⟨some ⟨1, fun _ => 0⟩, 0⟩⟩, ⟨[66, newline], ⟨second, 0⟩⟩], []⟩
  env := ⟨none, 0⟩

theorem messageAB_printed (second : Option KmallocBlock) : (messageAB second).Printed :=
  ⟨by simp only [messageAB]; decide, by simp only [messageAB]; decide,
    ⟨by simp [messageAB, StdioPlan.chunks], rfl⟩,
    by simp [messageAB, StdioPlan.chunks, maxRwCount]⟩

theorem run_commitsOwnLines_iff_twoChunks :
    ∃ t : List (DeviceUse × Kernel),
      Run (UseStep .linux) (Kernel.loaded .zero) t
      ∧ labels t = [.call (.openFile 0), .handle (messageAB (some ⟨2, fun _ => 0⟩))]
      ∧ ((CommitsOwnLines (Kernel.loaded .zero) t
          ↔ NoneTakenAfterCutOff .linux (Kernel.loaded .zero) t)
        ∧ ∃ init commands, (Kernel.loaded .zero).ringContents = .ok init
          ∧ (last (Kernel.loaded .zero) t).ringContents = .ok commands
          ∧ ∀ c ∈ commands, c ∈ init
            ∨ ∃ t₁ u k', StepAt t t₁ u k' ∧ c ∈ (last (Kernel.loaded .zero) t₁).commits k')
      ∧ NoneTakenAfterCutOff .linux (Kernel.loaded .zero) t := by
  obtain ⟨k₁, hopen, hfile, k₂, hhandle⟩ : ∃ k₁,
      (Kernel.loaded .zero).call .linux (.openFile 0) = .ok (.value 0, k₁)
      ∧ (k₁.fPos 0).isSome
      ∧ ∃ k₂, handleMessage (deviceFile .linux 0) (messageAB (some ⟨2, fun _ => 0⟩)).message
        (messageAB (some ⟨2, fun _ => 0⟩)).plan ⟨none, 0⟩ k₁ = .ok (3, k₂) :=
    ⟨_, rfl, rfl, _, rfl⟩
  have h₁ : Run (UseStep .linux) (Kernel.loaded .zero) _ := Run.nil.snoc (UseStep.call id hopen)
  have h₂ := h₁.snoc (UseStep.handle (messageAB_printed _) hfile hhandle)
  refine ⟨_, h₂, rfl, run_commitsOwnLines_iff .linux .zero [] [] _ (by simp) rfl rfl _ h₂, ?_⟩
  -- the only earlier step is the call
  refine forall_stepAt_concat.mpr ⟨forall_stepAt_concat.mpr ⟨?_, ?_⟩, fun _ => ?_⟩
  · exact fun _ _ _ hat => absurd hat not_stepAt_nil
  · exact fun _ _ _ _ hat => absurd hat not_stepAt_nil
  · exact forall_stepAt_concat.mpr ⟨fun _ _ _ hat => absurd hat not_stepAt_nil, id⟩

/-- Another client's `"C"` behind an `"AB"` that is cut off is committed as `"AC\n"`. -/
theorem not_commitsOwnLines_cutOff :
    let messageC : Handling :=
      ⟨1, [67, 0], ⟨[], [⟨[67, newline], ⟨some ⟨2, fun _ => 0⟩, 0⟩⟩]⟩, ⟨none, 0⟩⟩
    ∃ t : List (DeviceUse × Kernel),
      Run (UseStep .linux) (Kernel.loaded .zero) t
      ∧ labels t = [.call (.openFile 0), .call (.openFile 1), .handle (messageAB none),
          .handle messageC]
      ∧ (last (Kernel.loaded .zero) t).ringContents = .ok [[65, 67, newline]]
      ∧ ¬ CommitsOwnLines (Kernel.loaded .zero) t := by
  intro messageC
  have hprinted : messageC.Printed :=
    ⟨by decide, by decide, ⟨by simp [messageC, StdioPlan.chunks], rfl⟩,
      by simp [messageC, StdioPlan.chunks, maxRwCount]⟩
  obtain ⟨k₁, hopen₀, k₂, hopen₁, hfile, k₃, hhandle, hfile', k₄, hhandle', hring, hcommits⟩ : ∃ k₁,
      (Kernel.loaded .zero).call .linux (.openFile 0) = .ok (.value 0, k₁)
      ∧ ∃ k₂, k₁.call .linux (.openFile 1) = .ok (.value 0, k₂) ∧ (k₂.fPos 0).isSome
      ∧ ∃ k₃, handleMessage (deviceFile .linux 0) (messageAB none).message (messageAB none).plan
          ⟨none, 0⟩ k₂ = .ok (-1, k₃) ∧ (k₃.fPos 1).isSome
      ∧ ∃ k₄, handleMessage (deviceFile .linux 1) [67, 0]
          ⟨[], [⟨[67, newline], ⟨some ⟨2, fun _ => 0⟩, 0⟩⟩]⟩ ⟨none, 0⟩ k₃ = .ok (2, k₄)
      ∧ k₄.ringContents = .ok [[65, 67, newline]] ∧ k₃.commits k₄ = [[65, 67, newline]] :=
    ⟨_, rfl, _, rfl, rfl, _, rfl, rfl, _, rfl, rfl, rfl⟩
  have h₁ : Run (UseStep .linux) (Kernel.loaded .zero) _ := Run.nil.snoc (UseStep.call id hopen₀)
  have h₂ := h₁.snoc (UseStep.call id hopen₁)
  have h₃ := h₂.snoc (UseStep.handle (messageAB_printed none) hfile hhandle)
  have h₄ := h₃.snoc (UseStep.handle (h := messageC) hprinted hfile' hhandle')
  refine ⟨_, h₄, rfl, hring, fun hown => ?_⟩
  have hline := (forall_stepAt_concat.mp hown).2 [65, 67, newline] (by
    show _ ∈ k₃.commits k₄
    rw [hcommits]
    exact List.mem_singleton_self _)
  exact absurd hline (by decide)

end Aesd
