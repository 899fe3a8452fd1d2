import Aesd.Basic.Delimited
import Aesd.Driver.History

set_option autoImplicit false

/-! # Which writes commit which commands

`Kernel.commits` reads off two states which command a write between them has added to the ring;
`Device.committed` says which one it has to be (`Shows.aesdWrite_ok`). A sequence of writes
commits the concatenation (`Shows.aesdWrites_ok`). What matters about the sequence is where its
pieces end: pieces that do not end with a newline are one piece (`Device.write_write`), and so
are the pieces of a line (`Device.foldl_write_cut`). -/

namespace Aesd

open CInt CircArray Delimited Kernel

/-! ## Commits of the memory -/

namespace Device

variable {d : Device}

/-- The command a write commits, if any. -/
def committed (d : Device) (buf : List UInt8) : List (List UInt8) :=
  if endsCommand (d.pending ++ buf) then [d.pending ++ buf] else []

/-- The commands committed by writes, one after the other. -/
def commitsOf (d : Device) : List (List UInt8) → List (List UInt8)
  | [] => []
  | buf :: rest => d.committed buf ++ (d.write buf).commitsOf rest

/-- Two writes are one if the first does not end a command. -/
theorem write_write {a b : List UInt8} (ha : endsCommand (d.pending ++ a) = false) :
    (d.write a).write b = d.write (a ++ b) := by
  obtain ⟨hcommands, hpending⟩ := write_of_open d a ha
  have hsame : (d.write a).pending ++ b = d.pending ++ (a ++ b) := by
    rw [hpending, List.append_assoc]
  cases hend : endsCommand (d.pending ++ (a ++ b)) with
  | true =>
      have h₁ := write_of_ends (d.write a) b (by rwa [hsame])
      have h₂ := write_of_ends d (a ++ b) hend
      ext1
      · rw [h₁.1, h₂.1, hcommands, hsame]
      · rw [h₁.2, h₂.2]
  | false =>
      have h₁ := write_of_open (d.write a) b (by rwa [hsame])
      have h₂ := write_of_open d (a ++ b) hend
      ext1
      · rw [h₁.1, h₂.1, hcommands]
      · rw [h₁.2, h₂.2, hsame]

/-- A piece that does not end with a newline stays pending. -/
theorem endsCommand_pending {c : List UInt8} (hc : c ≠ []) (hend : c.getLast? ≠ some newline) :
    endsCommand (d.pending ++ c) = false := by
  rw [endsCommand_append hc, endsCommand, beq_eq_false_iff_ne]
  exact hend

theorem getLast?_ne_newline {c : List UInt8} (hc : newline ∉ c) : c.getLast? ≠ some newline :=
  fun hend => hc (List.mem_of_getLast? hend)

/-- Nor do any bytes without one. -/
theorem endsCommand_of_notMem (d : Device) {c : List UInt8} (hc : newline ∉ c) :
    endsCommand (d.pending ++ c) = false := by
  cases c with
  | nil => rw [List.append_nil, d.pending_open]
  | cons b rest => exact endsCommand_pending (by simp) (getLast?_ne_newline hc)

theorem endsCommand_line (xs m : List UInt8) : endsCommand (xs ++ (m ++ [newline])) = true := by
  simp [endsCommand]

/-- **The pieces of a line are one write.** -/
theorem foldl_write_cut {chunks : List (List UInt8)} {m : List UInt8} (h : Cut newline chunks m) :
    chunks.foldl Device.write d = d.write (m ++ [newline]) := by
  induction h generalizing d with
  | last => rfl
  | piece hc hnl _ ih =>
      rw [List.foldl_cons, ih, write_write (endsCommand_pending hc (getLast?_ne_newline hnl)),
        List.append_assoc]

/-- They commit one command: what was pending, and the line. -/
theorem commitsOf_cut {chunks : List (List UInt8)} {m : List UInt8} (h : Cut newline chunks m) :
    d.commitsOf chunks = [d.pending ++ (m ++ [newline])] := by
  induction h generalizing d with
  | last => rw [commitsOf, commitsOf, committed, if_pos (endsCommand_line _ _), List.append_nil]
  | piece hc hnl _ ih =>
      have hopen := endsCommand_pending (d := d) hc (getLast?_ne_newline hnl)
      rw [commitsOf, committed, hopen, ih, (write_of_open d _ hopen).2]
      simp

end Device

/-! ## Commits of the driver -/

/-- The command a call has added to the ring, read off the states before and after it: a call
adds at most one, and `in_offs` moves exactly when it does. -/
def Kernel.commits (k k' : Kernel) : List (List UInt8) :=
  if k'.aesdDevice.circularBuffer.inOffs = k.aesdDevice.circularBuffer.inOffs then []
  else match k'.ringContents with
    | .ok commands => commands.getLast?.toList
    | .error _ => []

theorem AesdCircularBuffer.addEntry_inOffs (buffer : AesdCircularBuffer) (e : AesdBufferEntry) :
    (buffer.addEntry e).2.inOffs = (buffer.inOffs + 1) % maxWriteOperationsSupported := by
  cases hf : buffer.full with
  | true => rw [addEntry_of_full e hf]
  | false => rw [addEntry_of_not_full e hf]

/-- The arguments of a call of `aesd_write`. -/
structure WriteArgs where
  buf : List UInt8
  choice : Option KmallocBlock
  uncopied : Nat

/-- What user space can pass: at least one byte, and no more than the VFS lets through. -/
def WriteArgs.Counted (w : WriteArgs) : Prop := w.buf ≠ [] ∧ w.buf.length ≤ maxRwCount

/-- Calls of `aesd_write`, one after the other: what they return, the commands they commit, and
the state. -/
def aesdWrites (api : KernelApi) (k : Kernel) :
    List WriteArgs → Except Fault (List Int × List (List UInt8) × Kernel)
  | [] => .ok ([], [], k)
  | w :: rest => do
      let (ret, k₁) ← aesdWrite api k w.buf w.choice w.uncopied
      let (rets, commands, k₂) ← aesdWrites api k₁ rest
      return (ret :: rets, k.commits k₁ ++ commands, k₂)

section

variable {api : KernelApi} {k k' : Kernel} {d : Device}

/-- The commits of a step of the ring. -/
theorem Kernel.Shows.commits_eq {buf : List UInt8} (h : k.Shows api d)
    (h' : k'.Shows api (d.write buf)) (hring : k.RingStep k' (endsCommand (d.pending ++ buf))) :
    k.commits k' = d.committed buf := by
  have hin : k.aesdDevice.circularBuffer.inOffs < maxWriteOperationsSupported := by
    obtain ⟨staged, ring, hr⟩ := h
    exact hr.wellFormed.inOffs_lt
  have hmax := maxWriteOperationsSupported_eq
  rw [Kernel.commits, h'.ringContents_eq, Device.committed]
  cases hend : endsCommand (d.pending ++ buf) with
  | false =>
      rw [RingStep, hend, if_neg (by decide)] at hring
      rw [hring, if_pos rfl, if_neg (by decide)]
  | true =>
      rw [RingStep, hend, if_pos rfl] at hring
      obtain ⟨e, he⟩ := hring
      -- one step in a ring of ten slots does not end where it started
      have hmoved : k'.aesdDevice.circularBuffer.inOffs
          ≠ k.aesdDevice.circularBuffer.inOffs := by
        rw [he, AesdCircularBuffer.addEntry_inOffs, hmax]
        omega
      rw [if_neg hmoved, if_pos rfl, (Device.write_of_ends d buf hend).1,
        rtake_concat _ _ (by decide)]
      simp

/-- **A write that succeeds**: the bytes are appended, and the command it ends is committed. -/
theorem Kernel.Shows.aesdWrite_ok {buf : List UInt8} {choice : Option KmallocBlock}
    {uncopied : Nat} {ret : Int} (h : k.Shows api d) (hne : buf ≠ [])
    (hcount : buf.length ≤ maxRwCount)
    (hw : aesdWrite api k buf choice uncopied = .ok (ret, k')) (hret : 0 ≤ ret) :
    k'.Shows api (d.write buf) ∧ k.commits k' = d.committed buf := by
  obtain ⟨staged, ring, hr⟩ := id h
  have hne' : d.pending ++ buf ≠ [] := fun hnil => hne (List.append_eq_nil_iff.mp hnil).2
  rcases hr.aesdWrite_cases buf choice uncopied hne' hcount with hw' | hw' | ⟨k₁, hw', h₁, -, hring⟩
  · rw [hw] at hw'
    obtain ⟨rfl, -⟩ := Prod.mk.inj (Except.ok.inj hw')
    exact absurd hret (by decide)
  · rw [hw] at hw'
    obtain ⟨rfl, -⟩ := Prod.mk.inj (Except.ok.inj hw')
    exact absurd hret (by decide)
  · rw [hw] at hw'
    obtain ⟨-, rfl⟩ := Prod.mk.inj (Except.ok.inj hw')
    exact ⟨h₁, h.commits_eq h₁ hring⟩

/-- **Writes that succeed**, one after the other. -/
theorem Kernel.Shows.aesdWrites_ok {ws : List WriteArgs} {rets : List Int}
    {commands : List (List UInt8)} (h : k.Shows api d) (hws : ∀ w ∈ ws, w.Counted)
    (hrun : aesdWrites api k ws = .ok (rets, commands, k')) (hrets : ∀ r ∈ rets, 0 ≤ r) :
    k'.Shows api ((ws.map WriteArgs.buf).foldl Device.write d)
      ∧ commands = d.commitsOf (ws.map WriteArgs.buf) := by
  induction ws generalizing k d rets commands with
  | nil =>
      cases hrun
      exact ⟨h, rfl⟩
  | cons w rest ih =>
      obtain ⟨⟨ret, k₁⟩, hw, hrun⟩ := bind_eq_ok.mp hrun
      obtain ⟨⟨rets', commands', k₂⟩, hrest, hrun⟩ := bind_eq_ok.mp hrun
      cases hrun
      obtain ⟨hne, hcount⟩ := hws w (by simp)
      obtain ⟨h₁, hcommits⟩ := h.aesdWrite_ok hne hcount hw (hrets ret (by simp))
      obtain ⟨h₂, hcommands⟩ := ih h₁ (fun w' hw' => hws w' (List.mem_cons_of_mem _ hw'))
        hrest (fun r hr => hrets r (List.mem_cons_of_mem _ hr))
      refine ⟨h₂, ?_⟩
      rw [hcommits, hcommands]
      rfl

/-- Two states hold the same bytes, with the same counters. -/
structure Kernel.SameContents (k k' : Kernel) : Prop where
  staging : ∃ pend, k.stagingContents = .ok pend ∧ k'.stagingContents = .ok pend
  staging_size : k.aesdDevice.stagingEntry.size = k'.aesdDevice.stagingEntry.size
  ring : ∃ commands, k.ringContents = .ok commands ∧ k'.ringContents = .ok commands
  numEntries : k.aesdDevice.circularBuffer.numEntries = k'.aesdDevice.circularBuffer.numEntries
  size : k.aesdDevice.circularBuffer.size = k'.aesdDevice.circularBuffer.size

/-- States that show the same memory. -/
theorem Kernel.Shows.sameContents (h : k.Shows api d) (h' : k'.Shows api d) :
    k.SameContents k' where
  staging := ⟨_, h.stagingContents_eq, h'.stagingContents_eq⟩
  staging_size := h.staging_size.trans h'.staging_size.symm
  ring := ⟨_, h.ringContents_eq, h'.ringContents_eq⟩
  numEntries := by
    obtain ⟨staged, ring, hr⟩ := h
    obtain ⟨staged', ring', hr'⟩ := h'
    rw [hr.numEntries_eq, hr'.numEntries_eq]
  size := by
    obtain ⟨staged, ring, hr⟩ := h
    obtain ⟨staged', ring', hr'⟩ := h'
    rw [hr.wellFormed.size_eq, hr.totalSize_eq, hr'.wellFormed.size_eq, hr'.totalSize_eq]

end

/-! ## Splitting a write -/

/-- **Splitting a write does not matter unless a piece ends with a newline.** In every state a
run can lead to, with all allocations and copies succeeding: two writes, the first of which does
not end with a newline, leave what one write of all the bytes leaves, and commit the same; and
with nothing pending, the pieces of a line commit that line and nothing else, and leave nothing
pending. -/
theorem aesdWrites_split (api : KernelApi) (dev : AesdDev) (calls : List DevCall)
    (rs : List SysRet) (k : Kernel) (hcalls : ∀ c ∈ calls, c.InRange)
    (hrun : (Kernel.loaded dev).run api calls = .ok (rs, k)) :
    (∀ (a b ab : WriteArgs) (rets rets' : List Int) (commands commands' : List (List UInt8))
        (k₂ k' : Kernel),
      a.buf ≠ [] → b.buf ≠ [] → a.buf.getLast? ≠ some newline → ab.buf = a.buf ++ b.buf →
        ab.buf.length ≤ maxRwCount →
        aesdWrites api k [a, b] = .ok (rets, commands, k₂) → (∀ r ∈ rets, 0 ≤ r) →
        aesdWrites api k [ab] = .ok (rets', commands', k') → (∀ r ∈ rets', 0 ≤ r) →
        k₂.SameContents k' ∧ commands = commands')
    ∧ ∀ (m : List UInt8) (ws : List WriteArgs) (rets : List Int) (commands : List (List UInt8))
        (k' : Kernel),
      newline ∉ m → k.aesdDevice.stagingEntry.size = 0 → (∀ w ∈ ws, w.Counted) →
        (ws.map WriteArgs.buf).flatten = m ++ [newline] →
        aesdWrites api k ws = .ok (rets, commands, k') → (∀ r ∈ rets, 0 ≤ r) →
        commands = [m ++ [newline]] ∧ k'.aesdDevice.stagingEntry = .zero
          ∧ ∃ ring, k.ringContents = .ok ring
            ∧ k'.ringContents
              = .ok ((ring ++ [m ++ [newline]]).rtake maxWriteOperationsSupported) := by
  have hshows := (Kernel.loaded_shows api dev).run hcalls hrun
  set d := Device.empty.afterAll calls rs with hd
  constructor
  · -- both runs are described by the writes of the memory, which agree
    intro a b ab rets rets' commands commands' k₂ k' ha hb hend hab hcount htwo hrets hone hrets'
    have hopen := Device.endsCommand_pending (d := d) ha hend
    have hlen : a.buf.length + b.buf.length ≤ maxRwCount := by
      rwa [hab, List.length_append] at hcount
    have hws : ∀ w ∈ [a, b], w.Counted := by
      intro w hw
      rcases List.mem_pair.mp hw with rfl | rfl
      · exact ⟨ha, by omega⟩
      · exact ⟨hb, by omega⟩
    have hws' : ∀ w ∈ [ab], w.Counted := by
      intro w hw
      obtain rfl := List.mem_singleton.mp hw
      exact ⟨by rw [hab]; simp [ha], hcount⟩
    obtain ⟨h₂, hcommands⟩ := hshows.aesdWrites_ok hws htwo hrets
    obtain ⟨h', hcommands'⟩ := hshows.aesdWrites_ok hws' hone hrets'
    have hsame : (d.write a.buf).write b.buf = d.write ab.buf := by
      rw [Device.write_write hopen, hab]
    have hpend : (d.write a.buf).pending ++ b.buf = d.pending ++ ab.buf := by
      rw [(Device.write_of_open d _ hopen).2, hab, List.append_assoc]
    constructor
    · refine h₂.sameContents ?_
      show k'.Shows api ((d.write a.buf).write b.buf)
      rw [hsame]
      exact h'
    · rw [hcommands, hcommands']
      simp [Device.commitsOf, Device.committed, hopen, hpend]
  · -- the pieces of a line: only the last one ends a command
    intro m ws rets commands k' hm hempty hws hflat hw hrets
    have hpend : d.pending = [] :=
      List.eq_nil_of_length_eq_zero (hshows.staging_size.symm.trans hempty)
    have hcut : Delimited.Cut newline (ws.map WriteArgs.buf) m := by
      refine Cut.of_flatten (fun c hc => ?_) hm hflat
      obtain ⟨w, hw, rfl⟩ := List.mem_map.mp hc
      exact (hws w hw).1
    obtain ⟨h', hcommands⟩ := hshows.aesdWrites_ok hws hw hrets
    rw [Device.foldl_write_cut hcut] at h'
    have hline := Device.write_of_ends d (m ++ [newline]) (Device.endsCommand_line _ _)
    refine ⟨?_, h'.staging_zero hline.2, d.commands, hshows.ringContents_eq, ?_⟩
    · rw [hcommands, Device.commitsOf_cut hcut, hpend, List.nil_append]
    · rw [h'.ringContents_eq, hline.1, hpend, List.nil_append]

theorem aesdWrites_split_oneLine :
    let a : WriteArgs := ⟨[65], some ⟨1, fun _ => 0⟩, 0⟩
    let b : WriteArgs := ⟨[66, newline], some ⟨2, fun _ => 0⟩, 0⟩
    let ab : WriteArgs := ⟨[65, 66, newline], some ⟨3, fun _ => 0⟩, 0⟩
    ∃ (rets rets' : List Int) (commands commands' : List (List UInt8)) (k₂ k' : Kernel),
      aesdWrites .linux (Kernel.loaded .zero) [a, b] = .ok (rets, commands, k₂)
      ∧ aesdWrites .linux (Kernel.loaded .zero) [ab] = .ok (rets', commands', k')
      ∧ k₂.SameContents k' ∧ commands = commands'
      ∧ commands = [[65, 66] ++ [newline]] ∧ k₂.aesdDevice.stagingEntry = .zero := by
  obtain ⟨k₁, hfirst, k₂, hsecond⟩ : ∃ k₁,
      aesdWrite .linux (Kernel.loaded .zero) [65] (some ⟨1, fun _ => 0⟩) 0 = .ok (1, k₁)
      ∧ ∃ k₂, aesdWrite .linux k₁ [66, newline] (some ⟨2, fun _ => 0⟩) 0 = .ok (2, k₂) :=
    ⟨_, rfl, _, rfl⟩
  obtain ⟨k', hwhole⟩ : ∃ k',
      aesdWrite .linux (Kernel.loaded .zero) [65, 66, newline] (some ⟨3, fun _ => 0⟩) 0
        = .ok (3, k') := ⟨_, rfl⟩
  intro a b ab
  have htwo : aesdWrites .linux (Kernel.loaded .zero) [a, b]
      = .ok ([1, 2], (Kernel.loaded .zero).commits k₁ ++ (k₁.commits k₂ ++ []), k₂) := by
    simp only [aesdWrites, a, b, hfirst, hsecond, bind, Except.bind, pure, Except.pure]
  have hone : aesdWrites .linux (Kernel.loaded .zero) [ab]
      = .ok ([3], (Kernel.loaded .zero).commits k' ++ [], k') := by
    simp only [aesdWrites, ab, hwhole, bind, Except.bind, pure, Except.pure]
  obtain ⟨hsplit, hline⟩ := aesdWrites_split .linux .zero [] [] (Kernel.loaded .zero) (by simp) rfl
  obtain ⟨hsame, hcommands⟩ := hsplit a b ab _ _ _ _ k₂ k' (by decide)
    (by decide) (by decide) rfl (by decide) htwo (by decide) hone (by decide)
  obtain ⟨hcommit, hzero, -⟩ := hline [65, 66] [a, b] _ _ k₂ (by decide) rfl
    (by simp [a, b, WriteArgs.Counted, maxRwCount]) rfl htwo (by decide)
  exact ⟨_, _, _, _, k₂, k', htwo, hone, hsame, hcommands, hcommit, hzero⟩

end Aesd
