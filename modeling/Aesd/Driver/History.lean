import Aesd.Driver.Runs

set_option autoImplicit false

/-! # The history of a run

What the device holds after any run is a function of the bytes written so far and of the places
where the writes ended: the history is the evicted commands, the commands in the ring and the
pending bytes, in this order (`HistoryLaw`), and a read returns a piece of it. -/

namespace Aesd

open CInt CircArray FlatIndex Gather Kernel

/-! ## The contents of the entries -/

/-- The bytes of an entry, loaded from kernel memory. -/
def Kernel.entryBytes (k : Kernel) (e : AesdBufferEntry) : Except Fault (List UInt8) :=
  k.load e.buffptr 0 e.size

/-- The contents of the live ring entries, oldest first. -/
def Kernel.ringContents (k : Kernel) : Except Fault (List (List UInt8)) :=
  k.aesdDevice.circularBuffer.live.mapM k.entryBytes

/-- The contents of the staging entry. -/
def Kernel.stagingContents (k : Kernel) : Except Fault (List UInt8) :=
  k.entryBytes k.aesdDevice.stagingEntry

section

variable {api : KernelApi} {k : Kernel} {d : Device}

theorem Kernel.entryBytes_entryOf {cell : Cell} (hb : k.heap.block cell.1 = some cell.2) :
    k.entryBytes (entryOf cell) = .ok cell.2 := by
  have h := load_of_block 0 cell.2.length hb (by omega)
  rwa [List.drop_zero, List.take_length] at h

theorem Kernel.mapM_entryBytes {cells : List Cell}
    (hb : ∀ cell ∈ cells, k.heap.block cell.1 = some cell.2) :
    (cells.map entryOf).mapM k.entryBytes = .ok (cells.map Prod.snd) := by
  induction cells with
  | nil => rfl
  | cons cell rest ih =>
      rw [List.map_cons, List.mapM_cons, entryBytes_entryOf (hb cell (by simp)),
        ih (fun cell' hmem => hb cell' (List.mem_cons_of_mem _ hmem))]
      rfl

/-- The ring holds the complete commands. -/
theorem Kernel.Shows.ringContents_eq (h : k.Shows api d) : k.ringContents = .ok d.commands := by
  obtain ⟨staged, ring, h⟩ := h
  rw [ringContents, h.live, ← h.commands]
  exact mapM_entryBytes fun cell hmem => h.heap.block (List.mem_append_right _ hmem)

/-- The staging entry holds the pending bytes. -/
theorem Kernel.Shows.stagingContents_eq (h : k.Shows api d) :
    k.stagingContents = .ok d.pending := by
  obtain ⟨staged, ring, h⟩ := h
  rw [stagingContents, h.staging, ← h.pending]
  cases staged with
  | none => rfl
  | some cell => exact entryBytes_entryOf (h.heap.block (by simp))

/-- A read that delivers bytes delivers a piece of the content. -/
theorem Kernel.Shows.read_bytes {k' : Kernel} (h : k.Shows api d) {f : FileId} {p : Nat}
    (hp : k.fPos f = some p) {count uncopied : Nat} {r : SysRet}
    (hcall : k.call api (.read f count uncopied) = .ok (r, k')) (hpos : 0 < r.ret) :
    r.bytes = (d.flat.drop p).take r.ret.toNat ∧ p + r.ret.toNat ≤ d.flat.length := by
  obtain ⟨staged, ring, h⟩ := h
  have hread := h.aesdRead_eq count p uncopied
  by_cases hleft : min uncopied (d.readLen count p) > 0
  · -- a failed copy delivers nothing
    simp only [if_pos hleft] at hread
    simp only [Kernel.call, hp, hread, bind, Except.bind, pure, Except.pure] at hcall
    obtain ⟨rfl, -⟩ := Prod.mk.inj (Except.ok.inj hcall)
    exact absurd hpos (by simp [EFAULT])
  · simp only [if_neg hleft] at hread
    simp only [Kernel.call, hp, hread, bind, Except.bind, pure, Except.pure] at hcall
    obtain ⟨rfl, -⟩ := Prod.mk.inj (Except.ok.inj hcall)
    refine ⟨rfl, ?_⟩
    have hn : 0 < d.readLen count p := Int.natCast_pos.mp hpos
    have hcount : 0 < count := Nat.lt_of_lt_of_le hn (d.readLen_le_count count p)
    have hlt : p < d.flat.length := by
      by_contra hge
      rw [Device.readLen_of_le count (Nat.le_of_not_lt hge)] at hn
      exact Nat.lt_irrefl 0 hn
    exact (Device.readLen_of_lt hcount hlt).2

end

/-! ## The memory as a function of the writes -/

/-- **The memory after a sequence of writes**: they are gathered into commands, and the last ten
are kept. -/
theorem Device.foldl_write (writes : List (List UInt8)) :
    (writes.foldl Device.write Device.empty).commands
        = (gather endsCommand writes).1.rtake maxWriteOperationsSupported
      ∧ (writes.foldl Device.write Device.empty).pending = (gather endsCommand writes).2 := by
  induction writes using List.reverseRecOn with
  | nil => exact ⟨rfl, rfl⟩
  | append_singleton writes buf ih =>
      obtain ⟨hcommands, hpending⟩ := ih
      rw [gather_concat, gatherStep, List.foldl_append, List.foldl_cons, List.foldl_nil]
      rcases eq_or_ne buf [] with rfl | hbuf
      · -- an empty piece closes nothing
        rw [Device.write_nil, if_neg (by decide), List.append_nil]
        exact ⟨hcommands, hpending⟩
      · cases hend : endsCommand buf with
        | true =>
            have h := Device.write_of_ends (writes.foldl Device.write Device.empty) buf
              (by rwa [Device.endsCommand_append hbuf])
            rw [if_pos rfl, h.1, h.2, hcommands, hpending, rtake_rtake_append]
            exact ⟨rfl, rfl⟩
        | false =>
            have h := Device.write_of_open (writes.foldl Device.write Device.empty) buf
              (by rwa [Device.endsCommand_append hbuf])
            rw [if_neg (by decide), h.1, h.2, hcommands, hpending]
            exact ⟨rfl, rfl⟩

/-- One write commits at most one command, and evicts the oldest one when there are ten. -/
theorem Device.write_commands (d : Device) (buf : List UInt8) :
    (d.write buf).commands = d.commands
      ∨ ∃ cmd, (d.commands.length < maxWriteOperationsSupported
            ∧ (d.write buf).commands = d.commands ++ [cmd])
          ∨ (d.commands.length = maxWriteOperationsSupported
            ∧ (d.write buf).commands = d.commands.tail ++ [cmd]) := by
  have hlen := d.length_le
  cases hend : endsCommand (d.pending ++ buf) with
  | false => exact Or.inl (write_of_open d buf hend).1
  | true =>
      refine Or.inr ⟨d.pending ++ buf, ?_⟩
      rw [(write_of_ends d buf hend).1, rtake_concat _ _ (by decide), rtake_of_length_le hlen]
      by_cases hroom : d.commands.length < maxWriteOperationsSupported
      · exact Or.inl ⟨hroom, by rw [if_pos hroom]⟩
      · exact Or.inr ⟨by omega, by rw [if_neg hroom]⟩

section

variable {api : KernelApi} {k k' : Kernel} {d : Device}

/-- One call commits at most one command. -/
theorem Kernel.Shows.call_commands (h : k.Shows api d) {c : DevCall} (hc : c.InRange) {r : SysRet}
    (hcall : k.call api c = .ok (r, k')) :
    k'.ringContents = .ok d.commands
      ∨ ∃ cmd, (d.commands.length < maxWriteOperationsSupported
            ∧ k'.ringContents = .ok (d.commands ++ [cmd]))
          ∨ (d.commands.length = maxWriteOperationsSupported
            ∧ k'.ringContents = .ok (d.commands.tail ++ [cmd])) := by
  have h' := (h.call hc hcall).1
  rw [h'.ringContents_eq, Device.after]
  cases c.added r with
  | none => exact Or.inl rfl
  | some buf =>
      rcases d.write_commands buf with heq | ⟨cmd, ⟨hlen, heq⟩ | ⟨hlen, heq⟩⟩
      · exact Or.inl (congrArg Except.ok heq)
      · exact Or.inr ⟨cmd, Or.inl ⟨hlen, congrArg Except.ok heq⟩⟩
      · exact Or.inr ⟨cmd, Or.inr ⟨hlen, congrArg Except.ok heq⟩⟩

end

/-! ## The law -/

/-- **The history law** at a state, where `writes` are the successful writes that led to it:
`evicted` are the commands that have fallen out, `ring` the contents of the live entries and
`pend` the content of the staging entry. -/
structure HistoryLaw (api : KernelApi) (k : Kernel) (writes evicted ring : List (List UInt8))
    (pend : List UInt8) : Prop where
  ring_eq : k.ringContents = .ok ring
  staging_eq : k.stagingContents = .ok pend
  /-- Nothing is lost, added or reordered. -/
  history : writes.flatten = evicted.flatten ++ ring.flatten ++ pend
  length_le : ring.length ≤ maxWriteOperationsSupported
  ring_ends : ∀ c ∈ ring, c ≠ [] ∧ c.getLast? = some newline
  pend_open : pend.getLast? ≠ some newline
  /-- The history is cut after each write that ends with a newline, and nowhere else. -/
  cuts : gather endsCommand writes = (evicted ++ ring, pend)
  evicted_full : evicted ≠ [] → ring.length = maxWriteOperationsSupported
  /-- One more call evicts the oldest command if it commits an eleventh one. -/
  next : ∀ (c : DevCall) (r : SysRet) (k' : Kernel), c.Counted → k.call api c = .ok (r, k') →
    k'.ringContents = .ok ring
      ∨ ∃ cmd, (ring.length < maxWriteOperationsSupported
            ∧ k'.ringContents = .ok (ring ++ [cmd]))
          ∨ (ring.length = maxWriteOperationsSupported
            ∧ k'.ringContents = .ok (ring.tail ++ [cmd]))
  /-- A read that delivers bytes delivers them from the history, behind what is evicted. -/
  reads : ∀ (f : FileId) (p count uncopied : Nat) (r : SysRet) (k' : Kernel),
    k.fPos f = some p → k.call api (.read f count uncopied) = .ok (r, k') → 0 < r.ret →
      r.bytes = (writes.flatten.drop (evicted.flatten.length + p)).take r.ret.toNat
        ∧ evicted.flatten.length + p + r.ret.toNat ≤ writes.flatten.length

/-- A state that shows the memory made by some writes satisfies the law for them. -/
theorem Kernel.Shows.historyLaw {api : KernelApi} {k : Kernel} {writes : List (List UInt8)}
    (h : k.Shows api (writes.foldl Device.write Device.empty)) :
    HistoryLaw api k writes
      ((gather endsCommand writes).1.rdrop maxWriteOperationsSupported)
      ((gather endsCommand writes).1.rtake maxWriteOperationsSupported)
      (gather endsCommand writes).2 := by
  obtain ⟨hcommands, hpending⟩ := Device.foldl_write writes
  set d := writes.foldl Device.write Device.empty with hd
  have hsplit := rdrop_append_rtake (n := maxWriteOperationsSupported)
    (gather endsCommand writes).1
  rw [← hcommands] at hsplit ⊢
  rw [← hpending]
  -- the commands that were dropped and those that were kept are all commands
  have hhistory : writes.flatten
      = ((gather endsCommand writes).1.rdrop maxWriteOperationsSupported).flatten
        ++ d.commands.flatten ++ d.pending := by
    rw [← flatten_gather endsCommand writes, ← List.flatten_append, hsplit, hpending]
  exact {
    ring_eq := h.ringContents_eq
    staging_eq := h.stagingContents_eq
    history := hhistory
    length_le := d.length_le
    ring_ends := by
      intro c hc
      have hend := d.commands_end c hc
      exact ⟨Device.ne_nil_of_endsCommand hend, beq_iff_eq.mp hend⟩
    pend_open := beq_eq_false_iff_ne.mp d.pending_open
    cuts := by rw [hsplit, hpending]
    evicted_full := by
      intro hne
      rw [hcommands, length_rtake]
      have : (gather endsCommand writes).1.length - maxWriteOperationsSupported ≠ 0 := by
        intro hzero
        rw [List.rdrop, hzero, List.take_zero] at hne
        exact hne rfl
      omega
    next := by
      intro c r k' hc hcall
      exact h.call_commands hc.inRange hcall
    reads := by
      intro f p count uncopied r k' hp hcall hpos
      obtain ⟨hbytes, hle⟩ := h.read_bytes hp hcall hpos
      rw [hbytes]
      exact take_drop_middle hhistory hle }

/-- **The history of a run.** After any run without empty writes, whatever fails on the way, the
history law holds for the bytes of the writes that succeeded. -/
theorem run_historyLaw (api : KernelApi) (dev : AesdDev) (calls : List DevCall)
    (hcalls : ∀ c ∈ calls, c.Counted) :
    ∃ (rs : List SysRet) (k : Kernel), (Kernel.loaded dev).run api calls = .ok (rs, k)
      ∧ ∃ (evicted ring : List (List UInt8)) (pend : List UInt8),
        HistoryLaw api k (successfulWrites calls rs) evicted ring pend := by
  have hinit := Kernel.loaded_shows api dev
  obtain ⟨rs, k, hrun⟩ := hinit.run_ok calls hcalls
  exact ⟨rs, k, hrun, _, _, _, (hinit.run (fun c hc => (hcalls c hc).inRange) hrun).historyLaw⟩

/-- A run that fills the ring, fails to allocate, evicts, and reads. -/
def elevenWrites : List DevCall :=
  .openFile 0 ::
    (List.range 11).map (fun i => .write 0 [65, newline] (some ⟨i, fun _ => 0⟩) 0)
    ++ [.write 0 [66] none 0, .write 0 [66] (some ⟨0, fun _ => 0⟩) 0, .read 0 100 0]

theorem run_historyLaw_elevenWrites :
    ∃ (rs : List SysRet) (k : Kernel),
      (Kernel.loaded .zero).run .linux elevenWrites = .ok (rs, k)
      ∧ ∃ (evicted ring : List (List UInt8)) (pend : List UInt8),
        HistoryLaw .linux k (successfulWrites elevenWrites rs) evicted ring pend :=
  run_historyLaw .linux .zero elevenWrites (by
    simp [elevenWrites, List.range_succ, DevCall.Counted, maxRwCount])

end Aesd
