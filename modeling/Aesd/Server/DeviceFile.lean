import Aesd.Driver.Commits
import Aesd.Driver.Drain
import Aesd.Server.Message

set_option autoImplicit false

/-! # The server on the character device

`FileOps` for a file opened on `/dev/aesdchar`, the build with `USE_AESD_CHAR_DEVICE`, and what
the functions of the server do to it: a write succeeds if the kernel grants it
(`deviceFile_write_nonneg_iff`), the chunks of one message make one command if all of them are
granted (`writeChunks_cut`), reads deliver the content of the ring (`deviceFile_reads`), and a
seek command moves the position and nothing else. -/

namespace Aesd

open CInt Delimited FlatIndex Kernel

/-- What the kernel decides during one call: the block `kmalloc` picks, and how many bytes a copy
leaves out. -/
structure Services where
  choice : Option KmallocBlock
  uncopied : Nat

/-- The system calls on the open file `f` of the device. -/
def deviceFile (api : KernelApi) (f : FileId) : FileOps Kernel Services where
  write env buf k := do
    let (r, k) ← k.call api (.write f buf env.choice env.uncopied)
    return (r.ret, k)
  read env count k := do
    let (r, k) ← k.call api (.read f count env.uncopied)
    return (r.ret, r.bytes, k)
  ioctl env cmd seekto k := do
    let (r, k) ← k.call api (.ioctl f cmd seekto env.uncopied)
    return (r.ret, k)

/-! ## Which writes succeed -/

/-- The kernel grants a write: `kmalloc` returns a block, and the copy from user space is
complete. -/
def Kernel.Grants (api : KernelApi) (k : Kernel) (buf : List UInt8) (env : Services) : Prop :=
  (k.kmalloc api (sizeT (buf.length + k.aesdDevice.stagingEntry.size)) env.choice).1 ≠ .null
    ∧ min env.uncopied buf.length = 0

/-- It grants the first of the writes. -/
def Kernel.GrantsFirst (api : KernelApi) (k : Kernel) (chunks : List (Chunk Services)) : Prop :=
  ∃ c ∈ chunks.head?, k.Grants api c.bytes c.env

/-- It grants all of them, each in the state the ones before it lead to. -/
def Kernel.GrantsAll (api : KernelApi) (f : FileId) : Kernel → List (Chunk Services) → Prop
  | _, [] => True
  | k, c :: rest => k.Grants api c.bytes c.env
      ∧ ∀ ret k', (deviceFile api f).write c.env c.bytes k = .ok (ret, k') →
          GrantsAll api f k' rest

section

variable {api : KernelApi} {k k' : Kernel} {d : Device} {f : FileId} {p : Nat}

theorem Kernel.kmalloc_locked (api : KernelApi) (k : Kernel) (size : Nat)
    (choice : Option KmallocBlock) :
    (k.locked.kmalloc api size choice).1 = (k.kmalloc api size choice).1 := by
  have hheap : k.locked.heap = k.heap := rfl
  simp only [kmalloc, hheap]
  split
  · rfl
  · cases choice with
    | none => rfl
    | some b =>
        by_cases hno : api.kmallocMaxSize < size ∨ k.heap.Live b.addr
        · simp only [if_pos hno]
        · simp only [if_neg hno]

/-- **`aesd_write` succeeds exactly if the kernel grants it.** -/
theorem aesdWrite_nonneg_iff {buf : List UInt8} {env : Services} {ret : Int}
    (hw : aesdWrite api k buf env.choice env.uncopied = .ok (ret, k')) :
    0 ≤ ret ↔ k.Grants api buf env := by
  obtain ⟨k₁, hlock, hw⟩ := bind_eq_ok.mp hw
  obtain rfl : k.locked = k₁ := by
    unfold mutexLock at hlock
    split at hlock <;> cases hlock
    rfl
  have hstaging : k.locked.aesdDevice.stagingEntry = k.aesdDevice.stagingEntry := rfl
  rw [Kernel.Grants, ← kmalloc_locked, ← hstaging]
  simp only at hw
  generalize k.locked.kmalloc api
    (sizeT (buf.length + k.locked.aesdDevice.stagingEntry.size)) env.choice = m at hw ⊢
  obtain ⟨bufferptr, k₂⟩ := m
  by_cases hnull : bufferptr = .null
  · simp only [hnull, if_true] at hw
    cases hw
    exact iff_of_false (by decide) fun h => h.1 hnull
  · simp only [hnull, if_false] at hw
    obtain ⟨k₃, -, hw⟩ := bind_eq_ok.mp hw
    obtain ⟨⟨left, k₄⟩, hcopy, hw⟩ := bind_eq_ok.mp hw
    obtain ⟨k₅, -, hcopy⟩ := bind_eq_ok.mp hcopy
    cases hcopy
    by_cases hleft : min env.uncopied buf.length > 0
    · simp only [if_pos hleft] at hw
      obtain ⟨k₆, -, hw⟩ := bind_eq_ok.mp hw
      cases hw
      exact iff_of_false (by decide) fun h => absurd h.2 (by omega)
    · simp only [if_neg hleft] at hw
      obtain ⟨k₆, -, hw⟩ := bind_eq_ok.mp hw
      obtain ⟨k₇, -, hw⟩ := bind_eq_ok.mp hw
      cases hw
      exact iff_of_true (Int.natCast_nonneg _) ⟨hnull, by omega⟩

/-- The same for a write through an open file. -/
theorem deviceFile_write_nonneg_iff (hp : k.fPos f = some p) {bytes : List UInt8} {env : Services}
    {ret : Int} (hw : (deviceFile api f).write env bytes k = .ok (ret, k')) :
    0 ≤ ret ↔ k.Grants api bytes env := by
  obtain ⟨⟨r, k₁⟩, hcall, hw⟩ := bind_eq_ok.mp hw
  cases hw
  simp only [Kernel.call, hp] at hcall
  obtain ⟨⟨ret, k₂⟩, hwrite, hcall⟩ := bind_eq_ok.mp hcall
  cases hcall
  exact aesdWrite_nonneg_iff hwrite

theorem Kernel.GrantsAll.cons_iff {c : Chunk Services} {rest : List (Chunk Services)} {ret : Int}
    (hg : k.Grants api c.bytes c.env)
    (hw : (deviceFile api f).write c.env c.bytes k = .ok (ret, k')) :
    k.GrantsAll api f (c :: rest) ↔ k'.GrantsAll api f rest := by
  constructor
  · rintro ⟨-, hrest⟩
    exact hrest _ _ hw
  · intro hrest
    refine ⟨hg, fun ret' k'' hw' => ?_⟩
    rw [hw] at hw'
    cases hw'
    exact hrest

/-! ## Writing a message -/

/-- One chunk: it is appended, or it is rejected and nothing has changed. Positions stay, and the
ring changes only if the chunk ends a command. -/
theorem deviceFile_write (h : k.Shows api d) (hp : k.fPos f = some p) (env : Services)
    {bytes : List UInt8} (hne : bytes ≠ []) (hcount : bytes.length ≤ maxRwCount) :
    (∃ err : Int, err < 0 ∧ (deviceFile api f).write env bytes k = .ok (err, k))
    ∨ ∃ k' : Kernel, (deviceFile api f).write env bytes k = .ok ((bytes.length : Int), k')
        ∧ k'.Shows api (d.write bytes) ∧ k'.fPos = k.fPos
        ∧ k.RingStep k' (endsCommand (d.pending ++ bytes)) := by
  obtain ⟨staged, ring, hr⟩ := h
  have hne' : d.pending ++ bytes ≠ [] := fun hnil => hne (List.append_eq_nil_iff.mp hnil).2
  have heval : ∀ {ret : Int} {k' : Kernel},
      aesdWrite api k bytes env.choice env.uncopied = .ok (ret, k') →
        (deviceFile api f).write env bytes k = .ok (ret, k') := by
    intro ret k' hw
    simp only [deviceFile, call_write hp _ _ _ hw, bind, Except.bind]
    rfl
  rcases hr.aesdWrite_cases bytes env.choice env.uncopied hne' hcount with
    hw | hw | ⟨k', hw, hk, hpos, hring⟩
  · exact Or.inl ⟨-ENOMEM, by decide, heval hw⟩
  · exact Or.inl ⟨-EFAULT, by decide, heval hw⟩
  · exact Or.inr ⟨k', heval hw, hk, hpos, hring⟩

/-- The chunks of a list can be written. -/
def Writable (chunks : List (Chunk Services)) : Prop :=
  ∀ c ∈ chunks, c.bytes ≠ [] ∧ c.bytes.length ≤ maxRwCount

/-- How the writing of a line in chunks ends: the line is written, or some first chunks of it
without the newline are, and the ring is as it was. -/
def LineWritten (api : KernelApi) (f : FileId) (k k' : Kernel) (d : Device)
    (chunks : List (Chunk Services)) (m : List UInt8) : Bool → Prop
  | true => k.GrantsAll api f chunks ∧ k'.Shows api (d.write (m ++ [newline]))
      ∧ k.RingStep k' true
  | false => ¬ k.GrantsAll api f chunks ∧ ∃ taken, newline ∉ taken
      ∧ (taken ≠ [] ↔ k.GrantsFirst api chunks) ∧ k'.Shows api (d.write taken)
      ∧ k.RingStep k' false

/-- One more chunk in front, which is accepted. -/
theorem LineWritten.cons {k₁ : Kernel} {c : Chunk Services} {rest : List (Chunk Services)}
    {m : List UInt8} {ret : Int} {accepted : Bool} (hne : c.bytes ≠ []) (hnl : newline ∉ c.bytes)
    (hg : k.Grants api c.bytes c.env)
    (hw : (deviceFile api f).write c.env c.bytes k = .ok (ret, k₁))
    (hring : k.RingStep k₁ false)
    (h : LineWritten api f k₁ k' (d.write c.bytes) rest m accepted) :
    LineWritten api f k k' d (c :: rest) (c.bytes ++ m) accepted := by
  have hopen := d.endsCommand_of_notMem hnl
  cases accepted with
  | true =>
      obtain ⟨hgrants, hshows, e, he⟩ := h
      rw [Device.write_write hopen, ← List.append_assoc] at hshows
      exact ⟨(GrantsAll.cons_iff hg hw).mpr hgrants, hshows, e, by rw [he, hring]⟩
  | false =>
      obtain ⟨hgrants, taken, htaken, -, hshows, hstep⟩ := h
      rw [Device.write_write hopen] at hshows
      refine ⟨fun h => hgrants ((GrantsAll.cons_iff hg hw).mp h), c.bytes ++ taken, ?_, ?_, hshows,
        hstep.trans hring⟩
      · rw [List.mem_append, not_or]
        exact ⟨hnl, htaken⟩
      · exact iff_of_true (by simp [hne]) ⟨c, rfl, hg⟩

/-- **The chunks of a line**: they are written up to the first that is rejected. -/
theorem writeChunks_cut (h : k.Shows api d) (hp : k.fPos f = some p)
    {chunks : List (Chunk Services)} {m : List UInt8} (hchunks : Writable chunks)
    (hcut : Cut newline (chunks.map Chunk.bytes) m) :
    ∃ (accepted : Bool) (k' : Kernel),
      writeChunks (deviceFile api f) chunks k = .ok (accepted, k') ∧ k'.fPos = k.fPos
      ∧ LineWritten api f k k' d chunks m accepted := by
  induction chunks generalizing k d m with
  | nil => cases hcut
  | cons c rest ih =>
      obtain ⟨hne, hcount⟩ := hchunks c (by simp)
      rcases deviceFile_write h hp c.env hne hcount with
        ⟨err, herr, hw⟩ | ⟨k₁, hw, h₁, hpos, hring⟩
      · -- the first chunk is rejected: nothing has changed
        have hno : ¬ k.Grants api c.bytes c.env := fun hg =>
          absurd ((deviceFile_write_nonneg_iff hp hw).mpr hg) (Int.not_le.mpr herr)
        have hfirst : ¬ k.GrantsFirst api (c :: rest) := by
          rintro ⟨c', hc', hg⟩
          obtain rfl := Option.some.inj hc'
          exact hno hg
        refine ⟨false, k, writeChunks_of_neg _ _ hw herr, rfl, fun hall => hno hall.1, [], by simp,
          iff_of_false (fun hnil => hnil rfl) hfirst, ?_, rfl⟩
        rwa [Device.write_nil]
      · have hnonneg : (0 : Int) ≤ c.bytes.length := Int.natCast_nonneg _
        have hg := (deviceFile_write_nonneg_iff hp hw).mp hnonneg
        generalize hpieces : (c :: rest).map Chunk.bytes = pieces at hcut
        cases hcut with
        | last hm =>
            -- this chunk was the last one
            obtain ⟨hbytes, hnil⟩ := List.cons.inj hpieces
            obtain rfl := List.map_eq_nil_iff.mp hnil
            rw [hbytes] at h₁ hring
            rw [Device.endsCommand_line] at hring
            exact ⟨true, k₁, writeChunks_of_nonneg _ _ hw hnonneg, hpos,
              (GrantsAll.cons_iff hg hw).mpr trivial, h₁, hring⟩
        | piece hc hnl hrest =>
            obtain ⟨rfl, rfl⟩ := List.cons.inj hpieces
            rw [d.endsCommand_of_notMem hnl] at hring
            obtain ⟨accepted, k', hw', hpos', hwritten⟩ := ih h₁ (by rw [hpos, hp])
              (fun c' hc' => hchunks c' (List.mem_cons_of_mem _ hc')) hrest
            exact ⟨accepted, k', (writeChunks_of_nonneg _ _ hw hnonneg).trans hw',
              hpos'.trans hpos, hwritten.cons hne hnl hg hw hring⟩

/-- The chunks stdio cuts a line into. -/
theorem StdioPlan.Prints.cut {plan : StdioPlan Services} {m : List UInt8}
    (hprints : plan.Prints (m ++ [newline])) (hm : newline ∉ m) :
    Cut newline (plan.chunks.map Chunk.bytes) m := by
  refine Cut.of_flatten (fun c hc => ?_) hm hprints.flatten
  obtain ⟨chunk, hmem, rfl⟩ := List.mem_map.mp hc
  exact hprints.ne_nil chunk hmem

/-- Those of a line that is not too long can be written. -/
theorem StdioPlan.Prints.writable {plan : StdioPlan Services} {m : List UInt8}
    (hprints : plan.Prints (m ++ [newline])) (hsize : m.length < 2 ^ 30) :
    Writable plan.chunks := by
  intro c hc
  refine ⟨hprints.ne_nil c hc, ?_⟩
  have hlen : c.bytes.length ≤ (m ++ [newline]).length := by
    rw [← hprints.flatten, List.length_flatten]
    exact List.single_le_sum (by simp) _ (by
      rw [List.map_map]
      exact List.mem_map.mpr ⟨c, hc, rfl⟩)
  rw [List.length_append, List.length_singleton] at hlen
  unfold maxRwCount
  omega

/-- **A data message that is printed in full is one command**, and the file stays where it
is. -/
theorem deviceFile_printed (h : k.Shows api d) (hp : k.fPos f = some p) {m : List UInt8}
    (hm : newline ∉ m) (hsize : m.length < 2 ^ 30) {plan : StdioPlan Services}
    (hprints : plan.Prints (m ++ [newline]))
    (hw : writeChunks (deviceFile api f) plan.chunks k = .ok (true, k')) :
    k'.Shows api (d.write (m ++ [newline])) ∧ k'.fPos = k.fPos := by
  obtain ⟨accepted, k₁, hw₁, hpos, hwritten⟩ :=
    writeChunks_cut h hp (hprints.writable hsize) (hprints.cut hm)
  rw [hw] at hw₁
  obtain ⟨rfl, rfl⟩ := Prod.mk.inj (Except.ok.inj hw₁)
  exact ⟨hwritten.2.1, hpos⟩

/-- An `ioctl` moves the position and does nothing else. -/
theorem deviceFile_ioctl (h : k.Shows api d) (hp : k.fPos f = some p) (env : Services) (cmd : Nat)
    (seekto : AesdSeekto) :
    ∃ (ret : Int) (p' : Nat),
      (deviceFile api f).ioctl env cmd seekto k = .ok (ret, k.seekTo f p') := by
  obtain ⟨staged, ring, hr⟩ := h
  obtain ⟨ret, p', hio, -⟩ := hr.aesdIoctl_cases p cmd seekto env.uncopied
  refine ⟨ret, p', ?_⟩
  simp only [deviceFile, Kernel.call, hp, hio, bind, Except.bind]
  rfl

/-! ## Sending the file -/

/-- The environment lets an iteration of `tcp_connection_send_file` do all it asks for. -/
def InFull (e : Services × Option Nat) : Prop := e.1.uncopied = 0 ∧ SendsInFull e.2

/-- An open file of the device has the content of the ring. -/
theorem deviceFile_reads (h : k.Shows api d) (f : FileId) :
    ReadsContent (deviceFile api f) (fun env => env.uncopied = 0) d.flat (k.seekTo f) := by
  intro env p count henv hcount
  refine ⟨d.readLen count p, ?_, d.readLen_le_count count p, Device.readLen_of_le count,
    Device.readLen_of_lt hcount⟩
  simp only [deviceFile, henv, h.call_read f count p, bind, Except.bind]
  rfl

/-! ## The seek command, end to end -/

/-- `handle_message` on a seek command: the position moves to the byte it names, if there is
one, and nothing else happens. -/
theorem handleMessage_seekCommand (h : k.Shows api d) (hp : k.fPos f = some p)
    (htotal : d.flat.length ≤ INT_MAX) {x y : Nat} (hx : x < 2 ^ 32) (hy : y < 2 ^ 32)
    {message : List UInt8} (hmessage : cString message = seekCommand x y)
    (plan : StdioPlan Services) {env : Services} (henv : env.uncopied = 0) :
    (Inside (d.commands.map List.length) x y
      ∧ handleMessage (deviceFile api f) message plan env k
        = .ok (0, k.seekTo f (flatPos (d.commands.map List.length) x y)))
    ∨ (¬ Inside (d.commands.map List.length) x y
      ∧ handleMessage (deviceFile api f) message plan env k = .ok (-EINVAL, k)) := by
  obtain ⟨staged, ring, hr⟩ := h
  have hadj := aesdAdjustFileOffset_eq hr.unlocked p x y
  have hfit : AesdCircularBuffer.totalSize k.aesdDevice.circularBuffer.live ≤ INT_MAX := by
    rwa [hr.totalSize_eq]
  have heval : ∀ {ret : Int} {p' : Nat}, aesdAdjustFileOffset k p x y = .ok (ret, p', k) →
      handleMessage (deviceFile api f) message plan env k = .ok (ret, k.seekTo f p') := by
    intro ret p' hadj
    rw [handleMessage_command _ (by rw [hmessage, decodeIoctlCommand_seekCommand hx hy])]
    simp only [deviceFile, Kernel.call, hp, aesdIoctl, henv, Nat.zero_min, ne_eq,
      not_true_eq_false, if_true, if_false, hadj, bind, Except.bind]
    rfl
  rw [← hr.liveSizes_eq]
  by_cases hin : Inside k.aesdDevice.circularBuffer.liveSizes x y
  · left
    rw [AesdCircularBuffer.getEntryFpos_of_inside hr.wellFormed hfit hin] at hadj
    simp only [ge_iff_le, Int.natCast_nonneg, if_true, Int.toNat_natCast] at hadj
    exact ⟨hin, heval hadj⟩
  · right
    rw [AesdCircularBuffer.getEntryFpos_of_not_inside hr.wellFormed hin] at hadj
    have hneg : ¬ (-1 : Int) ≥ 0 := by decide
    simp only [if_neg hneg] at hadj
    refine ⟨hin, ?_⟩
    rw [heval hadj, Kernel.seekTo, restore_fPos hp]

end

/-- **The seek command, end to end.** In every state a run of the driver can lead to whose live
bytes fit an `int`, a client that sends the seek command for byte `y` of command `x` gets the
content from that byte on, if there is such a byte, and nothing otherwise; ring and staging
entry stay as they are. -/
theorem serveMessage_seekCommand (api : KernelApi) (dev : AesdDev) (calls : List DevCall)
    (rs : List SysRet) (k : Kernel) (hcalls : ∀ c ∈ calls, c.InRange)
    (hrun : (Kernel.loaded dev).run api calls = .ok (rs, k)) (commands : List (List UInt8))
    (hcommands : k.ringContents = .ok commands) (htotal : commands.flatten.length ≤ INT_MAX)
    (f : FileId) (k₁ : Kernel) (hopen : k.call api (.openFile f) = .ok (.value 0, k₁))
    (x y : Nat) (hx : x < 2 ^ 32) (hy : y < 2 ^ 32) (message : List UInt8)
    (hmessage : cString message = seekCommand x y) (plan : StdioPlan Services) (env : Services)
    (henv : env.uncopied = 0) (script : List (Services × Option Nat))
    (hfull : ∀ e ∈ script, InFull e) (hlong : commands.flatten.length < script.length) :
    ∃ (retval : Int) (sent : List UInt8) (k₂ : Kernel),
      serveMessage (deviceFile api f) message plan env script k₁ = .ok (retval, sent, k₂)
      ∧ k₂.aesdDevice = k.aesdDevice ∧ k₂.heap = k.heap
      ∧ ((∃ c, commands[x]? = some c ∧ y < c.length ∧ 0 ≤ retval
            ∧ sent = c.drop y ++ (commands.drop (x + 1)).flatten)
        ∨ ((¬ ∃ c, commands[x]? = some c ∧ y < c.length) ∧ retval < 0 ∧ sent = [])) := by
  have hshows := (Kernel.loaded_shows api dev).run hcalls hrun
  set d := Device.empty.afterAll calls rs with hd
  obtain rfl : d.commands = commands := Except.ok.inj (hshows.ringContents_eq.symm.trans hcommands)
  have hk₁ : k₁ = k.seekTo f 0 := by
    cases hp : k.fPos f with
    | none =>
        simp only [Kernel.call, hp] at hopen
        exact (Prod.mk.inj (Except.ok.inj hopen)).2.symm
    | some p =>
        simp only [Kernel.call, hp] at hopen
        exact absurd (Prod.mk.inj (Except.ok.inj hopen)).1 (by decide)
  have hinside : Inside (d.commands.map List.length) x y
      ↔ ∃ c, d.commands[x]? = some c ∧ y < c.length := by
    simp [Inside]
  have h₁ : (k.seekTo f 0).Shows api d := hshows.seekTo f 0
  subst hk₁
  rcases handleMessage_seekCommand h₁ (seekTo_fPos k f 0) htotal hx hy hmessage plan henv with
    ⟨hin, hhandle⟩ | ⟨hout, hhandle⟩
  · -- the byte exists: the reply is the content from there on
    obtain ⟨c, hc, hy'⟩ := hinside.mp hin
    rw [seekTo_seekTo] at hhandle
    set pos := flatPos (d.commands.map List.length) x y with hpos
    have hsend := (deviceFile_reads hshows f).sendFile_eq (p := pos) script hfull
      (Nat.lt_of_le_of_lt (Nat.sub_le _ _) hlong)
    have hserve : serveMessage (deviceFile api f) message plan env script (k.seekTo f 0)
        = .ok (0, d.flat.drop pos, k.seekTo f (max pos d.flat.length)) := by
      simp only [serveMessage, hhandle, hsend, bind, Except.bind, ge_iff_le, Int.le_refl, if_true]
      rfl
    exact ⟨_, _, _, hserve, rfl, rfl, Or.inl ⟨c, hc, hy', Int.le_refl 0,
      flatten_drop_flatPos hc (Nat.le_of_lt hy')⟩⟩
  · -- it does not: the call fails, and nothing is sent
    have hneg : ¬ (-EINVAL : Int) ≥ 0 := by decide
    have hserve : serveMessage (deviceFile api f) message plan env script (k.seekTo f 0)
        = .ok (-EINVAL, [], k.seekTo f 0) := by
      simp only [serveMessage, hhandle, bind, Except.bind, if_neg hneg]
      rfl
    exact ⟨_, _, _, hserve, rfl, rfl,
      Or.inr ⟨fun hex => hout (hinside.mpr hex), by decide, rfl⟩⟩

theorem serveMessage_seekCommand_secondByte :
    ∃ (rs : List SysRet) (k k₁ : Kernel),
      (Kernel.loaded .zero).run .linux twoWrites = .ok (rs, k)
      ∧ k.call .linux (.openFile 0) = .ok (.value 0, k₁)
      ∧ ∃ (retval : Int) (sent : List UInt8) (k₂ : Kernel),
        serveMessage (deviceFile .linux 0) (seekCommand 0 1 ++ [0]) ⟨[], []⟩ ⟨none, 0⟩
            (List.replicate 6 (⟨none, 0⟩, some 4096)) k₁ = .ok (retval, sent, k₂)
        ∧ k₂.aesdDevice = k.aesdDevice ∧ k₂.heap = k.heap
        ∧ ((∃ c, [[65, 66, newline], [67, newline]][0]? = some c ∧ 1 < c.length ∧ 0 ≤ retval
              ∧ sent = c.drop 1 ++ ([[65, 66, newline], [67, newline]].drop (0 + 1)).flatten)
          ∨ ((¬ ∃ c, [[65, 66, newline], [67, newline]][0]? = some c ∧ 1 < c.length)
              ∧ retval < 0 ∧ sent = [])) := by
  refine ⟨_, _, _, rfl, rfl, ?_⟩
  exact serveMessage_seekCommand .linux .zero twoWrites _ _
    (by simp [twoWrites, DevCall.InRange, maxRwCount]) rfl [[65, 66, newline], [67, newline]] rfl
    (by decide) 0 _ rfl 0 1 (by decide) (by decide) (seekCommand 0 1 ++ [0])
    (cString_eq_of_take (by simp) (zero_notMem_seekCommand 0 1)) ⟨[], []⟩ ⟨none, 0⟩ rfl
    (List.replicate 6 (⟨none, 0⟩, some 4096))
    (by intro e he; rw [List.eq_of_mem_replicate he]; exact ⟨rfl, 4096, rfl, Nat.le_refl _⟩)
    (by decide)

end Aesd
