import Aesd.Driver.Safety
import Aesd.Driver.Specification
import Aesd.Server.Progress
import Aesd.Server.RegularSerial

set_option autoImplicit false

/-! # Both servers come to their end

The builds of `Serial` and `RegularFile` are robust, so whatever `kmalloc`, the copies, `fopen`,
`recv`, `send` and the clients do, nothing a thread of the server can come to faults or hangs
(`deviceServer_safe`), and every connection thread and every timer callback can come to its end
(`deviceServer_finishes`, `regularServer_finishes`). If nothing fails, a connection that has come to
its end has been served in full (`deviceServer_serves_all`, `regularServer_serves_all`). -/

namespace Aesd

open CInt Delimited Kernel Lts

/-! ## Calls that return -/

section

variable {σ ω : Type} {ops : FileOps σ ω}

/-- If each write returns and keeps a property of the state, so does a list of them. -/
theorem writeChunks_returns {P : σ → Prop} {chunks : List (Chunk ω)}
    (hwrite : ∀ c ∈ chunks, ∀ f, P f →
      ∃ ret f', ops.write c.env c.bytes f = .ok (ret, f') ∧ P f') {f : σ} (hf : P f) :
    ∃ accepted f', writeChunks ops chunks f = .ok (accepted, f') ∧ P f' := by
  induction chunks generalizing f with
  | nil => exact ⟨true, f, rfl, hf⟩
  | cons c rest ih =>
      obtain ⟨ret, f₁, hcall, hf₁⟩ := hwrite c List.mem_cons_self f hf
      by_cases hret : ret < 0
      · exact ⟨false, f₁, writeChunks_of_neg ops rest hcall hret, hf₁⟩
      · rw [writeChunks_of_nonneg ops rest hcall (Int.not_lt.mp hret)]
        apply ih _ hf₁
        exact fun c hc => hwrite c (List.mem_cons_of_mem _ hc)

/-- So does `handle_message`. -/
theorem handleMessage_returns {P : σ → Prop} {message : List UInt8} {plan : StdioPlan ω} {env : ω}
    (hwrite : ∀ c ∈ plan.chunks, ∀ f, P f →
      ∃ ret f', ops.write c.env c.bytes f = .ok (ret, f') ∧ P f')
    (hioctl : ∀ cmd seekto f, P f → ∃ ret f', ops.ioctl env cmd seekto f = .ok (ret, f') ∧ P f')
    {f : σ} (hf : P f) :
    ∃ retval f', handleMessage ops message plan env f = .ok (retval, f') ∧ P f' := by
  unfold StdioPlan.chunks at hwrite
  cases hdecode : decodeIoctlCommand (cString message) with
  | some seekto =>
      rw [handleMessage_command ops hdecode]
      exact hioctl AESDCHAR_IOCSEEKTO seekto f hf
  | none =>
      obtain ⟨printed, f₁, hdirect, hf₁⟩ := writeChunks_returns
        (fun c hc => hwrite c (List.mem_append_left _ hc)) hf
      obtain ⟨flushed, f₂, hbuffered, hf₂⟩ := writeChunks_returns
        (fun c hc => hwrite c (List.mem_append_right _ hc)) hf₁
      unfold handleMessage
      simp only [hdecode, hdirect, bind, Except.bind]
      cases printed with
      | false => exact ⟨-1, f₁, rfl, hf₁⟩
      | true =>
          simp only [if_true, hbuffered]
          exact ⟨_, f₂, rfl, hf₂⟩

end

/-! ## The device -/

/-- The memory of the driver is in order. -/
def Kernel.InOrder (api : KernelApi) (k : Kernel) : Prop := ∃ d : Device, k.Shows api d

/-- File `i` is open. -/
def Kernel.HasOpen (k : Kernel) (i : ConnId) : Prop := (k.fPos i).isSome

section

variable {api : KernelApi} {k k' : Kernel} {i : ConnId}

/-- A call that moves no position keeps all files. -/
theorem FilesKept.of_fPos {d : Device} (h : k'.Shows api d) (hpos : k'.fPos = k.fPos) :
    FilesKept (Kernel.InOrder api) Kernel.HasOpen k k' where
  good := ⟨d, h⟩
  isOpen j hj := by
    unfold Kernel.HasOpen
    rwa [hpos]

/-- So does one that moves the position of an open file. -/
theorem FilesKept.of_seekTo {d : Device} (h : k.Shows api d) (i : ConnId) (p : Nat) :
    FilesKept (Kernel.InOrder api) Kernel.HasOpen k (k.seekTo i p) where
  good := ⟨d, h.seekTo i p⟩
  isOpen j hj := by
    show (Function.update k.fPos i (some p) j).isSome
    by_cases hji : j = i
    · rw [hji, Function.update_self]
      rfl
    · rw [Function.update_of_ne hji]
      exact hj

theorem FilesKept.refl {σ : Type} {Good : σ → Prop} {IsOpen : σ → ConnId → Prop} {f : σ}
    (hf : Good f) : FilesKept Good IsOpen f f :=
  ⟨hf, fun _ hj => hj⟩

/-- What an open file of the device has still to deliver. -/
def Kernel.unread (i : ConnId) (k : Kernel) : Nat :=
  match k.ringContents, k.fPos i with
  | .ok commands, some p => commands.flatten.length - p
  | _, _ => 0

theorem Kernel.Shows.unread_eq {d : Device} {p : Nat} (h : k.Shows api d)
    (hp : k.fPos i = some p) : Kernel.unread i k = d.flat.length - p := by
  unfold Kernel.unread
  rw [h.ringContents_eq, hp]
  rfl

/-- **A read returns**, and what it delivers is not delivered again. -/
theorem deviceFile_read_returns (env : Services) (count : Nat) (hk : k.InOrder api)
    (hi : k.HasOpen i) :
    ∃ ret bytes k', (deviceFile api i).read env count k = .ok (ret, bytes, k')
      ∧ FilesKept (Kernel.InOrder api) Kernel.HasOpen k k'
      ∧ (0 < ret → Kernel.unread i k' < Kernel.unread i k) := by
  obtain ⟨d, hd⟩ := hk
  obtain ⟨p, hp⟩ := Option.isSome_iff_exists.mp hi
  have hcall := hd.hasView.call_read hp (n := d.readLen count p) rfl env.uncopied
  simp only [deviceFile, hcall]
  split_ifs with hleft
  · refine ⟨_, _, k, rfl, .refl ⟨d, hd⟩, ?_⟩
    show 0 < -EFAULT → _
    exact fun hpos => absurd hpos (by decide)
  · refine ⟨_, _, _, rfl, .of_seekTo hd i _, ?_⟩
    show 0 < (d.readLen count p : Int) → Kernel.unread i (k.seekTo i (p + d.readLen count p)) < _
    intro hpos
    have hread : 0 < d.readLen count p := by omega
    have hbefore := hd.unread_eq hp
    have hafter := (hd.seekTo i (p + d.readLen count p)).unread_eq (i := i)
      (Function.update_self ..)
    -- a read at the end delivers nothing
    have hlt : p < d.flat.length := by
      by_contra hend
      rw [Device.readLen_of_le count (Nat.not_lt.mp hend)] at hread
      exact Nat.lt_irrefl 0 hread
    omega

/-- **The build for the device is robust.** -/
theorem deviceBuild_robust (api : KernelApi) :
    (deviceBuild api).Robust (Kernel.InOrder api) Kernel.HasOpen where
  fopen i k := by
    rintro ⟨d, hd⟩
    refine ⟨.of_seekTo hd i 0, ?_⟩
    show (Function.update k.fPos i (some 0) i).isSome
    rw [Function.update_self]
    rfl
  fclose i k := by
    rintro ⟨d, hd⟩
    refine ⟨⟨d, hd.withFPos _⟩, fun j hne hj => ?_⟩
    show (Function.update k.fPos i none j).isSome
    rw [Function.update_of_ne hne]
    exact hj
  handle i m plan env k hm hprints hk hi := by
    have hwritable := hprints.writable hm.2
    apply handleMessage_returns (P := FilesKept (Kernel.InOrder api) Kernel.HasOpen k)
    · intro c hc k₁ hkept
      obtain ⟨d, hd⟩ := hkept.good
      obtain ⟨p, hp⟩ := Option.isSome_iff_exists.mp (hkept.isOpen i hi)
      obtain ⟨hne, hcount⟩ := hwritable c hc
      rcases deviceFile_write hd hp c.env hne hcount with ⟨err, -, hw⟩ | ⟨k₂, hw, hd₂, hpos, -⟩
      · exact ⟨err, k₁, hw, hkept⟩
      · exact ⟨_, k₂, hw, hkept.trans (.of_fPos hd₂ hpos)⟩
    · intro cmd seekto k₁ hkept
      obtain ⟨d, hd⟩ := hkept.good
      obtain ⟨p, hp⟩ := Option.isSome_iff_exists.mp (hkept.isOpen i hi)
      obtain ⟨ret, q, hio⟩ := deviceFile_ioctl hd hp env cmd seekto
      exact ⟨ret, _, hio, hkept.trans (.of_seekTo hd i q)⟩
    · exact .refl hk
  read i := ⟨Kernel.unread i, fun env count k hk hi => deviceFile_read_returns env count hk hi⟩
  append ops chunks k hops := by cases hops

end

/-! ## The regular file -/

section

variable {api : KernelApi} {dev : AesdDev} {calls : List DevCall} {rs : List SysRet} {k : Kernel}

theorem Kernel.InOrder.of_run (hcalls : ∀ c ∈ calls, c.InRange)
    (hrun : (Kernel.loaded dev).run api calls = .ok (rs, k)) : k.InOrder api :=
  ⟨_, (Kernel.loaded_shows api dev).run hcalls hrun⟩

end

/-- **Nothing breaks the server on the device.** Whatever was done with the driver before, whatever
the clients send in lines shorter than 1 GiB, and whatever fails in any step of any thread: in every
state that is reached, each call that can come next returns without a faulting access, and the
kernel memory is exactly what the driver owns. -/
theorem deviceServer_safe (api : KernelApi) (dev : AesdDev) (calls : List DevCall)
    (rs : List SysRet) (k : Kernel) (hcalls : ∀ c ∈ calls, c.InRange)
    (hrun : (Kernel.loaded dev).run api calls = .ok (rs, k)) (incoming : ConnId → List RecvRet)
    (hincoming : ∀ i, ShortLines (incoming i)) (outstr : TimerId → List UInt8)
    (t : List (Event Services × Server Kernel))
    (hsteps : Run (Step (deviceBuild api)) (Server.fresh k incoming outstr) t) :
    let s := last (Server.fresh k incoming outstr) t
    s.Safe (deviceBuild api) ∧ s.files.OwnsExactly
      ∧ ∀ i, (s.threads i).phase.HasFile → s.files.HasOpen i := by
  intro s
  have hrobust := deviceBuild_robust api
  have hsound := hrobust.run_sound (Kernel.InOrder.of_run hcalls hrun) hincoming outstr hsteps
  obtain ⟨d, hd⟩ := hsound.good
  exact ⟨hsound.safe hrobust, hd.ownsExactly, hsound.isOpen⟩

theorem ShortLines.of_length_lt {incoming : List RecvRet} (h : incoming.length < 2 ^ 30) :
    ShortLines incoming := by
  intro line _ hin
  have hle := hin.length_le
  rw [List.length_map] at hle
  omega

/-- Connection 0 sends one line, after one `recv` has failed. -/
def brokenLine (i : ConnId) : List RecvRet :=
  if i = 0 then [.error, .byte 65, .byte newline] else []

theorem brokenLine_shortLines (i : ConnId) : ShortLines (brokenLine i) := by
  apply ShortLines.of_length_lt
  unfold brokenLine
  split <;> decide

/-- The line is read, but there is no memory to write it, and the connection is between `lock` and
`unlock`. -/
theorem exists_brokenLine_run : ∃ t : List (Event Services × Server Kernel),
    Run (Step (deviceBuild .linux))
        (Server.fresh (Kernel.loaded .zero) brokenLine fun _ => []) t
      ∧ (labels t).length = 5
      ∧ (last (Server.fresh (Kernel.loaded .zero) brokenLine fun _ => []) t).fileMutex
        = some (.connection 0) := by
  obtain ⟨block, hreceive, hblock⟩ :=
    receiveMessage_framed (fun _ => 0) [] [] (by decide : newline ∉ [65]) (by decide)
  have hmessage := cString_eq_of_take hblock (by decide)
  let plan : StdioPlan Services := ⟨[⟨[65, newline], ⟨none, 0⟩⟩], []⟩
  have hprints : plan.Prints (cString block ++ [newline]) := by
    rw [hmessage]
    exact ⟨by decide, rfl⟩
  have hdata : decodeIoctlCommand (cString block) = none := by
    rw [hmessage]
    decide
  have hhandle : handleMessage (deviceFile .linux 0) block plan ⟨none, 0⟩
      ((deviceBuild .linux).fopen 0 (Kernel.loaded .zero))
        = .ok (-1, (deviceBuild .linux).fopen 0 (Kernel.loaded .zero)) := by
    unfold handleMessage
    rw [hdata]
    rfl
  have h₁ : Run (Step (deviceBuild .linux))
      (Server.fresh (Kernel.loaded .zero) brokenLine fun _ => []) _ :=
    Run.nil.snoc (Step.receive (i := 0) rfl rfl rfl
      (show tcpConnectionReceiveMessage ⟨brokenLine 0, true⟩ newline (fun _ => 0)
        = .ok (none, .sending (framed newline [[65]] [])) from rfl))
  have h₂ := h₁.snoc (Step.receive (i := 0) rfl rfl rfl hreceive)
  have h₃ := h₂.snoc (Step.fopen (i := 0) rfl)
  have h₄ := h₃.snoc (Step.lock (i := 0) rfl rfl)
  have h₅ := h₄.snoc (Step.handle (i := 0) rfl hprints hhandle)
  exact ⟨_, h₅, rfl, rfl⟩

theorem deviceServer_safe_brokenLine : ∃ t : List (Event Services × Server Kernel),
    Run (Step (deviceBuild .linux))
        (Server.fresh (Kernel.loaded .zero) brokenLine fun _ => []) t
      ∧ (labels t).length = 5
      ∧ (last (Server.fresh (Kernel.loaded .zero) brokenLine fun _ => []) t).Safe
        (deviceBuild .linux) := by
  obtain ⟨t, hsteps, hlength, -⟩ := exists_brokenLine_run
  exact ⟨t, hsteps, hlength, (deviceServer_safe .linux .zero [] [] _ (by simp) rfl brokenLine
    brokenLine_shortLines (fun _ => []) t hsteps).1⟩

/-- The steps in which everything succeeds, and no thread is told to end. -/
def Event.Serves {σ ω : Type} (b : Build σ ω) (s : Server σ) (e : Event ω) : Prop :=
  e.Succeeds b s ∧ e ≠ .closeConnections

/-- A server that serves: a thread ends only after its client has closed the connection. -/
structure Server.Serving {σ ω : Type} (b : Build σ ω) (sent : ConnId → List (List UInt8))
    (tail : ConnId → List UInt8) (es : List (Event ω)) (s : Server σ) : Prop where
  inv : Server.Inv sent tail es s
  timers : s.TimersOk b
  goesOn : s.closeConnections = false
  closed : ∀ i, (s.threads i).phase = .finished → (s.threads i).connection.isOpen = false

section

variable {σ ω : Type} {b : Build σ ω} {sent : ConnId → List (List UInt8)}
  {tail : ConnId → List UInt8} {es : List (Event ω)} {s s' : Server σ} {e : Event ω} {i : ConnId}

/-- **A connection that has come to its end has been served in full.** -/
theorem Server.Serving.lockedBy_eq (h : s.Serving b sent tail es)
    (hfinished : (s.threads i).phase = .finished) : lockedBy i es = sent i := by
  obtain ⟨rest, hsent, hconnection⟩ := (h.inv.threads i).order
  have hclosed := h.closed i hfinished
  rw [hfinished] at hsent
  rcases hconnection with hopen | ⟨rfl, -⟩
  · rw [hopen] at hclosed
    cases hclosed
  · calc lockedBy i es
        = lockedBy i es ++ [] ++ [] := by rw [List.append_nil, List.append_nil]
      _ = sent i := hsent.symm

/-- **One step keeps it.** -/
theorem SuccessStep.serving (hsent : ∀ i, WellSent (sent i) (tail i))
    (hstep : SuccessStep b s e s') (he : e ≠ .closeConnections) (h : s.Serving b sent tail es) :
    s'.Serving b sent tail (es ++ [e]) where
  inv := hstep.inv hsent h.inv
  timers := hstep.1.timersOk h.timers
  goesOn := (hstep.1.closeConnections_eq he).trans h.goesOn
  closed i := by
    by_cases hagent : e.agent = some (.connection i)
    · cases hstep.1 with
      | finish at_loop stops =>
          -- nobody has been told to end, so the client has closed
          obtain rfl : _ = i := by simpa [Event.agent] using hagent
          rw [h.goesOn] at stops
          rw [Server.setPhase_self]
          exact fun _ => stops.resolve_right (by simp)
      | receive at_loop is_open goes_on received =>
          obtain rfl : _ = i := by simpa [Event.agent] using hagent
          rename_i i junk message connection
          simp only [Function.update_self]
          cases message <;> exact fun hphase => by cases hphase
      | handle =>
          obtain rfl : _ = i := by simpa [Event.agent] using hagent
          simp only [Server.setPhase_self]
          split <;> exact fun hphase => by cases hphase
      | fopen | fopenFails | lock | send | unlock | fclose =>
          obtain rfl : _ = i := by simpa [Event.agent] using hagent
          simp only [Server.setPhase_self]
          exact fun hphase => by cases hphase
      | closeConnections | timerLock | timerWrite | timerUnlock => cases hagent
    · rw [hstep.1.threads_ne hagent]
      exact h.closed i

theorem Server.start_serving (files : σ) (outstr : TimerId → List UInt8) :
    (Server.start files sent tail outstr).Serving b sent tail [] where
  inv := Server.start_inv files outstr
  timers j outstr hwrite := by cases hwrite
  goesOn := rfl
  closed i hphase := by cases hphase

/-- It holds after every run in which nobody has been told to end. -/
theorem run_serving {files : σ} {outstr : TimerId → List UInt8}
    (hsent : ∀ i, WellSent (sent i) (tail i)) {t : List (Event ω × Server σ)}
    (hsteps : Run (SuccessStep b) (Server.start files sent tail outstr) t)
    (hgoes : .closeConnections ∉ labels t) :
    (last (Server.start files sent tail outstr) t).Serving b sent tail (labels t) := by
  apply hsteps.invariant (fun es s => .closeConnections ∉ es → s.Serving b sent tail es)
    (fun _ => Server.start_serving files outstr) _ hgoes
  intro es s e s' hserving hstep hgoes
  rw [List.mem_append, not_or, List.mem_singleton] at hgoes
  exact hstep.serving hsent (fun he => hgoes.2 he.symm) (hserving hgoes.1)

/-- Every call of `tcp_connection_receive_message` on what the client sends returns. -/
theorem ThreadOrder.receives {sent locked : List (List UInt8)} {tail : List UInt8} {th : Thread}
    (h : ThreadOrder sent tail locked th) (hsent : WellSent sent tail) (junk : Nat → UInt8) :
    ∃ message connection, tcpConnectionReceiveMessage th.connection newline junk
      = .ok (message, connection) := by
  obtain ⟨rest, hrest, hconnection | ⟨-, hconnection⟩⟩ := h.order
  · rw [hconnection]
    cases rest with
    | nil =>
        rw [framed_nil]
        exact ⟨_, _, receiveMessage_tail junk hsent.tail_open hsent.tail_size⟩
    | cons line rest =>
        obtain ⟨hnl, -, hsize⟩ := hsent.lines line (by simp [hrest])
        obtain ⟨block, hcall, -⟩ := receiveMessage_framed junk rest tail hnl hsize
        exact ⟨_, _, hcall⟩
  · rw [hconnection]
    exact ⟨none, _, rfl⟩

/-- What a build still has to show to be live among the steps that succeed. -/
theorem Build.live_of_serves {J : List (Event ω) → Server σ → Prop}
    (hsent : ∀ i, WellSent (sent i) (tail i))
    (hkeeps : ∀ es s e s', s.Serving b sent tail es → J es s → SuccessStep b s e s' →
      J (es ++ [e]) s')
    (hhandle : ∀ es s i m, s.Serving b sent tail es → J es s → (s.threads i).phase = .handle m →
      ∃ plan env s', SuccessStep b s (.handle i m plan env) s')
    (hsend : ∀ es s i m, J es s → (s.threads i).phase = .send m →
      ∃ script reply s', SuccessStep b s (.send i m script reply) s')
    (htimer : ∀ es s j outstr ops, J es s → b.appendFile = some ops →
      s.timers j = .write outstr → ∃ plan s', SuccessStep b s (.timerWrite j plan) s') :
    b.Live (Event.Serves b) fun es s => s.Serving b sent tail es ∧ J es s where
  exclusive _ _ h := h.1.inv.exclusive
  step es s e s' h hstep := by
    have hsuccess : SuccessStep b s e s' := ⟨hstep.1, hstep.2.1⟩
    exact ⟨hsuccess.serving hsent hstep.2.2 h.1, hkeeps es s e s' h.1 h.2 hsuccess⟩
  quiet s e hquiet hagent hopens := by
    constructor
    · cases e with
      | fopenFails i => exact hopens i rfl
      | handle | send | timerWrite => exact absurd trivial hquiet
      | receive | finish | fopen | lock | unlock | fclose | closeConnections | timerLock
      | timerUnlock => trivial
    · rintro rfl
      exact hagent rfl
  receive es s i h _ := by
    obtain ⟨message, connection, hcall⟩ :=
      (h.1.inv.threads i).receives (hsent i) fun _ => 0
    exact ⟨_, message, connection, hcall⟩
  handle es s i m h hphase := by
    obtain ⟨plan, env, s', hstep⟩ := hhandle es s i m h.1 h.2 hphase
    exact ⟨plan, env, s', hstep.1, hstep.2, by simp⟩
  send es s i m h hphase := by
    obtain ⟨script, reply, s', hstep⟩ := hsend es s i m h.2 hphase
    exact ⟨script, reply, s', hstep.1, hstep.2, by simp⟩
  timerWrite es s j outstr h hphase := by
    obtain ⟨ops, has_timer⟩ := h.1.timers j outstr hphase
    obtain ⟨plan, s', hstep⟩ := htimer es s j outstr ops h.2 has_timer hphase
    exact ⟨plan, s', hstep.1, hstep.2, by simp⟩

end

section

variable {api : KernelApi} {init : List (List UInt8)} {sent : ConnId → List (List UInt8)}
  {tail : ConnId → List UInt8} {i : ConnId} {m : List UInt8}

/-- **The build for the device is live among the steps that succeed**, if every line fits into one
block of the kernel. -/
theorem deviceBuild_live (init : List (List UInt8)) (hsent : ∀ i, WellSent (sent i) (tail i))
    (hfits : ∀ i, ∀ l ∈ sent i, l.length < api.kmallocMaxSize) :
    (deviceBuild api).Live (Event.Serves (deviceBuild api))
      fun es s => s.Serving (deviceBuild api) sent tail es ∧ DeviceInv api init es s :=
  Build.live_of_serves hsent
    (fun _ _ _ _ hserving hinv hstep => hstep.deviceInv hsent hserving.inv hinv)
    (fun _ s i m hserving hinv hphase => by
      have hmem := (hserving.inv.threads i).message m (by rw [hphase]; rfl)
      exact hinv.can_handle hphase (hfits i _ hmem) ((hsent i).lines _ hmem).2.2)
    (fun _ _ _ _ hinv hphase => by
      obtain ⟨script, reply, files, hstep⟩ := hinv.can_send hphase
      exact ⟨script, reply, _, hstep⟩)
    (fun _ _ _ _ _ _ has_timer _ => by cases has_timer)

end

section

variable {c : List UInt8} {sent : ConnId → List (List UInt8)} {tail : ConnId → List UInt8}
  {es : List (Event FileOutcome)} {s : Server RegularFile} {i : ConnId} {m : List UInt8}

/-- Every timestamp can be written. -/
theorem can_timerWrite {j : TimerId} {outstr : List UInt8} (hphase : s.timers j = .write outstr) :
    ∃ plan s', SuccessStep regularBuild s (.timerWrite j plan) s' := by
  have hprints := StdioPlan.whole_prints (timestampLine outstr)
    (by simp [timestampLine]) FileOutcome.done
  have hw : ∃ files, writeChunks appendFile
      (StdioPlan.whole (timestampLine outstr) FileOutcome.done).chunks s.files
        = .ok (true, files) := by
    have hnonneg : ¬ (((timestampLine outstr).length : Nat) : Int) < 0 := by omega
    simp only [StdioPlan.whole, StdioPlan.chunks, List.nil_append, writeChunks, appendFile,
      bind, Except.bind, if_neg hnonneg]
    exact ⟨_, rfl⟩
  obtain ⟨files, hw⟩ := hw
  refine ⟨_, _, .timerWrite rfl hphase hprints hw, ?_⟩
  rintro ops ⟨⟩
  exact ⟨files, hw⟩

/-- **The build for a regular file is live among the steps that succeed.** -/
theorem regularBuild_live (hsent : ∀ i, WellSent (sent i) (tail i)) :
    regularBuild.Live (Event.Serves regularBuild)
      fun es s => s.Serving regularBuild sent tail es ∧ RegularInv es s :=
  Build.live_of_serves hsent
    (fun _ _ _ _ _ hinv hstep => hstep.regularInv hinv)
    (fun _ _ _ _ _ hinv hphase => hinv.can_handle hphase)
    (fun _ _ _ _ hinv hphase => hinv.can_send hphase)
    (fun _ _ _ _ _ _ _ hphase => can_timerWrite hphase)

end

/-- A live build can go on until all connections have been served. -/
theorem Build.Live.serves_all {σ ω : Type} {b : Build σ ω} {sent : ConnId → List (List UInt8)}
    {tail : ConnId → List UInt8} {J : List (Event ω) → Server σ → Prop}
    (hb : b.Live (Event.Serves b) fun es s => s.Serving b sent tail es ∧ J es s) {s : Server σ}
    {t : List (Event ω × Server σ)} (hsteps : Run (SuccessStep b) s t)
    (hserving : (last s t).Serving b sent tail (labels t)) (hinv : J (labels t) (last s t))
    (is : List ConnId) :
    ∃ t', Run (SuccessStep b) s (t ++ t')
      ∧ ∀ i ∈ is, ((last s (t ++ t')).threads i).phase = .finished
        ∧ lockedBy i (labels (t ++ t')) = sent i := by
  obtain ⟨t', hrun, ⟨hserving', -⟩, hfinished⟩ := hb.can_finish_all _ ⟨hserving, hinv⟩ is
  have hrun' : Run (SuccessStep b) (last s t) t' :=
    hrun.mono fun _ _ _ hstep => ⟨hstep.1, hstep.2.1⟩
  refine ⟨t', hsteps.append hrun', fun i hi => ?_⟩
  rw [last_append, labels_append]
  exact ⟨hfinished i hi, hserving'.lockedBy_eq (hfinished i hi)⟩

/-- **If nothing fails, the server on the device serves every connection in full.** After any run in
which nothing has failed and nobody was told to end, all connections can come to their end, and then
`file_mutex` was taken for every message of theirs, in the order in which they were sent. -/
theorem deviceServer_serves_all (api : KernelApi) (dev : AesdDev) (calls : List DevCall)
    (rs : List SysRet) (k : Kernel) (hcalls : ∀ c ∈ calls, c.InRange)
    (hrun : (Kernel.loaded dev).run api calls = .ok (rs, k)) (hstaging : k.stagingContents = .ok [])
    (hclosed : ∀ i, k.fPos i = none) (sent : ConnId → List (List UInt8))
    (tail : ConnId → List UInt8) (hsent : ∀ i, WellSent (sent i) (tail i))
    (hfits : ∀ i, ∀ l ∈ sent i, l.length < api.kmallocMaxSize)
    (outstr : TimerId → List UInt8) (t : List (Event Services × Server Kernel))
    (hsteps : Run (SuccessStep (deviceBuild api)) (Server.start k sent tail outstr) t)
    (hgoes : .closeConnections ∉ labels t) (is : List ConnId) :
    ∃ t', Run (SuccessStep (deviceBuild api)) (Server.start k sent tail outstr) (t ++ t')
      ∧ ∀ i ∈ is, ((last (Server.start k sent tail outstr) (t ++ t')).threads i).phase = .finished
        ∧ lockedBy i (labels (t ++ t')) = sent i := by
  have hshows := (Kernel.loaded_shows api dev).run hcalls hrun
  have hpending := Except.ok.inj (hshows.stagingContents_eq.symm.trans hstaging)
  obtain ⟨-, hdevice⟩ := run_deviceInv hshows hpending hclosed hsent outstr hsteps
  exact (deviceBuild_live _ hsent hfits).serves_all hsteps (run_serving hsent hsteps hgoes)
    hdevice is

theorem deviceServer_serves_all_twoClients : ∃ t : List (Event Services × Server Kernel),
    Run (SuccessStep (deviceBuild .linux))
        (Server.start (Kernel.loaded .zero) twoClients (fun _ => []) fun _ => []) t
      ∧ lockedBy 0 (labels t) = [[120]] ∧ lockedBy 1 (labels t) = [[121, 122], [119]] := by
  obtain ⟨t, hsteps, -, hgoes, -⟩ := exists_twoClients_device
  obtain ⟨t', hrun, hserved⟩ := deviceServer_serves_all .linux .zero [] [] _ (by simp) rfl rfl
    (fun _ => rfl) twoClients (fun _ => []) twoClients_wellSent
    (fun _ _ hl => Nat.lt_of_le_of_lt (twoClients_length_le hl) (by decide)) (fun _ => []) t hsteps
    hgoes [0, 1]
  exact ⟨_, hrun, (hserved 0 (by simp)).2, (hserved 1 (by simp)).2⟩

/-- **So does the server on a regular file.** -/
theorem regularServer_serves_all (c : List UInt8) (sent : ConnId → List (List UInt8))
    (tail : ConnId → List UInt8) (hsent : ∀ i, WellSent (sent i) (tail i))
    (outstr : TimerId → List UInt8) (t : List (Event FileOutcome × Server RegularFile))
    (hsteps : Run (SuccessStep regularBuild) (Server.start (.existing c) sent tail outstr) t)
    (hgoes : .closeConnections ∉ labels t) (is : List ConnId) :
    ∃ t', Run (SuccessStep regularBuild) (Server.start (.existing c) sent tail outstr) (t ++ t')
      ∧ ∀ i ∈ is,
        ((last (Server.start (.existing c) sent tail outstr) (t ++ t')).threads i).phase = .finished
          ∧ lockedBy i (labels (t ++ t')) = sent i :=
  (regularBuild_live hsent).serves_all hsteps (run_serving hsent hsteps hgoes)
    (run_regularInv hsteps) is

theorem regularServer_serves_all_twoClients : ∃ t : List (Event FileOutcome × Server RegularFile),
    Run (SuccessStep regularBuild)
        (Server.start (.existing fourLetters) twoClients (fun _ => []) fun _ => []) t
      ∧ lockedBy 0 (labels t) = [[120]] ∧ lockedBy 1 (labels t) = [[121, 122], [119]] := by
  obtain ⟨t, hsteps, -, hgoes, -⟩ := exists_twoClients_regular
  obtain ⟨t', hrun, hserved⟩ := regularServer_serves_all fourLetters twoClients (fun _ => [])
    twoClients_wellSent (fun _ => []) t hsteps hgoes [0, 1]
  exact ⟨_, hrun, (hserved 0 (by simp)).2, (hserved 1 (by simp)).2⟩

end Aesd
