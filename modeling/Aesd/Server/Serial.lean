import Aesd.Driver.Specification
import Aesd.Server.DeviceFile
import Aesd.Server.Positions

set_option autoImplicit false

/-! # Serialisability on the character device

The server of the build with `USE_AESD_CHAR_DEVICE`. A message reaches the driver in several
writes, and the file it goes through is opened before `file_mutex` is taken; still the ring
holds the data messages of all connections as if they had been written one at a time, in the
order of the mutex, and the reply to each is the whole ring behind it (`run_serialised`). -/

namespace Aesd

open CInt CircArray Kernel Lts

/-- The build for the character device. -/
def deviceBuild (api : KernelApi) : Build Kernel Services where
  fopen i k := (aesdOpen k i).2
  file := deviceFile api
  fclose i k := (aesdRelease k i).2
  appendFile := none
  copiesAll env := env.uncopied = 0

theorem deviceBuild_opens (api : KernelApi) : (deviceBuild api).Opens Kernel.fPos :=
  ⟨fun _ _ => rfl, fun _ _ => rfl⟩

/-- Where the file stands while it is sent: `aesd_write` does not move, so after a data message it
is still at its beginning. Only a seek command moves it before. -/
def DeviceAtSend (_ : Kernel) (m : List UInt8) (p : Option Nat) : Prop :=
  decodeIoctlCommand (cString m) = none → p = some 0

/-- The positions of the files, and the ring: between two steps there are no pending bytes, and
the ring holds the last ten lines that have been handled. -/
structure DeviceInv (api : KernelApi) (init : List (List UInt8)) (es : List (Event Services))
    (s : Server Kernel) : Prop where
  position : s.Positioned Kernel.fPos DeviceAtSend
  device : ∃ d : Device, s.files.Shows api d ∧ d.pending = []
    ∧ d.commands = (init ++ handledData es).rtake maxWriteOperationsSupported

section

variable {api : KernelApi} {init : List (List UInt8)} {es : List (Event Services)}
  {s s' : Server Kernel} {e : Event Services}

/-- A whole line, written when nothing is pending, is one command. -/
theorem Device.write_line {d : Device} (hpending : d.pending = []) (m : List UInt8) :
    (d.write (m ++ [newline])).commands
        = (d.commands ++ [m ++ [newline]]).rtake maxWriteOperationsSupported
      ∧ (d.write (m ++ [newline])).pending = [] := by
  obtain ⟨hcommands, hpend⟩ := write_of_ends d (m ++ [newline]) (endsCommand_line d.pending m)
  rw [hpending, List.nil_append] at hcommands
  exact ⟨hcommands, hpend⟩

/-- A step that handles no data message and leaves the memory of the device alone. -/
theorem DeviceInv.device_stay (h : DeviceInv api init es s) (hh : handledData [e] = [])
    (hfiles : ∀ d, s.files.Shows api d → s'.files.Shows api d) :
    ∃ d : Device, s'.files.Shows api d ∧ d.pending = []
      ∧ d.commands = (init ++ handledData (es ++ [e])).rtake maxWriteOperationsSupported := by
  obtain ⟨d, hd, hpending, hcommands⟩ := h.device
  refine ⟨d, hfiles d hd, hpending, ?_⟩
  rw [handledData_concat, hh, List.append_nil, hcommands]

/-- **`handle_message` on the device.** A data message appends its line and does not move; a
command moves at most the position. -/
theorem DeviceInv.handle (h : DeviceInv api init es s) {i : ConnId} {m : List UInt8}
    {plan : StdioPlan Services} {env : Services} {retval : Int} {files : Kernel}
    (hphase : (s.threads i).phase = .handle m) (hm : newline ∉ cString m)
    (hsize : (cString m).length < 2 ^ 30) (hprints : plan.Prints (cString m ++ [newline]))
    (hok : (Event.handle i m plan env).Succeeds (deviceBuild api) s)
    (hhandled : handleMessage (deviceFile api i) m plan env s.files = .ok (retval, files)) :
    (decodeIoctlCommand (cString m) = none ∧ files.fPos = s.files.fPos
        ∧ ∃ d : Device, files.Shows api d ∧ d.pending = []
          ∧ d.commands = (init ++ handledData (es ++ [.handle i m plan env])).rtake
              maxWriteOperationsSupported)
      ∨ (decodeIoctlCommand (cString m) ≠ none ∧ ∃ p, files = s.files.seekTo i p) := by
  have hpos : s.files.fPos i = some 0 := by
    have hpos := h.position i
    rwa [hphase] at hpos
  obtain ⟨d, hd, hpending, hcommands⟩ := h.device
  cases hdecode : decodeIoctlCommand (cString m) with
  | none =>
      left
      obtain ⟨-, hw⟩ := SuccessStep.handle_retval (b := deviceBuild api) hok hdecode hhandled
      obtain ⟨hwritten, hstays⟩ := deviceFile_printed hd hpos hm hsize hprints hw
      obtain ⟨hcommands', hpending'⟩ := Device.write_line hpending (cString m)
      refine ⟨rfl, hstays, d.write (cString m ++ [newline]), hwritten, hpending', ?_⟩
      have hline : handledData [Event.handle i m plan env] = [cString m ++ [newline]] := by
        simp [handledData, dataLine, hdecode]
      rw [hcommands', hcommands, rtake_rtake_append, handledData_concat, hline,
        List.append_assoc]
  | some seekto =>
      right
      obtain ⟨ret, p, hio⟩ := deviceFile_ioctl (f := i) hd hpos env AESDCHAR_IOCSEEKTO seekto
      rw [handleMessage_command _ hdecode, hio] at hhandled
      obtain ⟨-, rfl⟩ := Prod.mk.inj (Except.ok.inj hhandled)
      exact ⟨by simp, p, rfl⟩

/-- **`tcp_connection_send_file` on the device.** -/
theorem DeviceInv.send (h : DeviceInv api init es s) {i : ConnId} {m : List UInt8}
    {script : List (Services × Option Nat)} {retval : Bool} {reply : List UInt8} {files : Kernel}
    (hphase : (s.threads i).phase = .send m)
    (hok : (Event.send i m script reply).Succeeds (deviceBuild api) s)
    (hsent : tcpConnectionSendFile (deviceFile api i) script s.files
      = .ok (retval, reply, files)) :
    ∃ (d : Device) (p : Nat), s.files.Shows api d
      ∧ d.commands = (init ++ handledData es).rtake maxWriteOperationsSupported
      ∧ s.files.fPos i = some p ∧ reply = d.flat.drop p
      ∧ files = s.files.seekTo i (max p d.flat.length) := by
  have hpos := h.position i
  rw [hphase] at hpos
  obtain ⟨p, hp⟩ := Option.isSome_iff_exists.mp hpos.1
  obtain ⟨d, hd, -, hcommands⟩ := h.device
  rw [← restore_fPos hp] at hsent
  have heq := (deviceFile_reads hd i).sendFile_of_ok hok hsent
  obtain ⟨-, hrest⟩ := Prod.mk.inj heq
  obtain ⟨hreply, hfiles⟩ := Prod.mk.inj hrest
  exact ⟨d, p, hd, hcommands, hp, hreply, hfiles⟩

/-- A thread that is to send the file can do so, with as many reads and sends as it takes. -/
theorem DeviceInv.can_send (h : DeviceInv api init es s) {i : ConnId} {m : List UInt8}
    (hphase : (s.threads i).phase = .send m) :
    ∃ (script : List (Services × Option Nat)) (reply : List UInt8) (files : Kernel),
      SuccessStep (deviceBuild api) s (.send i m script reply)
        { s.setPhase i (.unlock m) with files := files } := by
  have hpos := h.position i
  rw [hphase] at hpos
  obtain ⟨p, hp⟩ := Option.isSome_iff_exists.mp hpos.1
  obtain ⟨d, hd, -, -⟩ := h.device
  have hfull : ∀ e ∈ List.replicate (d.flat.length + 1) ((⟨none, 0⟩, some 4096) :
      Services × Option Nat), InFull e := by
    intro e he
    rw [List.eq_of_mem_replicate he]
    exact ⟨rfl, 4096, rfl, Nat.le_refl _⟩
  have hsend := (deviceFile_reads hd i).sendFile_eq (p := p) _ hfull
    (by rw [List.length_replicate]; omega)
  rw [Kernel.seekTo, restore_fPos hp] at hsend
  exact ⟨_, _, _, Step.send hphase hsend, hfull⟩

/-- A line that fits into one block can be handled. -/
theorem DeviceInv.can_handle (h : DeviceInv api init es s) {i : ConnId} {m : List UInt8}
    (hphase : (s.threads i).phase = .handle m)
    (hfits : (cString m).length < api.kmallocMaxSize) (hsize : (cString m).length < 2 ^ 30) :
    ∃ plan env s', SuccessStep (deviceBuild api) s (.handle i m plan env) s' := by
  have hpos := h.position i
  rw [hphase] at hpos
  obtain ⟨d, hd, hpending, -⟩ := h.device
  cases hdecode : decodeIoctlCommand (cString m) with
  | some seekto =>
      obtain ⟨ret, p, hio⟩ :=
        deviceFile_ioctl (f := i) hd hpos ⟨none, 0⟩ AESDCHAR_IOCSEEKTO seekto
      have hprints := StdioPlan.whole_prints (cString m ++ [newline]) (by simp)
        (⟨none, 0⟩ : Services)
      refine ⟨_, _, _, .handle hphase hprints
        ((handleMessage_command (deviceFile api i) hdecode).trans hio), ?_⟩
      intro hdata
      rw [hdecode] at hdata
      cases hdata
  | none =>
      -- the line is written in one piece, for which there is memory
      have hlength : (cString m ++ [newline]).length = (cString m).length + 1 := by simp
      obtain ⟨-, choice, k', hcall, -⟩ := hd.hasView.exists_write (f := i) hpos
        (cString m ++ [newline]) (by
          show 1 ≤ _ ∧ _ ≤ maxRwCount
          unfold maxRwCount
          omega) (by
          show _ + d.pending.length ≤ _
          rw [hpending, List.length_nil]
          omega)
      have hw : writeChunks (deviceFile api i)
          (StdioPlan.whole (cString m ++ [newline]) (⟨choice, 0⟩ : Services)).chunks s.files
            = .ok (true, k') := by
        have hnonneg : ¬ (((cString m ++ [newline]).length : Nat) : Int) < 0 := by omega
        simp only [StdioPlan.whole, StdioPlan.chunks, List.nil_append, writeChunks, deviceFile,
          hcall, bind, Except.bind, SysRet.value, pure, Except.pure, if_neg hnonneg]
      exact ⟨_, ⟨none, 0⟩, _, .handle hphase (StdioPlan.whole_prints _ (by simp) _)
        (handleMessage_data (deviceFile api i) hdecode hw), fun _ => ⟨k', hw⟩⟩

/-- **One step keeps the positions and the ring.** -/
theorem SuccessStep.deviceInv {sent : ConnId → List (List UInt8)} {tail : ConnId → List UInt8}
    (hsent : ∀ i, WellSent (sent i) (tail i)) (hstep : SuccessStep (deviceBuild api) s e s')
    (hinv : Server.Inv sent tail es s) (h : DeviceInv api init es s) :
    DeviceInv api init (es ++ [e]) s' := by
  have hposition := hstep.positioned (deviceBuild_opens api) h.position (fun _ _ hp => hp)
  obtain ⟨hstep, hok⟩ := hstep
  cases hstep with
  | receive | finish | lock | unlock | closeConnections | timerUnlock =>
      exact ⟨hposition (fun hw => absurd hw id) (fun hw => absurd hw id),
        h.device_stay rfl fun _ hd => hd⟩
  | fopen | fclose =>
      exact ⟨hposition (fun hw => absurd hw id) (fun hw => absurd hw id),
        h.device_stay rfl fun _ hd => hd.withFPos _⟩
  | fopenFails => exact absurd hok id
  | handle at_handle prints handled =>
      rename_i i m plan env retval files
      have hpos := h.position i
      rw [at_handle] at hpos
      have hmem := (hinv.threads i).message m (by rw [at_handle]; rfl)
      obtain ⟨hm, -, hsize⟩ := (hsent i).lines _ hmem
      rcases h.handle at_handle hm hsize prints hok handled with
        ⟨hdata, hstays, hdevice⟩ | ⟨hcommand, p, rfl⟩
      · -- a data message: nothing moves
        refine ⟨hposition (fun _ _ _ => by rw [hstays]) ?_, hdevice⟩
        rintro - j ⟨⟩
        obtain ⟨hret, -⟩ := SuccessStep.handle_retval hok hdata handled
        simp only [Server.setPhase_self, if_pos hret, hstays]
        exact ⟨by rw [hpos]; rfl, fun _ => hpos⟩
      · -- a command: its own file may move
        have hnil : handledData [Event.handle i m plan env] = [] := by
          simp [handledData, dataLine, hcommand]
        refine ⟨hposition ?_ ?_, h.device_stay hnil fun _ hd => hd.seekTo i p⟩
        · rintro - j hj
          refine seekTo_fPos_ne s.files p ?_
          rintro rfl
          exact hj rfl
        · rintro - j ⟨⟩
          simp only [Server.setPhase_self, seekTo_fPos]
          split
          · exact ⟨rfl, fun hdata => absurd hdata hcommand⟩
          · rfl
  | send at_send sent =>
      rename_i i m script retval reply files
      obtain ⟨d, p, -, -, -, -, rfl⟩ := h.send at_send hok sent
      refine ⟨hposition ?_ ?_, h.device_stay rfl fun _ hd => hd.seekTo i _⟩
      · rintro - j hj
        refine seekTo_fPos_ne s.files _ ?_
        rintro rfl
        exact hj rfl
      · rintro - j ⟨⟩
        simp only [Server.setPhase_self, seekTo_fPos]
        rfl
  | timerLock has_timer | timerWrite has_timer => cases has_timer

end

/-! ## The theorem -/

/-- **What a client can rely on** after the steps `es`, with the commands `init` in the ring
before them. -/
structure Serialised (api : KernelApi) (init : List (List UInt8))
    (sent : ConnId → List (List UInt8)) (es : List (Event Services)) (s : Server Kernel) :
    Prop where
  /-- While `file_mutex` is free nothing is pending, and the ring holds the last ten lines, in
  the order in which the mutex was taken. -/
  ring : s.fileMutex = none → s.files.stagingContents = .ok []
    ∧ s.files.ringContents = .ok ((init ++ lockedData es).rtake maxWriteOperationsSupported)
  /-- The messages of a connection are taken in the order it sent them. -/
  order : ∀ i, lockedBy i es <+: sent i
  /-- The reply to a data message is the whole ring, with that message as the last one. -/
  reply : ∀ i m script reply s',
    SuccessStep (deviceBuild api) s (.send i m script reply) s' →
      decodeIoctlCommand (cString m) = none →
        s.files.ringContents
            = .ok ((init ++ lockedData es).rtake maxWriteOperationsSupported)
          ∧ reply = ((init ++ lockedData es).rtake maxWriteOperationsSupported).flatten
          ∧ (∃ earlier, lockedData es = earlier ++ [cString m ++ [newline]])
          ∧ (cString m ++ [newline]) <:+ reply
  /-- A command changes neither the ring nor the staging entry, nor the memory behind them. -/
  command : ∀ i m plan env s',
    SuccessStep (deviceBuild api) s (.handle i m plan env) s' →
      decodeIoctlCommand (cString m) ≠ none →
        s'.files.aesdDevice = s.files.aesdDevice ∧ s'.files.heap = s.files.heap

section

variable {api : KernelApi} {init : List (List UInt8)} {es : List (Event Services)}
  {s s' : Server Kernel} {sent : ConnId → List (List UInt8)} {tail : ConnId → List UInt8}

/-- The reply to a data message. -/
theorem DeviceInv.reply_eq (hinv : Server.Inv sent tail es s) (h : DeviceInv api init es s)
    {i : ConnId} {m : List UInt8} {script : List (Services × Option Nat)} {reply : List UInt8}
    (hstep : SuccessStep (deviceBuild api) s (.send i m script reply) s')
    (hdata : decodeIoctlCommand (cString m) = none) :
    s.files.ringContents = .ok ((init ++ lockedData es).rtake maxWriteOperationsSupported)
      ∧ reply = ((init ++ lockedData es).rtake maxWriteOperationsSupported).flatten
      ∧ (∃ earlier, lockedData es = earlier ++ [cString m ++ [newline]])
      ∧ (cString m ++ [newline]) <:+ reply := by
  obtain ⟨hstep, hok⟩ := hstep
  cases hstep with
  | send at_send hsent =>
      have hline : dataLine m = [cString m ++ [newline]] := if_pos hdata
      have hheld := hinv.exclusive.heldPhase_eq (i := i) (by rw [at_send]; trivial)
      rw [at_send] at hheld
      -- the mutex has been held since it was taken for `m`: its line is the last one
      have hlocked : lockedData es = handledData es := by
        rw [hinv.data.locked, hheld]
        exact List.append_nil _
      have hlast : lockedData es = repliedData es ++ [cString m ++ [newline]] := by
        rw [hlocked, hinv.data.handled, hheld]
        exact congrArg _ hline
      obtain ⟨d, p, hd, hcommands, hp, rfl, -⟩ := h.send at_send hok hsent
      have hzero : p = 0 := by
        have hpos := h.position i
        rw [at_send, hp] at hpos
        exact Option.some.inj (hpos.2 hdata)
      rw [← hlocked] at hcommands
      have hreply : d.flat.drop p
          = ((init ++ lockedData es).rtake maxWriteOperationsSupported).flatten := by
        rw [hzero, List.drop_zero, Device.flat, hcommands]
      refine ⟨by rw [hd.ringContents_eq, hcommands], hreply, ⟨_, hlast⟩, ?_⟩
      rw [hreply, hlast, ← List.append_assoc, rtake_concat _ _ (by decide), List.flatten_concat]
      exact List.suffix_append _ _

/-- The invariants of a state say what a client can rely on. -/
theorem DeviceInv.serialised (hsent : ∀ i, WellSent (sent i) (tail i))
    (hinv : Server.Inv sent tail es s) (h : DeviceInv api init es s) :
    Serialised api init sent es s where
  ring := by
    intro hfree
    obtain ⟨d, hd, hpending, hcommands⟩ := h.device
    have hlocked : lockedData es = handledData es := by
      rw [hinv.data.locked, Server.heldPhase_of_free hfree]
      exact List.append_nil _
    rw [hd.stagingContents_eq, hd.ringContents_eq, hpending, hcommands, hlocked]
    exact ⟨rfl, rfl⟩
  order := hinv.lockedBy_le
  reply := fun i m script reply s' hstep hdata => h.reply_eq hinv hstep hdata
  command := by
    intro i m plan env s' hstep hcommand
    obtain ⟨hstep, hok⟩ := hstep
    cases hstep with
    | handle at_handle prints handled =>
        have hmem := (hinv.threads i).message m (by rw [at_handle]; rfl)
        obtain ⟨hm, -, hsize⟩ := (hsent i).lines _ hmem
        rcases h.handle at_handle hm hsize prints hok handled with ⟨hdata, -⟩ | ⟨-, p, rfl⟩
        · exact absurd hdata hcommand
        · exact ⟨rfl, rfl⟩

end

/-- The invariants hold after every run from a device with nothing pending. -/
theorem run_deviceInv {api : KernelApi} {k : Kernel} {d : Device} (hshows : k.Shows api d)
    (hpending : d.pending = []) (hclosed : ∀ i, k.fPos i = none)
    {sent : ConnId → List (List UInt8)} {tail : ConnId → List UInt8}
    (hsent : ∀ i, WellSent (sent i) (tail i)) (outstr : TimerId → List UInt8)
    {t : List (Event Services × Server Kernel)}
    (hsteps : Run (SuccessStep (deviceBuild api)) (Server.start k sent tail outstr) t) :
    Server.Inv sent tail (labels t) (last (Server.start k sent tail outstr) t)
      ∧ DeviceInv api d.commands (labels t) (last (Server.start k sent tail outstr) t) := by
  have hstart : DeviceInv api d.commands [] (Server.start k sent tail outstr) := by
    refine ⟨fun i => hclosed i, d, hshows, hpending, ?_⟩
    rw [show handledData ([] : List (Event Services)) = [] from rfl, List.append_nil,
      rtake_of_length_le d.length_le]
  exact hsteps.invariant
    (fun es s => Server.Inv sent tail es s ∧ DeviceInv api d.commands es s)
    ⟨Server.start_inv k outstr, hstart⟩
    (fun es s e s' h hstep => ⟨hstep.inv hsent h.1, hstep.deviceInv hsent h.1 h.2⟩)

/-- **Serialisability.** Start the server on a device that some run of the driver has left with
nothing pending and that nobody else has open, and let any number of clients send any lines.
After any interleaving of the threads' steps, as long as allocations, copies, opens and sends
succeed, the ring, the order of the messages, the replies and the commands are as
`Serialised` says. -/
theorem run_serialised (api : KernelApi) (dev : AesdDev) (calls : List DevCall) (rs : List SysRet)
    (k : Kernel) (hcalls : ∀ c ∈ calls, c.InRange)
    (hrun : (Kernel.loaded dev).run api calls = .ok (rs, k)) (hstaging : k.stagingContents = .ok [])
    (init : List (List UInt8)) (hring : k.ringContents = .ok init)
    (hclosed : ∀ i, k.fPos i = none) (sent : ConnId → List (List UInt8))
    (tail : ConnId → List UInt8) (hsent : ∀ i, WellSent (sent i) (tail i))
    (outstr : TimerId → List UInt8) (t : List (Event Services × Server Kernel))
    (hsteps : Run (SuccessStep (deviceBuild api)) (Server.start k sent tail outstr) t) :
    Serialised api init sent (labels t) (last (Server.start k sent tail outstr) t) := by
  have hshows := (Kernel.loaded_shows api dev).run hcalls hrun
  have hpending := Except.ok.inj (hshows.stagingContents_eq.symm.trans hstaging)
  have hcommands := Except.ok.inj (hshows.ringContents_eq.symm.trans hring)
  obtain ⟨hinv, hdevice⟩ := run_deviceInv hshows hpending hclosed hsent outstr hsteps
  rw [hcommands] at hdevice
  exact hdevice.serialised hsent hinv

/-- Two clients, one of which is served while the other one waits for the mutex. -/
theorem exists_twoClients_device :
    let s := Server.start (Kernel.loaded .zero) twoClients (fun _ => []) fun _ => []
    ∃ t : List (Event Services × Server Kernel), Run (SuccessStep (deviceBuild .linux)) s t
      ∧ (last s t).fileMutex = none ∧ .closeConnections ∉ labels t
      ∧ lockedData (labels t) = [[121, 122, newline], [120, newline]]
      ∧ ∀ j outstr, .timerLock j outstr ∉ labels t :=
  exists_twoClients_run (deviceBuild .linux) (Kernel.loaded .zero) (fun _ => [])
    (J := fun es s => Server.Inv twoClients (fun _ => []) es s ∧ DeviceInv .linux [] es s)
    ⟨Server.start_inv _ _, fun _ => rfl, _, Kernel.loaded_shows .linux .zero, rfl, rfl⟩
    (fun _ _ _ _ h hstep =>
      ⟨hstep.inv twoClients_wellSent h.1, hstep.deviceInv twoClients_wellSent h.1 h.2⟩)
    (fun _ s i m h hphase => by
      have hmem := (h.1.threads i).message m (by rw [hphase]; rfl)
      have hsize := twoClients_length_le hmem
      exact h.2.can_handle hphase (Nat.lt_of_le_of_lt hsize (by decide))
        (Nat.lt_of_le_of_lt hsize (by decide)))
    (fun _ _ _ _ h hphase => by
      obtain ⟨script, reply, files, hstep⟩ := h.2.can_send hphase
      exact ⟨script, reply, _, hstep⟩)

theorem run_serialised_twoClients :
    ∃ t : List (Event Services × Server Kernel),
      Run (SuccessStep (deviceBuild .linux))
          (Server.start (Kernel.loaded .zero) twoClients (fun _ => []) fun _ => []) t
      ∧ lockedData (labels t) = [[121, 122, newline], [120, newline]]
      ∧ Serialised .linux [] twoClients (labels t)
          (last (Server.start (Kernel.loaded .zero) twoClients (fun _ => []) fun _ => []) t) := by
  obtain ⟨t, hsteps, -, -, hdata, -⟩ := exists_twoClients_device
  exact ⟨t, hsteps, hdata, run_serialised .linux .zero [] [] _ (by simp) rfl rfl [] rfl
    (fun _ => rfl) twoClients (fun _ => []) twoClients_wellSent (fun _ => []) _ hsteps⟩

end Aesd
