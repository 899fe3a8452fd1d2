import Aesd.Basic.ByteFile
import Aesd.Server.Positions

set_option autoImplicit false

/-! # The server on a regular file

The build without `USE_AESD_CHAR_DEVICE`. The connection threads open the file with `"r+"`, so
that a message is written over the beginning of the file and the reply starts behind it; the
timer opens it with `"a"`. `RegularInv` says where the open files stand in every run, and
`SuccessStep.content_cases` what a step does to the content. -/

namespace Aesd

open Lts ByteFile

/-! ## The file -/

/-- The file, and the offsets of the descriptors the connection threads have open on it. -/
structure RegularFile where
  content : List UInt8
  offset : ConnId → Option Nat

/-- What the kernel decides during one call. -/
inductive FileOutcome
  /-- All bytes are transferred that there are. -/
  | done
  | fails

/-- A descriptor of `fopen(filename, "r+")`. It has no `ioctl` (`ENOTTY`). -/
def regularFile (i : ConnId) : FileOps RegularFile FileOutcome where
  write outcome buf f :=
    match outcome, f.offset i with
    | .done, some p => .ok (buf.length,
        ⟨writeAt 0 f.content p buf, Function.update f.offset i (some (p + buf.length))⟩)
    | _, _ => .ok (-1, f)
  read outcome count f :=
    match outcome, f.offset i with
    | .done, some p =>
        let bytes := (f.content.drop p).take count
        .ok (bytes.length, bytes,
          ⟨f.content, Function.update f.offset i (some (p + bytes.length))⟩)
    | _, _ => .ok (-1, [], f)
  ioctl _ _ _ f := .ok (-1, f)

/-- A descriptor of `fopen(filename, "a")`: every write goes to the end, and it cannot be
read. -/
def appendFile : FileOps RegularFile FileOutcome where
  write outcome buf f :=
    match outcome with
    | .done => .ok (buf.length, ⟨writeAt 0 f.content f.content.length buf, f.offset⟩)
    | .fails => .ok (-1, f)
  read _ _ f := .ok (-1, [], f)
  ioctl _ _ _ f := .ok (-1, f)

/-- The build for a regular file. -/
def regularBuild : Build RegularFile FileOutcome where
  fopen i f := ⟨f.content, Function.update f.offset i (some 0)⟩
  file := regularFile
  fclose i f := ⟨f.content, Function.update f.offset i none⟩
  appendFile := some appendFile
  copiesAll outcome := outcome = .done

/-- A file with the content `c` that nobody has open. -/
def RegularFile.existing (c : List UInt8) : RegularFile := ⟨c, fun _ => none⟩

/-- The file with another offset of descriptor `i`. -/
def RegularFile.seekTo (f : RegularFile) (i : ConnId) (p : Nat) : RegularFile :=
  ⟨f.content, Function.update f.offset i (some p)⟩

section

variable {f f' : RegularFile} {i : ConnId} {p : Nat} {chunks : List (Chunk FileOutcome)}

theorem RegularFile.seekTo_self (hp : f.offset i = some p) : f.seekTo i p = f := by
  rw [RegularFile.seekTo, ← hp, Function.update_eq_self]

/-- Chunks that are all accepted are written from the offset on. -/
theorem regularFile_writeChunks (hp : f.offset i = some p) (hle : p ≤ f.content.length)
    (hw : writeChunks (regularFile i) chunks f = .ok (true, f')) :
    f'.content = writeAt 0 f.content p (chunks.map Chunk.bytes).flatten
      ∧ f'.offset
        = Function.update f.offset i (some (p + (chunks.map Chunk.bytes).flatten.length)) := by
  induction chunks generalizing f p with
  | nil =>
      obtain ⟨-, rfl⟩ := Prod.mk.inj (Except.ok.inj hw)
      refine ⟨(writeAt_nil 0 hle).symm, ?_⟩
      rw [List.map_nil, List.flatten_nil, List.length_nil, Nat.add_zero, ← hp,
        Function.update_eq_self]
  | cons c rest ih =>
      obtain ⟨bytes, env⟩ := c
      cases env with
      | fails =>
          simp only [writeChunks, regularFile, bind, Except.bind] at hw
          cases hw
      | done =>
          have hpos : ¬ (bytes.length : Int) < 0 := Int.not_lt.mpr (Int.natCast_nonneg _)
          simp only [writeChunks, regularFile, hp, bind, Except.bind, if_neg hpos] at hw
          have hle' : p + bytes.length ≤ (writeAt 0 f.content p bytes).length := by
            rw [length_writeAt 0 hle]
            exact Nat.le_max_right _ _
          obtain ⟨hcontent, hoffset⟩ := ih (Function.update_self ..) hle' hw
          simp only [writeAt_writeAt 0 hle] at hcontent
          simp only [Function.update_idem] at hoffset
          rw [List.map_cons, List.flatten_cons, List.length_append, ← Nat.add_assoc]
          exact ⟨hcontent, hoffset⟩

/-- Chunks that are all accepted are appended. -/
theorem appendFile_writeChunks (hw : writeChunks appendFile chunks f = .ok (true, f')) :
    f'.content = f.content ++ (chunks.map Chunk.bytes).flatten ∧ f'.offset = f.offset := by
  induction chunks generalizing f with
  | nil =>
      obtain ⟨-, rfl⟩ := Prod.mk.inj (Except.ok.inj hw)
      exact ⟨(List.append_nil _).symm, rfl⟩
  | cons c rest ih =>
      obtain ⟨bytes, env⟩ := c
      cases env with
      | fails =>
          simp only [writeChunks, appendFile, bind, Except.bind] at hw
          cases hw
      | done =>
          have hpos : ¬ (bytes.length : Int) < 0 := Int.not_lt.mpr (Int.natCast_nonneg _)
          simp only [writeChunks, appendFile, bind, Except.bind, if_neg hpos] at hw
          obtain ⟨hcontent, hoffset⟩ := ih hw
          simp only [writeAt_length, List.append_assoc] at hcontent
          exact ⟨hcontent, hoffset⟩

/-- A descriptor reads the content of the file. -/
theorem regularFile_reads (f : RegularFile) (i : ConnId) :
    ReadsContent (regularFile i) (fun outcome => outcome = .done) f.content (f.seekTo i) := by
  intro outcome p count houtcome hcount
  subst houtcome
  refine ⟨((f.content.drop p).take count).length, ?_, ?_, ?_, ?_⟩
  · simp [regularFile, RegularFile.seekTo, Function.update_idem]
  · rw [List.length_take]
    exact Nat.min_le_left _ _
  · intro hle
    rw [List.drop_of_length_le hle, List.take_nil, List.length_nil]
  · intro hlt
    rw [List.length_take, List.length_drop]
    omega

end

/-! ## Where the descriptors stand -/

theorem regularBuild_opens : regularBuild.Opens RegularFile.offset :=
  ⟨fun _ _ => rfl, fun _ _ => rfl⟩

/-- Where a descriptor stands while the file is sent: behind the message, which has been written
over the beginning. -/
def RegularAtSend (f : RegularFile) (m : List UInt8) (p : Option Nat) : Prop :=
  decodeIoctlCommand (cString m) = none ∧ p = some ((cString m).length + 1)
    ∧ (cString m).length + 1 ≤ f.content.length

/-- It stands there still when the file has grown. -/
theorem RegularAtSend.mono {f f' : RegularFile} (hle : f.content.length ≤ f'.content.length)
    {m : List UInt8} {p : Option Nat} (h : RegularAtSend f m p) : RegularAtSend f' m p := by
  obtain ⟨hdata, hp, hsize⟩ := h
  exact ⟨hdata, hp, Nat.le_trans hsize hle⟩

/-- What holds in every run of the server on a regular file. -/
structure RegularInv (es : List (Event FileOutcome)) (s : Server RegularFile) : Prop where
  exclusive : s.Exclusive
  data : DataOrder es s
  offset : s.Positioned RegularFile.offset RegularAtSend

section

variable {es : List (Event FileOutcome)} {s s' : Server RegularFile} {e : Event FileOutcome}

/-- **`handle_message` on a regular file.** A data message is written over the beginning; a
command is rejected. -/
theorem RegularInv.handle (h : RegularInv es s) {i : ConnId} {m : List UInt8}
    {plan : StdioPlan FileOutcome} {env : FileOutcome} {retval : Int} {files : RegularFile}
    (hphase : (s.threads i).phase = .handle m) (hprints : plan.Prints (cString m ++ [newline]))
    (hok : (Event.handle i m plan env).Succeeds regularBuild s)
    (hhandled : handleMessage (regularFile i) m plan env s.files = .ok (retval, files)) :
    (decodeIoctlCommand (cString m) = none ∧ retval ≥ 0
        ∧ files.content
          = (cString m ++ [newline]) ++ s.files.content.drop ((cString m).length + 1)
        ∧ files.offset
          = Function.update s.files.offset i (some ((cString m).length + 1)))
      ∨ (decodeIoctlCommand (cString m) ≠ none ∧ ¬ retval ≥ 0 ∧ files = s.files) := by
  have hpos : s.files.offset i = some 0 := by
    have hpos := h.offset i
    rwa [hphase] at hpos
  cases hdecode : decodeIoctlCommand (cString m) with
  | none =>
      left
      obtain ⟨hret, hw⟩ := SuccessStep.handle_retval (b := regularBuild) hok hdecode hhandled
      obtain ⟨hcontent, hoffset⟩ := regularFile_writeChunks hpos (Nat.zero_le _) hw
      rw [hprints.flatten, writeAt_zero, List.length_append, List.length_singleton] at hcontent
      rw [hprints.flatten, Nat.zero_add, List.length_append, List.length_singleton] at hoffset
      exact ⟨rfl, hret, hcontent, hoffset⟩
  | some seekto =>
      right
      rw [handleMessage_command _ hdecode] at hhandled
      obtain ⟨rfl, rfl⟩ := Prod.mk.inj (Except.ok.inj hhandled)
      exact ⟨by simp, by decide, rfl⟩

/-- **`tcp_connection_send_file` on a regular file.** The reply is what stands behind the message
in the file. -/
theorem RegularInv.send (h : RegularInv es s) {i : ConnId} {m : List UInt8}
    {script : List (FileOutcome × Option Nat)} {retval : Bool} {reply : List UInt8}
    {files : RegularFile} (hphase : (s.threads i).phase = .send m)
    (hok : (Event.send i m script reply).Succeeds regularBuild s)
    (hsent : tcpConnectionSendFile (regularFile i) script s.files
      = .ok (retval, reply, files)) :
    reply = s.files.content.drop ((cString m).length + 1)
      ∧ (cString m).length + 1 ≤ s.files.content.length
      ∧ ∃ p, files = s.files.seekTo i p := by
  have hpos := h.offset i
  rw [hphase] at hpos
  obtain ⟨-, -, hp, hle⟩ := hpos
  rw [← RegularFile.seekTo_self hp] at hsent
  have heq := (regularFile_reads s.files i).sendFile_of_ok hok hsent
  obtain ⟨-, hrest⟩ := Prod.mk.inj heq
  obtain ⟨hreply, hfiles⟩ := Prod.mk.inj hrest
  exact ⟨hreply, hle, _, hfiles⟩

/-- **`thread_timer` on a regular file.** Its line is appended. -/
theorem SuccessStep.timerWrite_eq {j : TimerId} {outstr : List UInt8}
    {ops : FileOps RegularFile FileOutcome} {plan : StdioPlan FileOutcome} {accepted : Bool}
    {files : RegularFile} (has_timer : regularBuild.appendFile = some ops)
    (hok : (Event.timerWrite j plan).Succeeds regularBuild s)
    (prints : plan.Prints (timestampLine outstr))
    (written : writeChunks ops plan.chunks s.files = .ok (accepted, files)) :
    files.content = s.files.content ++ timestampLine outstr ∧ files.offset = s.files.offset := by
  obtain rfl := Option.some.inj has_timer
  obtain ⟨files', hw⟩ := hok _ rfl
  rw [written] at hw
  obtain ⟨rfl, rfl⟩ := Prod.mk.inj (Except.ok.inj hw)
  rw [← prints.flatten]
  exact appendFile_writeChunks written

/-- **What a step does to the content.** A data message is written over the beginning, the line
of a timer behind the end; every other step leaves the content alone. -/
theorem SuccessStep.content_cases (hstep : SuccessStep regularBuild s e s')
    (h : RegularInv es s) :
    (∃ i m plan env, e = .handle i m plan env ∧ (s.threads i).phase = .handle m
        ∧ decodeIoctlCommand (cString m) = none
        ∧ s'.files.content
          = (cString m ++ [newline]) ++ s.files.content.drop ((cString m).length + 1))
    ∨ (∃ j plan outstr, e = .timerWrite j plan ∧ s.timers j = .write outstr
        ∧ s'.files.content = s.files.content ++ timestampLine outstr)
    ∨ ((∀ j plan, e ≠ .timerWrite j plan) ∧ s'.files.content = s.files.content) := by
  obtain ⟨hstep, hok⟩ := hstep
  cases hstep with
  | handle at_handle prints handled =>
      rcases h.handle at_handle prints hok handled with ⟨hdata, -, hcontent, -⟩ | ⟨-, -, rfl⟩
      · exact Or.inl ⟨_, _, _, _, rfl, at_handle, hdata, hcontent⟩
      · exact Or.inr (Or.inr ⟨by simp, rfl⟩)
  | send at_send sent =>
      obtain ⟨-, -, p, rfl⟩ := h.send at_send hok sent
      exact Or.inr (Or.inr ⟨by simp, rfl⟩)
  | timerWrite has_timer at_write prints written =>
      obtain ⟨hcontent, -⟩ := SuccessStep.timerWrite_eq has_timer hok prints written
      exact Or.inr (Or.inl ⟨_, _, _, rfl, at_write, hcontent⟩)
  | receive | finish | fopen | fopenFails | lock | unlock | fclose | closeConnections | timerLock
  | timerUnlock => exact Or.inr (Or.inr ⟨by simp, rfl⟩)

/-- The file never gets shorter. -/
theorem SuccessStep.length_le (hstep : SuccessStep regularBuild s e s') (h : RegularInv es s) :
    s.files.content.length ≤ s'.files.content.length := by
  rcases hstep.content_cases h with ⟨_, _, _, _, -, -, -, hcontent⟩ | ⟨_, _, _, -, -, hcontent⟩
    | ⟨-, hcontent⟩
  · simp only [hcontent, List.length_append, List.length_singleton, List.length_drop]
    omega
  · rw [hcontent, List.length_append]
    exact Nat.le_add_right _ _
  · rw [hcontent]

/-- **One step keeps it.** -/
theorem SuccessStep.regularInv (hstep : SuccessStep regularBuild s e s') (h : RegularInv es s) :
    RegularInv (es ++ [e]) s' := by
  refine ⟨hstep.1.exclusive h.exclusive, hstep.dataOrder h.exclusive h.data, ?_⟩
  apply hstep.positioned regularBuild_opens h.offset fun _ _ => .mono (hstep.length_le h)
  · -- the files of the other threads
    intro hworks j hj
    obtain ⟨hstep, hok⟩ := hstep
    cases hstep with
    | handle at_handle prints handled =>
        rename_i i m plan env retval files
        have hne : j ≠ i := by
          rintro rfl
          exact hj rfl
        rcases h.handle at_handle prints hok handled with ⟨-, -, -, hoffset⟩ | ⟨-, -, rfl⟩
        · rw [hoffset]
          exact Function.update_of_ne hne ..
        · rfl
    | send at_send sent =>
        rename_i i m script retval reply files
        have hne : j ≠ i := by
          rintro rfl
          exact hj rfl
        obtain ⟨-, -, p, rfl⟩ := h.send at_send hok sent
        exact Function.update_of_ne hne ..
    | timerWrite has_timer at_write prints written =>
        obtain ⟨-, hoffset⟩ := SuccessStep.timerWrite_eq has_timer hok prints written
        rw [hoffset]
    | _ => exact absurd hworks id
  · -- its own file
    intro hworks j hj
    obtain ⟨hstep, hok⟩ := hstep
    cases hstep with
    | handle at_handle prints handled =>
        obtain rfl : _ = j := by simpa [Event.agent] using hj
        rename_i i m plan env retval files
        rcases h.handle at_handle prints hok handled with
          ⟨hdata, hret, hcontent, hoffset⟩ | ⟨-, hret, rfl⟩
        · simp only [Server.setPhase_self, if_pos hret, hoffset, Function.update_self]
          refine ⟨rfl, hdata, rfl, ?_⟩
          rw [hcontent, List.length_append, List.length_append, List.length_singleton]
          exact Nat.le_add_right _ _
        · have hpos := h.offset i
          rw [at_handle] at hpos
          simp only [Server.setPhase_self, if_neg hret]
          rw [hpos]
          rfl
    | send at_send sent =>
        obtain rfl : _ = j := by simpa [Event.agent] using hj
        obtain ⟨-, -, p, rfl⟩ := h.send at_send hok sent
        simp only [Server.setPhase_self, RegularFile.seekTo, Function.update_self]
        rfl
    | timerWrite => cases hj
    | _ => exact absurd hworks id

/-- It holds before the first step. -/
theorem RegularInv.start (c : List UInt8) (sent : ConnId → List (List UInt8))
    (tail : ConnId → List UInt8) (outstr : TimerId → List UInt8) :
    RegularInv [] (Server.start (.existing c) sent tail outstr) where
  exclusive := Server.start_exclusive _ outstr
  data := ⟨rfl, rfl⟩
  offset := fun _ => rfl

/-- Every message can be handled. -/
theorem RegularInv.can_handle (h : RegularInv es s) {i : ConnId} {m : List UInt8}
    (hphase : (s.threads i).phase = .handle m) :
    ∃ plan env s', SuccessStep regularBuild s (.handle i m plan env) s' := by
  have hpos : s.files.offset i = some 0 := by
    have hpos := h.offset i
    rwa [hphase] at hpos
  have hprints := StdioPlan.whole_prints (cString m ++ [newline]) (by simp)
    FileOutcome.done
  cases hdecode : decodeIoctlCommand (cString m) with
  | some seekto =>
      refine ⟨_, .done, _, .handle hphase hprints (handleMessage_command _ hdecode), ?_⟩
      intro hdata
      rw [hdecode] at hdata
      cases hdata
  | none =>
      have hw : ∃ files, writeChunks (regularFile i)
          (StdioPlan.whole (cString m ++ [newline]) FileOutcome.done).chunks s.files
            = .ok (true, files) := by
        have hnonneg : ¬ (((cString m ++ [newline]).length : Nat) : Int) < 0 := by omega
        simp only [StdioPlan.whole, StdioPlan.chunks, List.nil_append, writeChunks, regularFile,
          hpos, bind, Except.bind, pure, Except.pure, if_neg hnonneg]
        exact ⟨_, rfl⟩
      obtain ⟨files, hw⟩ := hw
      exact ⟨_, .done, _, .handle hphase hprints (handleMessage_data (regularFile i) hdecode hw),
        fun _ => ⟨files, hw⟩⟩

/-- Every reply can be sent. -/
theorem RegularInv.can_send (h : RegularInv es s) {i : ConnId} {m : List UInt8}
    (hphase : (s.threads i).phase = .send m) :
    ∃ script reply s', SuccessStep regularBuild s (.send i m script reply) s' := by
  have hpos := h.offset i
  rw [hphase] at hpos
  obtain ⟨-, -, hp, -⟩ := hpos
  have hfull : ∀ e ∈ List.replicate (s.files.content.length + 1)
      ((FileOutcome.done, some 4096) : FileOutcome × Option Nat),
      e.1 = .done ∧ SendsInFull e.2 := by
    intro e he
    rw [List.eq_of_mem_replicate he]
    exact ⟨rfl, 4096, rfl, Nat.le_refl _⟩
  have hsend := (regularFile_reads s.files i).sendFile_eq (p := (cString m).length + 1) _ hfull
    (by rw [List.length_replicate]; omega)
  rw [RegularFile.seekTo_self hp] at hsend
  exact ⟨_, _, _, .send hphase hsend, hfull⟩

/-- It holds after every run. -/
theorem run_regularInv {c : List UInt8} {sent : ConnId → List (List UInt8)}
    {tail : ConnId → List UInt8} {outstr : TimerId → List UInt8}
    {t : List (Event FileOutcome × Server RegularFile)}
    (hsteps : Run (SuccessStep regularBuild) (Server.start (.existing c) sent tail outstr) t) :
    RegularInv (labels t) (last (Server.start (.existing c) sent tail outstr) t) :=
  hsteps.invariant RegularInv (RegularInv.start c sent tail outstr)
    fun _ _ _ _ h hstep => hstep.regularInv h

end

end Aesd
