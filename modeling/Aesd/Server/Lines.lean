import Aesd.Server.RegularFile

set_option autoImplicit false

/-! # The lines in a regular file

A log file should keep every line: nothing that stands in it is overwritten, the lines come in
the order of `file_mutex`, and a client gets all of it back with its own line at the end
(`KeepsEveryLine`). The lines of the timer are kept so. A data message never is:
`thread_routine` opens the file with `"r+"`, writes over its beginning, and sends what follows
(`run_keepsEveryLine`). -/

namespace Aesd

open Lts ByteFile

/-! ## The law -/

/-- The lines of data messages and of the timer, in the order in which `file_mutex` was taken for
them. -/
def lockedLines {ω : Type} (es : List (Event ω)) : List (List UInt8) :=
  es.flatMap fun e => match e with
    | .lock _ m => dataLine m
    | .timerLock _ outstr => [timestampLine outstr]
    | _ => []

/-- **The file keeps every line** throughout the run `t` from `s₀`. -/
structure KeepsEveryLine (s₀ : Server RegularFile)
    (t : List (Event FileOutcome × Server RegularFile)) : Prop where
  /-- While `file_mutex` is free, the content is the initial one and then the lines. -/
  lines : ∀ t₁ t₂, t = t₁ ++ t₂ → (last s₀ t₁).fileMutex = none →
    (last s₀ t₁).files.content = s₀.files.content ++ (lockedLines (labels t₁)).flatten
  /-- No byte is overwritten. -/
  grows : ∀ t₁ e s' t₂, t = t₁ ++ (e, s') :: t₂ →
    (last s₀ t₁).files.content <+: s'.files.content
  /-- The reply to a data message is the whole file, with that message at the end. -/
  replies : ∀ t₁ i m script reply s' t₂, t = t₁ ++ (.send i m script reply, s') :: t₂ →
    decodeIoctlCommand (cString m) = none →
      reply = (last s₀ t₁).files.content ∧ (cString m ++ [newline]) <:+ reply

/-! ## Runs without data messages -/

/-- The line of the timer that holds `file_mutex`, until it is written. -/
def Server.timerInHand {σ : Type} (s : Server σ) : List (List UInt8) :=
  match s.fileMutex with
  | some (.timer j) =>
      match s.timers j with
      | .write outstr => [timestampLine outstr]
      | _ => []
  | _ => []

section

variable {es : List (Event FileOutcome)} {s s' : Server RegularFile} {e : Event FileOutcome}

theorem lockedLines_concat {ω : Type} (es : List (Event ω)) (e : Event ω) :
    lockedLines (es ++ [e]) = lockedLines es ++ lockedLines [e] :=
  List.flatMap_append ..

/-- If no data message has taken the mutex, the one that is handled is none. -/
theorem RegularInv.command_of_handle (h : RegularInv es s) (hnone : lockedData es = [])
    {i : ConnId} {m : List UInt8} (hphase : (s.threads i).phase = .handle m) :
    decodeIoctlCommand (cString m) ≠ none := by
  intro hdata
  have hheld := h.exclusive.heldPhase_eq (i := i) (by rw [hphase]; trivial)
  have hlocked := h.data.locked
  rw [hnone, hheld, hphase, Phase.toHandle, dataLine, if_pos hdata] at hlocked
  exact absurd hlocked.symm (by simp)

/-- If no data message has taken the mutex, none is answered. -/
theorem RegularInv.command_of_send (h : RegularInv es s) (hnone : lockedData es = [])
    {i : ConnId} {m : List UInt8} (hphase : (s.threads i).phase = .send m) :
    decodeIoctlCommand (cString m) ≠ none := by
  intro hdata
  have hheld := h.exclusive.heldPhase_eq (i := i) (by rw [hphase]; trivial)
  have hlocked := h.data.locked
  rw [h.data.handled, hnone, hheld, hphase, Phase.toReply, dataLine, if_pos hdata] at hlocked
  exact absurd hlocked.symm (by simp)

/-- The content grows if no data message is handled. -/
theorem RegularInv.grows (h : RegularInv es s) (hnone : lockedData es = [])
    (hstep : SuccessStep regularBuild s e s') : s.files.content <+: s'.files.content := by
  rcases hstep.content_cases h with ⟨_, _, _, _, -, hphase, hdata, -⟩ | ⟨_, _, _, -, -, hcontent⟩
    | ⟨-, hcontent⟩
  · exact absurd hdata (h.command_of_handle hnone hphase)
  · rw [hcontent]
    exact List.prefix_append _ _
  · rw [hcontent]

/-- **One step keeps the lines of the timer**: those the mutex was taken for are in the file, but
for the one in hand. -/
theorem RegularInv.timerLines (h : RegularInv es s) (hnone : lockedData (es ++ [e]) = [])
    (hstep : SuccessStep regularBuild s e s') {c : List UInt8}
    (hlines : c ++ (lockedLines es).flatten = s.files.content ++ s.timerInHand.flatten) :
    c ++ (lockedLines (es ++ [e])).flatten = s'.files.content ++ s'.timerInHand.flatten := by
  rw [lockedData_concat, List.append_eq_nil_iff] at hnone
  obtain ⟨hnone, hevent⟩ := hnone
  have hcases := hstep.content_cases h
  obtain ⟨hstep, hok⟩ := hstep
  rw [lockedLines_concat, List.flatten_append, ← List.append_assoc, hlines]
  -- the content is the same, unless a timer writes
  have hsame : (∀ j plan, e ≠ .timerWrite j plan) → s'.files.content = s.files.content := by
    intro hno
    rcases hcases with ⟨_, _, _, _, -, hphase, hdata, -⟩ | ⟨j, plan, _, he, -, -⟩
      | ⟨-, hcontent⟩
    · exact absurd hdata (h.command_of_handle hnone hphase)
    · exact absurd he (hno j plan)
    · exact hcontent
  cases hstep with
  | receive | finish | fopen | fopenFails | handle | send | fclose | closeConnections =>
      rw [hsame (by simp)]
      exact List.append_nil _
  | lock at_lock is_free =>
      rename_i i m
      -- the message is no data message, and adds no line
      have hline : dataLine m = [] := by simpa [lockedData] using hevent
      have hbefore : s.timerInHand = [] := by rw [Server.timerInHand, is_free]
      rw [hsame (by simp), hbefore]
      simp [lockedLines, hline, Server.timerInHand]
  | unlock at_unlock =>
      rename_i i m
      have hmutex : s.fileMutex = some (.connection i) :=
        h.exclusive.holder_eq (a := .connection i) (by rw [Server.Critical, at_unlock]; trivial)
      have hbefore : s.timerInHand = [] := by rw [Server.timerInHand, hmutex]
      rw [hsame (by simp), hbefore]
      simp [lockedLines, Server.timerInHand]
  | timerLock has_timer at_lock is_free =>
      -- the line comes in hand
      have hbefore : s.timerInHand = [] := by rw [Server.timerInHand, is_free]
      rw [hsame (by simp), hbefore]
      simp [lockedLines, Server.timerInHand, Server.setTimer]
  | timerWrite has_timer at_write prints written =>
      -- the line goes from the hand into the file
      rename_i j outstr _ plan _ files
      have hmutex : s.fileMutex = some (.timer j) :=
        h.exclusive.holder_eq (a := .timer j) (by rw [Server.Critical, at_write]; trivial)
      have hbefore : s.timerInHand = [timestampLine outstr] := by
        simp only [Server.timerInHand, hmutex, at_write]
      rcases hcases with ⟨_, _, _, _, he, -⟩ | ⟨j', plan', outstr', he, at_write', hcontent⟩
        | ⟨hno, -⟩
      · cases he
      · cases he
        rw [at_write] at at_write'
        obtain rfl : outstr = outstr' := by injection at_write'
        rw [hbefore, hcontent]
        simp [lockedLines, Server.timerInHand, Server.setTimer, hmutex]
      · exact absurd rfl (hno j plan)
  | timerUnlock at_unlock =>
      rename_i j
      have hmutex : s.fileMutex = some (.timer j) :=
        h.exclusive.holder_eq (a := .timer j) (by rw [Server.Critical, at_unlock]; trivial)
      have hbefore : s.timerInHand = [] := by simp only [Server.timerInHand, hmutex, at_unlock]
      rw [hsame (by simp), hbefore]
      simp [lockedLines, Server.timerInHand]

end

/-! ## The theorem -/

section

variable {c : List UInt8} {sent : ConnId → List (List UInt8)} {tail : ConnId → List UInt8}
  {outstr : TimerId → List UInt8} {t : List (Event FileOutcome × Server RegularFile)}

/-- The lines of the timer in every run without data messages. -/
theorem run_timerLines
    (hsteps : Run (SuccessStep regularBuild) (Server.start (.existing c) sent tail outstr) t)
    (hnone : lockedData (labels t) = []) :
    c ++ (lockedLines (labels t)).flatten
      = (last (Server.start (.existing c) sent tail outstr) t).files.content
        ++ (last (Server.start (.existing c) sent tail outstr) t).timerInHand.flatten := by
  have hinv := hsteps.invariant
    (fun es s => RegularInv es s ∧ (lockedData es = [] →
      c ++ (lockedLines es).flatten = s.files.content ++ s.timerInHand.flatten))
    ⟨RegularInv.start c sent tail outstr, fun _ => rfl⟩
    (by
      rintro es s e s' ⟨h, hlines⟩ hstep
      refine ⟨hstep.regularInv h, fun hnone => h.timerLines hnone hstep (hlines ?_)⟩
      rw [lockedData_concat] at hnone
      exact (List.append_eq_nil_iff.mp hnone).1)
  exact hinv.2 hnone

/-- The first part of a run without data messages has none. -/
theorem lockedData_of_append {t₁ t₂ : List (Event FileOutcome × Server RegularFile)}
    (hnone : lockedData (labels (t₁ ++ t₂)) = []) : lockedData (labels t₁) = [] := by
  rw [labels_append, lockedData, List.flatMap_append] at hnone
  exact (List.append_eq_nil_iff.mp hnone).1

/-- **Without data messages every line is kept.** -/
theorem keepsEveryLine_of_no_data
    (hsteps : Run (SuccessStep regularBuild) (Server.start (.existing c) sent tail outstr) t)
    (hnone : lockedData (labels t) = []) :
    KeepsEveryLine (Server.start (.existing c) sent tail outstr) t where
  lines := by
    rintro t₁ t₂ rfl hfree
    have hlines := run_timerLines hsteps.of_append (lockedData_of_append hnone)
    rw [Server.timerInHand, hfree, List.flatten_nil, List.append_nil] at hlines
    exact hlines.symm
  grows := by
    rintro t₁ e s' t₂ rfl
    exact (run_regularInv hsteps.of_append).grows (lockedData_of_append hnone) hsteps.step_of
  replies := by
    rintro t₁ i m script reply s' t₂ rfl hdata
    obtain ⟨hstep, -⟩ := hsteps.step_of
    cases hstep with
    | send at_send =>
        have hcommand := (run_regularInv hsteps.of_append).command_of_send
          (lockedData_of_append hnone) at_send
        exact absurd hdata hcommand

/-- **A reply is never the whole file**: it lacks the message itself. -/
theorem RegularInv.reply_ne {es : List (Event FileOutcome)} {s s' : Server RegularFile}
    (h : RegularInv es s) {i : ConnId} {m : List UInt8}
    {script : List (FileOutcome × Option Nat)} {reply : List UInt8}
    (hstep : SuccessStep regularBuild s (.send i m script reply) s') :
    reply ≠ s.files.content := by
  obtain ⟨hstep, hok⟩ := hstep
  cases hstep with
  | send at_send sent =>
      obtain ⟨hreply, hle, -⟩ := h.send at_send hok sent
      intro heq
      have hlength := congrArg List.length (hreply.symm.trans heq)
      rw [List.length_drop] at hlength
      omega

/-- **With a data message that has been answered it is not.** -/
theorem no_data_of_keepsEveryLine
    (hsteps : Run (SuccessStep regularBuild) (Server.start (.existing c) sent tail outstr) t)
    (hfree : (last (Server.start (.existing c) sent tail outstr) t).fileMutex = none)
    (hkeeps : KeepsEveryLine (Server.start (.existing c) sent tail outstr) t) :
    lockedData (labels t) = [] := by
  have hdata := (run_regularInv hsteps).data
  have hheld := Server.heldPhase_of_free hfree
  -- with the mutex free, all data messages it was taken for are answered
  have hreplied : lockedData (labels t) = repliedData (labels t) := by
    calc lockedData (labels t)
        = handledData (labels t) := by
          rw [hdata.locked, hheld]
          exact List.append_nil _
      _ = repliedData (labels t) := by
          rw [hdata.handled, hheld]
          exact List.append_nil _
  rw [hreplied, repliedData, List.flatMap_eq_nil_iff]
  intro e he
  cases e with
  | send i m script reply =>
      obtain ⟨t₁, s', t₂, rfl⟩ := exists_step_of_mem_labels he
      refine if_neg fun hmessage => ?_
      obtain ⟨hreply, -⟩ := hkeeps.replies t₁ i m script reply s' t₂ rfl hmessage
      exact (run_regularInv hsteps.of_append).reply_ne hsteps.step_of hreply
  | _ => rfl

end

/-- **Which runs keep every line.** Start the server on a file with any content, and let any
number of clients send anything. If `file_mutex` is taken for no data message, every line is kept,
however many the timer adds; and if the run ends with the mutex free, it must be so. -/
theorem run_keepsEveryLine (c : List UInt8) (sent : ConnId → List (List UInt8))
    (tail : ConnId → List UInt8) (outstr : TimerId → List UInt8)
    (t : List (Event FileOutcome × Server RegularFile))
    (hsteps : Run (SuccessStep regularBuild) (Server.start (.existing c) sent tail outstr) t) :
    (lockedData (labels t) = [] →
      KeepsEveryLine (Server.start (.existing c) sent tail outstr) t)
    ∧ ((last (Server.start (.existing c) sent tail outstr) t).fileMutex = none →
      KeepsEveryLine (Server.start (.existing c) sent tail outstr) t →
        lockedData (labels t) = []) :=
  ⟨keepsEveryLine_of_no_data hsteps, no_data_of_keepsEveryLine hsteps⟩

/-- One callback of the timer, which writes `"timestamp: 0\n"` behind `"A\n"`. -/
theorem run_keepsEveryLine_timer :
    ∃ t : List (Event FileOutcome × Server RegularFile),
      Run (SuccessStep regularBuild)
          (Server.start (.existing [65, newline]) (fun _ => []) (fun _ => []) fun _ => [48]) t
      ∧ lockedLines (labels t) = [timestampLine [48]]
      ∧ KeepsEveryLine
          (Server.start (.existing [65, newline]) (fun _ => []) (fun _ => []) fun _ => [48]) t := by
  have h₁ : Run (SuccessStep regularBuild)
      (Server.start (.existing [65, newline]) (fun _ => []) (fun _ => []) fun _ => [48]) _ :=
    Run.nil.snoc ⟨Step.timerLock (j := 0) rfl rfl rfl, trivial⟩
  have h₂ := h₁.snoc (l := .timerWrite 0 ⟨[], [⟨timestampLine [48], .done⟩]⟩)
    ⟨Step.timerWrite rfl rfl ⟨by decide, rfl⟩ rfl, ?_⟩
  · have h₃ := h₂.snoc ⟨Step.timerUnlock (j := 0) rfl, trivial⟩
    exact ⟨_, h₃, rfl, (run_keepsEveryLine _ _ _ _ _ h₃).1 rfl⟩
  · rintro ops ⟨⟩
    exact ⟨_, rfl⟩

/-- One client that sends `"x\n"`. -/
def oneMessage (i : ConnId) : List (List UInt8) := if i = 0 then [[120]] else []

/-- In a file with `"ABCD\n"` it overwrites `"AB"`, and the reply is `"CD\n"`. -/
theorem keepsEveryLine_overwritten :
    ∃ t : List (Event FileOutcome × Server RegularFile),
      Run (SuccessStep regularBuild)
          (Server.start (.existing [65, 66, 67, 68, newline]) oneMessage (fun _ => [])
            fun _ => []) t
      ∧ (last (Server.start (.existing [65, 66, 67, 68, newline]) oneMessage (fun _ => [])
          fun _ => []) t).fileMutex = none
      ∧ (last (Server.start (.existing [65, 66, 67, 68, newline]) oneMessage (fun _ => [])
          fun _ => []) t).files.content = [120, newline, 67, 68, newline]
      ∧ (∃ m script, cString m = [120] ∧ .send 0 m script [67, 68, newline] ∈ labels t)
      ∧ ¬ KeepsEveryLine (Server.start (.existing [65, 66, 67, 68, newline]) oneMessage
          (fun _ => []) fun _ => []) t := by
  obtain ⟨block, hreceive, hblock⟩ :=
    receiveMessage_framed (fun _ => 0) [] [] (by decide : newline ∉ [120]) (by decide)
  have hmessage := cString_eq_of_take hblock (by decide)
  have hdata : decodeIoctlCommand (cString block) = none := by
    rw [hmessage]
    decide
  let plan : StdioPlan FileOutcome := ⟨[], [⟨[120, newline], .done⟩]⟩
  have hprints : plan.Prints (cString block ++ [newline]) := by
    rw [hmessage]
    exact ⟨by decide, rfl⟩
  have h₁ : Run (SuccessStep regularBuild)
      (Server.start (.existing [65, 66, 67, 68, newline]) oneMessage (fun _ => []) fun _ => []) _ :=
    Run.nil.snoc ⟨Step.receive (i := 0) rfl rfl rfl hreceive, trivial⟩
  have h₂ := h₁.snoc ⟨Step.fopen (i := 0) rfl, trivial⟩
  have h₃ := h₂.snoc ⟨Step.lock (i := 0) rfl rfl, trivial⟩
  have h₄ := h₃.snoc (l := .handle 0 block plan .done)
    ⟨Step.handle rfl hprints (handleMessage_data (regularFile 0) hdata rfl), by
      intro _
      exact ⟨_, rfl⟩⟩
  have h₅ := h₄.snoc (l := .send 0 block (List.replicate 2 (.done, some 4096)) _)
    ⟨Step.send rfl rfl, by
      intro e he
      rw [List.eq_of_mem_replicate he]
      exact ⟨rfl, 4096, rfl, Nat.le_refl _⟩⟩
  have h₆ := h₅.snoc ⟨Step.unlock (i := 0) rfl, trivial⟩
  refine ⟨_, h₆, rfl, rfl, ⟨block, _, hmessage, List.mem_map.mpr
    ⟨_, List.mem_append_left _ List.mem_concat_self, rfl⟩⟩, ?_⟩
  intro hkeeps
  -- the fourth step is the one that handles the message
  have hgrows : [65, 66, 67, 68, newline] <+: [120, newline, 67, 68, newline] :=
    hkeeps.grows _ _ _ _ ((List.append_assoc _ _ _).trans (List.append_assoc _ _ _))
  exact absurd hgrows (by decide)

end Aesd
