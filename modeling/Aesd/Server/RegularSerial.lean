import Aesd.Server.RegularFile

set_option autoImplicit false

/-! # Serialisability on a regular file

What the regular-file build keeps instead of all lines (`Lines`). The file is at every moment what
its initial content becomes when each data message is written over the beginning and each line of
the timer behind the end, one at a time in the order of `file_mutex`; and the reply to a data
message is what stood behind its place before (`run_regularSerialised`). So while the timer has not
fired, a byte of the file is that of the last message long enough to reach it
(`run_lastLongEnough`). -/

namespace Aesd

open Lts ByteFile

/-! ## Edits -/

/-- What one holder of `file_mutex` does to the file. -/
inductive Edit
  /-- A data message is written over the beginning. -/
  | overwrite (line : List UInt8)
  /-- A line of the timer is written behind the end. -/
  | append (line : List UInt8)

def Edit.apply (content : List UInt8) : Edit → List UInt8
  | .overwrite line => line ++ content.drop line.length
  | .append line => content ++ line

/-- The file after some edits. -/
def edited (content : List UInt8) (edits : List Edit) : List UInt8 := edits.foldl Edit.apply content

/-- The edit of a message: none if it is a command. -/
def messageEdit (message : List UInt8) : List Edit := (dataLine message).map .overwrite

/-- The edits, in the order in which `file_mutex` was taken for them. -/
def lockedEdits {ω : Type} (es : List (Event ω)) : List Edit :=
  es.flatMap fun e => match e with
    | .lock _ m => messageEdit m
    | .timerLock _ outstr => [.append (timestampLine outstr)]
    | _ => []

theorem edited_append (content : List UInt8) (edits edits' : List Edit) :
    edited content (edits ++ edits') = edited (edited content edits) edits' :=
  List.foldl_append ..

/-- An edit never makes the file shorter. -/
theorem Edit.length_le (content : List UInt8) (edit : Edit) :
    content.length ≤ (edit.apply content).length := by
  cases edit with
  | overwrite line =>
      show content.length ≤ (line ++ content.drop line.length).length
      rw [List.length_append, List.length_drop]
      omega
  | append line =>
      show content.length ≤ (content ++ line).length
      rw [List.length_append]
      omega

/-- **What is left of messages written over each other**: at each place, the last one that reaches
there. -/
theorem getElem?_edited_overwrite (content : List UInt8) (lines : List (List UInt8)) (p : Nat) :
    (edited content (lines.map .overwrite))[p]?
      = match lines.reverse.find? (fun line => decide (p < line.length)) with
        | some l => l[p]?
        | none => content[p]? := by
  induction lines using List.reverseRecOn with
  | nil => rfl
  | append_singleton lines line ih =>
      rw [List.map_append, edited_append, List.reverse_append, List.reverse_singleton,
        List.singleton_append, List.find?_cons]
      show (line ++ (edited content (lines.map .overwrite)).drop line.length)[p]? = _
      by_cases hp : p < line.length
      · rw [List.getElem?_append_left hp, decide_eq_true hp]
      · have hle : line.length ≤ p := Nat.not_lt.mp hp
        rw [decide_eq_false hp, ← ih]
        calc (line ++ (edited content (lines.map .overwrite)).drop line.length)[p]?
            = (edited content (lines.map .overwrite))[line.length + (p - line.length)]? := by
              rw [List.getElem?_append_right hle, List.getElem?_drop]
          _ = (edited content (lines.map .overwrite))[p]? := by rw [Nat.add_sub_cancel' hle]

/-! ## The edit in hand -/

/-- The edit that is still to be made. -/
def Server.editInHand {σ : Type} (s : Server σ) : List Edit :=
  match s.fileMutex with
  | some (.connection i) =>
      match (s.threads i).phase with
      | .handle m => messageEdit m
      | _ => []
  | some (.timer j) =>
      match s.timers j with
      | .write outstr => [.append (timestampLine outstr)]
      | _ => []
  | none => []

/-- The file is what the edits make of the initial content `c`, but for the one in hand. -/
def EditsMade (c : List UInt8) {ω : Type} (es : List (Event ω)) (s : Server RegularFile) : Prop :=
  ∃ done, lockedEdits es = done ++ s.editInHand ∧ s.files.content = edited c done

section

variable {c : List UInt8} {es : List (Event FileOutcome)} {s s' : Server RegularFile}
  {e : Event FileOutcome}

theorem lockedEdits_concat {ω : Type} (es : List (Event ω)) (e : Event ω) :
    lockedEdits (es ++ [e]) = lockedEdits es ++ lockedEdits [e] :=
  List.flatMap_append ..

theorem Server.editInHand_of_free {σ : Type} {s : Server σ} (hfree : s.fileMutex = none) :
    s.editInHand = [] := by
  unfold Server.editInHand
  rw [hfree]

/-- The edit in hand of a connection that holds the mutex. -/
theorem Server.Exclusive.editInHand_eq {σ : Type} {s : Server σ} (hex : s.Exclusive) {i : ConnId}
    (hcritical : (s.threads i).phase.Critical) :
    s.editInHand = match (s.threads i).phase with
      | .handle m => messageEdit m
      | _ => [] := by
  have hmutex : s.fileMutex = some (.connection i) :=
    hex.holder_eq (a := .connection i) hcritical
  unfold Server.editInHand
  rw [hmutex]

/-- That of a timer callback. -/
theorem Server.Exclusive.editInHand_timer {σ : Type} {s : Server σ} (hex : s.Exclusive)
    {j : TimerId} (hcritical : (s.timers j).Critical) :
    s.editInHand = match s.timers j with
      | .write outstr => [.append (timestampLine outstr)]
      | _ => [] := by
  have hmutex : s.fileMutex = some (.timer j) := hex.holder_eq (a := .timer j) hcritical
  unfold Server.editInHand
  rw [hmutex]

/-- A step by which no edit comes in hand or is made. -/
theorem EditsMade.stay (h : EditsMade c es s) (hlocked : lockedEdits [e] = [])
    (hhand : s'.editInHand = s.editInHand) (hcontent : s'.files.content = s.files.content) :
    EditsMade c (es ++ [e]) s' := by
  obtain ⟨done, hdone, hfile⟩ := h
  refine ⟨done, ?_, hcontent.trans hfile⟩
  calc lockedEdits (es ++ [e])
      = lockedEdits es := by rw [lockedEdits_concat, hlocked, List.append_nil]
    _ = done ++ s'.editInHand := by rw [hdone, hhand]

/-- A step by which an edit comes in hand. -/
theorem EditsMade.take (h : EditsMade c es s) (hfree : s.fileMutex = none)
    (hhand : s'.editInHand = lockedEdits [e]) (hcontent : s'.files.content = s.files.content) :
    EditsMade c (es ++ [e]) s' := by
  obtain ⟨done, hdone, hfile⟩ := h
  refine ⟨done, ?_, hcontent.trans hfile⟩
  calc lockedEdits (es ++ [e])
      = lockedEdits es ++ lockedEdits [e] := lockedEdits_concat ..
    _ = done ++ s'.editInHand := by
        rw [hdone, Server.editInHand_of_free hfree, List.append_nil, hhand]

/-- A step by which the edit in hand is made. -/
theorem EditsMade.make (h : EditsMade c es s) (hlocked : lockedEdits [e] = [])
    (hhand : s'.editInHand = [])
    (hcontent : s'.files.content = edited s.files.content s.editInHand) :
    EditsMade c (es ++ [e]) s' := by
  obtain ⟨done, hdone, hfile⟩ := h
  refine ⟨done ++ s.editInHand, ?_, ?_⟩
  · calc lockedEdits (es ++ [e])
        = lockedEdits es ++ [] := by rw [lockedEdits_concat, hlocked]
      _ = (done ++ s.editInHand) ++ s'.editInHand := by rw [hdone, hhand]
  · calc s'.files.content
        = edited (edited c done) s.editInHand := by rw [hcontent, hfile]
      _ = edited c (done ++ s.editInHand) := (edited_append ..).symm

/-- A step of a thread that does not hold the mutex. -/
theorem Step.editInHand_eq {σ ω : Type} {b : Build σ ω} {s s' : Server σ} {e : Event ω}
    (hstep : Step b s e s') (hex : s.Exclusive) (hmutex : s'.fileMutex = s.fileMutex)
    (hout : ∀ a, e.agent = some a → ¬ s.Critical a) : s'.editInHand = s.editInHand := by
  have hne : ∀ {a : Holder}, s.fileMutex = some a → e.agent ≠ some a :=
    fun hholds ha => hout _ ha ((hex _).mpr hholds)
  unfold Server.editInHand
  rw [hmutex]
  cases hholder : s.fileMutex with
  | none => rfl
  | some a =>
      cases a with
      | connection i => simp only [hstep.threads_ne (hne hholder)]
      | timer j => simp only [hstep.timers_ne (hne hholder)]

/-- **One step makes at most the edit in hand.** -/
theorem SuccessStep.editsMade (hstep : SuccessStep regularBuild s e s') (h : RegularInv es s)
    (hmade : EditsMade c es s) : EditsMade c (es ++ [e]) s' := by
  have hstay := hstep.1.editInHand_eq h.exclusive
  obtain ⟨hstep, hok⟩ := hstep
  have hex' := hstep.exclusive h.exclusive
  cases hstep with
  | receive at_phase | finish at_phase | fopen at_phase | fclose at_phase =>
      -- outside the section there is no edit in hand
      refine hmade.stay rfl (hstay rfl fun a ha => ?_) rfl
      obtain rfl := Option.some.inj ha
      simp [Server.Critical, Phase.Critical, at_phase]
  | fopenFails => exact absurd hok id
  | lock at_lock is_free =>
      rename_i i m
      refine hmade.take is_free ?_ rfl
      rw [hex'.editInHand_eq (i := i) (by simp [Phase.Critical])]
      simp [lockedEdits]
  | handle at_handle prints handled =>
      rename_i i m plan env retval files
      refine hmade.make rfl ?_ ?_
      · rw [hex'.editInHand_eq (i := i) (by
          simp only [Server.setPhase_self]
          split <;> trivial)]
        simp only [Server.setPhase_self]
        split_ifs <;> rfl
      · rw [h.exclusive.editInHand_eq (i := i) (by rw [at_handle]; trivial), at_handle]
        show files.content = edited s.files.content (messageEdit m)
        unfold messageEdit dataLine
        rcases h.handle at_handle prints hok handled with
          ⟨hdata, -, hcontent, -⟩ | ⟨hcommand, -, rfl⟩
        · rw [if_pos hdata, hcontent]
          simp [edited, Edit.apply]
        · -- a command leaves the file as it is
          rw [if_neg hcommand]
          rfl
  | send at_send sent =>
      rename_i i m script retval reply files
      obtain ⟨-, -, p, rfl⟩ := h.send at_send hok sent
      refine hmade.stay rfl ?_ rfl
      rw [hex'.editInHand_eq (i := i) (by simp [Phase.Critical]),
        h.exclusive.editInHand_eq (i := i) (by rw [at_send]; trivial), at_send]
      simp only [Server.setPhase_self]
  | unlock at_unlock =>
      rename_i i m
      refine hmade.stay rfl ?_ rfl
      rw [Server.editInHand_of_free rfl,
        h.exclusive.editInHand_eq (i := i) (by rw [at_unlock]; trivial), at_unlock]
  | closeConnections => exact hmade.stay rfl rfl rfl
  | timerLock has_timer at_lock is_free =>
      rename_i j outstr ops
      refine hmade.take is_free ?_ rfl
      rw [hex'.editInHand_timer (j := j) (by simp [Server.setTimer, TimerPhase.Critical])]
      simp [lockedEdits, Server.setTimer]
  | timerWrite has_timer at_write prints written =>
      rename_i j outstr ops plan accepted files
      obtain ⟨hcontent, -⟩ := SuccessStep.timerWrite_eq has_timer hok prints written
      refine hmade.make rfl ?_ ?_
      · rw [hex'.editInHand_timer (j := j) (by simp [Server.setTimer, TimerPhase.Critical])]
        simp [Server.setTimer]
      · rw [h.exclusive.editInHand_timer (j := j) (by rw [at_write]; trivial), at_write]
        exact hcontent
  | timerUnlock at_unlock =>
      rename_i j
      refine hmade.stay rfl ?_ rfl
      rw [Server.editInHand_of_free rfl,
        h.exclusive.editInHand_timer (j := j) (by rw [at_unlock]; trivial), at_unlock]

/-- The edit of a message that is to be answered is the last one. -/
def LastEdit {ω : Type} (es : List (Event ω)) (s : Server RegularFile) : Prop :=
  ∀ i m, (s.threads i).phase = .send m →
    ∃ earlier, lockedEdits es = earlier ++ [.overwrite (cString m ++ [newline])]

/-- **One step keeps it**: while it is to be answered, nobody else takes the mutex. -/
theorem SuccessStep.lastEdit (hstep : SuccessStep regularBuild s e s') (h : RegularInv es s)
    (hmade : EditsMade c es s) (hlast : LastEdit es s) : LastEdit (es ++ [e]) s' := by
  intro i m hphase
  obtain ⟨hstep, hok⟩ := hstep
  by_cases hagent : e.agent = some (.connection i)
  · cases hstep with
    | handle at_handle prints handled =>
        obtain rfl : _ = i := by simpa [Event.agent] using hagent
        rename_i i m' plan env retval files
        simp only [Server.setPhase_self] at hphase
        rcases h.handle at_handle prints hok handled with ⟨hdata, hret, -⟩ | ⟨-, hret, -⟩
        · rw [if_pos hret] at hphase
          obtain rfl := Phase.send.inj hphase
          obtain ⟨done, hdone, -⟩ := hmade
          refine ⟨done, ?_⟩
          rw [lockedEdits_concat, hdone, h.exclusive.editInHand_eq (i := i) (by
            rw [at_handle]; trivial), at_handle]
          simp [lockedEdits, messageEdit, dataLine, hdata]
        · rw [if_neg hret] at hphase
          cases hphase
    | receive at_loop is_open goes_on received =>
        obtain rfl : _ = i := by simpa [Event.agent] using hagent
        rename_i i junk message connection
        simp only [Function.update_self] at hphase
        cases message <;> cases hphase
    | finish | fopen | fopenFails | lock | send | unlock | fclose =>
        obtain rfl : _ = i := by simpa [Event.agent] using hagent
        simp only [Server.setPhase_self] at hphase
        cases hphase
    | closeConnections | timerLock | timerWrite | timerUnlock => cases hagent
  · rw [hstep.threads_ne hagent] at hphase
    -- connection `i` is in its section, so no edit is taken by another one
    have hmutex : s.fileMutex = some (.connection i) :=
      h.exclusive.holder_eq (a := .connection i) (by rw [Server.Critical, hphase]; trivial)
    have hnone : lockedEdits [e] = [] := by
      cases hstep with
      | lock at_lock is_free =>
          rw [hmutex] at is_free
          cases is_free
      | timerLock has_timer at_lock is_free =>
          rw [hmutex] at is_free
          cases is_free
      | receive | finish | fopen | fopenFails | handle | send | unlock | fclose
      | closeConnections | timerWrite | timerUnlock => rfl
    obtain ⟨earlier, hearlier⟩ := hlast i m hphase
    refine ⟨earlier, ?_⟩
    rw [lockedEdits_concat, hnone, List.append_nil, hearlier]

end

/-! ## The theorem -/

/-- **What the file and the replies are** after the steps `es`, with the content `c` before
them. -/
structure RegularSerialised (c : List UInt8) (sent : ConnId → List (List UInt8))
    (tail : ConnId → List UInt8) (es : List (Event FileOutcome)) (s : Server RegularFile) :
    Prop where
  /-- While `file_mutex` is free, all edits it was taken for have been made, and no others. -/
  content : s.fileMutex = none → s.files.content = edited c (lockedEdits es)
  /-- The messages of a connection are taken in the order it sent them, if they arrive whole. -/
  order : ∀ i, WellSent (sent i) (tail i) → lockedBy i es <+: sent i
  /-- Only data messages are answered. The last edit is then that of the message, and the reply is
  what stood behind its place before. -/
  reply : ∀ i m script reply s', SuccessStep regularBuild s (.send i m script reply) s' →
    decodeIoctlCommand (cString m) = none
      ∧ ∃ earlier, lockedEdits es = earlier ++ [.overwrite (cString m ++ [newline])]
        ∧ s.files.content = edited c (lockedEdits es)
        ∧ reply = (edited c earlier).drop ((cString m).length + 1)

section

variable {c : List UInt8} {sent : ConnId → List (List UInt8)} {tail : ConnId → List UInt8}
  {es : List (Event FileOutcome)} {s s' : Server RegularFile}

/-- The clause about the reply, from the invariants. -/
theorem RegularInv.reply_eq (h : RegularInv es s) (hmade : EditsMade c es s)
    (hlast : LastEdit es s) {i : ConnId} {m : List UInt8}
    {script : List (FileOutcome × Option Nat)} {reply : List UInt8}
    (hstep : SuccessStep regularBuild s (.send i m script reply) s') :
    decodeIoctlCommand (cString m) = none
      ∧ ∃ earlier, lockedEdits es = earlier ++ [.overwrite (cString m ++ [newline])]
        ∧ s.files.content = edited c (lockedEdits es)
        ∧ reply = (edited c earlier).drop ((cString m).length + 1) := by
  obtain ⟨hstep, hok⟩ := hstep
  cases hstep with
  | send at_send sent =>
      obtain ⟨hreply, -, -⟩ := h.send at_send hok sent
      have hpos := h.offset i
      rw [at_send] at hpos
      obtain ⟨earlier, hearlier⟩ := hlast i m at_send
      obtain ⟨done, hdone, hcontent⟩ := hmade
      have hhand : s.editInHand = [] := by
        rw [h.exclusive.editInHand_eq (i := i) (by rw [at_send]; trivial), at_send]
      rw [hhand, List.append_nil] at hdone
      have hfile : s.files.content = edited c (lockedEdits es) := by rw [hdone, hcontent]
      refine ⟨hpos.2.1, earlier, hearlier, hfile, ?_⟩
      have hlength : (cString m).length + 1 = (cString m ++ [newline]).length := by simp
      calc reply
          = (edited c (lockedEdits es)).drop ((cString m).length + 1) := by rw [hreply, hfile]
        _ = ((cString m ++ [newline])
              ++ (edited c earlier).drop ((cString m).length + 1)).drop
                ((cString m).length + 1) := by
            rw [hearlier, edited_append, hlength]
            rfl
        _ = (edited c earlier).drop ((cString m).length + 1) := by
            rw [hlength, List.drop_left]

end

/-- **Serialisability on a regular file.** Start the server on a file with any content, and let any
number of clients send anything. After any interleaving of the steps of the threads and the timer
callbacks, as long as opens, writes and sends succeed, the file, the order of the messages and the
replies are as `RegularSerialised` says. -/
theorem run_regularSerialised (c : List UInt8) (sent : ConnId → List (List UInt8))
    (tail : ConnId → List UInt8) (outstr : TimerId → List UInt8)
    (t : List (Event FileOutcome × Server RegularFile))
    (hsteps : Run (SuccessStep regularBuild) (Server.start (.existing c) sent tail outstr) t) :
    RegularSerialised c sent tail (labels t)
      (last (Server.start (.existing c) sent tail outstr) t) := by
  obtain ⟨hregular, hmade, hlast⟩ := hsteps.invariant
    (fun es s => RegularInv es s ∧ EditsMade c es s ∧ LastEdit es s)
    ⟨RegularInv.start c sent tail outstr, ⟨[], rfl, rfl⟩, by intro i m hphase; cases hphase⟩
    (by
      rintro es s e s' ⟨hregular, hmade, hlast⟩ hstep
      exact ⟨hstep.regularInv hregular, hstep.editsMade hregular hmade,
        hstep.lastEdit hregular hmade hlast⟩)
  refine ⟨?_, fun i hsent => run_lockedBy_le hsent hsteps,
    fun i m script reply s' => hregular.reply_eq hmade hlast⟩
  intro hfree
  obtain ⟨done, hdone, hcontent⟩ := hmade
  rw [Server.editInHand_of_free hfree, List.append_nil] at hdone
  rw [hcontent, hdone]

/-- The file `"ABCD\n"`. -/
def fourLetters : List UInt8 := [65, 66, 67, 68, newline]

/-- `"yz\n"` is written over `"ABC"`, and then `"x\n"` over `"yz"`. -/
theorem exists_twoClients_regular :
    let s := Server.start (.existing fourLetters) twoClients (fun _ => []) fun _ => []
    ∃ t : List (Event FileOutcome × Server RegularFile), Run (SuccessStep regularBuild) s t
      ∧ (last s t).fileMutex = none ∧ .closeConnections ∉ labels t
      ∧ lockedData (labels t) = [[121, 122, newline], [120, newline]]
      ∧ ∀ j outstr, .timerLock j outstr ∉ labels t :=
  exists_twoClients_run regularBuild (.existing fourLetters) (fun _ => [])
    (RegularInv.start fourLetters twoClients _ _) (fun _ _ _ _ h hstep => hstep.regularInv h)
    (fun _ _ _ _ h hphase => h.can_handle hphase) (fun _ _ _ _ h hphase => h.can_send hphase)

theorem run_regularSerialised_twoClients : ∃ t : List (Event FileOutcome × Server RegularFile),
    Run (SuccessStep regularBuild)
        (Server.start (.existing fourLetters) twoClients (fun _ => []) fun _ => []) t
      ∧ lockedData (labels t) = [[121, 122, newline], [120, newline]]
      ∧ RegularSerialised fourLetters twoClients (fun _ => []) (labels t)
        (last (Server.start (.existing fourLetters) twoClients (fun _ => []) fun _ => []) t) := by
  obtain ⟨t, hsteps, -, -, hdata, -⟩ := exists_twoClients_regular
  exact ⟨t, hsteps, hdata, run_regularSerialised fourLetters twoClients (fun _ => [])
    (fun _ => []) t hsteps⟩

/-- **What is left of the messages.** While the timer has not fired, each byte of the file is that
of the last data message that is long enough to reach it, or the initial one. -/
theorem run_lastLongEnough (initial : List UInt8) (sent : ConnId → List (List UInt8))
    (tail : ConnId → List UInt8) (outstr : TimerId → List UInt8)
    (t : List (Event FileOutcome × Server RegularFile))
    (hsteps : Run (SuccessStep regularBuild) (Server.start (.existing initial) sent tail outstr) t)
    (hfree : (last (Server.start (.existing initial) sent tail outstr) t).fileMutex = none)
    (hno : ∀ j outstr, .timerLock j outstr ∉ labels t) (p : Nat) :
    (last (Server.start (.existing initial) sent tail outstr) t).files.content[p]?
      = match (lockedData (labels t)).reverse.find? (fun line => decide (p < line.length)) with
        | some l => l[p]?
        | none => initial[p]? := by
  have hserialised := run_regularSerialised initial sent tail outstr t hsteps
  have hedits : lockedEdits (labels t) = (lockedData (labels t)).map .overwrite := by
    unfold lockedEdits lockedData
    rw [List.map_flatMap]
    apply List.flatMap_congr
    intro e he
    cases e with
    | timerLock j outstr => exact absurd he (hno j outstr)
    | lock | receive | finish | fopen | fopenFails | handle | send | unlock | fclose
    | closeConnections | timerWrite | timerUnlock => rfl
  rw [hserialised.content hfree, hedits, getElem?_edited_overwrite]

theorem run_lastLongEnough_twoClients :
    let s := Server.start (.existing fourLetters) twoClients (fun _ => []) fun _ => []
    ∃ t : List (Event FileOutcome × Server RegularFile), Run (SuccessStep regularBuild) s t
      ∧ (last s t).files.content[0]? = some 120 ∧ (last s t).files.content[2]? = some newline
      ∧ (last s t).files.content[3]? = some 68 := by
  intro s
  obtain ⟨t, hsteps, hfree, -, hdata, hno⟩ := exists_twoClients_regular
  have hbyte := run_lastLongEnough fourLetters twoClients (fun _ => []) (fun _ => []) t hsteps
    hfree hno
  rw [hdata] at hbyte
  exact ⟨t, hsteps, hbyte 0, hbyte 2, hbyte 3⟩

end Aesd
