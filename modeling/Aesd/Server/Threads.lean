import Aesd.Basic.Lts
import Aesd.Server.Connection
import Aesd.Server.Message

set_option autoImplicit false

/-! # The threads of the server

The connection threads (`thread_routine`) and the timer callbacks (`thread_timer`) of
`connection_manager.c` as one step relation. A step is what one thread does between two points
at which the others matter: receive a message, `fopen`, take `file_mutex`, `handle_message`,
`tcp_connection_send_file`, release `file_mutex`, `free` and `fclose`. Every interleaving of
these steps is a run.

The two builds differ in the file they open and in the timer, which only the regular-file build
has (`Build`). `file_mutex` excludes in both (`Step.exclusive`). -/

namespace Aesd

open Lts Delimited

/-! ## Threads -/

/-- A connection, and the thread that serves it. -/
abbrev ConnId := Nat

/-- A timer callback. -/
abbrev TimerId := Nat

/-- Where a connection thread is in `thread_routine`. -/
inductive Phase
  /-- At the head of the loop. -/
  | loop
  /-- It has received a message. -/
  | fopen (message : List UInt8)
  /-- It has opened the file. -/
  | lock (message : List UInt8)
  /-- It has taken `file_mutex`. -/
  | handle (message : List UInt8)
  /-- `handle_message` has returned a value that is not negative. -/
  | send (message : List UInt8)
  /-- It is done with the file. -/
  | unlock (message : List UInt8)
  /-- It has released `file_mutex`. -/
  | fclose
  /-- It has left the loop. -/
  | finished

/-- A connection thread. -/
structure Thread where
  connection : TcpConnection
  phase : Phase

/-- Where a timer callback is in `thread_timer`; `outstr` is the time it has formatted. -/
inductive TimerPhase
  | lock (outstr : List UInt8)
  | write (outstr : List UInt8)
  | unlock
  | finished

/-- Who can hold `file_mutex`. -/
inductive Holder
  | connection (i : ConnId)
  | timer (j : TimerId)
  deriving DecidableEq

/-- The state of the server; `files` is what is behind the file name. -/
structure Server (σ : Type) where
  files : σ
  fileMutex : Option Holder
  closeConnections : Bool
  threads : ConnId → Thread
  timers : TimerId → TimerPhase

/-- What the two builds do differently: the file that connection `i` has opened with
`fopen(filename, "r+")`, and, in the build with a timer, the file of `fopen(filename, "a")`.
`copiesAll` says of the environment of a `read` that it lets it copy all it asks for. -/
structure Build (σ ω : Type) where
  fopen : ConnId → σ → σ
  file : ConnId → FileOps σ ω
  fclose : ConnId → σ → σ
  appendFile : Option (FileOps σ ω)
  copiesAll : ω → Prop

/-- What `thread_timer` prints: `"timestamp: %s\n"`. -/
def timestampLine (outstr : List UInt8) : List UInt8 :=
  ((['t', 'i', 'm', 'e', 's', 't', 'a', 'm', 'p', ':', ' '] : List Char).map
    fun c => UInt8.ofNat c.toNat) ++ outstr ++ [newline]

/-! ## Steps -/

/-- A step: who makes it, on which message, and what stdio and the environment decide. -/
inductive Event (ω : Type)
  | receive (i : ConnId)
  | finish (i : ConnId)
  | fopen (i : ConnId)
  | fopenFails (i : ConnId)
  | lock (i : ConnId) (message : List UInt8)
  | handle (i : ConnId) (message : List UInt8) (plan : StdioPlan ω) (env : ω)
  | send (i : ConnId) (message : List UInt8) (script : List (ω × Option Nat))
      (reply : List UInt8)
  | unlock (i : ConnId)
  | fclose (i : ConnId)
  | closeConnections
  | timerLock (j : TimerId) (outstr : List UInt8)
  | timerWrite (j : TimerId) (plan : StdioPlan ω)
  | timerUnlock (j : TimerId)

section

variable {σ ω : Type}

/-- Connection thread `i` goes on at `phase`. -/
def Server.setPhase (s : Server σ) (i : ConnId) (phase : Phase) : Server σ :=
  { s with threads := Function.update s.threads i ⟨(s.threads i).connection, phase⟩ }

/-- Timer callback `j` goes on at `phase`. -/
def Server.setTimer (s : Server σ) (j : TimerId) (phase : TimerPhase) : Server σ :=
  { s with timers := Function.update s.timers j phase }

/-- The phase after a call of `tcp_connection_receive_message`. -/
def Phase.received : Option (List UInt8) → Phase
  | some message => .fopen message
  | none => .loop

/-- The steps of the threads. -/
inductive Step (b : Build σ ω) : Server σ → Event ω → Server σ → Prop
  /-- The loop condition holds, and `tcp_connection_receive_message` returns. -/
  | receive {s : Server σ} {i : ConnId} {junk : Nat → UInt8} {message : Option (List UInt8)}
      {connection : TcpConnection} (at_loop : (s.threads i).phase = .loop)
      (is_open : (s.threads i).connection.isOpen = true) (goes_on : s.closeConnections = false)
      (received : tcpConnectionReceiveMessage (s.threads i).connection newline junk
        = .ok (message, connection)) :
      Step b s (.receive i)
        { s with threads := Function.update s.threads i ⟨connection, .received message⟩ }
  /-- The loop condition fails; the connection is destroyed. -/
  | finish {s : Server σ} {i : ConnId} (at_loop : (s.threads i).phase = .loop)
      (stops : (s.threads i).connection.isOpen = false ∨ s.closeConnections = true) :
      Step b s (.finish i) (s.setPhase i .finished)
  | fopen {s : Server σ} {i : ConnId} {m : List UInt8}
      (at_fopen : (s.threads i).phase = .fopen m) :
      Step b s (.fopen i) { s.setPhase i (.lock m) with files := b.fopen i s.files }
  /-- `fopen` returns `NULL`: back to the loop, without the message. -/
  | fopenFails {s : Server σ} {i : ConnId} {m : List UInt8}
      (at_fopen : (s.threads i).phase = .fopen m) :
      Step b s (.fopenFails i) (s.setPhase i .loop)
  | lock {s : Server σ} {i : ConnId} {m : List UInt8}
      (at_lock : (s.threads i).phase = .lock m) (is_free : s.fileMutex = none) :
      Step b s (.lock i m)
        { s.setPhase i (.handle m) with fileMutex := some (.connection i) }
  | handle {s : Server σ} {i : ConnId} {m : List UInt8} {plan : StdioPlan ω} {env : ω}
      {retval : Int} {files : σ} (at_handle : (s.threads i).phase = .handle m)
      (prints : plan.Prints (cString m ++ [newline]))
      (handled : handleMessage (b.file i) m plan env s.files = .ok (retval, files)) :
      Step b s (.handle i m plan env)
        { s.setPhase i (if retval ≥ 0 then .send m else .unlock m) with files := files }
  | send {s : Server σ} {i : ConnId} {m : List UInt8} {script : List (ω × Option Nat)}
      {retval : Bool} {reply : List UInt8} {files : σ}
      (at_send : (s.threads i).phase = .send m)
      (sent : tcpConnectionSendFile (b.file i) script s.files = .ok (retval, reply, files)) :
      Step b s (.send i m script reply) { s.setPhase i (.unlock m) with files := files }
  | unlock {s : Server σ} {i : ConnId} {m : List UInt8}
      (at_unlock : (s.threads i).phase = .unlock m) :
      Step b s (.unlock i) { s.setPhase i .fclose with fileMutex := none }
  /-- The message is freed, and the file closed. -/
  | fclose {s : Server σ} {i : ConnId} (at_fclose : (s.threads i).phase = .fclose) :
      Step b s (.fclose i) { s.setPhase i .loop with files := b.fclose i s.files }
  /-- `connection_manager_destroy` tells the threads to end. -/
  | closeConnections {s : Server σ} : Step b s .closeConnections { s with closeConnections := true }
  | timerLock {s : Server σ} {j : TimerId} {outstr : List UInt8} {ops : FileOps σ ω}
      (has_timer : b.appendFile = some ops) (at_lock : s.timers j = .lock outstr)
      (is_free : s.fileMutex = none) :
      Step b s (.timerLock j outstr)
        { s.setTimer j (.write outstr) with fileMutex := some (.timer j) }
  /-- `fopen`, `fprintf` and `fclose`. -/
  | timerWrite {s : Server σ} {j : TimerId} {outstr : List UInt8} {ops : FileOps σ ω}
      {plan : StdioPlan ω} {accepted : Bool} {files : σ} (has_timer : b.appendFile = some ops)
      (at_write : s.timers j = .write outstr) (prints : plan.Prints (timestampLine outstr))
      (written : writeChunks ops plan.chunks s.files = .ok (accepted, files)) :
      Step b s (.timerWrite j plan) { s.setTimer j .unlock with files := files }
  | timerUnlock {s : Server σ} {j : TimerId} (at_unlock : s.timers j = .unlock) :
      Step b s (.timerUnlock j) { s.setTimer j .finished with fileMutex := none }

/-- All allocations, copies, opens, writes and sends of the step succeed in full. -/
def Event.Succeeds (b : Build σ ω) (s : Server σ) : Event ω → Prop
  | .fopenFails _ => False
  | .handle i m plan _ => decodeIoctlCommand (cString m) = none →
      ∃ files, writeChunks (b.file i) plan.chunks s.files = .ok (true, files)
  | .send _ _ script _ => ∀ e ∈ script, b.copiesAll e.1 ∧ SendsInFull e.2
  | .timerWrite _ plan => ∀ ops, b.appendFile = some ops →
      ∃ files, writeChunks ops plan.chunks s.files = .ok (true, files)
  | _ => True

/-- A step in which everything succeeds. -/
def SuccessStep (b : Build σ ω) (s : Server σ) (e : Event ω) (s' : Server σ) : Prop :=
  Step b s e s' ∧ e.Succeeds b s

/-- The server before any thread has made a step: connection `i` will send the lines `sent i`,
and then `tail i` without a newline. -/
def Server.start (files : σ) (sent : ConnId → List (List UInt8)) (tail : ConnId → List UInt8)
    (outstr : TimerId → List UInt8) : Server σ where
  files := files
  fileMutex := none
  closeConnections := false
  threads i := ⟨.sending (framed newline (sent i) (tail i)), .loop⟩
  timers j := .lock (outstr j)

/-! ## What an event says -/

/-- The line a message adds to the file: none if it is a command. -/
def dataLine (message : List UInt8) : List (List UInt8) :=
  if decodeIoctlCommand (cString message) = none then [cString message ++ [newline]] else []

/-- The lines of the data messages, in the order in which `file_mutex` was taken for them. -/
def lockedData (es : List (Event ω)) : List (List UInt8) :=
  es.flatMap fun e => match e with
    | .lock _ m => dataLine m
    | _ => []

/-- The lines of the data messages that have been handled. -/
def handledData (es : List (Event ω)) : List (List UInt8) :=
  es.flatMap fun e => match e with
    | .handle _ m _ _ => dataLine m
    | _ => []

/-- The lines of the data messages that have been answered. -/
def repliedData (es : List (Event ω)) : List (List UInt8) :=
  es.flatMap fun e => match e with
    | .send _ m _ _ => dataLine m
    | _ => []

/-- The messages of connection `i` for which `file_mutex` was taken. -/
def lockedBy (i : ConnId) (es : List (Event ω)) : List (List UInt8) :=
  es.flatMap fun e => match e with
    | .lock i' m => if i' = i then [cString m] else []
    | _ => []

/-- The thread that makes the step. -/
def Event.agent : Event ω → Option Holder
  | .receive i | .finish i | .fopen i | .fopenFails i | .lock i _ | .handle i _ _ _
  | .send i _ _ _ | .unlock i | .fclose i => some (.connection i)
  | .closeConnections => none
  | .timerLock j _ | .timerWrite j _ | .timerUnlock j => some (.timer j)

/-! ## Mutual exclusion -/

/-- The phases in which `file_mutex` is held. -/
def Phase.Critical : Phase → Prop
  | .handle _ | .send _ | .unlock _ => True
  | _ => False

/-- The phases in which `file_mutex` is held. -/
def TimerPhase.Critical : TimerPhase → Prop
  | .write _ | .unlock => True
  | _ => False

/-- The threads between `pthread_mutex_lock` and `pthread_mutex_unlock`. -/
def Server.Critical (s : Server σ) : Holder → Prop
  | .connection i => (s.threads i).phase.Critical
  | .timer j => (s.timers j).Critical

/-- A thread is between the two calls exactly if it holds `file_mutex`. -/
def Server.Exclusive (s : Server σ) : Prop := Lts.Exclusive s.Critical s.fileMutex

@[simp] theorem Server.setPhase_files (s : Server σ) (i : ConnId) (p : Phase) :
    (s.setPhase i p).files = s.files := rfl

@[simp] theorem Server.setPhase_fileMutex (s : Server σ) (i : ConnId) (p : Phase) :
    (s.setPhase i p).fileMutex = s.fileMutex := rfl

@[simp] theorem Server.setPhase_timers (s : Server σ) (i : ConnId) (p : Phase) :
    (s.setPhase i p).timers = s.timers := rfl

@[simp] theorem Server.setPhase_self (s : Server σ) (i : ConnId) (p : Phase) :
    (s.setPhase i p).threads i = ⟨(s.threads i).connection, p⟩ :=
  Function.update_self ..

theorem Server.setPhase_ne (s : Server σ) {i j : ConnId} (p : Phase) (hne : j ≠ i) :
    (s.setPhase i p).threads j = s.threads j :=
  Function.update_of_ne hne ..

@[simp] theorem Server.setTimer_files (s : Server σ) (j : TimerId) (p : TimerPhase) :
    (s.setTimer j p).files = s.files := rfl

@[simp] theorem Server.setTimer_fileMutex (s : Server σ) (j : TimerId) (p : TimerPhase) :
    (s.setTimer j p).fileMutex = s.fileMutex := rfl

@[simp] theorem Server.setTimer_threads (s : Server σ) (j : TimerId) (p : TimerPhase) :
    (s.setTimer j p).threads = s.threads := rfl

variable {b : Build σ ω} {s s' : Server σ} {e : Event ω}

/-- A step of one thread is no step of another connection thread. -/
theorem Step.threads_ne (hstep : Step b s e s') {j : ConnId}
    (hj : e.agent ≠ some (.connection j)) : s'.threads j = s.threads j := by
  have hne : ∀ {i : ConnId}, some (Holder.connection i) ≠ some (.connection j) → j ≠ i := by
    rintro i h rfl
    exact h rfl
  cases hstep with
  | receive => exact Function.update_of_ne (hne hj) ..
  | finish | fopen | fopenFails | lock | handle | send | unlock | fclose =>
      exact Server.setPhase_ne _ _ (hne hj)
  | closeConnections | timerLock | timerWrite | timerUnlock => rfl

/-- Nor of another timer callback. -/
theorem Step.timers_ne (hstep : Step b s e s') {j : TimerId} (hj : e.agent ≠ some (.timer j)) :
    s'.timers j = s.timers j := by
  have hne : ∀ {i : TimerId}, some (Holder.timer i) ≠ some (.timer j) → j ≠ i := by
    rintro i h rfl
    exact h rfl
  cases hstep with
  | timerLock | timerWrite | timerUnlock => exact Function.update_of_ne (hne hj) ..
  | receive | finish | fopen | fopenFails | lock | handle | send | unlock | fclose
  | closeConnections => rfl

/-- Only one step sets the flag. -/
theorem Step.closeConnections_eq (hstep : Step b s e s') (he : e ≠ .closeConnections) :
    s'.closeConnections = s.closeConnections := by
  cases hstep with
  | closeConnections => exact absurd rfl he
  | receive | finish | fopen | fopenFails | lock | handle | send | unlock | fclose | timerLock
  | timerWrite | timerUnlock => rfl

/-- A step moves no other thread into or out of its critical section. -/
theorem Step.critical_ne (hstep : Step b s e s') {a : Holder} (ha : e.agent ≠ some a) :
    s'.Critical a ↔ s.Critical a := by
  cases a with
  | connection i => rw [Server.Critical, Server.Critical, hstep.threads_ne ha]
  | timer j => rw [Server.Critical, Server.Critical, hstep.timers_ne ha]

/-- **What a step does to the lock**: nothing, or its thread takes it, or its thread gives it
back. -/
theorem Step.lock_cases (hstep : Step b s e s') :
    (s'.fileMutex = s.fileMutex ∧ ∀ a, e.agent = some a → (s'.Critical a ↔ s.Critical a))
    ∨ (∃ a, e.agent = some a ∧ s.fileMutex = none ∧ s'.fileMutex = some a ∧ s'.Critical a)
    ∨ (∃ a, e.agent = some a ∧ s.Critical a ∧ s'.fileMutex = none ∧ ¬ s'.Critical a) := by
  cases hstep with
  | receive at_loop =>
      rename_i message _ _ _ _
      refine Or.inl ⟨rfl, fun a ha => ?_⟩
      obtain rfl := Option.some.inj ha
      cases message <;>
        simp [Server.Critical, Phase.received, Phase.Critical, at_loop]
  | finish at_loop =>
      refine Or.inl ⟨rfl, fun a ha => ?_⟩
      obtain rfl := Option.some.inj ha
      simp [Server.Critical, Phase.Critical, at_loop]
  | fopen at_fopen =>
      refine Or.inl ⟨rfl, fun a ha => ?_⟩
      obtain rfl := Option.some.inj ha
      simp [Server.Critical, Phase.Critical, at_fopen]
  | fopenFails at_fopen =>
      refine Or.inl ⟨rfl, fun a ha => ?_⟩
      obtain rfl := Option.some.inj ha
      simp [Server.Critical, Phase.Critical, at_fopen]
  | lock at_lock is_free =>
      exact Or.inr (Or.inl ⟨_, rfl, is_free, rfl, by simp [Server.Critical, Phase.Critical]⟩)
  | handle at_handle prints handled =>
      rename_i retval _
      refine Or.inl ⟨rfl, fun a ha => ?_⟩
      obtain rfl := Option.some.inj ha
      by_cases hret : retval ≥ 0 <;>
        simp [Server.Critical, Phase.Critical, at_handle, hret]
  | send at_send =>
      refine Or.inl ⟨rfl, fun a ha => ?_⟩
      obtain rfl := Option.some.inj ha
      simp [Server.Critical, Phase.Critical, at_send]
  | unlock at_unlock =>
      refine Or.inr (Or.inr ⟨_, rfl, ?_, rfl, ?_⟩)
      · simp [Server.Critical, Phase.Critical, at_unlock]
      · simp [Server.Critical, Phase.Critical]
  | fclose at_fclose =>
      refine Or.inl ⟨rfl, fun a ha => ?_⟩
      obtain rfl := Option.some.inj ha
      simp [Server.Critical, Phase.Critical, at_fclose]
  | closeConnections => exact Or.inl ⟨rfl, fun a ha => by cases ha⟩
  | timerLock has_timer at_lock is_free =>
      refine Or.inr (Or.inl ⟨_, rfl, is_free, rfl, ?_⟩)
      simp [Server.Critical, Server.setTimer, TimerPhase.Critical]
  | timerWrite has_timer at_write =>
      refine Or.inl ⟨rfl, fun a ha => ?_⟩
      obtain rfl := Option.some.inj ha
      simp [Server.Critical, Server.setTimer, TimerPhase.Critical, at_write]
  | timerUnlock at_unlock =>
      refine Or.inr (Or.inr ⟨_, rfl, ?_, rfl, ?_⟩)
      · simp [Server.Critical, TimerPhase.Critical, at_unlock]
      · simp [Server.Critical, Server.setTimer, TimerPhase.Critical]

/-- **`file_mutex` excludes**: every step keeps the discipline. -/
theorem Step.exclusive (hstep : Step b s e s') (hex : s.Exclusive) : s'.Exclusive := by
  have hother : ∀ {a a' : Holder}, e.agent = some a → a' ≠ a →
      (s'.Critical a' ↔ s.Critical a') := by
    intro a a' ha hne
    refine hstep.critical_ne ?_
    rw [ha]
    exact fun h => hne (Option.some.inj h).symm
  rcases hstep.lock_cases with ⟨hmutex, hsame⟩ | ⟨a, ha, hfree, hheld, hin⟩
    | ⟨a, ha, hin, hfree, hout⟩
  · -- nobody goes in or out
    rw [Server.Exclusive, hmutex]
    refine Lts.Exclusive.stay hex fun a => ?_
    by_cases ha : e.agent = some a
    · exact hsame a ha
    · exact hstep.critical_ne ha
  · -- the thread takes the free mutex
    rw [Server.Exclusive, hheld]
    rw [Server.Exclusive, hfree] at hex
    exact Lts.Exclusive.acquire hex a hin fun a' hne => hother ha hne
  · -- the holder gives it back
    rw [Server.Exclusive, hfree]
    exact Lts.Exclusive.release hex hin hout fun a' hne => hother ha hne

end

end Aesd
