import Aesd.Basic.Lts
import Aesd.Server.RegularFile

set_option autoImplicit false

/-! # The resources of a connection thread

`thread_routine` for one connection, with what it acquires and releases in every iteration of its
loop: the message buffer `tcp_connection_receive_message` returns, the file and `file_mutex`. The
variables `message` and `fd` are those of the function; the other threads may do to the file and the
mutex what they like. `Threads` has all threads, and what they do to the file; here the buffers and
files are told apart by serial numbers.

A run is a sequence of complete iterations as long as `fopen` does not fail (`InIteration`). When it
fails, the loop goes on without `free`, and the next message overwrites the pointer
(`run_balanced_iff`). -/

namespace Aesd

open Lts

/-! ## Steps -/

/-- A buffer that `tcp_connection_receive_message` has returned, and the bytes in it. -/
structure MessageBuffer where
  serial : Nat
  block : List UInt8

/-- Where the thread is. -/
inductive RoutinePhase
  /-- At the head of the loop. -/
  | loop
  | fopen
  | lock
  | handle
  | send
  | unlock
  | free
  | fclose
  /-- It has left the loop. -/
  | finished
  deriving DecidableEq, Repr

/-- The state: what is behind the file name, who holds `file_mutex`, the flag of the manager, the
connection, where the thread is, its variables, and how many buffers and files it has got so far. -/
structure Routine (σ : Type) where
  files : σ
  fileMutex : Option Holder
  closeConnections : Bool
  connection : TcpConnection
  phase : RoutinePhase
  message : Option MessageBuffer
  fd : Option Nat
  received : Nat
  opened : Nat

/-- What happens. The messages and the files carry their serial numbers. -/
inductive RoutineEvent
  | receive (n : Nat)
  | receiveFails
  | fopen (n : Nat)
  | fopenFails
  | lock
  | handle (retval : Int)
  | send (retval : Bool)
  | unlock
  | free (n : Nat)
  | fclose (n : Nat)
  | leave
  | closeConnections
  | others
  deriving DecidableEq, Repr

section

variable {σ ω : Type}

/-- A thread on a connection over which `stream` will come. -/
def Routine.start (files : σ) (stream : List RecvRet) : Routine σ where
  files := files
  fileMutex := none
  closeConnections := false
  connection := ⟨stream, true⟩
  phase := .loop
  message := none
  fd := none
  received := 0
  opened := 0

/-- The steps of `thread_routine` for connection `i`, and of the other threads. -/
inductive RoutineStep (b : Build σ ω) (i : ConnId) : Routine σ → RoutineEvent → Routine σ → Prop
  | receive {s : Routine σ} {junk : Nat → UInt8} {block : List UInt8} {connection : TcpConnection}
      (at_loop : s.phase = .loop) (is_open : s.connection.isOpen = true)
      (goes_on : s.closeConnections = false)
      (received : tcpConnectionReceiveMessage s.connection newline junk
        = .ok (some block, connection)) :
      RoutineStep b i s (.receive s.received)
        { s with
          connection := connection
          phase := .fopen
          message := some ⟨s.received, block⟩
          received := s.received + 1 }
  /-- The client has closed, or `recv` has failed; `message` is set to `NULL`. -/
  | receiveFails {s : Routine σ} {junk : Nat → UInt8} {connection : TcpConnection}
      (at_loop : s.phase = .loop) (is_open : s.connection.isOpen = true)
      (goes_on : s.closeConnections = false)
      (received : tcpConnectionReceiveMessage s.connection newline junk = .ok (none, connection)) :
      RoutineStep b i s .receiveFails { s with connection := connection, message := none }
  | fopen {s : Routine σ} (at_fopen : s.phase = .fopen) :
      RoutineStep b i s (.fopen s.opened)
        { s with
          files := b.fopen i s.files
          phase := .lock
          fd := some s.opened
          opened := s.opened + 1 }
  /-- `fd` is `NULL`: `continue`. -/
  | fopenFails {s : Routine σ} (at_fopen : s.phase = .fopen) :
      RoutineStep b i s .fopenFails { s with phase := .loop, fd := none }
  | lock {s : Routine σ} (at_lock : s.phase = .lock) (is_free : s.fileMutex = none) :
      RoutineStep b i s .lock { s with phase := .handle, fileMutex := some (.connection i) }
  | handle {s : Routine σ} {message : MessageBuffer} {plan : StdioPlan ω} {env : ω} {retval : Int}
      {files : σ} (at_handle : s.phase = .handle) (buffer : s.message = some message)
      (prints : plan.Prints (cString message.block ++ [newline]))
      (handled : handleMessage (b.file i) message.block plan env s.files = .ok (retval, files)) :
      RoutineStep b i s (.handle retval)
        { s with files := files, phase := if retval ≥ 0 then .send else .unlock }
  /-- The value of `tcp_connection_send_file` is not looked at. -/
  | send {s : Routine σ} {script : List (ω × Option Nat)} {retval : Bool} {reply : List UInt8}
      {files : σ} (at_send : s.phase = .send)
      (sent : tcpConnectionSendFile (b.file i) script s.files = .ok (retval, reply, files)) :
      RoutineStep b i s (.send retval) { s with files := files, phase := .unlock }
  | unlock {s : Routine σ} (at_unlock : s.phase = .unlock) :
      RoutineStep b i s .unlock { s with phase := .free, fileMutex := none }
  /-- `message` is freed and set to `NULL`. -/
  | free {s : Routine σ} {message : MessageBuffer} (at_free : s.phase = .free)
      (buffer : s.message = some message) :
      RoutineStep b i s (.free message.serial) { s with phase := .fclose, message := none }
  /-- `fd` keeps its value. -/
  | fclose {s : Routine σ} {n : Nat} (at_fclose : s.phase = .fclose) (file : s.fd = some n) :
      RoutineStep b i s (.fclose n) { s with files := b.fclose i s.files, phase := .loop }
  /-- The loop condition fails. -/
  | leave {s : Routine σ} (at_loop : s.phase = .loop)
      (stops : s.connection.isOpen = false ∨ s.closeConnections = true) :
      RoutineStep b i s .leave { s with phase := .finished }
  /-- `connection_manager_destroy` tells the threads to end. -/
  | closeConnections {s : Routine σ} :
      RoutineStep b i s .closeConnections { s with closeConnections := true }
  /-- The other threads use the file, and take and release the mutex among themselves. -/
  | others {s : Routine σ} {files : σ} {holder : Option Holder}
      (mutex : holder = some (.connection i) ↔ s.fileMutex = some (.connection i)) :
      RoutineStep b i s .others { s with files := files, fileMutex := holder }

end

/-! ## What is wanted -/

/-- **Everything is given back**: every buffer that was returned has been freed exactly once, every
file that was opened closed exactly once, and the thread does not hold the mutex. -/
structure GivenBack {σ : Type} (i : ConnId) (es : List RoutineEvent) (s : Routine σ) : Prop where
  messages : ∀ n, .receive n ∈ es → es.count (.free n) = 1
  files : ∀ n, .fopen n ∈ es → es.count (.fclose n) = 1
  mutex : s.fileMutex ≠ some (.connection i)

/-- At every return to the loop head, and at the exit of the thread. -/
def BalancedAtHead {σ : Type} (i : ConnId) (es : List RoutineEvent) (s : Routine σ) : Prop :=
  s.phase = .loop ∨ s.phase = .finished → GivenBack i es s

/-! ## Iterations -/

/-- What a complete iteration acquires and releases. -/
def iteration (k : Nat) : List RoutineEvent :=
  [.receive k, .fopen k, .lock, .unlock, .free k, .fclose k]

/-- How many of these events lie behind the thread when it is at a phase. -/
def RoutinePhase.position : RoutinePhase → Nat
  | loop | finished => 0
  | fopen => 1
  | lock => 2
  | handle | send | unlock => 3
  | free => 4
  | fclose => 5

/-- The events in which something is acquired or released. -/
def RoutineEvent.isResource : RoutineEvent → Bool
  | receive _ | fopen _ | lock | unlock | free _ | fclose _ => true
  | receiveFails | fopenFails | handle _ | send _ | leave | closeConnections | others => false

/-- **Where a run is as long as `fopen` has not failed**: behind `k` complete iterations and the
first `p` events of the next one. -/
structure InIteration {σ : Type} (i : ConnId) (es : List RoutineEvent) (s : Routine σ)
    (k p : Nat) : Prop where
  position : s.phase.position = p
  ledger : es.filter RoutineEvent.isResource
    = (List.range k).flatMap iteration ++ (iteration k).take p
  received : s.received = if p = 0 then k else k + 1
  opened : s.opened = if p ≤ 1 then k else k + 1
  message : 1 ≤ p → p ≤ 4 → s.message.map MessageBuffer.serial = some k
  fd : 2 ≤ p → s.fd = some k
  mutex : s.fileMutex = some (.connection i) ↔ p = 3

section

variable {σ ω : Type} {b : Build σ ω} {i : ConnId} {s s' : Routine σ} {e : RoutineEvent}
  {es : List RoutineEvent} {k n p : Nat}

theorem Routine.start_inIteration (i : ConnId) (files : σ) (stream : List RecvRet) :
    InIteration i [] (Routine.start files stream) 0 0 where
  position := rfl
  ledger := rfl
  received := rfl
  opened := rfl
  message hpos := absurd hpos (by decide)
  fd hpos := absurd hpos (by decide)
  mutex := iff_of_false nofun (by decide)

/-- The ledger after the next acquisition or release of the iteration. -/
theorem InIteration.ledger_next (h : InIteration i es s k p) (hnext : (iteration k)[p]? = some e) :
    (es ++ [e]).filter RoutineEvent.isResource
      = (List.range k).flatMap iteration ++ (iteration k).take (p + 1) := by
  have hall : ∀ e ∈ iteration k, e.isResource = true := by
    simp [iteration, RoutineEvent.isResource]
  have hresource := hall e (List.mem_of_getElem? hnext)
  calc (es ++ [e]).filter RoutineEvent.isResource
      = es.filter RoutineEvent.isResource ++ [e] := by
        rw [List.filter_append, List.filter_cons_of_pos hresource, List.filter_nil]
    _ = (List.range k).flatMap iteration ++ ((iteration k).take p ++ [e]) := by
        rw [h.ledger, List.append_assoc]
    _ = (List.range k).flatMap iteration ++ (iteration k).take (p + 1) := by
        rw [List.take_add_one, hnext]
        rfl

/-- A step in which nothing is acquired or released. -/
theorem InIteration.ledger_same (h : InIteration i es s k p) (he : e.isResource = false) :
    (es ++ [e]).filter RoutineEvent.isResource
      = (List.range k).flatMap iteration ++ (iteration k).take p := by
  calc (es ++ [e]).filter RoutineEvent.isResource
      = es.filter RoutineEvent.isResource := by
        rw [List.filter_append, List.filter_cons_of_neg (by simp [he]), List.filter_nil,
          List.append_nil]
    _ = (List.range k).flatMap iteration ++ (iteration k).take p := h.ledger

/-- A step that is not a failing `fopen` stays in the iteration, or begins or ends one. -/
theorem RoutineStep.inIteration (hstep : RoutineStep b i s e s') (h : InIteration i es s k p)
    (he : e ≠ .fopenFails) : ∃ k' p', InIteration i (es ++ [e]) s' k' p' := by
  have hphase : ∀ {phase : RoutinePhase}, s.phase = phase → phase.position = p := by
    rintro phase rfl
    exact h.position
  cases hstep with
  | fopenFails => exact absurd rfl he
  | receive at_loop =>
      obtain rfl := hphase at_loop
      have hk : s.received = k := h.received
      refine ⟨k, 1, rfl, h.ledger_next (by rw [hk]; rfl), by rw [hk]; rfl, h.opened, ?_, ?_, ?_⟩
      · intro _ _
        rw [hk]
        rfl
      · exact fun hpos => absurd hpos (by decide)
      · exact h.mutex.trans (by decide)
  | receiveFails at_loop =>
      obtain rfl := hphase at_loop
      exact ⟨k, 0, h.position, h.ledger_same rfl, h.received, h.opened,
        fun hpos => absurd hpos (by decide), h.fd, h.mutex⟩
  | fopen at_fopen =>
      obtain rfl := hphase at_fopen
      have hk : s.opened = k := h.opened
      refine ⟨k, 2, rfl, h.ledger_next (by rw [hk]; rfl), h.received, by rw [hk]; rfl, ?_, ?_, ?_⟩
      · exact fun _ _ => h.message (by decide) (by decide)
      · intro _
        rw [hk]
      · exact h.mutex.trans (by decide)
  | lock at_lock =>
      obtain rfl := hphase at_lock
      exact ⟨k, 3, rfl, h.ledger_next rfl, h.received, h.opened,
        fun _ _ => h.message (by decide) (by decide), fun _ => h.fd (by decide),
        iff_of_true rfl rfl⟩
  | handle at_handle =>
      obtain rfl := hphase at_handle
      rename_i retval _ _ _ _
      refine ⟨k, 3, ?_, h.ledger_same rfl, h.received, h.opened, h.message, h.fd, h.mutex⟩
      show RoutinePhase.position (if retval ≥ 0 then .send else .unlock) = 3
      split <;> rfl
  | send at_send =>
      obtain rfl := hphase at_send
      exact ⟨k, 3, rfl, h.ledger_same rfl, h.received, h.opened, h.message, h.fd, h.mutex⟩
  | unlock at_unlock =>
      obtain rfl := hphase at_unlock
      exact ⟨k, 4, rfl, h.ledger_next rfl, h.received, h.opened,
        fun _ _ => h.message (by decide) (by decide), fun _ => h.fd (by decide),
        iff_of_false nofun (by decide)⟩
  | free at_free buffer =>
      obtain rfl := hphase at_free
      rename_i message
      have hk : message.serial = k := by
        have hmessage := h.message (by decide) (by decide)
        rw [buffer] at hmessage
        exact Option.some.inj hmessage
      exact ⟨k, 5, rfl, h.ledger_next (by rw [hk]; rfl), h.received, h.opened,
        fun _ hpos => absurd hpos (by decide), fun _ => h.fd (by decide),
        h.mutex.trans (by decide)⟩
  | fclose at_fclose file =>
      -- the iteration is complete
      obtain rfl := hphase at_fclose
      rename_i n
      have hk : n = k := by
        have hfd := h.fd (by decide)
        rw [file] at hfd
        exact Option.some.inj hfd
      refine ⟨k + 1, 0, rfl, ?_, h.received, h.opened, fun hpos => absurd hpos (by decide),
        fun hpos => absurd hpos (by decide), h.mutex.trans (by decide)⟩
      calc (es ++ [RoutineEvent.fclose n]).filter RoutineEvent.isResource
          = (List.range k).flatMap iteration ++ iteration k := h.ledger_next (by rw [hk]; rfl)
        _ = (List.range (k + 1)).flatMap iteration := by
            rw [List.range_succ, List.flatMap_append, List.flatMap_singleton]
        _ = (List.range (k + 1)).flatMap iteration ++ (iteration (k + 1)).take 0 :=
            (List.append_nil _).symm
  | leave at_loop =>
      obtain rfl := hphase at_loop
      exact ⟨k, 0, rfl, h.ledger_same rfl, h.received, h.opened, h.message, h.fd, h.mutex⟩
  | closeConnections =>
      exact ⟨k, p, h.position, h.ledger_same rfl, h.received, h.opened, h.message, h.fd, h.mutex⟩
  | others mutex =>
      exact ⟨k, p, h.position, h.ledger_same rfl, h.received, h.opened, h.message, h.fd,
        mutex.trans h.mutex⟩

/-! ## What complete iterations give back -/

/-- The events of an iteration that carry its serial number. -/
def numbered (n : Nat) : List RoutineEvent := [.receive n, .fopen n, .free n, .fclose n]

/-- The iteration has each of them once, and no other iteration has it. -/
theorem count_iteration (he : e ∈ numbered n) (j : Nat) :
    (iteration j).count e = if j = n then 1 else 0 := by
  simp only [numbered, List.mem_cons, List.not_mem_nil, or_false] at he
  rcases he with rfl | rfl | rfl | rfl <;> simp [iteration, List.count_cons]

theorem count_completed (he : e ∈ numbered n) (k : Nat) :
    ((List.range k).flatMap iteration).count e = if n < k then 1 else 0 := by
  induction k with
  | zero => rfl
  | succ k ih =>
      rw [List.range_succ, List.flatMap_append, List.flatMap_singleton, List.count_append, ih,
        count_iteration he]
      split_ifs <;> omega

/-- How often it has happened in a run. -/
theorem InIteration.count_eq (h : InIteration i es s k p) (he : e ∈ numbered n) :
    es.count e = (if n < k then 1 else 0) + ((iteration k).take p).count e := by
  have hall : ∀ e ∈ numbered n, e.isResource = true := by
    simp [numbered, RoutineEvent.isResource]
  rw [← List.count_filter (hall e he), h.ledger, List.count_append, count_completed he]

/-- Between two iterations, what was acquired has been released. -/
theorem InIteration.count_release (h : InIteration i es s k 0) {acquire release : RoutineEvent}
    (n : Nat) (hacquire : acquire ∈ numbered n) (hrelease : release ∈ numbered n)
    (hmem : acquire ∈ es) : es.count release = 1 := by
  have hpos := List.count_pos_iff.mpr hmem
  rw [h.count_eq hacquire, List.take_zero, List.count_nil] at hpos
  rw [h.count_eq hrelease, List.take_zero, List.count_nil]
  split_ifs at hpos ⊢ <;> omega

theorem InIteration.givenBack (h : InIteration i es s k 0) : GivenBack i es s where
  messages n := h.count_release n (by simp [numbered]) (by simp [numbered])
  files n := h.count_release n (by simp [numbered]) (by simp [numbered])
  mutex hheld := absurd (h.mutex.mp hheld) (by decide)

theorem InIteration.balancedAtHead (h : InIteration i es s k p) : BalancedAtHead i es s := by
  intro hhead
  have hp : p = 0 := by
    rw [← h.position]
    rcases hhead with hphase | hphase <;> rw [hphase] <;> rfl
  subst hp
  exact h.givenBack

/-- **A failing `fopen` loses a buffer**: the thread is back at the head of the loop, and the buffer
has not been freed. -/
theorem RoutineStep.not_balancedAtHead (hstep : RoutineStep b i s .fopenFails s')
    (h : InIteration i es s k p) : ¬ BalancedAtHead i (es ++ [.fopenFails]) s' := by
  cases hstep with
  | fopenFails at_fopen =>
      obtain rfl : p = 1 := by
        rw [← h.position, at_fopen]
        rfl
      intro hbalanced
      have hreceive : es.count (.receive k) = _ := h.count_eq (n := k) (by simp [numbered])
      have hfree : es.count (.free k) = _ := h.count_eq (n := k) (by simp [numbered])
      have hreceived : .receive k ∈ es := by
        rw [← List.count_pos_iff, hreceive]
        simp [iteration]
      have hone := (hbalanced (Or.inl rfl)).messages k (List.mem_append_left _ hreceived)
      rw [List.count_append, hfree] at hone
      simp [iteration] at hone

/-! ## Runs -/

/-- **A run is a sequence of iterations** as long as `fopen` does not fail. -/
theorem run_inIteration {files : σ} {stream : List RecvRet}
    {t : List (RoutineEvent × Routine σ)}
    (hsteps : Run (RoutineStep b i) (Routine.start files stream) t) :
    .fopenFails ∉ labels t →
      ∃ k p, InIteration i (labels t) (last (Routine.start files stream) t) k p := by
  induction hsteps with
  | nil => exact fun _ => ⟨0, 0, Routine.start_inIteration i files stream⟩
  | snoc _ hstep ih =>
      rw [labels_concat, last_concat, List.mem_append, List.mem_singleton, not_or]
      rintro ⟨hbefore, he⟩
      obtain ⟨k, p, h⟩ := ih hbefore
      exact hstep.inIteration h (Ne.symm he)

/-- Then everything is given back at every head of the loop. -/
theorem run_always_balanced {files : σ} {stream : List RecvRet}
    {t : List (RoutineEvent × Routine σ)}
    (hsteps : Run (RoutineStep b i) (Routine.start files stream) t) (hnone : .fopenFails ∉ labels t) :
    Always (BalancedAtHead i) (Routine.start files stream) t := by
  refine hsteps.always fun t₁ hsteps₁ hpre => ?_
  obtain ⟨k, p, h⟩ := run_inIteration hsteps₁ fun hmem => hnone (hpre.subset hmem)
  exact h.balancedAtHead

end

/-- **The resources of a connection thread.** In every run, with any number of messages, any
outcome of every call and any interference of the other threads: at every return to the loop head
and at the exit of the thread, every message buffer has been freed exactly once, every file closed
exactly once and the mutex is not held, if and only if `fopen` does not fail in the run. -/
theorem run_balanced_iff {σ ω : Type} (b : Build σ ω) (i : ConnId) (files : σ)
    (stream : List RecvRet) (t : List (RoutineEvent × Routine σ))
    (hsteps : Run (RoutineStep b i) (Routine.start files stream) t) :
    Always (BalancedAtHead i) (Routine.start files stream) t ↔ .fopenFails ∉ labels t := by
  constructor
  · intro halways
    induction hsteps with
    | nil => exact List.not_mem_nil
    | snoc hrun hstep ih =>
        rename_i t e s'
        have hbefore : .fopenFails ∉ labels t := by
          apply ih
          rintro t₁ t₂ rfl
          exact halways t₁ (t₂ ++ [(e, s')]) (List.append_assoc ..)
        obtain ⟨k, p, h⟩ := run_inIteration hrun hbefore
        rw [labels_concat, List.mem_append, List.mem_singleton, not_or]
        refine ⟨hbefore, ?_⟩
        rintro rfl
        have hlast := halways.at_last
        rw [labels_concat, last_concat] at hlast
        exact hstep.not_balancedAtHead h hlast
  · exact run_always_balanced hsteps

/-- A message is served, and the client closes. -/
theorem run_balanced_iff_oneMessage :
    ∃ t : List (RoutineEvent × Routine RegularFile),
      Run (RoutineStep regularBuild 0) (Routine.start (.existing []) [.byte 65, .byte 10]) t
      ∧ labels t = [.receive 0, .fopen 0, .lock, .handle 2, .send true, .unlock, .free 0, .fclose 0,
          .receiveFails, .leave]
      ∧ (Always (BalancedAtHead 0) (Routine.start (.existing []) [.byte 65, .byte 10]) t
        ↔ .fopenFails ∉ labels t) := by
  have hpacket : newline ∉ [(65 : UInt8)] := by decide
  obtain ⟨block, hreceive, hblock⟩ :=
    receiveMessage_delimiter newline (fun _ => 0) true hpacket (by decide) []
  have hmessage : cString block = [65] := cString_eq_of_take hblock (by decide)
  have hdata : decodeIoctlCommand (cString block) = none := by
    rw [hmessage]
    decide
  let plan : StdioPlan FileOutcome := ⟨[], [⟨[65, newline], .done⟩]⟩
  have hprints : plan.Prints (cString block ++ [newline]) := by
    rw [hmessage]
    exact ⟨by decide, rfl⟩
  have hend := receiveMessage_end newline (fun _ => 0) true List.not_mem_nil (by decide)
  have h₁ : Run (RoutineStep regularBuild 0)
      (Routine.start (.existing []) [.byte 65, .byte 10]) _ :=
    Run.nil.snoc (RoutineStep.receive rfl rfl rfl hreceive)
  have h₂ := h₁.snoc (RoutineStep.fopen rfl)
  have h₃ := h₂.snoc (RoutineStep.lock rfl rfl)
  let opened := regularBuild.fopen 0 (.existing [])
  let written : RegularFile := ⟨[65, newline], Function.update opened.offset 0 (some 2)⟩
  have hwrite : writeChunks (regularFile 0) plan.chunks opened = .ok (true, written) := rfl
  have hhandle : handleMessage (regularFile 0) block plan .done opened = .ok (2, written) := by
    rw [handleMessage_data (regularFile 0) hdata hwrite, hmessage]
    rfl
  have h₄ := h₃.snoc (RoutineStep.handle rfl rfl hprints hhandle)
  have h₅ := h₄.snoc (@RoutineStep.send _ _ _ _ _ [(.done, some 4096)] _ _ _ rfl rfl)
  have h₆ := h₅.snoc (RoutineStep.unlock rfl)
  have h₇ := h₆.snoc (RoutineStep.free rfl rfl)
  have h₈ := h₇.snoc (RoutineStep.fclose rfl rfl)
  have h₉ := h₈.snoc (RoutineStep.receiveFails rfl rfl rfl hend)
  have h₁₀ := h₉.snoc (RoutineStep.leave rfl (Or.inl rfl))
  exact ⟨_, h₁₀, rfl, run_balanced_iff _ _ _ _ _ h₁₀⟩

/-- `fopen` fails for the first message: its buffer is never freed. -/
theorem not_balanced_fopenFails :
    ∃ t : List (RoutineEvent × Routine RegularFile),
      Run (RoutineStep regularBuild 0) (Routine.start (.existing []) [.byte 65, .byte 10]) t
      ∧ labels t = [.receive 0, .fopenFails, .receiveFails, .leave]
      ∧ ¬ Always (BalancedAtHead 0) (Routine.start (.existing []) [.byte 65, .byte 10]) t := by
  have hpacket : newline ∉ [(65 : UInt8)] := by decide
  obtain ⟨block, hreceive, -⟩ :=
    receiveMessage_delimiter newline (fun _ => 0) true hpacket (by decide) []
  have hend := receiveMessage_end newline (fun _ => 0) true List.not_mem_nil (by decide)
  have h₁ : Run (RoutineStep regularBuild 0)
      (Routine.start (.existing []) [.byte 65, .byte 10]) _ :=
    Run.nil.snoc (RoutineStep.receive rfl rfl rfl hreceive)
  have h₂ := h₁.snoc (RoutineStep.fopenFails rfl)
  have h₃ := h₂.snoc (RoutineStep.receiveFails rfl rfl rfl hend)
  have h₄ := h₃.snoc (RoutineStep.leave rfl (Or.inl rfl))
  refine ⟨_, h₄, rfl, fun halways => ?_⟩
  have hfree : [RoutineEvent.receive 0, .fopenFails, .receiveFails, .leave].count (.free 0) = 1 :=
    (halways.at_last (Or.inr rfl)).messages 0 List.mem_cons_self
  exact absurd hfree (by decide)

end Aesd
