import Aesd.Server.Routine
import Aesd.Server.Threads

set_option autoImplicit false

/-! # The connection threads of the server, one by one

Every run of the server (`Threads`) is, for each of its connections, a run of `thread_routine`
(`Routine`), in which what the other threads do is interference. So what holds of all runs of
`thread_routine` holds of every connection thread of the server, in every interleaving
(`run_connection_balanced`). -/

namespace Aesd

open Lts Delimited

/-! ## Where a thread is -/

/-- The phase of a connection thread in the server, against its phase and its variables. Between
`free` and `fclose` the server makes no stop. -/
inductive RoutinePhase.Shows : RoutinePhase → Option MessageBuffer → Option Nat → Phase → Prop
  | loop {message : Option MessageBuffer} {fd : Option Nat} : Shows .loop message fd .loop
  | fopen {m : MessageBuffer} {fd : Option Nat} : Shows .fopen (some m) fd (.fopen m.block)
  | lock {m : MessageBuffer} {n : Nat} : Shows .lock (some m) (some n) (.lock m.block)
  | handle {m : MessageBuffer} {n : Nat} : Shows .handle (some m) (some n) (.handle m.block)
  | send {m : MessageBuffer} {n : Nat} : Shows .send (some m) (some n) (.send m.block)
  | unlock {m : MessageBuffer} {n : Nat} : Shows .unlock (some m) (some n) (.unlock m.block)
  | fclose {m : MessageBuffer} {n : Nat} : Shows .free (some m) (some n) .fclose
  | finished {message : Option MessageBuffer} {fd : Option Nat} :
      Shows .finished message fd .finished

/-- `r` is thread `i` of the server. -/
structure Routine.Shows {σ : Type} (i : ConnId) (s : Server σ) (r : Routine σ) : Prop where
  files : s.files = r.files
  fileMutex : s.fileMutex = r.fileMutex
  closeConnections : s.closeConnections = r.closeConnections
  connection : (s.threads i).connection = r.connection
  phase : r.phase.Shows r.message r.fd (s.threads i).phase

/-- What a thread may do in a step of the server: `fopen` fails for it only if it is this step. -/
def Event.View {ω : Type} (i : ConnId) (e : Event ω) (e' : RoutineEvent) : Prop :=
  e' = .fopenFails → e = .fopenFails i

section

variable {σ ω : Type} {b : Build σ ω} {i : ConnId} {s s' : Server σ} {e : Event ω}
  {r : Routine σ}

/-- One step is an answer. -/
theorem RoutineStep.answer {r' : Routine σ} {e' : RoutineEvent} (hstep : RoutineStep b i r e' r')
    (hshows : r'.Shows i s') (hview : e.View i e') :
    ∃ t, Run (RoutineStep b i) r t ∧ (last r t).Shows i s' ∧ ∀ l ∈ labels t, e.View i l := by
  refine ⟨[(e', r')], Run.nil.snoc hstep, hshows, ?_⟩
  intro l hl
  rw [List.mem_singleton.mp hl]
  exact hview

/-- **A step of another thread is interference.** -/
theorem Step.interferes (hstep : Step b s e s') (hex : s.Exclusive)
    (hi : e.agent ≠ some (.connection i)) (h : r.Shows i s) :
    ∃ t, Run (RoutineStep b i) r t ∧ (last r t).Shows i s' ∧ ∀ l ∈ labels t, e.View i l := by
  have hthread := hstep.threads_ne hi
  by_cases he : e = .closeConnections
  · subst he
    cases hstep
    exact RoutineStep.closeConnections.answer
      ⟨h.files, h.fileMutex, rfl, h.connection, h.phase⟩ nofun
  · -- the thread neither takes nor loses the mutex
    have hmutex : s'.fileMutex = some (.connection i) ↔ r.fileMutex = some (.connection i) := by
      rw [← h.fileMutex, ← hstep.exclusive hex (.connection i), hstep.critical_ne hi]
      exact hex (.connection i)
    refine (RoutineStep.others hmutex).answer ⟨rfl, rfl, ?_, ?_, ?_⟩ nofun
    · rw [hstep.closeConnections_eq he]
      exact h.closeConnections
    · rw [hthread]
      exact h.connection
    · rw [hthread]
      exact h.phase

/-- A thread of the server that has gone on. -/
theorem Routine.Shows.of_thread {p : Phase} (files : s.files = r.files)
    (fileMutex : s.fileMutex = r.fileMutex)
    (closeConnections : s.closeConnections = r.closeConnections)
    (hthread : s.threads i = ⟨r.connection, p⟩) (hp : r.phase.Shows r.message r.fd p) :
    r.Shows i s where
  files := files
  fileMutex := fileMutex
  closeConnections := closeConnections
  connection := by rw [hthread]
  phase := by
    rw [hthread]
    exact hp

/-- **A step of the thread itself** is a step of `thread_routine`, or two. -/
theorem Step.ownStep (hstep : Step b s e s') (hi : e.agent = some (.connection i))
    (h : r.Shows i s) :
    ∃ t, Run (RoutineStep b i) r t ∧ (last r t).Shows i s' ∧ ∀ l ∈ labels t, e.View i l := by
  obtain ⟨files, fileMutex, closeConnections, connection, phase, message, fd, received, opened⟩ := r
  obtain ⟨rfl, rfl, rfl, rfl, hphase⟩ := h
  simp only at hphase
  cases hstep with
  | closeConnections | timerLock | timerWrite | timerUnlock => cases hi
  | receive at_loop is_open goes_on hreceived =>
      obtain rfl := Holder.connection.inj (Option.some.inj hi)
      rename_i block _
      rw [at_loop] at hphase
      cases hphase
      cases block with
      | none =>
          exact (RoutineStep.receiveFails rfl is_open goes_on hreceived).answer
            (.of_thread rfl rfl rfl (Function.update_self ..) .loop) nofun
      | some block =>
          exact (RoutineStep.receive rfl is_open goes_on hreceived).answer
            (.of_thread rfl rfl rfl (Function.update_self ..) .fopen) nofun
  | finish at_loop stops =>
      obtain rfl := Holder.connection.inj (Option.some.inj hi)
      rw [at_loop] at hphase
      cases hphase
      exact (RoutineStep.leave rfl stops).answer
        (.of_thread rfl rfl rfl (Server.setPhase_self ..) .finished) nofun
  | fopen at_fopen =>
      obtain rfl := Holder.connection.inj (Option.some.inj hi)
      rw [at_fopen] at hphase
      cases hphase
      exact (RoutineStep.fopen rfl).answer
        (.of_thread rfl rfl rfl (Server.setPhase_self ..) .lock) nofun
  | fopenFails at_fopen =>
      obtain rfl := Holder.connection.inj (Option.some.inj hi)
      rw [at_fopen] at hphase
      cases hphase
      exact (RoutineStep.fopenFails rfl).answer
        (.of_thread rfl rfl rfl (Server.setPhase_self ..) .loop) fun _ => rfl
  | lock at_lock is_free =>
      obtain rfl := Holder.connection.inj (Option.some.inj hi)
      rw [at_lock] at hphase
      cases hphase
      exact (RoutineStep.lock rfl is_free).answer
        (.of_thread rfl rfl rfl (Server.setPhase_self ..) .handle) nofun
  | handle at_handle prints handled =>
      obtain rfl := Holder.connection.inj (Option.some.inj hi)
      rw [at_handle] at hphase
      cases hphase
      refine (RoutineStep.handle rfl rfl prints handled).answer
        (.of_thread rfl rfl rfl (Server.setPhase_self ..) ?_) nofun
      show RoutinePhase.Shows (if _ then _ else _) _ _ (if _ then _ else _)
      split
      · exact .send
      · exact .unlock
  | send at_send sent =>
      obtain rfl := Holder.connection.inj (Option.some.inj hi)
      rw [at_send] at hphase
      cases hphase
      exact (RoutineStep.send rfl sent).answer
        (.of_thread rfl rfl rfl (Server.setPhase_self ..) .unlock) nofun
  | unlock at_unlock =>
      obtain rfl := Holder.connection.inj (Option.some.inj hi)
      rw [at_unlock] at hphase
      cases hphase
      exact (RoutineStep.unlock rfl).answer
        (.of_thread rfl rfl rfl (Server.setPhase_self ..) .fclose) nofun
  | fclose at_fclose =>
      -- the message is freed, and the file closed
      obtain rfl := Holder.connection.inj (Option.some.inj hi)
      rw [at_fclose] at hphase
      cases hphase
      refine ⟨_, (Run.nil.snoc (.free rfl rfl)).snoc (.fclose rfl rfl),
        .of_thread rfl rfl rfl (Server.setPhase_self ..) .loop, ?_⟩
      simp [labels, Event.View]

/-- **Every step of the server** is one of `thread_routine`, or interference. -/
theorem Step.answered (hstep : Step b s e s') (hex : s.Exclusive) (h : r.Shows i s) :
    ∃ t, Run (RoutineStep b i) r t ∧ (last r t).Shows i s' ∧ ∀ l ∈ labels t, e.View i l := by
  by_cases hi : e.agent = some (.connection i)
  · exact hstep.ownStep hi h
  · exact hstep.interferes hex hi h

end

section

variable {σ ω : Type} (b : Build σ ω) (files : σ) (sent : ConnId → List (List UInt8))
  (tail : ConnId → List UInt8) (outstr : TimerId → List UInt8) (i : ConnId)
  {t : List (Event ω × Server σ)}

/-- Connection thread `i` at the start of the server. -/
def Routine.startOf : Routine σ := .start files ((framed newline (sent i) (tail i)).map .byte)

theorem Routine.startOf_shows :
    (Routine.startOf files sent tail i).Shows i (Server.start files sent tail outstr) :=
  ⟨rfl, rfl, rfl, rfl, .loop⟩

/-- **Every run of the server is a run of each of its connection threads.** `fopen` fails in it
only where it does so in the run of the server. -/
theorem run_connection (hsteps : Run (Step b) (Server.start files sent tail outstr) t) :
    ∃ t', Run (RoutineStep b i) (.startOf files sent tail i) t'
      ∧ (last (.startOf files sent tail i) t').Shows i
          (last (Server.start files sent tail outstr) t)
      ∧ (.fopenFails ∈ labels t' → .fopenFails i ∈ labels t) := by
  have hstep : ∀ (s : Server σ) (e : Event ω) (s' : Server σ) (r : Routine σ),
      s.Exclusive ∧ r.Shows i s → Step b s e s' →
        ∃ t', Run (RoutineStep b i) r t' ∧ (s'.Exclusive ∧ (last r t').Shows i s')
          ∧ ∀ l ∈ labels t', e.View i l := by
    rintro s e s' r ⟨hex, hshows⟩ hstep
    obtain ⟨t', hrun, hshows', hview⟩ := hstep.answered hex hshows
    exact ⟨t', hrun, ⟨hstep.exclusive hex, hshows'⟩, hview⟩
  obtain ⟨t', hrun, ⟨-, hshows⟩, hview⟩ := hsteps.simulate
    (fun s (r : Routine σ) => s.Exclusive ∧ r.Shows i s) (Event.View i) hstep
    ⟨Server.start_exclusive files outstr, Routine.startOf_shows files sent tail outstr i⟩
  refine ⟨t', hrun, hshows, fun hmem => ?_⟩
  obtain ⟨e, he, hview⟩ := hview _ hmem
  rwa [hview rfl] at he

/-- **The resources of every connection thread of the server.** In every run, whatever the
interleaving: a thread for which `fopen` has not failed has given back, whenever it is at the head
of its loop or has left it, all buffers, all files and the mutex. -/
theorem run_connection_balanced
    (hsteps : Run (Step b) (Server.start files sent tail outstr) t)
    (hopens : .fopenFails i ∉ labels t) :
    ∃ t', Run (RoutineStep b i) (.startOf files sent tail i) t'
      ∧ (last (.startOf files sent tail i) t').Shows i
          (last (Server.start files sent tail outstr) t)
      ∧ Always (BalancedAtHead i) (.startOf files sent tail i) t' := by
  obtain ⟨t', hrun, hshows, hfails⟩ := run_connection b files sent tail outstr i hsteps
  exact ⟨t', hrun, hshows, run_always_balanced hrun fun hmem => hopens (hfails hmem)⟩

end

end Aesd
