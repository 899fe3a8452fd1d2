import Aesd.Basic.Lts
import Aesd.Server.Threads

set_option autoImplicit false

/-! # Timer callbacks and the end of the manager

In the build without the character device a timer runs `thread_timer` on a thread of its own,
every ten seconds from `timer_settime` on. Nobody waits for these threads:
`connection_manager_destroy` destroys the mutex, deletes the timer and frees the file name and the
manager, each in a step of its own, while callbacks may be anywhere between their first and their
last use of them. This goes well as long as no callback is in flight when the mutex is destroyed
and none starts before the timer is deleted (`run_neverMisused_iff`). -/

namespace Aesd

open Lts

/-! ## The steps -/

/-- How far `connection_manager_destroy` has come. -/
inductive DestroyPhase
  /-- It has not been called, or it is in its loop. -/
  | running
  | mutexDestroyed
  | timerDeleted
  | filenameFreed
  /-- `manager->filename` is `NULL`. -/
  | filenameCleared
  | managerFreed

/-- Where a callback is in `thread_timer`. -/
inductive CallbackPhase
  /-- The timer has not started it. -/
  | idle
  /-- Before `pthread_mutex_lock`. -/
  | lock
  | fopen
  /-- `fprintf` and `fclose`. -/
  | write
  | unlock
  | finished

/-- The state: how far the manager is torn down, who has taken `file_mutex`, and the callbacks. -/
structure Teardown where
  main : DestroyPhase
  fileMutex : Option TimerId
  callbacks : TimerId → CallbackPhase

/-- After `timer_settime`. -/
def Teardown.start : Teardown := ⟨.running, none, fun _ => .idle⟩

/-- Callback `j` goes on at `phase`. -/
def Teardown.setCallback (s : Teardown) (j : TimerId) (phase : CallbackPhase) : Teardown :=
  { s with callbacks := Function.update s.callbacks j phase }

/-- The timer exists. -/
def DestroyPhase.TimerArmed : DestroyPhase → Prop
  | running | mutexDestroyed => True
  | timerDeleted | filenameFreed | filenameCleared | managerFreed => False

/-- `pthread_mutex_destroy` has not been called. -/
def DestroyPhase.MutexValid : DestroyPhase → Prop
  | running => True
  | mutexDestroyed | timerDeleted | filenameFreed | filenameCleared | managerFreed => False

/-- `manager->filename` points to the name. -/
def DestroyPhase.FilenameValid : DestroyPhase → Prop
  | running | mutexDestroyed | timerDeleted => True
  | filenameFreed | filenameCleared | managerFreed => False

/-- The manager is allocated. -/
def DestroyPhase.ManagerValid : DestroyPhase → Prop
  | running | mutexDestroyed | timerDeleted | filenameFreed | filenameCleared => True
  | managerFreed => False

/-- What happens. -/
inductive TeardownEvent
  | fire (j : TimerId)
  | lock (j : TimerId)
  | fopen (j : TimerId)
  | write (j : TimerId)
  | unlock (j : TimerId)
  | mutexDestroy
  | timerDelete
  | freeFilename
  | clearFilename
  | freeManager

/-- The steps of the callbacks and of `connection_manager_destroy`. What a callback does with a
manager that is gone is not defined; here it goes on. -/
inductive TeardownStep : Teardown → TeardownEvent → Teardown → Prop
  /-- The timer expires, and a thread is started. -/
  | fire {s : Teardown} {j : TimerId} (armed : s.main.TimerArmed)
      (at_idle : s.callbacks j = .idle) :
      TeardownStep s (.fire j) (s.setCallback j .lock)
  /-- `pthread_mutex_lock` waits until the mutex is free. -/
  | lock {s : Teardown} {j : TimerId} (at_lock : s.callbacks j = .lock)
      (is_free : s.main.MutexValid → s.fileMutex = none) :
      TeardownStep s (.lock j) { s.setCallback j .fopen with fileMutex := some j }
  | fopen {s : Teardown} {j : TimerId} (at_fopen : s.callbacks j = .fopen) :
      TeardownStep s (.fopen j) (s.setCallback j .write)
  | write {s : Teardown} {j : TimerId} (at_write : s.callbacks j = .write) :
      TeardownStep s (.write j) (s.setCallback j .unlock)
  | unlock {s : Teardown} {j : TimerId} (at_unlock : s.callbacks j = .unlock) :
      TeardownStep s (.unlock j) { s.setCallback j .finished with fileMutex := none }
  | mutexDestroy {s : Teardown} (at_running : s.main = .running) :
      TeardownStep s .mutexDestroy { s with main := .mutexDestroyed }
  | timerDelete {s : Teardown} (at_mutexDestroyed : s.main = .mutexDestroyed) :
      TeardownStep s .timerDelete { s with main := .timerDeleted }
  | freeFilename {s : Teardown} (at_timerDeleted : s.main = .timerDeleted) :
      TeardownStep s .freeFilename { s with main := .filenameFreed }
  | clearFilename {s : Teardown} (at_filenameFreed : s.main = .filenameFreed) :
      TeardownStep s .clearFilename { s with main := .filenameCleared }
  | freeManager {s : Teardown} (at_filenameCleared : s.main = .filenameCleared) :
      TeardownStep s .freeManager { s with main := .managerFreed }

/-- It has been started and has not returned. -/
def CallbackPhase.InFlight : CallbackPhase → Prop
  | lock | fopen | write | unlock => True
  | idle | finished => False

/-- It has locked the mutex and not unlocked it. -/
def CallbackPhase.Holds : CallbackPhase → Prop
  | fopen | write | unlock => True
  | idle | lock | finished => False

/-- The step uses what is gone: the mutex after `pthread_mutex_destroy`, the file name or the
manager after `free`; or it destroys a mutex that is held. -/
def TeardownEvent.Misuses (s : Teardown) : TeardownEvent → Prop
  | .lock _ | .unlock _ => ¬ s.main.MutexValid ∨ ¬ s.main.ManagerValid
  | .fopen _ => ¬ s.main.FilenameValid ∨ ¬ s.main.ManagerValid
  | .mutexDestroy => ∃ j, (s.callbacks j).Holds
  | _ => False

/-- Nothing is misused in the run. -/
def NeverMisused (t : List (TeardownEvent × Teardown)) : Prop :=
  ∀ t₁ e s', StepAt t t₁ e s' → ¬ e.Misuses (last Teardown.start t₁)

/-- No callback is in flight when the mutex is destroyed, and none is started after that. -/
def TeardownEvent.Quiet (s : Teardown) : TeardownEvent → Prop
  | .mutexDestroy => ∀ j, ¬ (s.callbacks j).InFlight
  | .fire _ => s.main.MutexValid
  | _ => True

/-- All steps of the run are quiet. -/
def AlwaysQuiet (t : List (TeardownEvent × Teardown)) : Prop :=
  ∀ t₁ e s', StepAt t t₁ e s' → e.Quiet (last Teardown.start t₁)

section

variable {s s' : Teardown} {e : TeardownEvent} {i j : TimerId}

@[simp] theorem Teardown.setCallback_self (s : Teardown) (j : TimerId) (p : CallbackPhase) :
    (s.setCallback j p).callbacks j = p :=
  Function.update_self ..

theorem Teardown.setCallback_ne (s : Teardown) {i j : TimerId} (p : CallbackPhase) (hne : i ≠ j) :
    (s.setCallback j p).callbacks i = s.callbacks i :=
  Function.update_of_ne hne ..

@[simp] theorem Teardown.setCallback_main (s : Teardown) (j : TimerId) (p : CallbackPhase) :
    (s.setCallback j p).main = s.main := rfl

theorem CallbackPhase.Holds.inFlight {p : CallbackPhase} (h : p.Holds) : p.InFlight := by
  cases p <;> trivial

/-! ## Quiet runs -/

/-- Once the mutex is destroyed no callback is in flight. -/
def Teardown.Settled (s : Teardown) : Prop :=
  ¬ s.main.MutexValid → ∀ j, ¬ (s.callbacks j).InFlight

/-- A callback in flight moves on only while the mutex is valid. -/
theorem Teardown.Settled.mutexValid (h : s.Settled) (hj : (s.callbacks j).InFlight) :
    s.main.MutexValid := by
  by_contra hno
  exact h hno j hj

/-- The name and the manager are there as long as the mutex is. -/
theorem DestroyPhase.MutexValid.all {p : DestroyPhase} (h : p.MutexValid) :
    p.FilenameValid ∧ p.ManagerValid := by
  cases p with
  | running => exact ⟨trivial, trivial⟩
  | _ => exact absurd h id

/-- In a settled state a quiet step misuses nothing. -/
theorem TeardownStep.not_misuses (hstep : TeardownStep s e s') (h : s.Settled)
    (hquiet : e.Quiet s) : ¬ e.Misuses s := by
  cases hstep with
  | lock at_lock | unlock at_unlock =>
      have hvalid := h.mutexValid (by rw [‹s.callbacks _ = _›]; trivial)
      exact fun hbad => hbad.elim (· hvalid) (· hvalid.all.2)
  | fopen at_fopen =>
      have hvalid := h.mutexValid (by rw [at_fopen]; trivial)
      exact fun hbad => hbad.elim (· hvalid.all.1) (· hvalid.all.2)
  | mutexDestroy =>
      rintro ⟨j, hj⟩
      exact hquiet j hj.inFlight
  | _ => exact id

/-- **A quiet step keeps the state settled.** -/
theorem TeardownStep.settled (hstep : TeardownStep s e s') (h : s.Settled) (hquiet : e.Quiet s) :
    s'.Settled := by
  cases hstep with
  | fire armed at_idle => exact fun hno => absurd hquiet hno
  | lock at_lock | fopen at_fopen | write at_write | unlock at_unlock =>
      have hvalid := h.mutexValid (by rw [‹s.callbacks _ = _›]; trivial)
      exact fun hno => absurd hvalid hno
  | mutexDestroy => exact fun _ => hquiet
  | timerDelete at_phase | freeFilename at_phase | clearFilename at_phase
  | freeManager at_phase =>
      exact fun _ => h (by rw [at_phase]; exact id)

/-- In a quiet run every state is settled, and nothing is misused. -/
theorem Teardown.start_settled_of_quiet {t : List (TeardownEvent × Teardown)}
    (hsteps : Run TeardownStep Teardown.start t) (hquiet : AlwaysQuiet t) :
    (last Teardown.start t).Settled ∧ NeverMisused t := by
  induction hsteps with
  | nil => exact ⟨fun hno => absurd trivial hno, fun _ _ _ hat => absurd hat not_stepAt_nil⟩
  | snoc hrun hstep ih =>
      obtain ⟨hold, hnew⟩ := forall_stepAt_concat.mp hquiet
      obtain ⟨hsettled, hnever⟩ := ih hold
      rw [last_concat]
      exact ⟨hstep.settled hsettled hnew,
        forall_stepAt_concat.mpr ⟨hnever, hstep.not_misuses hsettled hnew⟩⟩

/-! ## Runs that are not quiet -/

/-- A callback is in flight after the mutex is destroyed. -/
def Teardown.Late (s : Teardown) : Prop := ¬ s.main.MutexValid ∧ ∃ j, (s.callbacks j).InFlight

/-- It cannot return without a misuse. -/
theorem TeardownStep.late (hstep : TeardownStep s e s') (h : s.Late) (hok : ¬ e.Misuses s) :
    s'.Late := by
  obtain ⟨hno, j, hj⟩ := h
  -- whichever callback moves on, `j` stays in flight
  have hmove : ∀ {i : TimerId} {p : CallbackPhase}, p.InFlight →
      ((s.setCallback i p).callbacks j).InFlight := by
    intro i p hp
    by_cases hi : j = i
    · subst hi
      rwa [Teardown.setCallback_self]
    · rwa [s.setCallback_ne p hi]
  cases hstep with
  | fire => exact ⟨hno, j, hmove trivial⟩
  | fopen | write => exact ⟨hno, j, hmove trivial⟩
  | lock | unlock => exact absurd (Or.inl hno) hok
  | mutexDestroy at_running =>
      rw [at_running] at hno
      exact absurd trivial hno
  | timerDelete | freeFilename | clearFilename | freeManager => exact ⟨id, j, hj⟩

/-- A step that is not quiet leaves a late callback. -/
theorem TeardownStep.late_of_not_quiet (hstep : TeardownStep s e s') (hquiet : ¬ e.Quiet s) :
    s'.Late := by
  cases hstep with
  | fire armed at_idle =>
      rename_i j
      exact ⟨hquiet, j, by simp [CallbackPhase.InFlight]⟩
  | mutexDestroy =>
      obtain ⟨j, hj⟩ := not_forall_not.mp hquiet
      exact ⟨id, j, hj⟩
  | _ => exact absurd trivial hquiet

/-- After a run without misuse that was not quiet there is a late callback. -/
theorem Teardown.start_late {t : List (TeardownEvent × Teardown)}
    (hsteps : Run TeardownStep Teardown.start t) (hnever : NeverMisused t)
    (hquiet : ¬ AlwaysQuiet t) : (last Teardown.start t).Late := by
  induction hsteps with
  | nil => exact absurd (fun _ _ _ hat => absurd hat not_stepAt_nil) hquiet
  | snoc hrun hstep ih =>
      rename_i t e s'
      obtain ⟨hold, hnew⟩ := forall_stepAt_concat.mp hnever
      rw [last_concat]
      by_cases hbefore : AlwaysQuiet t
      · exact hstep.late_of_not_quiet fun hq =>
          hquiet (forall_stepAt_concat.mpr ⟨hbefore, hq⟩)
      · exact hstep.late (ih hold hbefore) hnew

/-- The run can go on to a misuse. -/
def CanMisuse (t : List (TeardownEvent × Teardown)) : Prop :=
  ∃ t', Run TeardownStep Teardown.start (t ++ t') ∧ ¬ NeverMisused (t ++ t')

theorem CanMisuse.of_concat {t : List (TeardownEvent × Teardown)} {x : TeardownEvent × Teardown}
    (h : CanMisuse (t ++ [x])) : CanMisuse t := by
  obtain ⟨t', hsteps, hbad⟩ := h
  rw [List.append_assoc] at hsteps hbad
  exact ⟨_, hsteps, hbad⟩

/-- **A late callback only has to go on.** -/
theorem Teardown.Late.canMisuse {t : List (TeardownEvent × Teardown)}
    (hsteps : Run TeardownStep Teardown.start t) (h : (last Teardown.start t).Late) :
    CanMisuse t := by
  obtain ⟨hno, j, hj⟩ := h
  -- from `fopen` and `write` on it comes to `pthread_mutex_unlock`
  have hunlock : ∀ {t}, Run TeardownStep Teardown.start t →
      ¬ (last Teardown.start t).main.MutexValid →
      (last Teardown.start t).callbacks j = .unlock → CanMisuse t := fun hsteps hno hphase =>
    ⟨_, hsteps.snoc (.unlock hphase), fun hnever =>
      (forall_stepAt_concat.mp hnever).2 (Or.inl hno)⟩
  have hwrite : ∀ {t}, Run TeardownStep Teardown.start t →
      ¬ (last Teardown.start t).main.MutexValid →
      (last Teardown.start t).callbacks j = .write → CanMisuse t := fun hsteps hno hphase =>
    (hunlock (hsteps.snoc (.write hphase)) (by rwa [last_concat]) (by
      rw [last_concat, Teardown.setCallback_self])).of_concat
  cases hphase : (last Teardown.start t).callbacks j with
  | idle | finished =>
      rw [hphase] at hj
      exact absurd hj id
  | lock =>
      exact ⟨_, hsteps.snoc (.lock hphase fun hvalid => absurd hvalid hno), fun hnever =>
        (forall_stepAt_concat.mp hnever).2 (Or.inl hno)⟩
  | unlock => exact hunlock hsteps hno hphase
  | write => exact hwrite hsteps hno hphase
  | fopen =>
      exact (hwrite (hsteps.snoc (.fopen hphase)) (by rwa [last_concat]) (by
        rw [last_concat, Teardown.setCallback_self])).of_concat

end

/-- **The end of the manager.** In every run, with any number of callbacks started and
interleaved in any way with `connection_manager_destroy`: if no callback is in flight when the
mutex is destroyed and none is started after that, nothing is ever misused; otherwise the run can
go on to a misuse; and it has done so if all callbacks that were started have returned. -/
theorem run_neverMisused_iff (t : List (TeardownEvent × Teardown))
    (hsteps : Run TeardownStep Teardown.start t) :
    (AlwaysQuiet t → NeverMisused t) ∧ (¬ AlwaysQuiet t → CanMisuse t)
      ∧ ((∀ j, ¬ ((last Teardown.start t).callbacks j).InFlight) →
          (NeverMisused t ↔ AlwaysQuiet t)) := by
  have henough : AlwaysQuiet t → NeverMisused t :=
    fun hquiet => (Teardown.start_settled_of_quiet hsteps hquiet).2
  refine ⟨henough, fun hquiet => ?_, fun hdone => ⟨fun hnever => ?_, henough⟩⟩
  · -- either a misuse has happened already, or a late callback is about to
    by_cases hnever : NeverMisused t
    · exact Teardown.Late.canMisuse hsteps (Teardown.start_late hsteps hnever hquiet)
    · exact ⟨[], by rwa [List.append_nil], by rwa [List.append_nil]⟩
  · by_contra hquiet
    obtain ⟨-, j, hj⟩ := Teardown.start_late hsteps hnever hquiet
    exact hdone j hj

theorem run_neverMisused_iff_oneCallback :
    ∃ t : List (TeardownEvent × Teardown), Run TeardownStep Teardown.start t
      ∧ labels t = [.fire 0, .lock 0, .fopen 0, .write 0, .unlock 0, .mutexDestroy, .timerDelete]
      ∧ (AlwaysQuiet t → NeverMisused t) ∧ (¬ AlwaysQuiet t → CanMisuse t)
      ∧ ((∀ j, ¬ ((last Teardown.start t).callbacks j).InFlight) →
          (NeverMisused t ↔ AlwaysQuiet t)) := by
  have h₁ : Run TeardownStep Teardown.start _ := Run.nil.snoc (.fire (j := 0) trivial rfl)
  have h₂ := h₁.snoc (.lock (j := 0) rfl fun _ => rfl)
  have h₃ := h₂.snoc (.fopen (j := 0) rfl)
  have h₄ := h₃.snoc (.write (j := 0) rfl)
  have h₅ := h₄.snoc (.unlock (j := 0) rfl)
  have h₆ := h₅.snoc (.mutexDestroy rfl)
  have h₇ := h₆.snoc (.timerDelete rfl)
  exact ⟨_, h₇, rfl, run_neverMisused_iff _ h₇⟩

/-- A callback that starts late finds the mutex destroyed and the name freed. -/
theorem not_neverMisused_lateCallback :
    ∃ t : List (TeardownEvent × Teardown), Run TeardownStep Teardown.start t
      ∧ labels t = [.fire 0, .mutexDestroy, .timerDelete, .freeFilename, .lock 0]
      ∧ ¬ NeverMisused t := by
  have h₁ : Run TeardownStep Teardown.start _ := Run.nil.snoc (.fire (j := 0) trivial rfl)
  have h₂ := h₁.snoc (.mutexDestroy rfl)
  have h₃ := h₂.snoc (.timerDelete rfl)
  have h₄ := h₃.snoc (.freeFilename rfl)
  have h₅ := h₄.snoc (.lock (j := 0) rfl fun hvalid => absurd hvalid id)
  refine ⟨_, h₅, rfl, fun hnever => ?_⟩
  exact (forall_stepAt_concat.mp hnever).2 (Or.inl id)

end Aesd
