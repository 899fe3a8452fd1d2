import Aesd.Basic.Lts
import Aesd.Threading.WaitMs

set_option autoImplicit false

/-! # The threads that obtain the mutex

`threadfunc` of `threading.c`, for any number of threads started with
`start_thread_obtaining_mutex` on one mutex, as a step relation. A thread waits, locks, waits again
and unlocks; if one of these fails it returns at once. When the wait between lock and unlock fails
it returns with the mutex held, and nobody can unlock it any more: the mutex is given back by every
thread that returns exactly in the runs in which no such wait fails (`run_mutexGivenBack_iff`). -/

namespace Aesd

open CInt Lts

/-! ## Steps -/

/-- A thread that is or will be started. -/
abbrev StartedId := Nat

/-- Where a thread is in `threadfunc`. -/
inductive ThreadfuncPhase
  /-- It has not been started. -/
  | unborn
  /-- `pthread_create` has started it, and it has not done anything. -/
  | created
  | waitBeforeLock
  | lock
  /-- It has locked the mutex. -/
  | waitBeforeUnlock
  | unlock
  /-- It has unlocked the mutex. -/
  | complete
  | returned

/-- The state: who has locked the mutex, where the threads are, and their data. -/
structure Threading where
  mutex : Option StartedId
  phase : StartedId → ThreadfuncPhase
  data : StartedId → ThreadData

/-- No thread has been started. -/
def Threading.start : Threading := ⟨none, fun _ => .unborn, fun _ => ⟨0, 0, false⟩⟩

/-- Thread `i` goes on at `phase`. -/
def Threading.setPhase (s : Threading) (i : StartedId) (phase : ThreadfuncPhase) : Threading :=
  { s with phase := Function.update s.phase i phase }

/-- Thread `i` stores `thread_complete_success` and goes on at `phase`. -/
def Threading.setSuccess (s : Threading) (i : StartedId) (success : Bool)
    (phase : ThreadfuncPhase) : Threading :=
  { s.setPhase i phase with
    data := Function.update s.data i { s.data i with threadCompleteSuccess := success } }

/-- What happens. -/
inductive ThreadfuncEvent
  | start (i : StartedId)
  | startFails
  | enter (i : StartedId)
  | waitBeforeLock (i : StartedId)
  | waitBeforeLockFails (i : StartedId)
  | lock (i : StartedId)
  | lockFails (i : StartedId)
  | waitBeforeUnlock (i : StartedId)
  | waitBeforeUnlockFails (i : StartedId)
  | unlock (i : StartedId)
  | unlockFails (i : StartedId)
  | complete (i : StartedId)

/-- The steps of the threads, and of whoever starts them. -/
inductive ThreadfuncStep : Threading → ThreadfuncEvent → Threading → Prop
  | start {s : Threading} {i : StartedId} {obtain release : Int} {junk : Bool} {data : ThreadData}
      (not_started : s.phase i = .unborn) (obtain_nonneg : 0 ≤ obtain ∧ obtain ≤ INT_MAX)
      (release_nonneg : 0 ≤ release ∧ release ≤ INT_MAX)
      (started : startThreadObtainingMutex obtain release true true junk = (true, some data)) :
      ThreadfuncStep s (.start i)
        { s.setPhase i .created with data := Function.update s.data i data }
  /-- `malloc` or `pthread_create` fails. -/
  | startFails {s : Threading} : ThreadfuncStep s .startFails s
  /-- The first statement of `threadfunc`. -/
  | enter {s : Threading} {i : StartedId} (at_created : s.phase i = .created) :
      ThreadfuncStep s (.enter i) (s.setSuccess i false .waitBeforeLock)
  | waitBeforeLock {s : Threading} {i : StartedId} {interrupted : Bool}
      (at_wait : s.phase i = .waitBeforeLock)
      (waited : waitMs (s.data i).msToWaitBeforeLock interrupted = true) :
      ThreadfuncStep s (.waitBeforeLock i) (s.setPhase i .lock)
  | waitBeforeLockFails {s : Threading} {i : StartedId} {interrupted : Bool}
      (at_wait : s.phase i = .waitBeforeLock)
      (failed : waitMs (s.data i).msToWaitBeforeLock interrupted = false) :
      ThreadfuncStep s (.waitBeforeLockFails i) (s.setPhase i .returned)
  /-- `pthread_mutex_lock` waits until the mutex is free. -/
  | lock {s : Threading} {i : StartedId} (at_lock : s.phase i = .lock) (is_free : s.mutex = none) :
      ThreadfuncStep s (.lock i) { s.setPhase i .waitBeforeUnlock with mutex := some i }
  | lockFails {s : Threading} {i : StartedId} (at_lock : s.phase i = .lock) :
      ThreadfuncStep s (.lockFails i) (s.setPhase i .returned)
  | waitBeforeUnlock {s : Threading} {i : StartedId} {interrupted : Bool}
      (at_wait : s.phase i = .waitBeforeUnlock)
      (waited : waitMs (s.data i).msToWaitBeforeUnlock interrupted = true) :
      ThreadfuncStep s (.waitBeforeUnlock i) (s.setPhase i .unlock)
  /-- The thread returns without `pthread_mutex_unlock`. -/
  | waitBeforeUnlockFails {s : Threading} {i : StartedId} {interrupted : Bool}
      (at_wait : s.phase i = .waitBeforeUnlock)
      (failed : waitMs (s.data i).msToWaitBeforeUnlock interrupted = false) :
      ThreadfuncStep s (.waitBeforeUnlockFails i) (s.setPhase i .returned)
  | unlock {s : Threading} {i : StartedId} (at_unlock : s.phase i = .unlock)
      (held : s.mutex = some i) :
      ThreadfuncStep s (.unlock i) { s.setPhase i .complete with mutex := none }
  /-- `pthread_mutex_unlock` fails for a thread that does not hold the mutex (`EPERM`). -/
  | unlockFails {s : Threading} {i : StartedId} (at_unlock : s.phase i = .unlock)
      (not_held : s.mutex ≠ some i) :
      ThreadfuncStep s (.unlockFails i) (s.setPhase i .returned)
  /-- The last statement before the return. -/
  | complete {s : Threading} {i : StartedId} (at_complete : s.phase i = .complete) :
      ThreadfuncStep s (.complete i) (s.setSuccess i true .returned)

/-! ## What is wanted -/

/-- The phases from the first statement of `threadfunc` on. -/
def ThreadfuncPhase.Entered : ThreadfuncPhase → Prop
  | unborn | created => False
  | waitBeforeLock | lock | waitBeforeUnlock | unlock | complete | returned => True

/-- **No thread that has returned keeps the mutex**, so it is free when all have returned; and
`thread_complete_success`, which a thread clears in its first statement, says that it has locked
and unlocked the mutex. -/
structure MutexGivenBack (es : List ThreadfuncEvent) (s : Threading) : Prop where
  not_kept : ∀ i, s.phase i = .returned → s.mutex ≠ some i
  free : (∀ i, s.phase i = .unborn ∨ s.phase i = .returned) → s.mutex = none
  complete : ∀ i, (s.phase i).Entered → (s.data i).threadCompleteSuccess = true →
    .lock i ∈ es ∧ .unlock i ∈ es

/-! ## The invariant -/

/-- The phases between `pthread_mutex_lock` and `pthread_mutex_unlock`. -/
def ThreadfuncPhase.Critical : ThreadfuncPhase → Prop
  | waitBeforeUnlock | unlock => True
  | unborn | created | waitBeforeLock | lock | complete | returned => False

/-- Thread `i` has locked the mutex and not unlocked it: it is between the two calls, or it has
returned from there. -/
def Threading.Keeps (es : List ThreadfuncEvent) (s : Threading) (i : StartedId) : Prop :=
  (s.phase i).Critical ∨ (s.phase i = .returned ∧ .waitBeforeUnlockFails i ∈ es)

/-- **The invariant**: the mutex is held exactly by a thread that keeps it, a wait with the mutex
held has failed only for threads that have returned, and what a thread has done is where it is. -/
structure ThreadingInv (es : List ThreadfuncEvent) (s : Threading) : Prop where
  exclusive : Exclusive (s.Keeps es) s.mutex
  failed : ∀ i, .waitBeforeUnlockFails i ∈ es → s.phase i = .returned
  locked : ∀ i, (s.phase i).Critical ∨ s.phase i = .complete → .lock i ∈ es
  unlocked : ∀ i, s.phase i = .complete → .unlock i ∈ es
  success : ∀ i, (s.phase i).Entered → (s.data i).threadCompleteSuccess = true →
    s.phase i = .returned ∧ .lock i ∈ es ∧ .unlock i ∈ es

section

variable {es : List ThreadfuncEvent} {s s' : Threading} {e : ThreadfuncEvent} {i j : StartedId}
  {p : ThreadfuncPhase}

@[simp] theorem Threading.setPhase_phase_self (s : Threading) (i : StartedId)
    (p : ThreadfuncPhase) : (s.setPhase i p).phase i = p :=
  Function.update_self ..

/-- The thread that makes the step, or that is started by it. -/
def ThreadfuncEvent.agent : ThreadfuncEvent → Option StartedId
  | .start i | .enter i | .waitBeforeLock i | .waitBeforeLockFails i | .lock i | .lockFails i
  | .waitBeforeUnlock i | .waitBeforeUnlockFails i | .unlock i | .unlockFails i | .complete i =>
      some i
  | .startFails => none

/-- The other threads stay where they are. -/
theorem ThreadfuncStep.others (hstep : ThreadfuncStep s e s') (hj : e.agent ≠ some j) :
    s'.phase j = s.phase j ∧ s'.data j = s.data j := by
  have hne : ∀ {i : StartedId}, some i ≠ some j → j ≠ i := by
    rintro i h rfl
    exact h rfl
  cases hstep with
  | startFails => exact ⟨rfl, rfl⟩
  | start | enter | complete =>
      exact ⟨Function.update_of_ne (hne hj) .., Function.update_of_ne (hne hj) ..⟩
  | waitBeforeLock | waitBeforeLockFails | lock | lockFails | waitBeforeUnlock
  | waitBeforeUnlockFails | unlock | unlockFails =>
      exact ⟨Function.update_of_ne (hne hj) .., rfl⟩

/-- A thread that has returned makes no step. -/
theorem ThreadfuncStep.not_returned (hstep : ThreadfuncStep s e s') (hi : e.agent = some i) :
    s.phase i ≠ .returned := by
  cases hstep with
  | startFails => cases hi
  | start | enter | waitBeforeLock | waitBeforeLockFails | lock | lockFails | waitBeforeUnlock
  | waitBeforeUnlockFails | unlock | unlockFails | complete =>
      obtain rfl := Option.some.inj hi
      rw [‹s.phase _ = _›]
      exact nofun

/-- What the event of another thread adds to the events is about that thread. -/
theorem ThreadfuncEvent.mem_concat_iff {e' : ThreadfuncEvent} (he' : e'.agent = some j)
    (hj : e.agent ≠ some j) : e' ∈ es ++ [e] ↔ e' ∈ es := by
  rw [List.mem_append, List.mem_singleton]
  refine or_iff_left ?_
  rintro rfl
  exact hj he'

/-! ## Who keeps the mutex -/

theorem Threading.keeps_iff (hp : s.phase i = p) (hne : p ≠ .returned) :
    s.Keeps es i ↔ p.Critical := by
  rw [Threading.Keeps, hp]
  exact or_iff_left fun hkept => hne hkept.1

/-- A step that is not the failing wait decides by its new phase whether a thread keeps the
mutex. -/
theorem ThreadingInv.keeps_concat_iff (h : ThreadingInv es s) (hbefore : s.phase i ≠ .returned)
    (hp : s'.phase i = p) (he : e ≠ .waitBeforeUnlockFails i) :
    s'.Keeps (es ++ [e]) i ↔ p.Critical := by
  rw [Threading.Keeps, hp]
  refine or_iff_left ?_
  rintro ⟨-, hmem⟩
  rcases List.mem_append.mp hmem with hmem | hmem
  · exact hbefore (h.failed i hmem)
  · exact he (List.mem_singleton.mp hmem).symm

/-- A step moves no other thread. -/
theorem ThreadfuncStep.keeps_ne (hstep : ThreadfuncStep s e s') (hj : e.agent ≠ some j) :
    s'.Keeps (es ++ [e]) j ↔ s.Keeps es j := by
  rw [Threading.Keeps, Threading.Keeps, (hstep.others hj).1,
    ThreadfuncEvent.mem_concat_iff rfl hj]

/-- **What a step does to the mutex**: nothing, or its thread locks it, or its thread unlocks
it. -/
theorem ThreadfuncStep.mutex_cases (hstep : ThreadfuncStep s e s') (h : ThreadingInv es s) :
    (s'.mutex = s.mutex
        ∧ ∀ i, e.agent = some i → (s'.Keeps (es ++ [e]) i ↔ s.Keeps es i))
      ∨ (∃ i, e.agent = some i ∧ s.mutex = none ∧ s'.mutex = some i ∧ s'.Keeps (es ++ [e]) i)
      ∨ (∃ i, e.agent = some i ∧ s.Keeps es i ∧ s'.mutex = none
          ∧ ¬ s'.Keeps (es ++ [e]) i) := by
  have hself : ∀ {i : StartedId} {p : ThreadfuncPhase}, (Function.update s.phase i p) i = p :=
    Function.update_self ..
  cases hstep with
  | startFails => exact Or.inl ⟨rfl, nofun⟩
  | start at_phase | enter at_phase | waitBeforeLock at_phase | waitBeforeLockFails at_phase
  | lockFails at_phase | complete at_phase =>
      -- outside the two calls before and after it
      refine Or.inl ⟨rfl, fun i hi => ?_⟩
      obtain rfl := Option.some.inj hi
      rw [h.keeps_concat_iff (by rw [at_phase]; exact nofun) hself (by exact nofun),
        Threading.keeps_iff at_phase (by exact nofun)]
      exact Iff.rfl
  | waitBeforeUnlock at_wait =>
      refine Or.inl ⟨rfl, fun i hi => ?_⟩
      obtain rfl := Option.some.inj hi
      rw [h.keeps_concat_iff (by rw [at_wait]; exact nofun) hself (by exact nofun),
        Threading.keeps_iff at_wait (by exact nofun)]
      exact Iff.rfl
  | waitBeforeUnlockFails at_wait =>
      -- it returns, and keeps the mutex
      refine Or.inl ⟨rfl, fun i hi => ?_⟩
      obtain rfl := Option.some.inj hi
      refine iff_of_true (Or.inr ⟨hself, by simp⟩) (Or.inl ?_)
      rw [at_wait]
      trivial
  | unlockFails at_unlock not_held =>
      -- a thread between the two calls holds the mutex
      refine absurd ((h.exclusive _).mp (Or.inl ?_)) not_held
      rw [at_unlock]
      trivial
  | lock at_lock is_free =>
      refine Or.inr (Or.inl ⟨_, rfl, is_free, rfl, Or.inl ?_⟩)
      show (Function.update s.phase _ _ _ : ThreadfuncPhase).Critical
      rw [hself]
      trivial
  | unlock at_unlock held =>
      refine Or.inr (Or.inr ⟨_, rfl, Or.inl ?_, rfl, ?_⟩)
      · rw [at_unlock]
        trivial
      · rw [h.keeps_concat_iff (by rw [at_unlock]; exact nofun) hself (by exact nofun)]
        exact id

theorem ThreadfuncStep.exclusive (hstep : ThreadfuncStep s e s') (h : ThreadingInv es s) :
    Exclusive (s'.Keeps (es ++ [e])) s'.mutex := by
  have hex := h.exclusive
  have hother : ∀ {i j : StartedId}, e.agent = some i → j ≠ i →
      (s'.Keeps (es ++ [e]) j ↔ s.Keeps es j) := by
    intro i j hi hne
    refine hstep.keeps_ne ?_
    rw [hi]
    exact fun heq => hne (Option.some.inj heq).symm
  rcases hstep.mutex_cases h with ⟨hmutex, hsame⟩ | ⟨i, hi, hfree, hheld, hin⟩
    | ⟨i, hi, hin, hfree, hout⟩
  · rw [hmutex]
    refine hex.stay fun j => ?_
    by_cases hj : e.agent = some j
    · exact hsame j hj
    · exact hstep.keeps_ne hj
  · rw [hheld]
    rw [hfree] at hex
    exact hex.acquire i hin fun j hne => hother hi hne
  · rw [hfree]
    exact hex.release hin hout fun j hne => hother hi hne

/-! ## What a thread has done -/

theorem ThreadfuncStep.failed (hstep : ThreadfuncStep s e s') (h : ThreadingInv es s)
    (hmem : .waitBeforeUnlockFails i ∈ es ++ [e]) : s'.phase i = .returned := by
  by_cases hi : e.agent = some i
  · rcases List.mem_append.mp hmem with hmem | hmem
    · exact absurd (h.failed i hmem) (hstep.not_returned hi)
    · obtain rfl := List.mem_singleton.mp hmem
      cases hstep
      exact Threading.setPhase_phase_self ..
  · rw [ThreadfuncEvent.mem_concat_iff rfl hi] at hmem
    rw [(hstep.others hi).1]
    exact h.failed i hmem

theorem ThreadfuncStep.locked (hstep : ThreadfuncStep s e s') (h : ThreadingInv es s)
    (hphase : (s'.phase i).Critical ∨ s'.phase i = .complete) : .lock i ∈ es ++ [e] := by
  by_cases hi : e.agent = some i
  · cases hstep with
    | startFails => cases hi
    | lock =>
        obtain rfl := Option.some.inj hi
        simp
    | waitBeforeUnlock at_wait | unlock at_wait =>
        obtain rfl := Option.some.inj hi
        refine List.mem_append_left _ (h.locked _ (Or.inl ?_))
        rw [at_wait]
        trivial
    | start | enter | waitBeforeLock | waitBeforeLockFails | lockFails | waitBeforeUnlockFails
    | unlockFails | complete =>
        obtain rfl := Option.some.inj hi
        simp [Threading.setPhase, Threading.setSuccess, ThreadfuncPhase.Critical] at hphase
  · rw [(hstep.others hi).1] at hphase
    exact List.mem_append_left _ (h.locked i hphase)

theorem ThreadfuncStep.unlocked (hstep : ThreadfuncStep s e s') (h : ThreadingInv es s)
    (hphase : s'.phase i = .complete) : .unlock i ∈ es ++ [e] := by
  by_cases hi : e.agent = some i
  · cases hstep with
    | startFails => cases hi
    | unlock =>
        obtain rfl := Option.some.inj hi
        simp
    | start | enter | waitBeforeLock | waitBeforeLockFails | lock | lockFails | waitBeforeUnlock
    | waitBeforeUnlockFails | unlockFails | complete =>
        obtain rfl := Option.some.inj hi
        simp [Threading.setPhase, Threading.setSuccess] at hphase
  · rw [(hstep.others hi).1] at hphase
    exact List.mem_append_left _ (h.unlocked i hphase)

theorem ThreadfuncStep.success (hstep : ThreadfuncStep s e s') (h : ThreadingInv es s)
    (hentered : (s'.phase i).Entered) (htrue : (s'.data i).threadCompleteSuccess = true) :
    s'.phase i = .returned ∧ .lock i ∈ es ++ [e] ∧ .unlock i ∈ es ++ [e] := by
  by_cases hi : e.agent = some i
  · have hreturned := hstep.not_returned hi
    cases hstep with
    | startFails => cases hi
    | start =>
        obtain rfl := Option.some.inj hi
        simp [Threading.setPhase, ThreadfuncPhase.Entered] at hentered
    | enter =>
        obtain rfl := Option.some.inj hi
        simp [Threading.setSuccess] at htrue
    | complete at_complete =>
        obtain rfl := Option.some.inj hi
        refine ⟨Threading.setPhase_phase_self .., ?_, ?_⟩
        · exact List.mem_append_left _ (h.locked _ (Or.inr at_complete))
        · exact List.mem_append_left _ (h.unlocked _ at_complete)
    | waitBeforeLock at_phase | waitBeforeLockFails at_phase | lock at_phase | lockFails at_phase
    | waitBeforeUnlock at_phase | waitBeforeUnlockFails at_phase | unlock at_phase
    | unlockFails at_phase =>
        -- it would have returned before this step
        obtain rfl := Option.some.inj hi
        refine absurd (h.success _ ?_ htrue).1 hreturned
        rw [at_phase]
        trivial
  · rw [(hstep.others hi).1] at hentered ⊢
    rw [(hstep.others hi).2] at htrue
    obtain ⟨hphase, hlock, hunlock⟩ := h.success i hentered htrue
    exact ⟨hphase, List.mem_append_left _ hlock, List.mem_append_left _ hunlock⟩

/-- **Every step keeps the invariant.** -/
theorem ThreadfuncStep.threadingInv (hstep : ThreadfuncStep s e s') (h : ThreadingInv es s) :
    ThreadingInv (es ++ [e]) s' where
  exclusive := hstep.exclusive h
  failed _ := hstep.failed h
  locked _ := hstep.locked h
  unlocked _ := hstep.unlocked h
  success _ := hstep.success h

theorem Threading.start_threadingInv : ThreadingInv [] Threading.start where
  exclusive i := iff_of_false (fun hkeeps => hkeeps.elim id (by exact nofun)) (by exact nofun)
  failed := by simp
  locked i hphase := absurd hphase (by simp [Threading.start, ThreadfuncPhase.Critical])
  unlocked i hphase := absurd hphase (by exact nofun)
  success i hentered := absurd hentered id

/-- The invariant holds after every run. -/
theorem run_threadingInv {t : List (ThreadfuncEvent × Threading)}
    (hsteps : Run ThreadfuncStep Threading.start t) :
    ThreadingInv (labels t) (last Threading.start t) :=
  hsteps.invariant ThreadingInv Threading.start_threadingInv fun _ _ _ _ h hstep =>
    hstep.threadingInv h

/-- Where no wait has failed with the mutex held, every thread that returns has given it back. -/
theorem ThreadingInv.mutexGivenBack (h : ThreadingInv es s)
    (hnone : ∀ i, .waitBeforeUnlockFails i ∉ es) : MutexGivenBack es s := by
  have hcritical : ∀ {i : StartedId}, s.mutex = some i → (s.phase i).Critical := by
    intro i hheld
    rcases (h.exclusive i).mpr hheld with hin | ⟨-, hmem⟩
    · exact hin
    · exact absurd hmem (hnone i)
  refine ⟨fun i hreturned hheld => ?_, fun hall => ?_, fun i hentered htrue => ?_⟩
  · have hin := hcritical hheld
    rw [hreturned] at hin
    exact hin
  · rw [Option.eq_none_iff_forall_ne_some]
    intro i hheld
    have hin := hcritical hheld
    rcases hall i with hphase | hphase <;> rw [hphase] at hin <;> exact hin
  · exact (h.success i hentered htrue).2

end

/-- **No finished thread keeps the mutex** in any state of a run, with any number of threads, any
non-negative wait times and any interleaving, if and only if no wait between lock and unlock fails
in the run. What `thread_complete_success` says is right in every run. -/
theorem run_mutexGivenBack_iff (t : List (ThreadfuncEvent × Threading))
    (hsteps : Run ThreadfuncStep Threading.start t) :
    (Always MutexGivenBack Threading.start t ↔ ∀ i, .waitBeforeUnlockFails i ∉ labels t)
      ∧ Always (fun es s => ∀ i, (s.phase i).Entered →
          (s.data i).threadCompleteSuccess = true → .lock i ∈ es ∧ .unlock i ∈ es)
        Threading.start t := by
  refine ⟨⟨fun halways i hmem => ?_, fun hnone => ?_⟩, ?_⟩
  · -- the thread has returned, and keeps the mutex to the end of the run
    have h := run_threadingInv hsteps
    have hreturned := h.failed i hmem
    exact halways.at_last.not_kept i hreturned ((h.exclusive i).mp (Or.inr ⟨hreturned, hmem⟩))
  · refine hsteps.always fun t₁ hsteps₁ hpre => ?_
    exact (run_threadingInv hsteps₁).mutexGivenBack fun i hmem => hnone i (hpre.subset hmem)
  · refine hsteps.always fun t₁ hsteps₁ _ i hentered htrue => ?_
    exact ((run_threadingInv hsteps₁).success i hentered htrue).2

theorem run_mutexGivenBack_iff_twoThreads :
    ∃ t : List (ThreadfuncEvent × Threading), Run ThreadfuncStep Threading.start t
      ∧ labels t = [.start 0, .start 1, .enter 1, .waitBeforeLock 1, .lock 1, .enter 0,
          .waitBeforeUnlock 1, .unlock 1, .complete 1]
      ∧ ((last Threading.start t).data 1).threadCompleteSuccess = true
      ∧ (Always MutexGivenBack Threading.start t ↔ ∀ i, .waitBeforeUnlockFails i ∉ labels t)
      ∧ Always (fun es s => ∀ i, (s.phase i).Entered →
          (s.data i).threadCompleteSuccess = true → .lock i ∈ es ∧ .unlock i ∈ es)
        Threading.start t := by
  have hshort : ∀ n : Int, n = 0 ∨ n = 5 → 0 ≤ n ∧ n ≤ INT_MAX := by
    rintro n (rfl | rfl) <;> decide
  have h₁ : Run ThreadfuncStep Threading.start _ := Run.nil.snoc
    (@ThreadfuncStep.start _ 0 5 0 true _ rfl (hshort 5 (by simp)) (hshort 0 (by simp)) rfl)
  have h₂ := h₁.snoc
    (@ThreadfuncStep.start _ 1 0 5 true _ rfl (hshort 0 (by simp)) (hshort 5 (by simp)) rfl)
  have h₃ := h₂.snoc (.enter (i := 1) rfl)
  have h₄ := h₃.snoc (@ThreadfuncStep.waitBeforeLock _ 1 false rfl (by decide))
  have h₅ := h₄.snoc (.lock (i := 1) rfl rfl)
  have h₆ := h₅.snoc (.enter (i := 0) rfl)
  have h₇ := h₆.snoc (@ThreadfuncStep.waitBeforeUnlock _ 1 false rfl (by decide))
  have h₈ := h₇.snoc (.unlock (i := 1) rfl rfl)
  have h₉ := h₈.snoc (.complete (i := 1) rfl)
  exact ⟨_, h₉, rfl, rfl, run_mutexGivenBack_iff _ h₉⟩

/-- A thread that is to hold the mutex for a second never gives it back. -/
theorem not_mutexGivenBack_second :
    ∃ t : List (ThreadfuncEvent × Threading), Run ThreadfuncStep Threading.start t
      ∧ labels t = [.start 0, .enter 0, .waitBeforeLock 0, .lock 0, .waitBeforeUnlockFails 0]
      ∧ (last Threading.start t).phase 0 = .returned ∧ (last Threading.start t).mutex = some 0
      ∧ ¬ Always MutexGivenBack Threading.start t := by
  have h₁ : Run ThreadfuncStep Threading.start _ := Run.nil.snoc
    (@ThreadfuncStep.start _ 0 0 1000 false _ rfl (by decide) (by decide) rfl)
  have h₂ := h₁.snoc (.enter (i := 0) rfl)
  have h₃ := h₂.snoc (@ThreadfuncStep.waitBeforeLock _ 0 false rfl (by decide))
  have h₄ := h₃.snoc (.lock (i := 0) rfl rfl)
  have h₅ := h₄.snoc (@ThreadfuncStep.waitBeforeUnlockFails _ 0 false rfl (by decide))
  exact ⟨_, h₅, rfl, rfl, rfl, fun halways => halways.at_last.not_kept 0 rfl rfl⟩

end Aesd
