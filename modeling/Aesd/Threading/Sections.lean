import Aesd.Threading.Threadfunc

set_option autoImplicit false

/-! # The critical sections of the threads

What is between `pthread_mutex_lock` and `pthread_mutex_unlock` in `threadfunc`, over a whole run:
the sections of the threads come one after the other, and no thread has two (`run_sections`). A wait
that is refused between the two calls makes a section that does not end, so it is the last one: no
other thread gets the mutex any more, and none that has not had it reports success (`run_mutexLost`,
`run_refused`). -/

namespace Aesd

open CInt Lts

/-! ## One section after the other -/

/-- The events that lock and unlock the mutex. -/
def ThreadfuncEvent.OnMutex : ThreadfuncEvent → Bool
  | .lock _ | .unlock _ => true
  | _ => false

/-- The section of a thread. -/
def criticalSection (i : StartedId) : List ThreadfuncEvent := [.lock i, .unlock i]

/-- The sections that have ended are those of `ended`, in this order, and the holder of the mutex is
in its first one. -/
structure Sections (es : List ThreadfuncEvent) (s : Threading) (ended : List StartedId) : Prop where
  events : es.filter ThreadfuncEvent.OnMutex
    = ended.flatMap criticalSection ++ s.mutex.toList.map .lock
  once : (ended ++ s.mutex.toList).Nodup
  past : ∀ i ∈ ended, s.phase i = .complete ∨ s.phase i = .returned

section

variable {es : List ThreadfuncEvent} {s s' : Threading} {e : ThreadfuncEvent} {i j : StartedId}
  {ended : List StartedId}

/-- A step that does not touch the mutex. -/
theorem Sections.stay (h : Sections es s ended) (hevent : e.OnMutex = false)
    (hmutex : s'.mutex = s.mutex)
    (hpast : ∀ i, s.phase i = .complete ∨ s.phase i = .returned →
      s'.phase i = .complete ∨ s'.phase i = .returned) :
    Sections (es ++ [e]) s' ended where
  events := by
    rw [List.filter_append, h.events, hmutex]
    simp [hevent]
  once := hmutex ▸ h.once
  past i hi := hpast i (h.past i hi)

/-- Who is through stays through. -/
theorem ThreadfuncStep.past (hstep : ThreadfuncStep s e s')
    (hi : s.phase i = .complete ∨ s.phase i = .returned) :
    s'.phase i = .complete ∨ s'.phase i = .returned := by
  by_cases hagent : e.agent = some i
  · have hcomplete := hi.resolve_right (hstep.not_returned hagent)
    cases hstep with
    | startFails => exact hi
    | complete =>
        obtain rfl := Option.some.inj hagent
        exact Or.inr (Threading.setPhase_phase_self ..)
    | start at_phase | enter at_phase | waitBeforeLock at_phase | waitBeforeLockFails at_phase
    | lock at_phase | lockFails at_phase | waitBeforeUnlock at_phase
    | waitBeforeUnlockFails at_phase | unlock at_phase | unlockFails at_phase =>
        obtain rfl := Option.some.inj hagent
        rw [at_phase] at hcomplete
        cases hcomplete
  · rw [(hstep.others hagent).1]
    exact hi

/-- **A step begins a section, or ends one, or neither.** -/
theorem ThreadfuncStep.sections (hstep : ThreadfuncStep s e s') (h : Sections es s ended) :
    ∃ ended', Sections (es ++ [e]) s' ended' := by
  have hpast := fun i => hstep.past (i := i)
  cases hstep with
  | lock at_lock is_free =>
      rename_i i
      -- who has had its section does not come back to the lock
      have hnew : i ∉ ended := by
        intro hi
        rcases h.past i hi with hphase | hphase <;> rw [at_lock] at hphase <;> cases hphase
      refine ⟨ended, ?_, ?_, fun j hj => hpast j (h.past j hj)⟩
      · rw [List.filter_append, h.events, is_free]
        simp [ThreadfuncEvent.OnMutex]
      · have hnodup : ended.Nodup := by simpa [is_free] using h.once
        simpa [List.nodup_append, hnodup] using fun a ha => ne_of_mem_of_not_mem ha hnew
  | unlock at_unlock held =>
      rename_i i
      refine ⟨ended ++ [i], ?_, ?_, ?_⟩
      · rw [List.filter_append, h.events, held]
        simp [ThreadfuncEvent.OnMutex, criticalSection]
      · simpa [held] using h.once
      · intro j hj
        rcases List.mem_append.mp hj with hj | hj
        · exact hpast j (h.past j hj)
        · obtain rfl := List.mem_singleton.mp hj
          exact Or.inl (Threading.setPhase_phase_self ..)
  | startFails | start | enter | waitBeforeLock | waitBeforeLockFails | lockFails
  | waitBeforeUnlock | waitBeforeUnlockFails | unlockFails | complete =>
      exact ⟨ended, h.stay rfl rfl hpast⟩

end

/-- **Mutual exclusion over a whole run**: what happens to the mutex is one section after the other,
each of another thread, and at most the last one has not ended. -/
theorem run_sections (t : List (ThreadfuncEvent × Threading))
    (hsteps : Run ThreadfuncStep Threading.start t) :
    ∃ ended, Sections (labels t) (last Threading.start t) ended :=
  hsteps.invariant (fun es s => ∃ ended, Sections es s ended)
    ⟨[], rfl, by exact List.nodup_nil, fun _ hi => (List.not_mem_nil hi).elim⟩
    fun _ _ _ _ ⟨_, h⟩ hstep => hstep.sections h

theorem run_sections_twoThreads :
    ∃ t : List (ThreadfuncEvent × Threading), Run ThreadfuncStep Threading.start t
      ∧ labels t = [.start 0, .start 1, .enter 0, .enter 1, .waitBeforeLock 1, .waitBeforeLock 0,
        .lock 0, .waitBeforeUnlock 0, .unlock 0, .lock 1]
      ∧ ∃ ended, Sections (labels t) (last Threading.start t) ended := by
  have h₁ : Run ThreadfuncStep Threading.start _ := Run.nil.snoc
    (@ThreadfuncStep.start _ 0 0 5 false _ rfl (by decide) (by decide) rfl)
  have h₂ := h₁.snoc (@ThreadfuncStep.start _ 1 0 7 false _ rfl (by decide) (by decide) rfl)
  have h₃ := h₂.snoc (.enter (i := 0) rfl)
  have h₄ := h₃.snoc (.enter (i := 1) rfl)
  have h₅ := h₄.snoc (@ThreadfuncStep.waitBeforeLock _ 1 false rfl (by decide))
  have h₆ := h₅.snoc (@ThreadfuncStep.waitBeforeLock _ 0 false rfl (by decide))
  have h₇ := h₆.snoc (.lock (i := 0) rfl rfl)
  have h₈ := h₇.snoc (@ThreadfuncStep.waitBeforeUnlock _ 0 false rfl (by decide))
  have h₉ := h₈.snoc (.unlock (i := 0) rfl rfl)
  have h₁₀ := h₉.snoc (.lock (i := 1) rfl rfl)
  exact ⟨_, h₁₀, rfl, run_sections _ h₁₀⟩

/-! ## The section that does not end -/

section

variable {s s' : Threading} {e : ThreadfuncEvent} {es : List ThreadfuncEvent} {i : StartedId}

/-- Thread `i` holds the mutex and will not unlock it. -/
def Threading.Lost (s : Threading) (i : StartedId) : Prop :=
  s.mutex = some i
    ∧ (s.phase i = .returned ∨ s.phase i = .waitBeforeUnlock
      ∧ ¬ (waitTimespec (s.data i).msToWaitBeforeUnlock).Valid)

/-- **Once lost, it stays lost**, and no step is on it. -/
theorem ThreadfuncStep.lost (hstep : ThreadfuncStep s e s') (h : s.Lost i) :
    s'.Lost i ∧ e.OnMutex = false := by
  obtain ⟨hmutex, hphase⟩ := h
  by_cases hagent : e.agent = some i
  · -- all that is left to the thread is the wait that is refused
    obtain ⟨hwait, hrefused⟩ := hphase.resolve_left (hstep.not_returned hagent)
    cases hstep with
    | startFails => cases hagent
    | waitBeforeUnlockFails =>
        obtain rfl := Option.some.inj hagent
        exact ⟨⟨hmutex, Or.inl (Threading.setPhase_phase_self ..)⟩, rfl⟩
    | waitBeforeUnlock at_wait waited =>
        obtain rfl := Option.some.inj hagent
        exact absurd (waitMs_eq_true_iff.mp waited).1 hrefused
    | start at_phase | enter at_phase | waitBeforeLock at_phase | waitBeforeLockFails at_phase
    | lock at_phase | lockFails at_phase | unlock at_phase | unlockFails at_phase
    | complete at_phase =>
        obtain rfl := Option.some.inj hagent
        rw [hwait] at at_phase
        cases at_phase
  · -- and no other thread can lock the mutex, or unlock it for this one
    obtain ⟨hp, hd⟩ := hstep.others hagent
    have hkept : s'.mutex = some i → s'.Lost i := fun hm => ⟨hm, by rw [hp, hd]; exact hphase⟩
    cases hstep with
    | lock at_lock is_free =>
        rw [hmutex] at is_free
        cases is_free
    | unlock at_unlock held =>
        rw [hmutex] at held
        exact absurd held.symm hagent
    | startFails | start | enter | waitBeforeLock | waitBeforeLockFails | lockFails
    | waitBeforeUnlock | waitBeforeUnlockFails | unlockFails | complete => exact ⟨hkept hmutex, rfl⟩

/-- No step of a run is on a mutex that is lost at its beginning. -/
theorem Threading.Lost.run {t : List (ThreadfuncEvent × Threading)} (h : s.Lost i)
    (hsteps : Run ThreadfuncStep s t) :
    (last s t).Lost i ∧ ∀ e ∈ labels t, e.OnMutex = false :=
  hsteps.invariant (fun es s => s.Lost i ∧ ∀ e ∈ es, e.OnMutex = false)
    ⟨h, fun _ he => (List.not_mem_nil he).elim⟩
    fun es _ e _ ⟨hlost, hes⟩ hstep => by
      obtain ⟨hlost', he⟩ := hstep.lost hlost
      refine ⟨hlost', fun e' he' => ?_⟩
      rcases List.mem_append.mp he' with he' | he'
      · exact hes e' he'
      · exact List.mem_singleton.mp he' ▸ he

/-- No step on the mutex comes behind one with which it is lost. -/
theorem run_lost {t₁ t₂ : List (ThreadfuncEvent × Threading)}
    (hsteps : Run ThreadfuncStep Threading.start (t₁ ++ (e, s') :: t₂)) (hlost : s'.Lost i) :
    (last Threading.start (t₁ ++ (e, s') :: t₂)).mutex = some i
      ∧ ∀ j, .lock j ∉ labels t₂ ∧ .unlock j ∉ labels t₂ := by
  obtain ⟨⟨hmutex, -⟩, hevents⟩ := hlost.run hsteps.behind
  constructor
  · rw [List.append_cons, last_append, last_concat]
    exact hmutex
  · intro j
    exact ⟨fun hmem => by simpa [ThreadfuncEvent.OnMutex] using hevents _ hmem,
      fun hmem => by simpa [ThreadfuncEvent.OnMutex] using hevents _ hmem⟩

end

/-- **The mutex is lost** with the first wait that fails between the two calls: in every run, no
thread locks or unlocks it any more, and success is reported only of threads that have had it
before. -/
theorem run_mutexLost {t₁ t₂ : List (ThreadfuncEvent × Threading)} {s' : Threading} {i : StartedId}
    (hsteps : Run ThreadfuncStep Threading.start (t₁ ++ (.waitBeforeUnlockFails i, s') :: t₂)) :
    (last Threading.start (t₁ ++ (.waitBeforeUnlockFails i, s') :: t₂)).mutex = some i
      ∧ (∀ j, .lock j ∉ labels t₂ ∧ .unlock j ∉ labels t₂)
      ∧ ∀ j, ((last Threading.start (t₁ ++ (.waitBeforeUnlockFails i, s') :: t₂)).phase j).Entered →
          ((last Threading.start (t₁ ++ (.waitBeforeUnlockFails i, s') :: t₂)).data
            j).threadCompleteSuccess = true →
          .unlock j ∈ labels t₁ := by
  have hlost : s'.Lost i := by
    have hinv := run_threadingInv (t := t₁ ++ [(.waitBeforeUnlockFails i, s')]) (by
      rw [List.append_cons] at hsteps
      exact hsteps.of_append)
    rw [labels_concat, last_concat] at hinv
    have hfailed : .waitBeforeUnlockFails i ∈ labels t₁ ++ [.waitBeforeUnlockFails i] :=
      List.mem_append_right _ List.mem_cons_self
    have hreturned := hinv.failed i hfailed
    exact ⟨(hinv.exclusive i).mp (Or.inr ⟨hreturned, hfailed⟩), Or.inl hreturned⟩
  obtain ⟨hmutex, hevents⟩ := run_lost hsteps hlost
  refine ⟨hmutex, hevents, fun j hentered htrue => ?_⟩
  have hunlock := ((run_threadingInv hsteps).success j hentered htrue).2.2
  rw [labels_append] at hunlock
  refine (List.mem_append.mp hunlock).resolve_right fun hmem => ?_
  exact (hevents j).2 ((List.mem_cons.mp hmem).resolve_left (by simp))

theorem run_mutexLost_second :
    ∃ (t₁ t₂ : List (ThreadfuncEvent × Threading)) (s' : Threading),
      Run ThreadfuncStep Threading.start (t₁ ++ (.waitBeforeUnlockFails 0, s') :: t₂)
        ∧ labels t₂ = [.start 1, .enter 1, .waitBeforeLock 1]
        ∧ (last Threading.start (t₁ ++ (.waitBeforeUnlockFails 0, s') :: t₂)).mutex = some 0 := by
  have h₁ : Run ThreadfuncStep Threading.start _ := Run.nil.snoc
    (@ThreadfuncStep.start _ 0 0 1000 false _ rfl (by decide) (by decide) rfl)
  have h₂ := h₁.snoc (.enter (i := 0) rfl)
  have h₃ := h₂.snoc (@ThreadfuncStep.waitBeforeLock _ 0 false rfl (by decide))
  have h₄ := h₃.snoc (.lock (i := 0) rfl rfl)
  have h₅ := h₄.snoc (@ThreadfuncStep.waitBeforeUnlockFails _ 0 false rfl (by decide))
  have h₆ := h₅.snoc (@ThreadfuncStep.start _ 1 0 5 false _ rfl (by decide) (by decide) rfl)
  have h₇ := h₆.snoc (.enter (i := 1) rfl)
  have h₈ := h₇.snoc (@ThreadfuncStep.waitBeforeLock _ 1 false rfl (by decide))
  exact ⟨[_, _, _, _], [_, _, _], _, h₈, rfl, (@run_mutexLost [_, _, _, _] [_, _, _] _ 0 h₈).1⟩

/-- **A thread that is refused its wait takes the mutex for good**: when a thread with a release
time that `clock_nanosleep` does not take has locked the mutex, nobody locks or unlocks it any more.
-/
theorem run_refused {t₁ t₂ : List (ThreadfuncEvent × Threading)} {s' : Threading} {i : StartedId}
    (hsteps : Run ThreadfuncStep Threading.start (t₁ ++ (.lock i, s') :: t₂))
    (hrefused : ¬ (waitTimespec (s'.data i).msToWaitBeforeUnlock).Valid) :
    (last Threading.start (t₁ ++ (.lock i, s') :: t₂)).mutex = some i
      ∧ ∀ j, .lock j ∉ labels t₂ ∧ .unlock j ∉ labels t₂ := by
  refine run_lost hsteps ?_
  generalize last Threading.start t₁ = s at hsteps
  cases hsteps.step_of with
  | lock at_lock is_free =>
      exact ⟨rfl, Or.inr ⟨Threading.setPhase_phase_self .., hrefused⟩⟩

theorem run_refused_second :
    ∃ (t₁ t₂ : List (ThreadfuncEvent × Threading)) (s' : Threading),
      Run ThreadfuncStep Threading.start (t₁ ++ (.lock 0, s') :: t₂)
        ∧ (s'.data 0).msToWaitBeforeUnlock = 1000
        ∧ labels t₂ = [.start 1, .enter 1, .waitBeforeLock 1]
        ∧ (last Threading.start (t₁ ++ (.lock 0, s') :: t₂)).mutex = some 0 := by
  have h₁ : Run ThreadfuncStep Threading.start _ := Run.nil.snoc
    (@ThreadfuncStep.start _ 0 0 1000 false _ rfl (by decide) (by decide) rfl)
  have h₂ := h₁.snoc (.enter (i := 0) rfl)
  have h₃ := h₂.snoc (@ThreadfuncStep.waitBeforeLock _ 0 false rfl (by decide))
  have h₄ := h₃.snoc (.lock (i := 0) rfl rfl)
  have h₅ := h₄.snoc (@ThreadfuncStep.start _ 1 0 5 false _ rfl (by decide) (by decide) rfl)
  have h₆ := h₅.snoc (.enter (i := 1) rfl)
  have h₇ := h₆.snoc (@ThreadfuncStep.waitBeforeLock _ 1 false rfl (by decide))
  exact ⟨[_, _, _], [_, _, _], _, h₇, rfl, rfl,
    (@run_refused [_, _, _] [_, _, _] _ 0 h₇ (by decide)).1⟩

end Aesd
