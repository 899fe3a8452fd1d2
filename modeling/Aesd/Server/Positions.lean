import Aesd.Server.Order

set_option autoImplicit false

/-! # Where the files stand

A connection thread has its file open from `fopen` to `fclose`, and the file stands at its
beginning until the message is handled. What handling and sending do to the position depends on
the build; `SuccessStep.positioned` asks for that and does the rest. -/

namespace Aesd

section

variable {σ ω : Type} {b : Build σ ω} {s s' : Server σ} {e : Event ω}
  {pos : σ → ConnId → Option Nat} {atSend : σ → List UInt8 → Option Nat → Prop}

/-- Where the file of a thread may stand: `atSend` says where while it is sent. -/
def Phase.Positioned (atSend : List UInt8 → Option Nat → Prop) : Phase → Option Nat → Prop
  | .loop, p | .fopen _, p | .finished, p => p = none
  | .lock _, p | .handle _, p => p = some 0
  | .send m, p => p.isSome ∧ atSend m p
  | .unlock _, p | .fclose, p => p.isSome

/-- Every file stands where it may; `pos` reads the positions off the state behind the file
name. -/
def Server.Positioned (pos : σ → ConnId → Option Nat)
    (atSend : σ → List UInt8 → Option Nat → Prop) (s : Server σ) : Prop :=
  ∀ i, (s.threads i).phase.Positioned (atSend s.files) (pos s.files i)

/-- `fopen` and `fclose` open and close the file of one thread. -/
structure Build.Opens (b : Build σ ω) (pos : σ → ConnId → Option Nat) : Prop where
  fopen : ∀ i f, pos (b.fopen i f) = Function.update (pos f) i (some 0)
  fclose : ∀ i f, pos (b.fclose i f) = Function.update (pos f) i none

/-- The steps in which a thread works on the file. -/
def Event.Works : Event ω → Prop
  | .handle .. | .send .. | .timerWrite .. => True
  | _ => False

theorem Phase.Positioned.mono {atSend atSend' : List UInt8 → Option Nat → Prop} {phase : Phase}
    {p : Option Nat} (h : phase.Positioned atSend p) (hle : ∀ m, atSend m p → atSend' m p) :
    phase.Positioned atSend' p := by
  cases phase with
  | send m => exact ⟨h.1, hle m h.2⟩
  | _ => exact h

/-- A step that does not work on the file moves none of the others. -/
theorem Step.pos_ne (hb : b.Opens pos) (hstep : Step b s e s') (hquiet : ¬ e.Works) {j : ConnId}
    (hj : e.agent ≠ some (.connection j)) : pos s'.files j = pos s.files j := by
  have hne : ∀ {i : ConnId}, some (Holder.connection i) ≠ some (.connection j) → j ≠ i := by
    rintro i h rfl
    exact h rfl
  cases hstep with
  | fopen =>
      rw [hb.fopen]
      exact Function.update_of_ne (hne hj) ..
  | fclose =>
      rw [hb.fclose]
      exact Function.update_of_ne (hne hj) ..
  | handle | send | timerWrite => exact absurd trivial hquiet
  | receive | finish | fopenFails | lock | unlock | closeConnections | timerLock | timerUnlock =>
      rfl

/-- Nor does it move its own file to where it may not stand. -/
theorem SuccessStep.positioned_self (hb : b.Opens pos) (hstep : SuccessStep b s e s')
    (hquiet : ¬ e.Works) {i : ConnId} (hi : e.agent = some (.connection i))
    (h : (s.threads i).phase.Positioned (atSend s.files) (pos s.files i)) :
    (s'.threads i).phase.Positioned (atSend s'.files) (pos s'.files i) := by
  obtain ⟨hstep, hok⟩ := hstep
  cases hstep with
  | receive at_loop =>
      obtain rfl : _ = i := by simpa [Event.agent] using hi
      rename_i message _ _ _ _
      rw [at_loop] at h
      simp only [Function.update_self]
      cases message <;> exact h
  | finish at_loop =>
      obtain rfl : _ = i := by simpa [Event.agent] using hi
      rw [at_loop] at h
      simp only [Server.setPhase_self]
      exact h
  | fopen at_fopen =>
      obtain rfl : _ = i := by simpa [Event.agent] using hi
      simp only [Server.setPhase_self, hb.fopen]
      exact Function.update_self ..
  | fopenFails => exact absurd hok id
  | lock at_lock =>
      obtain rfl : _ = i := by simpa [Event.agent] using hi
      rw [at_lock] at h
      simp only [Server.setPhase_self]
      exact h
  | unlock at_unlock =>
      obtain rfl : _ = i := by simpa [Event.agent] using hi
      rw [at_unlock] at h
      simp only [Server.setPhase_self]
      exact h
  | fclose at_fclose =>
      obtain rfl : _ = i := by simpa [Event.agent] using hi
      simp only [Server.setPhase_self, hb.fclose]
      exact Function.update_self ..
  | handle | send | timerWrite => exact absurd trivial hquiet
  | closeConnections | timerLock | timerUnlock => cases hi

/-- **One step keeps the files where they may stand**, if the steps that work on a file do. -/
theorem SuccessStep.positioned (hb : b.Opens pos) (hstep : SuccessStep b s e s')
    (h : s.Positioned pos atSend) (hmono : ∀ m p, atSend s.files m p → atSend s'.files m p)
    (hothers : e.Works → ∀ j, e.agent ≠ some (.connection j) → pos s'.files j = pos s.files j)
    (hown : e.Works → ∀ i, e.agent = some (.connection i) →
      (s'.threads i).phase.Positioned (atSend s'.files) (pos s'.files i)) :
    s'.Positioned pos atSend := by
  intro j
  by_cases hj : e.agent = some (.connection j)
  · by_cases hworks : e.Works
    · exact hown hworks j hj
    · exact hstep.positioned_self hb hworks hj (h j)
  · have hpos : pos s'.files j = pos s.files j := by
      by_cases hworks : e.Works
      · exact hothers hworks j hj
      · exact hstep.1.pos_ne hb hworks hj
    rw [hstep.1.threads_ne hj, hpos]
    exact (h j).mono fun m => hmono m _

end

end Aesd
