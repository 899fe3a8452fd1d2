import Mathlib.Logic.Function.Basic
import Mathlib.Tactic

set_option autoImplicit false

/-! # Labelled runs and mutual exclusion

A run of a labelled step relation is the list of its steps, each with its label and the state it
leads to (`Run`). Properties of runs come from invariants that may also talk about the labels so far
(`Run.invariant`), and what is said about every step of a run is said about every prefix
(`Run.of_append`, `Run.step_of`). `Leads` forgets the states in between. A measure bounds the number
of steps (`Run.countP_le`) or leads to a goal (`exists_run_to`). A relation that answers the steps
of another one answers its runs (`Run.simulate`). The steps of a run are named with what lies behind
them (`StepAt`), and `Always` says of a property that it holds in every state of a run.

`Exclusive` is the discipline of a lock: an agent is in its critical section exactly if it
holds the lock. Acquiring, releasing and steps elsewhere keep it. -/

namespace Lts

variable {σ ι : Type*}

/-! ## Runs -/

/-- The state a list of steps from `s` ends in. -/
def last (s : σ) (t : List (ι × σ)) : σ := (t.getLast?.map Prod.snd).getD s

/-- The labels of a list of steps. -/
def labels (t : List (ι × σ)) : List ι := t.map Prod.fst

@[simp] theorem last_nil (s : σ) : last s ([] : List (ι × σ)) = s := rfl

@[simp] theorem last_concat (s : σ) (t : List (ι × σ)) (l : ι) (s' : σ) :
    last s (t ++ [(l, s')]) = s' := by
  simp [last]

@[simp] theorem labels_nil : labels ([] : List (ι × σ)) = [] := rfl

@[simp] theorem labels_append (t₁ t₂ : List (ι × σ)) :
    labels (t₁ ++ t₂) = labels t₁ ++ labels t₂ :=
  List.map_append ..

theorem labels_concat (t : List (ι × σ)) (l : ι) (s' : σ) :
    labels (t ++ [(l, s')]) = labels t ++ [l] :=
  labels_append ..

/-- The runs from `s`, the newest step last. -/
inductive Run (step : σ → ι → σ → Prop) (s : σ) : List (ι × σ) → Prop
  | nil : Run step s []
  | snoc {t : List (ι × σ)} {l : ι} {s' : σ} :
      Run step s t → step (last s t) l s' → Run step s (t ++ [(l, s')])

/-- A label comes from a step. -/
theorem exists_step_of_mem_labels {t : List (ι × σ)} {l : ι} (hl : l ∈ labels t) :
    ∃ t₁ s' t₂, t = t₁ ++ (l, s') :: t₂ := by
  obtain ⟨⟨l', s'⟩, hmem, rfl⟩ := List.mem_map.mp hl
  obtain ⟨t₁, t₂, rfl⟩ := List.append_of_mem hmem
  exact ⟨t₁, s', t₂, rfl⟩

/-- Labels in front of one of them belong to the steps in front of its step. -/
theorem exists_step_of_labels_eq {t : List (ι × σ)} {l : ι} {ls₁ ls₂ : List ι}
    (h : labels t = ls₁ ++ l :: ls₂) :
    ∃ t₁ s' t₂, t = t₁ ++ (l, s') :: t₂ ∧ labels t₁ = ls₁ ∧ labels t₂ = ls₂ := by
  obtain ⟨t₁, t', rfl, rfl, ht'⟩ := List.map_eq_append_iff.mp h
  obtain ⟨⟨l', s'⟩, t₂, rfl, rfl, rfl⟩ := List.map_eq_cons_iff.mp ht'
  exact ⟨t₁, s', t₂, rfl, rfl, rfl⟩

variable {step : σ → ι → σ → Prop} {s s' : σ}

/-- **The invariant rule.** What holds initially and is kept by every step holds after every
run, also if it talks about the labels of the run. -/
theorem Run.invariant (Inv : List ι → σ → Prop) (hinit : Inv [] s)
    (hstep : ∀ ls s₁ l s₂, Inv ls s₁ → step s₁ l s₂ → Inv (ls ++ [l]) s₂) {t : List (ι × σ)}
    (hrun : Run step s t) : Inv (labels t) (last s t) := by
  induction hrun with
  | nil => exact hinit
  | snoc _ hnext ih =>
      rw [labels_concat, last_concat]
      exact hstep _ _ _ _ ih hnext

/-- A run of some steps is a run of others that include them. -/
theorem Run.mono {step' : σ → ι → σ → Prop} (h : ∀ s₁ l s₂, step s₁ l s₂ → step' s₁ l s₂)
    {t : List (ι × σ)} (hrun : Run step s t) : Run step' s t := by
  induction hrun with
  | nil => exact Run.nil
  | snoc _ hnext ih => exact ih.snoc (h _ _ _ hnext)

/-- An initial part of a run is a run. -/
theorem Run.of_append {t₁ t₂ : List (ι × σ)} (hrun : Run step s (t₁ ++ t₂)) : Run step s t₁ := by
  induction t₂ using List.reverseRecOn with
  | nil => rwa [List.append_nil] at hrun
  | append_singleton t₂ x ih =>
      rw [← List.append_assoc] at hrun
      generalize hr : t₁ ++ t₂ ++ [x] = r at hrun
      cases hrun with
      | nil => exact absurd hr (by simp)
      | snoc hrun' _ =>
          obtain ⟨heq, -⟩ := List.append_inj' hr rfl
          exact ih (heq ▸ hrun')

/-- The state two lists of steps end in, one after the other. -/
theorem last_append (s : σ) (t₁ t₂ : List (ι × σ)) :
    last s (t₁ ++ t₂) = last (last s t₁) t₂ := by
  rcases List.eq_nil_or_concat t₂ with rfl | ⟨t₂, ⟨l, s'⟩, rfl⟩
  · rw [List.append_nil, last_nil]
  · rw [List.concat_eq_append, ← List.append_assoc, last_concat, last_concat]

/-- A run goes on where another one has ended. -/
theorem Run.append {t₁ t₂ : List (ι × σ)} (h₁ : Run step s t₁) (h₂ : Run step (last s t₁) t₂) :
    Run step s (t₁ ++ t₂) := by
  induction h₂ with
  | nil => rwa [List.append_nil]
  | snoc _ hnext ih =>
      rw [← List.append_assoc]
      apply ih.snoc
      rw [last_append]
      exact hnext

/-- Every step of a run is a step from the state before it. -/
theorem Run.step_of {t₁ t₂ : List (ι × σ)} {l : ι} (hrun : Run step s (t₁ ++ (l, s') :: t₂)) :
    step (last s t₁) l s' := by
  have hrun' : Run step s (t₁ ++ [(l, s')]) := by
    rw [List.append_cons] at hrun
    exact hrun.of_append
  generalize hr : t₁ ++ [(l, s')] = r at hrun'
  cases hrun' with
  | nil => exact absurd hr (by simp)
  | snoc _ hnext =>
      obtain ⟨rfl, hx⟩ := List.append_inj' hr rfl
      obtain ⟨rfl, rfl⟩ := Prod.mk.inj (List.singleton_inj.mp hx)
      exact hnext

/-- The first step of a run, and the run that follows it. -/
theorem Run.of_cons {l : ι} {t : List (ι × σ)} (hrun : Run step s ((l, s') :: t)) :
    step s l s' ∧ Run step s' t := by
  induction t using List.reverseRecOn with
  | nil => exact ⟨@Run.step_of _ _ _ _ _ [] _ _ hrun, Run.nil⟩
  | append_singleton t x ih =>
      obtain ⟨l', s''⟩ := x
      rw [← List.cons_append] at hrun
      obtain ⟨hstep, hrest⟩ := ih hrun.of_append
      refine ⟨hstep, hrest.snoc ?_⟩
      have hnext := @Run.step_of _ _ _ _ _ _ [] _ hrun
      have hlast : last s ((l, s') :: t) = last s' t := last_append s [(l, s')] t
      rwa [hlast] at hnext

/-- A run goes on from the state behind each of its steps. -/
theorem Run.behind {l : ι} {t₁ t₂ : List (ι × σ)} (hrun : Run step s (t₁ ++ (l, s') :: t₂)) :
    Run step s' t₂ := by
  induction t₁ generalizing s with
  | nil => exact hrun.of_cons.2
  | cons x t₁ ih => exact ih hrun.of_cons.2

/-- Some run with these labels leads from `s` to `s'`. -/
def Leads (step : σ → ι → σ → Prop) (s : σ) (ls : List ι) (s' : σ) : Prop :=
  ∃ t, Run step s t ∧ labels t = ls ∧ last s t = s'

theorem Leads.nil (step : σ → ι → σ → Prop) (s : σ) : Leads step s [] s := ⟨[], Run.nil, rfl, rfl⟩

theorem Leads.snoc {ls : List ι} {l : ι} {s'' : σ} (h : Leads step s ls s')
    (hstep : step s' l s'') : Leads step s (ls ++ [l]) s'' := by
  obtain ⟨t, hrun, rfl, rfl⟩ := h
  exact ⟨t ++ [(l, s'')], hrun.snoc hstep, labels_concat .., last_concat ..⟩

/-- One step, and then the rest. -/
theorem Leads.cases {ls : List ι} (h : Leads step s ls s') :
    (ls = [] ∧ s' = s) ∨ ∃ l ls' mid, ls = l :: ls' ∧ step s l mid ∧ Leads step mid ls' s' := by
  obtain ⟨t, hrun, rfl, rfl⟩ := h
  cases t with
  | nil => exact Or.inl ⟨rfl, rfl⟩
  | cons x t =>
      obtain ⟨l, mid⟩ := x
      obtain ⟨hstep, hrest⟩ := hrun.of_cons
      exact Or.inr ⟨l, labels t, mid, rfl, hstep, t, hrest, rfl, (last_append s [(l, mid)] t).symm⟩

/-! ## Termination and progress -/

/-- **The counting rule.** If no step increases a measure and every step with some label decreases
it, a run has at most as many such steps as the measure has gone down. -/
theorem Run.countP_le (f : σ → Nat) (p : ι → Bool)
    (hstep : ∀ s₁ l s₂, step s₁ l s₂ → f s₂ + (if p l = true then 1 else 0) ≤ f s₁)
    {t : List (ι × σ)} (hrun : Run step s t) : f (last s t) + (labels t).countP p ≤ f s := by
  induction hrun with
  | nil => exact Nat.le_refl _
  | @snoc t l s' _ hnext ih =>
      have hone := hstep _ _ _ hnext
      rw [labels_concat, last_concat, List.countP_append, List.countP_singleton]
      omega

variable (step) in
/-- **The progress rule.** If every state in which the goal is not reached has a run that keeps an
invariant and decreases a measure, the goal can be reached. -/
theorem exists_run_to (Inv : List ι → σ → Prop) (Goal : σ → Prop) (f : σ → Nat)
    (hprogress : ∀ ls s, Inv ls s → ¬ Goal s →
      ∃ t, Run step s t ∧ Inv (ls ++ labels t) (last s t) ∧ f (last s t) < f s)
    (ls : List ι) (hs : Inv ls s) :
    ∃ t, Run step s t ∧ Inv (ls ++ labels t) (last s t) ∧ Goal (last s t) := by
  induction hn : f s using Nat.strong_induction_on generalizing ls s with
  | _ n ih =>
      by_cases hgoal : Goal s
      · exact ⟨[], Run.nil, by rwa [labels_nil, List.append_nil], hgoal⟩
      · obtain ⟨t₁, hrun₁, hinv₁, hless⟩ := hprogress ls s hs hgoal
        obtain ⟨t₂, hrun₂, hinv₂, hgoal₂⟩ := ih (f (last s t₁)) (hn ▸ hless) _ hinv₁ rfl
        refine ⟨t₁ ++ t₂, hrun₁.append hrun₂, ?_, ?_⟩
        · rwa [labels_append, last_append, ← List.append_assoc]
        · rwa [last_append]

/-! ## Simulation -/

/-- **The simulation rule.** If every step is answered by some steps of another relation, so that
the states stay related, every run is answered by a run. `view l l'` says that `l'` may be among the
labels of the answer to `l`. -/
theorem Run.simulate {τ κ : Type*} {step' : τ → κ → τ → Prop} (R : σ → τ → Prop)
    (view : ι → κ → Prop)
    (hstep : ∀ s₁ l s₂ r₁, R s₁ r₁ → step s₁ l s₂ →
      ∃ t', Run step' r₁ t' ∧ R s₂ (last r₁ t') ∧ ∀ l' ∈ labels t', view l l')
    {r : τ} (hinit : R s r) {t : List (ι × σ)} (hrun : Run step s t) :
    ∃ t', Run step' r t' ∧ R (last s t) (last r t')
      ∧ ∀ l' ∈ labels t', ∃ l ∈ labels t, view l l' := by
  induction hrun with
  | nil => exact ⟨[], Run.nil, hinit, by simp⟩
  | snoc hrun hnext ih =>
      rename_i t l s₂
      obtain ⟨t₁, hrun₁, hrel₁, hview₁⟩ := ih
      obtain ⟨t₂, hrun₂, hrel₂, hview₂⟩ := hstep _ _ _ _ hrel₁ hnext
      refine ⟨t₁ ++ t₂, hrun₁.append hrun₂, ?_, fun l' hl' => ?_⟩
      · rw [last_concat, last_append]
        exact hrel₂
      · rw [labels_concat]
        rw [labels_append, List.mem_append] at hl'
        rcases hl' with hl' | hl'
        · obtain ⟨l₁, hl₁, hview⟩ := hview₁ l' hl'
          exact ⟨l₁, List.mem_append_left _ hl₁, hview⟩
        · exact ⟨l, by simp, hview₂ l' hl'⟩

/-! ## The steps of a run -/

/-- The step `l` to `s'` is made behind `t₁`. -/
def StepAt (t t₁ : List (ι × σ)) (l : ι) (s' : σ) : Prop := ∃ t₂, t = t₁ ++ (l, s') :: t₂

theorem not_stepAt_nil {t₁ : List (ι × σ)} {l : ι} : ¬ StepAt [] t₁ l s' := by
  rintro ⟨t₂, h⟩
  exact absurd h.symm (by simp)

/-- The steps of a longer run are those it had, and the new one. -/
theorem stepAt_concat {t t₁ : List (ι × σ)} {x : ι × σ} {l : ι} :
    StepAt (t ++ [x]) t₁ l s' ↔ StepAt t t₁ l s' ∨ (t₁ = t ∧ x = (l, s')) := by
  constructor
  · rintro ⟨t₂, h⟩
    rcases List.eq_nil_or_concat t₂ with rfl | ⟨t₂, y, rfl⟩
    · obtain ⟨rfl, hx⟩ := List.append_inj' h rfl
      exact Or.inr ⟨rfl, List.singleton_inj.mp hx⟩
    · left
      rw [List.concat_eq_append, ← List.cons_append, ← List.append_assoc] at h
      exact ⟨t₂, (List.append_inj' h rfl).1⟩
  · rintro (⟨t₂, rfl⟩ | ⟨rfl, rfl⟩)
    · exact ⟨t₂ ++ [x], by simp⟩
    · exact ⟨[], rfl⟩

/-- What holds of all steps of a longer run. -/
theorem forall_stepAt_concat {P : List (ι × σ) → ι → σ → Prop} {t : List (ι × σ)} {l : ι} :
    (∀ t₁ l' s₁, StepAt (t ++ [(l, s')]) t₁ l' s₁ → P t₁ l' s₁)
      ↔ (∀ t₁ l' s₁, StepAt t t₁ l' s₁ → P t₁ l' s₁) ∧ P t l s' := by
  constructor
  · intro h
    exact ⟨fun t₁ l' s₁ hat => h t₁ l' s₁ (stepAt_concat.mpr (Or.inl hat)),
      h t l s' (stepAt_concat.mpr (Or.inr ⟨rfl, rfl⟩))⟩
  · rintro ⟨hold, hnew⟩ t₁ l' s₁ hat
    rcases stepAt_concat.mp hat with hat | ⟨rfl, heq⟩
    · exact hold t₁ l' s₁ hat
    · cases heq
      exact hnew

/-! ## The states of a run -/

/-- `P` holds in every state of the steps `t` from `s`, the first and the last one included. -/
def Always (P : List ι → σ → Prop) (s : σ) (t : List (ι × σ)) : Prop :=
  ∀ t₁ t₂, t = t₁ ++ t₂ → P (labels t₁) (last s t₁)

/-- In particular in the last one. -/
theorem Always.at_last {P : List ι → σ → Prop} {t : List (ι × σ)} (h : Always P s t) :
    P (labels t) (last s t) :=
  h t [] (List.append_nil t).symm

/-- What holds after every run from `s` holds throughout every run from `s`. -/
theorem Run.always {P : List ι → σ → Prop} {t : List (ι × σ)} (hrun : Run step s t)
    (h : ∀ t₁, Run step s t₁ → labels t₁ <+: labels t → P (labels t₁) (last s t₁)) :
    Always P s t := by
  rintro t₁ t₂ rfl
  apply h t₁ hrun.of_append
  rw [labels_append]
  exact List.prefix_append _ _

/-! ## Mutual exclusion -/

section Exclusion

variable {κ : Type*} {critical : κ → Prop} {holder : Option κ}

/-- The agents in their critical section are those that hold the lock. -/
def Exclusive (critical : κ → Prop) (holder : Option κ) : Prop :=
  ∀ a, critical a ↔ holder = some a

theorem Exclusive.holder_eq (h : Exclusive critical holder) {a : κ} (ha : critical a) :
    holder = some a :=
  (h a).mp ha

/-- At most one agent is in its critical section. -/
theorem Exclusive.unique (h : Exclusive critical holder) {a b : κ} (ha : critical a)
    (hb : critical b) : a = b :=
  Option.some.inj ((h.holder_eq ha).symm.trans (h.holder_eq hb))

/-- An agent that takes the free lock enters. -/
theorem Exclusive.acquire (h : Exclusive critical none) (a : κ) {critical' : κ → Prop}
    (ha : critical' a) (hother : ∀ b, b ≠ a → (critical' b ↔ critical b)) :
    Exclusive critical' (some a) := by
  intro b
  by_cases hb : b = a
  · subst hb
    exact iff_of_true ha rfl
  · rw [hother b hb, h b]
    constructor
    · intro hnone
      cases hnone
    · intro heq
      exact absurd (Option.some.inj heq).symm hb

/-- The holder that leaves frees the lock. -/
theorem Exclusive.release (h : Exclusive critical holder) {a : κ} (ha : critical a)
    {critical' : κ → Prop} (hout : ¬ critical' a)
    (hother : ∀ b, b ≠ a → (critical' b ↔ critical b)) : Exclusive critical' none := by
  intro b
  by_cases hb : b = a
  · subst hb
    exact iff_of_false hout (by simp)
  · rw [hother b hb]
    exact iff_of_false (fun hcrit => hb (h.unique hcrit ha)) (by simp)

/-- A step that moves nobody in or out. -/
theorem Exclusive.stay (h : Exclusive critical holder) {critical' : κ → Prop}
    (hsame : ∀ b, critical' b ↔ critical b) : Exclusive critical' holder :=
  fun b => (hsame b).trans (h b)

end Exclusion

end Lts
