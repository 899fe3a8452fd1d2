import Aesd.Basic.Copies

set_option autoImplicit false

/-! # Calls that do not overlap

What calls on copies return depends on how they overlap. As long as the calls on one cell do not
(`Apart`), the object behaves like one whose calls look at the cell and store it in their section
(`CopyingObject.whole`): every run is answered by one of that object, with the same calls and
results (`run_answered`). So every interleaving is linearizable (`run_linearizes`). -/

namespace Monitor

open Lts

namespace Copying

section

variable {ι ρ K κ : Type}

/-- **Calls on one cell do not overlap**: when one is made, those that have been made before have
returned. -/
def Apart (cell : ι → K) (es : List (Event κ ι ρ)) : Prop :=
  ∀ es₁ es₂ i op j op', es = es₁ ++ .invoke j op' :: es₂ → .invoke i op ∈ es₁ →
    cell op = cell op' → ∃ r, .ret i r ∈ es₁

variable {cell : ι → K} {es es' : List (Event κ ι ρ)} {e : Event κ ι ρ}

theorem Apart.of_append (h : Apart cell (es ++ es')) : Apart cell es := by
  rintro es₁ es₂ i op j op' rfl
  exact h es₁ (es₂ ++ es') i op j op' (List.append_assoc ..)

/-- What is said of a call when it is made. -/
theorem Apart.last (h : Apart cell (es ++ [e])) {i j : κ} {op op' : ι} (he : e = .invoke j op')
    (hi : .invoke i op ∈ es) (hcell : cell op = cell op') : ∃ r, .ret i r ∈ es :=
  h es [] i op j op' (by rw [he]) hi hcell

/-- Calls on different cells do not overlap. -/
theorem Apart.of_pairwise (h : (es.filterMap made).Pairwise fun op op' => cell op ≠ cell op') :
    Apart cell es := by
  rintro es₁ es₂ i op j op' rfl hi hcell
  rw [List.filterMap_append, List.pairwise_append] at h
  exact absurd hcell (h.2.2 op (List.mem_filterMap.mpr ⟨_, hi, rfl⟩) op' List.mem_cons_self)

/-- The events of the calls that their callers see, and where they take effect. -/
def visible (es : List (Event κ ι ρ)) : List (Event κ ι ρ) :=
  es.filter fun e => match e with
    | .invoke .. | .complete .. | .ret .. => true
    | .lock _ | .access _ => false

theorem visible_append (es es' : List (Event κ ι ρ)) :
    visible (es ++ es') = visible es ++ visible es' :=
  List.filter_append ..

theorem completed_visible (es : List (Event κ ι ρ)) : completed (visible es) = completed es := by
  unfold completed visible
  rw [List.filterMap_filter]
  apply List.filterMap_congr
  rintro (_ | _ | _ | _ | _) - <;> rfl

theorem mem_of_visible (h : visible es = visible es') (he : visible [e] = [e]) (hmem : e ∈ es) :
    e ∈ es' := by
  obtain ⟨es₁, es₂, rfl⟩ := List.append_of_mem hmem
  have hvisible : e ∈ visible es' := by
    rw [← h, List.append_cons, visible_append, visible_append, he]
    simp
  exact (List.mem_filter.mp hvisible).1

/-- What explains the calls of a run explains those of every run with the same. -/
theorem linearizes_of_visible {ε σ : Type} {o : Object ε σ ι ρ} {s s' : σ} {ds : List (Done κ ι ρ)}
    (h : Linearizes o s es ds s') (hvisible : visible es = visible es') :
    Linearizes o s es' ds s' where
  sequential := h.sequential
  nodup := h.nodup
  invoked d hd := mem_of_visible hvisible rfl (h.invoked d hd)
  returned i r hr := h.returned i r (mem_of_visible hvisible.symm rfl hr)
  order := by
    rintro es₁ es₂ i r j op rfl hj ds₁ d ds₂ hds hd
    -- the return and the call are there in the same order
    rw [List.append_cons, visible_append, visible_append, List.append_assoc] at hvisible
    obtain ⟨l₁, l₂, rfl, -, hl₂⟩ := List.filter_eq_append_iff.mp hvisible
    obtain ⟨m₁, m₂, rfl, -, -, hm₂⟩ := List.filter_eq_cons_iff.mp hl₂
    exact h.order (l₁ ++ m₁) m₂ i r j op (List.append_assoc ..).symm
      (mem_of_visible hm₂.symm rfl hj) ds₁ d ds₂ hds hd

end

/-! ## The simulation -/

section

variable {ε σ ι ρ K π κ : Type} [DecidableEq K] [DecidableEq κ] (o : CopyingObject ε σ ι ρ K π)

/-- **How a state answers another one**: the object without copies is where the object is, with the
cells as they will be when the calls under way have stored them. -/
structure Related (es : List (Event κ ι ρ)) (s : System ε σ ι ρ π κ)
    (a : Monitor.System ε σ ι ρ κ) : Prop where
  invoked : ∀ i op, (s.phase i).active = some op → .invoke i op ∈ es
  returned : ∀ i r, .ret i r ∈ es → ∃ op, s.phase i = .returned op r
  apart : ∀ i j op op', i ≠ j → (s.phase i).active = some op → (s.phase j).active = some op' →
    o.cell op ≠ o.cell op'
  copy : ∀ i op q, s.phase i = .ready op q → o.cells.get s.shared (o.cell op) = q
  localTo : ∀ i op rest, s.phase i = .inside op rest → rest.LocalTo o.cells (o.cell op)
  phase : ∀ i, a.phase i = (s.phase i).whole o
  own : ∀ i op, (s.phase i).active = some op → o.cells.get a.shared (o.cell op)
    = (s.phase i).pending.getD (o.cells.get s.shared (o.cell op))
  others : ∀ k, (∀ i op, (s.phase i).active = some op → o.cell op ≠ k) →
    o.cells.get a.shared k = o.cells.get s.shared k
  shared : a.shared = o.cells.set s.shared (o.cells.get a.shared)

variable {o} {es : List (Event κ ι ρ)} {e : Event κ ι ρ} {s s' : System ε σ ι ρ π κ}
  {a : Monitor.System ε σ ι ρ κ} {i : κ} {op : ι}

omit [DecidableEq κ] in
theorem Related.start (s₀ : σ) :
    Related o ([] : List (Event κ ι ρ)) (System.start s₀) (Monitor.System.start s₀) where
  invoked _ _ h := by cases h
  returned _ _ h := absurd h List.not_mem_nil
  apart _ _ _ _ _ h := by cases h
  copy _ _ _ h := by cases h
  localTo _ _ _ h := by cases h
  phase _ := rfl
  own _ _ h := by cases h
  others _ _ := rfl
  shared := (o.cells.set_get s₀).symm

/-- **A step of one call.** It touches the cell of its operation only, which is no other call's. -/
theorem Related.move (h : Related o es s a) {shared shared' : σ} {p : Phase ε σ ι ρ π}
    (hid : e.id = i) (hwas : (s.phase i).active = none ∨ (s.phase i).active = some op)
    (hp : p.active = none ∨ p.active = some op)
    (hinvoked : ∀ op, p.active = some op → .invoke i op ∈ es ++ [e])
    (hret : ∀ r, .ret i r ∈ es ++ [e] → ∃ op, p = .returned op r)
    (hapart : ∀ j op', j ≠ i → (s.phase j).active = some op' → o.cell op' ≠ o.cell op)
    (hcopy : ∀ op q, p = .ready op q → o.cells.get shared (o.cell op) = q)
    (hlocal : ∀ op rest, p = .inside op rest → rest.LocalTo o.cells (o.cell op))
    (hother : ∀ k, k ≠ o.cell op → o.cells.get shared k = o.cells.get s.shared k
      ∧ o.cells.get shared' k = o.cells.get a.shared k)
    (hown : o.cells.get shared' (o.cell op) = p.pending.getD (o.cells.get shared (o.cell op)))
    (hshared : shared' = o.cells.set shared (o.cells.get shared')) :
    Related o (es ++ [e]) (s.goOn i shared p) (a.goOn i shared' (p.whole o)) where
  invoked j op' hj := by
    by_cases hji : j = i
    · subst hji
      rw [System.goOn_self] at hj
      exact hinvoked op' hj
    · rw [System.goOn_ne _ _ _ hji] at hj
      exact List.mem_append_left _ (h.invoked j op' hj)
  returned j r hj := by
    by_cases hji : j = i
    · subst hji
      rw [System.goOn_self]
      exact hret r hj
    · rw [System.goOn_ne _ _ _ hji]
      rcases List.mem_append.mp hj with hj | hj
      · exact h.returned j r hj
      · rw [← List.mem_singleton.mp hj] at hid
        exact absurd hid hji
  apart := by
    -- the call that moves is apart from the others, and they are apart already
    have hmoved : ∀ op₁, p.active = some op₁ → op₁ = op := by
      intro op₁ h₁
      rcases hp with hp | hp <;> rw [h₁] at hp
      · cases hp
      · exact Option.some.inj hp
    intro j j' op₁ op₂ hne h₁ h₂
    by_cases hj : j = i
    · subst hj
      rw [System.goOn_self] at h₁
      rw [System.goOn_ne _ _ _ (Ne.symm hne)] at h₂
      rw [hmoved op₁ h₁]
      exact (hapart j' op₂ (Ne.symm hne) h₂).symm
    · rw [System.goOn_ne _ _ _ hj] at h₁
      by_cases hj' : j' = i
      · subst hj'
        rw [System.goOn_self] at h₂
        rw [hmoved op₂ h₂]
        exact hapart j op₁ hj h₁
      · rw [System.goOn_ne _ _ _ hj'] at h₂
        exact h.apart j j' op₁ op₂ hne h₁ h₂
  copy j op' q hj := by
    by_cases hji : j = i
    · subst hji
      rw [System.goOn_self] at hj
      exact hcopy op' q hj
    · rw [System.goOn_ne _ _ _ hji] at hj
      have hcell := hapart j op' hji (by rw [hj]; rfl)
      rw [System.goOn_shared, (hother _ hcell).1]
      exact h.copy j op' q hj
  localTo j op' rest hj := by
    by_cases hji : j = i
    · subst hji
      rw [System.goOn_self] at hj
      exact hlocal op' rest hj
    · rw [System.goOn_ne _ _ _ hji] at hj
      exact h.localTo j op' rest hj
  phase j := by
    by_cases hji : j = i
    · subst hji
      rw [Monitor.System.goOn_self, System.goOn_self]
    · rw [Monitor.System.goOn_ne _ _ _ hji, System.goOn_ne _ _ _ hji]
      exact h.phase j
  own j op' hj := by
    rw [Monitor.System.goOn_shared, System.goOn_shared]
    by_cases hji : j = i
    · subst hji
      rw [System.goOn_self] at hj ⊢
      rcases hp with hp | hp <;> rw [hj] at hp
      · cases hp
      · obtain rfl := Option.some.inj hp
        exact hown
    · rw [System.goOn_ne _ _ _ hji] at hj ⊢
      obtain ⟨hs, ha⟩ := hother _ (hapart j op' hji hj)
      rw [hs, ha]
      exact h.own j op' hj
  others k hk := by
    rw [Monitor.System.goOn_shared, System.goOn_shared]
    have hidle : ∀ j op', j ≠ i → (s.phase j).active = some op' → o.cell op' ≠ k := by
      intro j op' hji hj
      exact hk j op' (by rw [System.goOn_ne _ _ _ hji]; exact hj)
    by_cases hcell : k = o.cell op
    · -- the call has come to its end, and has nothing left to store
      subst hcell
      rcases hp with hp | hp
      · have hnone : p.pending = none := by cases p <;> first | rfl | cases hp
        rw [hown, hnone]
        rfl
      · exact absurd rfl (hk i op (by rw [System.goOn_self]; exact hp))
    · obtain ⟨hs, ha⟩ := hother k hcell
      rw [hs, ha]
      apply h.others
      intro j op' hj
      by_cases hji : j = i
      · subst hji
        rcases hwas with hwas | hwas <;> rw [hj] at hwas
        · cases hwas
        · obtain rfl := Option.some.inj hwas
          exact Ne.symm hcell
      · exact hidle j op' hji hj
  shared := hshared

/-- A step with which a call stays under way. -/
theorem Related.go (h : Related o es s a) {shared shared' : σ} {p : Phase ε σ ι ρ π}
    (hid : e.id = i) (he : ∀ r, e ≠ .ret i r) (hactive : (s.phase i).active = some op)
    (hp : p.active = some op)
    (hcopy : ∀ op q, p = .ready op q → o.cells.get shared (o.cell op) = q)
    (hlocal : ∀ op rest, p = .inside op rest → rest.LocalTo o.cells (o.cell op))
    (hother : ∀ k, k ≠ o.cell op → o.cells.get shared k = o.cells.get s.shared k
      ∧ o.cells.get shared' k = o.cells.get a.shared k)
    (hown : o.cells.get shared' (o.cell op) = p.pending.getD (o.cells.get shared (o.cell op)))
    (hshared : shared' = o.cells.set shared (o.cells.get shared')) :
    Related o (es ++ [e]) (s.goOn i shared p) (a.goOn i shared' (p.whole o)) := by
  refine h.move hid (Or.inr hactive) (Or.inr hp) ?_ ?_ ?_ hcopy hlocal hother hown hshared
  · intro op' hop'
    obtain rfl := Option.some.inj (hp.symm.trans hop')
    exact List.mem_append_left _ (h.invoked i op hactive)
  · intro r hr
    rcases List.mem_append.mp hr with hr | hr
    · obtain ⟨op', hphase⟩ := h.returned i r hr
      rw [hphase] at hactive
      cases hactive
    · exact absurd (List.mem_singleton.mp hr).symm (he r)
  · exact fun j op' hj hop' => h.apart j i op' op hj hop' hactive

theorem acquire_get {s s' : σ} (h : o.acquire s = .ok s') : o.cells.get s' = o.cells.get s := by
  have hself := o.acquire_set s (o.cells.get s)
  rw [o.cells.set_get, h] at hself
  have hcells := congrArg o.cells.get (Except.ok.inj hself)
  rwa [o.cells.get_set] at hcells

theorem release_get (s : σ) : o.cells.get (o.release s) = o.cells.get s := by
  have hself := o.release_set s (o.cells.get s)
  rw [o.cells.set_get] at hself
  rw [hself, o.cells.get_set]

theorem goOn_goOn (a : Monitor.System ε σ ι ρ κ) (i : κ) (s₁ s₂ : σ)
    (p₁ p₂ : Monitor.Phase ε σ ι ρ) : (a.goOn i s₁ p₁).goOn i s₂ p₂ = a.goOn i s₂ p₂ := by
  unfold Monitor.System.goOn
  rw [Function.update_idem]

/-- **Every step is answered**, as long as no calls on one cell overlap: the copy by nothing, the
lock by the lock and the look at the cell, the end of the section by the store and that end. -/
theorem Related.step (h : Related o es s a) (hstep : Step o s e s')
    (hapart : Apart o.cell (es ++ [e])) :
    ∃ t', Run o.whole.Step a t' ∧ visible (labels t') = visible [e]
      ∧ Related o (es ++ [e]) s' (last a t') := by
  cases hstep with
  | invoke at_idle =>
      rename_i i op
      have hothers : ∀ j op', j ≠ i → (s.phase j).active = some op' → o.cell op' ≠ o.cell op := by
        intro j op' _ hj hcell
        obtain ⟨r, hr⟩ := hapart.last rfl (h.invoked j op' hj) hcell
        obtain ⟨op'', hphase⟩ := h.returned j r hr
        rw [hphase] at hj
        cases hj
      have hphase := h.phase i
      rw [at_idle] at hphase
      refine ⟨_, Run.nil.snoc (.invoke hphase), rfl, ?_⟩
      rw [last_concat]
      refine h.move rfl (Or.inl (by rw [at_idle]; rfl)) (Or.inr rfl) ?_ ?_ hothers
        (fun _ _ hp => by cases hp) (fun _ _ hp => by cases hp) (fun _ _ => ⟨rfl, rfl⟩) ?_ h.shared
      · intro op' hop'
        obtain rfl := Option.some.inj hop'
        simp
      · intro r hr
        rcases List.mem_append.mp hr with hr | hr
        · obtain ⟨op', hback⟩ := h.returned i r hr
          rw [at_idle] at hback
          cases hback
        · cases List.mem_singleton.mp hr
      · apply h.others
        intro j op' hj
        refine hothers j op' ?_ hj
        rintro rfl
        rw [at_idle] at hj
        cases hj
  | atOnce at_called call =>
      rename_i i op r
      have hphase := h.phase i
      have hown := h.own i op (by rw [at_called]; rfl)
      rw [at_called] at hphase hown
      refine ⟨_, Run.nil.snoc (.atOnce hphase (CopyingObject.whole_atOnce call)), rfl, ?_⟩
      rw [last_concat]
      exact h.go rfl (by simp) (by rw [at_called]; rfl) rfl (fun _ _ hp => by cases hp)
        (fun _ _ hp => by cases hp) (fun _ _ => ⟨rfl, rfl⟩) hown h.shared
  | copy at_called call =>
      rename_i i op p
      have hphase := h.phase i
      have hown := h.own i op (by rw [at_called]; rfl)
      rw [at_called] at hphase hown
      refine ⟨[], Run.nil, rfl, ?_⟩
      have hmoved : Related o (es ++ [.access i])
          (s.goOn i s.shared (.ready op (o.cells.get s.shared (o.cell op))))
          (a.goOn i a.shared (.called op)) :=
        h.go rfl (by simp) (by rw [at_called]; rfl) rfl (by rintro op' q ⟨⟩; rfl)
          (fun _ _ hp => by cases hp) (fun _ _ => ⟨rfl, rfl⟩) hown h.shared
      have hstays : a.goOn i a.shared (.called op) = a := by
        unfold Monitor.System.goOn
        rw [show (Monitor.Phase.called op : Monitor.Phase ε σ ι ρ) = a.phase i from hphase.symm,
          Function.update_eq_self]
      rw [last_nil, ← hstays]
      exact hmoved
  | lock at_ready call acquired =>
      rename_i i op p q shared
      have hphase := h.phase i
      have hown := h.own i op (by rw [at_ready]; rfl)
      have hq := h.copy i op q at_ready
      rw [at_ready] at hphase hown
      -- the cell is still what the copy was made of
      have hlook : o.cells.get (o.cells.set shared (o.cells.get a.shared)) (o.cell op) = q := by
        rw [o.cells.get_set, hown]
        exact hq
      have hacquired : o.whole.acquire a.shared
          = .ok (o.cells.set shared (o.cells.get a.shared)) := by
        show o.acquire a.shared = _
        rw [h.shared, o.acquire_set, acquired, o.cells.get_set]
        rfl
      have hlock : o.whole.Step a (.lock i) _ :=
        .lock hphase (CopyingObject.whole_inSection call) hacquired
      have hinside : (a.goOn i (o.cells.set shared (o.cells.get a.shared))
          (.inside op (o.wholeSection op p))).phase i
            = .inside op (.access (fun s => .ok (o.cells.get s (o.cell op), s))
              fun v => p v >>= o.finish op) := Monitor.System.goOn_self ..
      have haccess : o.whole.Step _ (.access i) _ := .access hinside rfl
      rw [Monitor.System.goOn_shared, hlook] at haccess
      refine ⟨_, (Run.nil.snoc hlock).snoc haccess, rfl, ?_⟩
      rw [last_concat, goOn_goOn]
      refine h.go rfl (by simp) (by rw [at_ready]; rfl) rfl (fun _ _ hp => by cases hp) ?_ ?_ ?_ ?_
      · rintro op' rest ⟨⟩
        exact o.localTo op p call q
      · intro k _
        rw [acquire_get acquired]
        exact ⟨rfl, congrFun (o.cells.get_set ..) k⟩
      · rw [acquire_get acquired, hlook]
        exact hq.symm
      · rw [o.cells.get_set]
  | access at_inside accessed =>
      rename_i i op β act next b shared
      have hphase := h.phase i
      have hown := h.own i op (by rw [at_inside]; rfl)
      rw [at_inside] at hphase hown
      cases h.localTo i op _ at_inside with
      | access hact hnext =>
          have hstate := hact s.shared (o.cells.get a.shared) hown
          rw [← h.shared, accessed] at hstate
          refine ⟨_, Run.nil.snoc (.access hphase hstate), rfl, ?_⟩
          rw [last_concat]
          refine h.go rfl (by simp) (by rw [at_inside]; rfl) rfl (fun _ _ hp => by cases hp) ?_ ?_
            ?_ ?_
          · rintro op' rest ⟨⟩
            exact hnext b
          · intro k hk
            refine ⟨hact.get_ne accessed hk, ?_⟩
            rw [o.cells.get_set]
            exact Function.update_of_ne hk ..
          · rw [o.cells.get_set]
            exact Function.update_self ..
          · rw [o.cells.get_set]
  | unlock at_inside =>
      rename_i i op r value
      have hphase := h.phase i
      have hown := h.own i op (by rw [at_inside]; rfl)
      rw [at_inside] at hphase hown
      have hphase : a.phase i = .inside op (.access
          (fun s => .ok ((), o.cells.store (o.cell op) value s)) fun _ => .done r) := hphase
      have haccess : o.whole.Step a (.access i) _ := .access hphase rfl
      have hunlock : o.whole.Step _ (.complete i op r) _ :=
        .unlock (Monitor.System.goOn_self a i (o.cells.store (o.cell op) value a.shared) _)
      have hstate : o.release (o.cells.store (o.cell op) value a.shared)
          = o.cells.set (o.release s.shared) (Function.update (o.cells.get a.shared) (o.cell op)
            (value.getD (o.cells.get a.shared (o.cell op)))) := by
        unfold Cells.store
        rw [h.shared, o.cells.get_set, o.cells.set_set, o.release_set]
      refine ⟨_, (Run.nil.snoc haccess).snoc hunlock, rfl, ?_⟩
      rw [last_concat, goOn_goOn]
      show Related o _ _ (a.goOn i (o.release (o.cells.store (o.cell op) value a.shared)) _)
      rw [hstate]
      refine h.go rfl (by simp) (by rw [at_inside]; rfl) rfl (fun _ _ hp => by cases hp)
        (fun _ _ hp => by cases hp) ?_ ?_ ?_
      · intro k hk
        refine ⟨congrFun (release_get _) k, ?_⟩
        rw [o.cells.get_set]
        exact Function.update_of_ne hk ..
      · rw [o.cells.get_set, Function.update_self, release_get, hown]
        rfl
      · rw [o.cells.get_set]
  | ret at_left =>
      rename_i i op r value
      have hphase := h.phase i
      have hown := h.own i op (by rw [at_left]; rfl)
      rw [at_left] at hphase hown
      refine ⟨_, Run.nil.snoc (.ret hphase), rfl, ?_⟩
      rw [last_concat]
      refine h.move rfl (Or.inr (by rw [at_left]; rfl)) (Or.inl rfl) (fun _ hp => by cases hp) ?_
        (fun j op' hj hop' => h.apart j i op' op hj hop' (by rw [at_left]; rfl))
        (fun _ _ hp => by cases hp) (fun _ _ hp => by cases hp) ?_ ?_ ?_
      · intro r' hr'
        rcases List.mem_append.mp hr' with hr' | hr'
        · obtain ⟨op', hback⟩ := h.returned i r' hr'
          rw [at_left] at hback
          cases hback
        · cases List.mem_singleton.mp hr'
          exact ⟨op, rfl⟩
      · intro k hk
        rw [Cells.get_store]
        exact ⟨Function.update_of_ne hk .., rfl⟩
      · rw [Cells.get_store, Function.update_self]
        exact hown
      · rw [Cells.set_store]
        exact h.shared

/-! ## Every interleaving -/

variable {s₀ base : σ} {t : List (Event κ ι ρ × System ε σ ι ρ π κ)}

/-- **Every run is answered**, with the same calls and results. -/
theorem Related.run (h : Related o es s a) (hsteps : Run (Step o) s t)
    (hapart : Apart o.cell (es ++ labels t)) :
    ∃ t', Run o.whole.Step a t' ∧ visible (labels t') = visible (labels t)
      ∧ Related o (es ++ labels t) (last s t) (last a t') := by
  induction hsteps with
  | nil => exact ⟨[], Run.nil, rfl, by rwa [labels_nil, List.append_nil]⟩
  | snoc hsteps hstep ih =>
      rename_i t e s'
      rw [labels_concat, ← List.append_assoc] at hapart
      obtain ⟨t₁, hrun₁, hvisible₁, hrelated₁⟩ := ih hapart.of_append
      obtain ⟨t₂, hrun₂, hvisible₂, hrelated₂⟩ := hrelated₁.step hstep hapart
      refine ⟨t₁ ++ t₂, hrun₁.append hrun₂, ?_, ?_⟩
      · rw [labels_append, visible_append, hvisible₁, hvisible₂, labels_concat, visible_append]
      · rw [labels_concat, last_concat, last_append, ← List.append_assoc]
        exact hrelated₂

theorem run_answered (hsteps : Run (Step o) (System.start s₀) t)
    (hapart : Apart o.cell (labels t)) :
    ∃ t', Run o.whole.Step (Monitor.System.start s₀) t' ∧ visible (labels t') = visible (labels t)
      ∧ Related o (labels t) (last (System.start s₀) t) (last (Monitor.System.start s₀) t') :=
  (Related.start s₀).run hsteps hapart

omit [DecidableEq κ] in
theorem Phase.whole_isInside {p : Phase ε σ ι ρ π} : (p.whole o).IsInside ↔ p.IsInside := by
  cases p <;> exact Iff.rfl

omit [DecidableEq κ] in
/-- While nobody is in its section, the state that answers is what the completed calls have
left. -/
theorem Related.shared_eq (h : Related o es s a) (hshows : a.Shows o.whole base)
    (hfree : ∀ i, ¬ (s.phase i).IsInside) : a.shared = base := by
  rcases hshows with ⟨-, hshared⟩ | ⟨i, op, rest, hin⟩
  · exact hshared
  · apply absurd _ (hfree i)
    rw [← Phase.whole_isInside (o := o), ← h.phase i, hin.phase]
    trivial

/-- **Every interleaving in which no calls on one cell overlap is linearizable.** While nobody is
in its section, the state is the one that the completed calls have left, but for the cells of the
calls under way. -/
theorem run_linearizes (hsteps : Run (Step o) (System.start s₀) t)
    (hapart : Apart o.cell (labels t)) :
    ∃ base, Linearizes o.whole s₀ (labels t) (completed (labels t)) base
      ∧ ((∀ i, ¬ ((last (System.start s₀) t).phase i).IsInside) →
          base = o.cells.set (last (System.start s₀) t).shared (o.cells.get base)
          ∧ ∀ k, (∀ i op, ((last (System.start s₀) t).phase i).active = some op → o.cell op ≠ k) →
            o.cells.get base k = o.cells.get (last (System.start s₀) t).shared k) := by
  obtain ⟨t', hrun, hvisible, hrelated⟩ := run_answered hsteps hapart
  obtain ⟨base, hlin, hshows⟩ := Monitor.run_linearizes hrun
  rw [← completed_visible, hvisible, completed_visible] at hlin
  refine ⟨base, linearizes_of_visible hlin hvisible, fun hfree => ?_⟩
  obtain rfl := hrelated.shared_eq hshows hfree
  exact ⟨hrelated.shared, hrelated.others⟩

end

end Copying

end Monitor
