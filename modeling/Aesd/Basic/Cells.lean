import Aesd.Basic.Monitor

set_option autoImplicit false

/-! # States with cells

Some part of a state consists of cells, which can be looked at and set apart from all the rest. The
rest does not depend on them if a program has nothing to do with the cells (`Prog.Blind`), and one
cell is all that matters to a program that is local to it (`Prog.LocalTo`). Others may set the cells
while a program runs: `Prog.Ends` says that it comes to its end all the same. -/

namespace Monitor

/-- The cells of a state, which can be looked at and set apart from all the rest. -/
structure Cells (σ K π : Type) where
  get : σ → K → π
  set : σ → (K → π) → σ
  get_set : ∀ s f, get (set s f) = f
  set_set : ∀ s f g, set (set s f) g = set s g
  set_get : ∀ s, set s (get s) = s

section

variable {ε σ α β K π : Type} (cells : Cells σ K π)

/-- An access that has nothing to do with the cells. -/
def Cells.Blind (act : σ → Except ε (β × σ)) : Prop :=
  ∀ s f, act (cells.set s f) = (act s).map fun bs => (bs.1, cells.set bs.2 f)

/-- No access of the program has anything to do with them. -/
inductive Prog.Blind (cells : Cells σ K π) : Prog ε σ α → Prop
  | done (a : α) : Blind cells (.done a)
  | access {β : Type} {act : σ → Except ε (β × σ)} {next : β → Prog ε σ α}
      (hact : cells.Blind act) (hnext : ∀ b, Blind cells (next b)) :
      Blind cells (.access act next)

/-- **The program comes to its end**, in a state with `Q`, whatever values the cells get before its
accesses. -/
def Prog.Ends (cells : Cells σ K π) (Q : σ → Prop) : Prog ε σ α → σ → Prop
  | .done _, s => Q s
  | .access act next, s => ∀ f, ∃ b s', act (cells.set s f) = .ok (b, s')
      ∧ (next b).Ends cells Q s'

variable {cells}

/-! ## Accesses that have nothing to do with the cells -/

theorem Prog.blind_pure (a : α) : (pure a : Prog ε σ α).Blind cells := .done a

theorem Prog.Blind.bind {p : Prog ε σ α} {f : α → Prog ε σ β} (hp : p.Blind cells)
    (hf : ∀ a, (f a).Blind cells) : (p >>= f).Blind cells := by
  show (p.bind f).Blind cells
  induction hp with
  | done a => exact hf a
  | access hact _ ih => exact .access hact ih

theorem Prog.blind_update {act : σ → Except ε (β × σ)} (h : cells.Blind act) :
    (update act : Prog ε σ β).Blind cells :=
  .access h .done

theorem Prog.blind_look {g : σ → β} (h : ∀ s f, g (cells.set s f) = g s) :
    (look g : Prog ε σ β).Blind cells := by
  apply blind_update
  intro s f
  show Except.ok (g (cells.set s f), cells.set s f) = .ok (g s, cells.set s f)
  rw [h s f]

theorem Prog.blind_tryLook {g : σ → Except ε β} (h : ∀ s f, g (cells.set s f) = g s) :
    (tryLook g : Prog ε σ β).Blind cells := by
  apply blind_update
  intro s f
  show (g (cells.set s f)).map _ = _
  rw [h s f]
  show _ = Except.map _ ((g s).map _)
  cases g s <;> rfl

theorem Prog.blind_assign {g : σ → σ} (h : ∀ s f, g (cells.set s f) = cells.set (g s) f) :
    (assign g : Prog ε σ Unit).Blind cells := by
  apply blind_update
  intro s f
  show Except.ok ((), g (cells.set s f)) = .ok ((), cells.set (g s) f)
  rw [h s f]

theorem Prog.blind_tryAssign {g : σ → Except ε σ}
    (h : ∀ s f, g (cells.set s f) = (g s).map fun s => cells.set s f) :
    (tryAssign g : Prog ε σ Unit).Blind cells := by
  apply blind_update
  intro s f
  show (g (cells.set s f)).map _ = _
  rw [h s f]
  show _ = Except.map _ ((g s).map _)
  cases g s <;> rfl

/-- It does the same with other values in the cells. -/
theorem Prog.Blind.exec {p : Prog ε σ α} (hp : p.Blind cells) (s : σ) (f : K → π) :
    p.exec (cells.set s f) = (p.exec s).map fun as => (as.1, cells.set as.2 f) := by
  induction hp generalizing s with
  | done a => rfl
  | @access β act next hact _ ih =>
      unfold Prog.exec
      rw [hact s f]
      cases act s with
      | error e => rfl
      | ok bs => exact ih bs.1 bs.2

/-! ## Programs that come to their end -/

variable {Q : σ → Prop}

/-- They do so with other values in the cells. -/
theorem Prog.Ends.set (hQ : ∀ s f, Q s → Q (cells.set s f)) {p : Prog ε σ α} {s : σ}
    (h : p.Ends cells Q s) (f : K → π) : p.Ends cells Q (cells.set s f) := by
  cases p with
  | done a => exact hQ s f h
  | access act next =>
      intro f'
      rw [cells.set_set]
      exact h f'

theorem Prog.Ends.bind {R : σ → Prop} {p : Prog ε σ α} {f : α → Prog ε σ β} {s : σ}
    (h : p.Ends cells R s) (hf : ∀ a s, R s → (f a).Ends cells Q s) :
    (p >>= f).Ends cells Q s := by
  show (p.bind f).Ends cells Q s
  induction p generalizing s with
  | done a => exact hf a s h
  | access act next ih =>
      intro f'
      obtain ⟨b, s', hact, hnext⟩ := h f'
      exact ⟨b, s', hact, ih b hnext⟩

theorem Prog.ends_look_bind {g : σ → β} {next : β → Prog ε σ α} {s : σ}
    (h : ∀ f, (next (g (cells.set s f))).Ends cells Q (cells.set s f)) :
    (look g >>= next).Ends cells Q s :=
  fun f => ⟨_, _, rfl, h f⟩

theorem Prog.ends_assign_bind {g : σ → σ} {next : Unit → Prog ε σ α} {s : σ}
    (h : ∀ f, (next ()).Ends cells Q (g (cells.set s f))) :
    (assign g >>= next).Ends cells Q s :=
  fun f => ⟨_, _, rfl, h f⟩

/-- So they do when nothing happens to the cells. -/
theorem Prog.Ends.exec {p : Prog ε σ α} {s : σ} (h : p.Ends cells Q s) :
    ∃ a s', p.exec s = .ok (a, s') ∧ Q s' := by
  induction p generalizing s with
  | done a => exact ⟨a, s, rfl, h⟩
  | access act next ih =>
      obtain ⟨b, s', hact, hnext⟩ := h (cells.get s)
      rw [cells.set_get] at hact
      obtain ⟨a, s'', hexec, hs''⟩ := ih b hnext
      refine ⟨a, s'', ?_, hs''⟩
      rw [Prog.exec, hact]
      exact hexec

/-- What has nothing to do with the cells comes to its end if it does so alone. -/
theorem Prog.Blind.ends (hQ : ∀ s f, Q s → Q (cells.set s f)) {p : Prog ε σ α}
    (hp : p.Blind cells) {s s' : σ} {a : α} (hexec : p.exec s = .ok (a, s')) (hs' : Q s') :
    p.Ends cells Q s := by
  induction hp generalizing s with
  | done a' =>
      obtain ⟨-, rfl⟩ := Prod.mk.inj (Except.ok.inj hexec)
      exact hs'
  | access hact _ ih =>
      intro f
      unfold Prog.exec at hexec
      rw [hact s f]
      cases hok : ‹σ → Except ε (_ × σ)› s with
      | error e =>
          rw [hok] at hexec
          cases hexec
      | ok bs =>
          rw [hok] at hexec
          exact ⟨bs.1, _, rfl, (ih bs.1 hexec).set hQ f⟩

end

/-! ## Local accesses -/

section

variable {ε σ α β K π : Type} [DecidableEq K] (cells : Cells σ K π)

/-- The value `v` is put into a cell, if there is one. -/
def Cells.store (k : K) (v : Option π) (s : σ) : σ :=
  cells.set s (Function.update (cells.get s) k (v.getD (cells.get s k)))

/-- **An access that is local to a cell**: it neither looks at the others nor changes them. -/
def Cells.LocalTo (k : K) (act : σ → Except ε (β × σ)) : Prop :=
  ∀ s f, f k = cells.get s k → act (cells.set s f)
    = (act s).map fun bs => (bs.1, cells.set bs.2 (Function.update f k (cells.get bs.2 k)))

/-- Every access of the program is local to it. -/
inductive Prog.LocalTo (cells : Cells σ K π) (k : K) : Prog ε σ α → Prop
  | done (a : α) : LocalTo cells k (.done a)
  | access {β : Type} {act : σ → Except ε (β × σ)} {next : β → Prog ε σ α}
      (hact : cells.LocalTo k act) (hnext : ∀ b, LocalTo cells k (next b)) :
      LocalTo cells k (.access act next)

variable {cells} {k : K}

theorem Cells.get_store (s : σ) (v : Option π) :
    cells.get (cells.store k v s)
      = Function.update (cells.get s) k (v.getD (cells.get s k)) :=
  cells.get_set ..

theorem Cells.store_none (s : σ) : cells.store k none s = s := by
  unfold Cells.store
  rw [Option.getD_none, Function.update_eq_self, cells.set_get]

theorem Cells.store_self (s : σ) : cells.store k (some (cells.get s k)) s = s := by
  unfold Cells.store
  rw [Option.getD_some, Function.update_eq_self, cells.set_get]

theorem Cells.store_store (s : σ) (v : Option π) :
    cells.store k v (cells.store k v s) = cells.store k v s := by
  unfold Cells.store
  rw [cells.get_set, cells.set_set, Function.update_self, Function.update_idem]
  cases v <;> rfl

theorem Cells.set_store (s : σ) (v : Option π) (f : K → π) :
    cells.set (cells.store k v s) f = cells.set s f :=
  cells.set_set ..

theorem Cells.store_set (s : σ) (v : Option π) (f : K → π) :
    cells.store k v (cells.set s f) = cells.set s (Function.update f k (v.getD (f k))) := by
  unfold Cells.store
  rw [cells.get_set, cells.set_set]

/-- A local access changes no other cell. -/
theorem Cells.LocalTo.get_ne {act : σ → Except ε (β × σ)} (h : cells.LocalTo k act) {s s' : σ}
    {b : β} (hact : act s = .ok (b, s')) {k' : K} (hk : k' ≠ k) :
    cells.get s' k' = cells.get s k' := by
  have hself := h s (cells.get s) rfl
  rw [cells.set_get, hact] at hself
  have hcells := congrArg cells.get (Prod.mk.inj (Except.ok.inj hself)).2
  rw [cells.get_set] at hcells
  rw [hcells]
  exact Function.update_of_ne hk ..

/-- What has nothing to do with the cells is local to each of them. -/
theorem Cells.Blind.localTo {act : σ → Except ε (β × σ)} (h : cells.Blind act) :
    cells.LocalTo k act := by
  intro s f hf
  have hself := h s (cells.get s)
  rw [cells.set_get] at hself
  rw [h s f]
  cases hact : act s with
  | error e => rfl
  | ok bs =>
      rw [hact] at hself
      -- it leaves the cells as they are, so the own one is that of `f`
      have hcells := congrArg cells.get (Prod.mk.inj (Except.ok.inj hself)).2
      rw [cells.get_set] at hcells
      show Except.ok (bs.1, cells.set bs.2 f)
        = .ok (bs.1, cells.set bs.2 (Function.update f k (cells.get bs.2 k)))
      rw [hcells, ← hf, Function.update_eq_self]

theorem Prog.Blind.localTo {p : Prog ε σ α} (hp : p.Blind cells) : p.LocalTo cells k := by
  induction hp with
  | done a => exact .done a
  | access hact _ ih => exact .access hact.localTo ih

theorem Prog.localTo_pure (a : α) : (pure a : Prog ε σ α).LocalTo cells k := .done a

theorem Prog.LocalTo.bind {p : Prog ε σ α} {f : α → Prog ε σ β} (hp : p.LocalTo cells k)
    (hf : ∀ a, (f a).LocalTo cells k) : (p >>= f).LocalTo cells k := by
  show (p.bind f).LocalTo cells k
  induction hp with
  | done a => exact hf a
  | access hact _ ih => exact .access hact ih

/-- A look that depends on no other cell. -/
theorem Prog.localTo_look {g : σ → β} (h : ∀ s f, f k = cells.get s k → g (cells.set s f) = g s) :
    (look g : Prog ε σ β).LocalTo cells k := by
  refine .access (fun s f hf => ?_) .done
  show Except.ok (g (cells.set s f), cells.set s f)
    = .ok (g s, cells.set s (Function.update f k (cells.get s k)))
  rw [h s f hf, ← hf, Function.update_eq_self]

/-- The cell itself is set. -/
theorem Prog.localTo_store (v : Option π) :
    (assign fun s => cells.store k v s : Prog ε σ Unit).LocalTo cells k := by
  refine .access (fun s f hf => ?_) .done
  show Except.ok ((), cells.store k v (cells.set s f)) = .ok ((), cells.set (cells.store k v s) _)
  rw [cells.store_set, cells.set_store, cells.get_store, Function.update_self, hf]

end

end Monitor
