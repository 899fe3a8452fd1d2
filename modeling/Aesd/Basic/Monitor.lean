import Aesd.Basic.Lts

set_option autoImplicit false

/-! # Calls under one lock

An object is shared by agents that call its operations at the same time. An operation is a
computation that goes access by access (`Prog`), between two of which the others may run; it makes
its accesses between taking and releasing the one lock of the object, or it returns without any
(`Call`). Then every interleaving is as good as one call after the other: the calls take effect in
some order that respects which call had returned before which was made, and each returns what it
returns in that order (`run_linearizes`). -/

namespace Monitor

open Lts

/-! ## Programs -/

/-- A computation on a shared state, access by access. -/
inductive Prog (ε σ α : Type) : Type 1
  | done (a : α)
  | access {β : Type} (act : σ → Except ε (β × σ)) (next : β → Prog ε σ α)

namespace Prog

variable {ε σ α β : Type}

/-- All accesses in a row. -/
def exec : Prog ε σ α → σ → Except ε (α × σ)
  | .done a, s => .ok (a, s)
  | .access act next, s => act s >>= fun bs => (next bs.1).exec bs.2

/-- One program, and then another one. -/
protected def bind : Prog ε σ α → (α → Prog ε σ β) → Prog ε σ β
  | .done a, f => f a
  | .access act next, f => .access act fun b => (next b).bind f

instance : Monad (Prog ε σ) where
  pure := .done
  bind := Prog.bind

/-- One access. -/
def update (act : σ → Except ε (β × σ)) : Prog ε σ β := .access act .done

/-- A look at the state. -/
def look (f : σ → β) : Prog ε σ β := update fun s => .ok (f s, s)

/-- A look at the state that can fail. -/
def tryLook (f : σ → Except ε β) : Prog ε σ β := update fun s => (f s).map fun b => (b, s)

/-- An assignment. -/
def assign (f : σ → σ) : Prog ε σ Unit := update fun s => .ok ((), f s)

/-- An update that can fail. -/
def tryAssign (f : σ → Except ε σ) : Prog ε σ Unit := update fun s => (f s).map fun s => ((), s)

@[simp] theorem exec_pure (a : α) (s : σ) : (pure a : Prog ε σ α).exec s = .ok (a, s) := rfl

theorem exec_bind (p : Prog ε σ α) (f : α → Prog ε σ β) (s : σ) :
    (p >>= f).exec s = p.exec s >>= fun as => (f as.1).exec as.2 := by
  show (p.bind f).exec s = _
  induction p generalizing s with
  | done a => rfl
  | access act next ih =>
      show (act s >>= fun bs => ((next bs.1).bind f).exec bs.2)
        = ((act s >>= fun bs => (next bs.1).exec bs.2) >>= fun as => (f as.1).exec as.2)
      cases act s with
      | error e => rfl
      | ok bs => exact ih bs.1 bs.2

theorem exec_assign (f : σ → σ) (s : σ) :
    (assign f : Prog ε σ Unit).exec s = .ok ((), f s) := rfl

/-! The rules that execute a program from its first access on. -/

theorem ok_bind (a : α) (f : α → Except ε β) : ((.ok a : Except ε α) >>= f) = f a := rfl

variable {α' : Type}

@[simp] theorem exec_update_bind (act : σ → Except ε (β × σ)) (f : β → Prog ε σ α') (s : σ) :
    (update act >>= f).exec s = act s >>= fun bs => (f bs.1).exec bs.2 := rfl

@[simp] theorem exec_look_bind (g : σ → β) (f : β → Prog ε σ α') (s : σ) :
    (look g >>= f).exec s = (f (g s)).exec s := rfl

@[simp] theorem exec_tryLook_bind (g : σ → Except ε β) (f : β → Prog ε σ α') (s : σ) :
    (tryLook g >>= f).exec s = g s >>= fun b => (f b).exec s := by
  show ((g s).map fun b => (b, s)) >>= _ = _
  cases g s <;> rfl

@[simp] theorem exec_assign_bind (g : σ → σ) (f : Unit → Prog ε σ α') (s : σ) :
    (assign g >>= f).exec s = (f ()).exec (g s) := rfl

@[simp] theorem exec_tryAssign_bind (g : σ → Except ε σ) (f : Unit → Prog ε σ α') (s : σ) :
    (tryAssign g >>= f).exec s = g s >>= fun s => (f ()).exec s := by
  show ((g s).map fun s => ((), s)) >>= _ = _
  cases g s <;> rfl

/-! ### What every access keeps -/

/-- Every access of the program keeps `P`. -/
inductive Keeps (P : σ → Prop) : Prog ε σ α → Prop
  | done (a : α) : Keeps P (.done a)
  | access {β : Type} {act : σ → Except ε (β × σ)} {next : β → Prog ε σ α}
      (hact : ∀ s b s', P s → act s = .ok (b, s') → P s') (hnext : ∀ b, Keeps P (next b)) :
      Keeps P (.access act next)

variable {P : σ → Prop} {p : Prog ε σ α}

theorem keeps_pure (a : α) : (pure a : Prog ε σ α).Keeps P := .done a

theorem Keeps.bind {f : α → Prog ε σ β} (hp : p.Keeps P) (hf : ∀ a, (f a).Keeps P) :
    (p >>= f).Keeps P := by
  show (p.bind f).Keeps P
  induction hp with
  | done a => exact hf a
  | access hact _ ih => exact .access hact ih

theorem keeps_update {act : σ → Except ε (β × σ)}
    (hact : ∀ s b s', P s → act s = .ok (b, s') → P s') : (update act : Prog ε σ β).Keeps P :=
  .access hact .done

theorem keeps_look (f : σ → β) : (look f : Prog ε σ β).Keeps P := by
  apply keeps_update
  intro s b s' hs hok
  obtain ⟨-, rfl⟩ := Prod.mk.inj (Except.ok.inj hok)
  exact hs

theorem keeps_tryLook (f : σ → Except ε β) : (tryLook f : Prog ε σ β).Keeps P := by
  apply keeps_update
  intro s b s' hs hok
  cases hf : f s with
  | error e =>
      rw [hf] at hok
      cases hok
  | ok b' =>
      rw [hf] at hok
      obtain ⟨-, rfl⟩ := Prod.mk.inj (Except.ok.inj hok)
      exact hs

theorem keeps_assign {f : σ → σ} (hf : ∀ s, P s → P (f s)) :
    (assign f : Prog ε σ Unit).Keeps P := by
  apply keeps_update
  intro s b s' hs hok
  obtain ⟨-, rfl⟩ := Prod.mk.inj (Except.ok.inj hok)
  exact hf s hs

theorem keeps_tryAssign {f : σ → Except ε σ} (hf : ∀ s s', P s → f s = .ok s' → P s') :
    (tryAssign f : Prog ε σ Unit).Keeps P := by
  apply keeps_update
  intro s b s' hs hok
  cases hfs : f s with
  | error e =>
      rw [hfs] at hok
      cases hok
  | ok s₁ =>
      rw [hfs] at hok
      obtain ⟨-, rfl⟩ := Prod.mk.inj (Except.ok.inj hok)
      exact hf s _ hs hfs

/-- What every access keeps, the whole program keeps. -/
theorem Keeps.exec (hp : p.Keeps P) {s s' : σ} {a : α} (hs : P s) (hexec : p.exec s = .ok (a, s')) :
    P s' := by
  induction hp generalizing s with
  | done b =>
      obtain ⟨-, rfl⟩ := Prod.mk.inj (Except.ok.inj hexec)
      exact hs
  | @access β act next hact _ ih =>
      unfold Prog.exec at hexec
      cases hok : act s with
      | error e =>
          rw [hok] at hexec
          cases hexec
      | ok bs =>
          rw [hok] at hexec
          exact ih bs.1 (hact s bs.1 bs.2 hs hok) hexec

end Prog

/-! ## Objects -/

/-- What a call of an operation does: it returns without any access, or after a section. -/
inductive Call (ε σ ρ : Type) : Type 1
  | atOnce (r : ρ)
  | inSection (p : Prog ε σ ρ)

/-- **A shared object**: its lock, and its operations. `Held` says of a state that the lock is
taken; nobody can take it then, and no access in a section gives it back. -/
structure Object (ε σ ι ρ : Type) : Type 1 where
  acquire : σ → Except ε σ
  release : σ → σ
  call : ι → Call ε σ ρ
  Held : σ → Prop
  held : ∀ s s', acquire s = .ok s' → Held s'
  waits : ∀ s s', Held s → acquire s ≠ .ok s'
  keeps : ∀ op p, call op = .inSection p → p.Keeps Held

/-- A call that has taken effect, and what it returns. -/
structure Done (κ ι ρ : Type) where
  id : κ
  op : ι
  ret : ρ

section

variable {ε σ ι ρ κ : Type} (o : Object ε σ ι ρ)

/-- A call that has the object for itself. -/
def Object.apply (op : ι) (s : σ) : Except ε (ρ × σ) :=
  match o.call op with
  | .atOnce r => .ok (r, s)
  | .inSection p => do
      let s ← o.acquire s
      let (r, s) ← p.exec s
      return (r, o.release s)

/-- One call after the other, the newest last. -/
inductive Object.Sequential (s : σ) : List (Done κ ι ρ) → σ → Prop
  | nil : Sequential s [] s
  | snoc {ds : List (Done κ ι ρ)} {d : Done κ ι ρ} {s₁ s₂ : σ} :
      Sequential s ds s₁ → o.apply d.op s₁ = .ok (d.ret, s₂) → Sequential s (ds ++ [d]) s₂

/-! ## Interleavings -/

/-- Where a call is. -/
inductive Phase (ε σ ι ρ : Type) : Type 1
  | idle
  /-- It has been made, and has not taken the lock. -/
  | called (op : ι)
  /-- It holds the lock; `rest` is what it still does. -/
  | inside (op : ι) (rest : Prog ε σ ρ)
  /-- It has released the lock. -/
  | left (op : ι) (r : ρ)
  | returned (op : ι) (r : ρ)

/-- The object while calls are being made on it. -/
structure System (ε σ ι ρ κ : Type) : Type 1 where
  shared : σ
  phase : κ → Phase ε σ ι ρ

/-- A step of a call. `complete` is the one at which it takes effect for the others. -/
inductive Event (κ ι ρ : Type)
  | invoke (i : κ) (op : ι)
  | lock (i : κ)
  | access (i : κ)
  | complete (i : κ) (op : ι) (r : ρ)
  | ret (i : κ) (r : ρ)

/-- Nobody has called. -/
def System.start (s : σ) : System ε σ ι ρ κ := ⟨s, fun _ => .idle⟩

variable [DecidableEq κ]

/-- Call `i` goes on at `p`, in the shared state `shared`. -/
def System.goOn (s : System ε σ ι ρ κ) (i : κ) (shared : σ) (p : Phase ε σ ι ρ) :
    System ε σ ι ρ κ :=
  ⟨shared, Function.update s.phase i p⟩

/-- The steps of the calls. -/
inductive Object.Step : System ε σ ι ρ κ → Event κ ι ρ → System ε σ ι ρ κ → Prop
  | invoke {s : System ε σ ι ρ κ} {i : κ} {op : ι} (at_idle : s.phase i = .idle) :
      Step s (.invoke i op) (s.goOn i s.shared (.called op))
  /-- The call needs no access. -/
  | atOnce {s : System ε σ ι ρ κ} {i : κ} {op : ι} {r : ρ} (at_called : s.phase i = .called op)
      (call : o.call op = .atOnce r) :
      Step s (.complete i op r) (s.goOn i s.shared (.left op r))
  | lock {s : System ε σ ι ρ κ} {i : κ} {op : ι} {p : Prog ε σ ρ} {shared : σ}
      (at_called : s.phase i = .called op) (call : o.call op = .inSection p)
      (acquired : o.acquire s.shared = .ok shared) :
      Step s (.lock i) (s.goOn i shared (.inside op p))
  | access {s : System ε σ ι ρ κ} {i : κ} {op : ι} {β : Type} {act : σ → Except ε (β × σ)}
      {next : β → Prog ε σ ρ} {b : β} {shared : σ}
      (at_inside : s.phase i = .inside op (.access act next))
      (accessed : act s.shared = .ok (b, shared)) :
      Step s (.access i) (s.goOn i shared (.inside op (next b)))
  | unlock {s : System ε σ ι ρ κ} {i : κ} {op : ι} {r : ρ}
      (at_inside : s.phase i = .inside op (.done r)) :
      Step s (.complete i op r) (s.goOn i (o.release s.shared) (.left op r))
  | ret {s : System ε σ ι ρ κ} {i : κ} {op : ι} {r : ρ} (at_left : s.phase i = .left op r) :
      Step s (.ret i r) (s.goOn i s.shared (.returned op r))

end

/-- The calls that have taken effect, in the order in which they did. -/
def completed {κ ι ρ : Type} (es : List (Event κ ι ρ)) : List (Done κ ι ρ) :=
  es.filterMap fun e => match e with
    | .complete i op r => some ⟨i, op, r⟩
    | _ => none

/-- **Linearizability.** The calls `ds`, one after the other, explain what the calls of `es`
return: they are calls of `es`, all that have returned are among them, and a call that had returned
before another one was made stands before it. -/
structure Linearizes {ε σ ι ρ κ : Type} (o : Object ε σ ι ρ) (s : σ) (es : List (Event κ ι ρ))
    (ds : List (Done κ ι ρ)) (s' : σ) : Prop where
  sequential : o.Sequential s ds s'
  nodup : (ds.map Done.id).Nodup
  invoked : ∀ d ∈ ds, .invoke d.id d.op ∈ es
  returned : ∀ i r, .ret i r ∈ es → ∃ op, ⟨i, op, r⟩ ∈ ds
  order : ∀ es₁ es₂ i r j op, es = es₁ ++ .ret i r :: es₂ → .invoke j op ∈ es₂ →
    ∀ ds₁ d ds₂, ds = ds₁ ++ d :: ds₂ → d.id = j → ∃ d' ∈ ds₁, d'.id = i

/-- What is not in the first part of a list has the first part before it. -/
theorem subset_of_notMem {α : Type} {as bs cs ds : List α} {d : α} (h : as ++ bs = cs ++ d :: ds)
    (hd : d ∉ as) : as ⊆ cs := by
  rcases List.append_eq_append_iff.mp h with ⟨as', rfl, -⟩ | ⟨cs', rfl, hcs⟩
  · exact List.subset_append_left _ _
  · cases cs' with
    | nil => simp
    | cons c cs' =>
        obtain ⟨rfl, -⟩ := List.cons.inj hcs
        exact absurd (by simp) hd

section

variable {ε σ ι ρ κ : Type} {o : Object ε σ ι ρ} {s₀ base : σ} {s s' : System ε σ ι ρ κ}
  {es : List (Event κ ι ρ)} {e : Event κ ι ρ} {i : κ}

/-! ## The invariant -/

/-- The call that makes the step. -/
def Event.id : Event κ ι ρ → κ
  | .invoke i _ | .lock i | .access i | .complete i _ _ | .ret i _ => i

/-- The call is in its section. -/
def Phase.IsInside : Phase ε σ ι ρ → Prop
  | .inside .. => True
  | .idle | .called _ | .left .. | .returned .. => False

/-- What the events say about a call, by where it is. -/
def Phase.Fits (es : List (Event κ ι ρ)) (i : κ) : Phase ε σ ι ρ → Prop
  | .idle => ∀ d ∈ completed es, d.id ≠ i
  | .called op | .inside op _ => .invoke i op ∈ es ∧ ∀ d ∈ completed es, d.id ≠ i
  | .left op r | .returned op r => ⟨i, op, r⟩ ∈ completed es

/-- **The section that is open**: executed to its end, what is left of it gives what the whole
section gives on the state `base` that the completed calls have left. -/
structure InSection (o : Object ε σ ι ρ) (base : σ) (s : System ε σ ι ρ κ) (i : κ) (op : ι)
    (rest : Prog ε σ ρ) : Prop where
  phase : s.phase i = .inside op rest
  others : ∀ j, j ≠ i → ¬ (s.phase j).IsInside
  section_eq : ∃ p s₁, o.call op = .inSection p ∧ o.acquire base = .ok s₁
    ∧ p.exec s₁ = rest.exec s.shared
  keeps : rest.Keeps o.Held
  held : o.Held s.shared

/-- The shared state is what the completed calls have left, or one call is in its section. -/
def System.Shows (o : Object ε σ ι ρ) (base : σ) (s : System ε σ ι ρ κ) : Prop :=
  ((∀ i, ¬ (s.phase i).IsInside) ∧ s.shared = base) ∨ ∃ i op rest, InSection o base s i op rest

/-- The invariant of the interleavings. -/
structure Inv (o : Object ε σ ι ρ) (s₀ : σ) (es : List (Event κ ι ρ)) (s : System ε σ ι ρ κ) :
    Prop where
  shared : ∃ base, o.Sequential s₀ (completed es) base ∧ s.Shows o base
  nodup : ((completed es).map Done.id).Nodup
  invoked : ∀ d ∈ completed es, .invoke d.id d.op ∈ es
  fits : ∀ i, (s.phase i).Fits es i
  returned : ∀ i r, .ret i r ∈ es → ∃ op, s.phase i = .returned op r

theorem completed_append (es es' : List (Event κ ι ρ)) :
    completed (es ++ es') = completed es ++ completed es' :=
  List.filterMap_append

theorem completed_quiet (es : List (Event κ ι ρ)) (he : completed [e] = []) :
    completed (es ++ [e]) = completed es := by
  rw [completed_append, he, List.append_nil]

theorem id_of_mem_completed {d : Done κ ι ρ} (hd : d ∈ completed [e]) : d.id = e.id := by
  cases e with
  | complete j op r =>
      rw [List.mem_singleton.mp hd]
      rfl
  | invoke | lock | access | ret => cases hd

/-- What is known of the other calls stays. -/
theorem Phase.Fits.frame {p : Phase ε σ ι ρ} (h : p.Fits es i) (hi : e.id ≠ i) :
    p.Fits (es ++ [e]) i := by
  have hnone : (∀ d ∈ completed es, d.id ≠ i) → ∀ d ∈ completed (es ++ [e]), d.id ≠ i := by
    intro hold d hd
    rw [completed_append, List.mem_append] at hd
    rcases hd with hd | hd
    · exact hold d hd
    · rw [id_of_mem_completed hd]
      exact hi
  cases p with
  | idle => exact hnone h
  | called op => exact ⟨List.mem_append_left _ h.1, hnone h.2⟩
  | inside op rest => exact ⟨List.mem_append_left _ h.1, hnone h.2⟩
  | left op r | returned op r =>
      unfold Phase.Fits
      rw [completed_append]
      exact List.mem_append_left _ h

/-- A call that is not back has no return among the events. -/
theorem Inv.no_ret (h : Inv o s₀ es s) (hbusy : ∀ op r, s.phase i ≠ .returned op r) (r : ρ) :
    .ret i r ∉ es := by
  intro hr
  obtain ⟨op, hphase⟩ := h.returned i r hr
  exact hbusy op r hphase

/-- While the lock can be taken, nobody is in a section. -/
theorem System.Shows.free (h : s.Shows o base) {shared : σ}
    (hacquired : o.acquire s.shared = .ok shared) :
    (∀ i, ¬ (s.phase i).IsInside) ∧ s.shared = base := by
  rcases h with hfree | ⟨j, op, rest, hin⟩
  · exact hfree
  · exact absurd hacquired (o.waits _ _ hin.held)

theorem System.start_inv (o : Object ε σ ι ρ) (s₀ : σ) :
    Inv o s₀ [] (System.start s₀ : System ε σ ι ρ κ) where
  shared := ⟨s₀, .nil, Or.inl ⟨fun _ => not_false, rfl⟩⟩
  nodup := List.nodup_nil
  invoked := fun _ hd => absurd hd (List.not_mem_nil)
  fits := fun _ _ hd => absurd hd (List.not_mem_nil)
  returned := fun _ _ hr => absurd hr (List.not_mem_nil)

/-! ## The steps -/

variable [DecidableEq κ]

@[simp] theorem System.goOn_shared (s : System ε σ ι ρ κ) (i : κ) (shared : σ)
    (p : Phase ε σ ι ρ) : (s.goOn i shared p).shared = shared := rfl

@[simp] theorem System.goOn_self (s : System ε σ ι ρ κ) (i : κ) (shared : σ)
    (p : Phase ε σ ι ρ) : (s.goOn i shared p).phase i = p :=
  Function.update_self ..

theorem System.goOn_ne (s : System ε σ ι ρ κ) {i j : κ} (shared : σ) (p : Phase ε σ ι ρ)
    (hj : j ≠ i) : (s.goOn i shared p).phase j = s.phase j :=
  Function.update_of_ne hj ..

/-- A call that does not take effect moves on, and what it shows of the shared state stays. -/
theorem Inv.quiet (h : Inv o s₀ es s) (i : κ) {shared : σ} {p : Phase ε σ ι ρ} (hi : e.id = i)
    (hquiet : completed [e] = []) (hp : p.Fits (es ++ [e]) i)
    (hret : ∀ r, .ret i r ∈ es ++ [e] → ∃ op, p = .returned op r)
    (hshows : ∀ base, s.Shows o base → (s.goOn i shared p).Shows o base) :
    Inv o s₀ (es ++ [e]) (s.goOn i shared p) := by
  obtain ⟨base, hseq, hshared⟩ := h.shared
  -- the calls that have taken effect are the same
  have hcompleted := completed_quiet es hquiet
  refine ⟨⟨base, ?_, hshows base hshared⟩, ?_, ?_, ?_, ?_⟩
  · rw [hcompleted]
    exact hseq
  · rw [hcompleted]
    exact h.nodup
  · rw [hcompleted]
    exact fun d hd => List.mem_append_left _ (h.invoked d hd)
  · intro j
    by_cases hj : j = i
    · subst hj
      rwa [System.goOn_self]
    · rw [System.goOn_ne _ _ _ hj]
      exact (h.fits j).frame (by rw [hi]; exact Ne.symm hj)
  · intro j r hr
    by_cases hj : j = i
    · subst hj
      rw [System.goOn_self]
      exact hret r hr
    · rw [System.goOn_ne _ _ _ hj]
      rcases List.mem_append.mp hr with hr | hr
      · exact h.returned j r hr
      · rw [← List.mem_singleton.mp hr] at hi
        exact absurd hi hj

/-- A call takes effect. -/
theorem Inv.complete (h : Inv o s₀ es s) {op : ι} {r : ρ} {shared : σ}
    (hfits : .invoke i op ∈ es ∧ ∀ d ∈ completed es, d.id ≠ i)
    (hbusy : ∀ op' r', s.phase i ≠ .returned op' r')
    (hshows : ∀ base, s.Shows o base → ∃ base', o.apply op base = .ok (r, base')
      ∧ (s.goOn i shared (.left op r)).Shows o base') :
    Inv o s₀ (es ++ [.complete i op r]) (s.goOn i shared (.left op r)) := by
  obtain ⟨base, hseq, hshared⟩ := h.shared
  obtain ⟨base', happly, hshared'⟩ := hshows base hshared
  have hcompleted : completed (es ++ [.complete i op r]) = completed es ++ [⟨i, op, r⟩] :=
    completed_append ..
  refine ⟨⟨base', ?_, hshared'⟩, ?_, ?_, ?_, ?_⟩
  · rw [hcompleted]
    exact hseq.snoc happly
  · -- the call had not taken effect before
    rw [hcompleted, List.map_append]
    apply List.nodup_append.mpr
    refine ⟨h.nodup, List.nodup_singleton _, ?_⟩
    intro j hj j' hj' heq
    obtain ⟨d, hd, rfl⟩ := List.mem_map.mp hj
    apply hfits.2 d hd
    rw [heq]
    simpa using hj'
  · rw [hcompleted]
    intro d hd
    rcases List.mem_append.mp hd with hd | hd
    · exact List.mem_append_left _ (h.invoked d hd)
    · rw [List.mem_singleton.mp hd]
      exact List.mem_append_left _ hfits.1
  · intro j
    by_cases hj : j = i
    · subst hj
      rw [System.goOn_self]
      unfold Phase.Fits
      rw [hcompleted]
      simp
    · rw [System.goOn_ne _ _ _ hj]
      exact (h.fits j).frame (Ne.symm hj)
  · intro j r' hr'
    rcases List.mem_append.mp hr' with hold | hnew
    · -- a call that has returned is another one
      have hj : j ≠ i := by
        rintro rfl
        exact h.no_ret hbusy r' hold
      rw [System.goOn_ne _ _ _ hj]
      exact h.returned j r' hold
    · exact absurd (List.mem_singleton.mp hnew) (by simp)

/-- A step outside the section shows the same shared state. -/
theorem System.Shows.goOn (h : s.Shows o base) {p : Phase ε σ ι ρ}
    (hout : ¬ (s.phase i).IsInside) (hp : ¬ p.IsInside) :
    (s.goOn i s.shared p).Shows o base := by
  rcases h with ⟨hfree, hshared⟩ | ⟨j, op, rest, hin⟩
  · refine Or.inl ⟨fun j => ?_, hshared⟩
    by_cases hj : j = i
    · subst hj
      rwa [System.goOn_self]
    · rw [System.goOn_ne _ _ _ hj]
      exact hfree j
  · have hji : j ≠ i := by
      rintro rfl
      rw [hin.phase] at hout
      exact hout trivial
    refine Or.inr ⟨j, op, rest, ?_, fun j' hj' => ?_, hin.section_eq, hin.keeps, hin.held⟩
    · rw [System.goOn_ne _ _ _ hji]
      exact hin.phase
    · by_cases hj : j' = i
      · subst hj
        rwa [System.goOn_self]
      · rw [System.goOn_ne _ _ _ hj]
        exact hin.others j' hj'

/-- The call that is inside is the one in its section. -/
theorem System.Shows.inside (h : s.Shows o base) {op : ι} {rest : Prog ε σ ρ}
    (hphase : s.phase i = .inside op rest) : InSection o base s i op rest := by
  have hi : (s.phase i).IsInside := by
    rw [hphase]
    trivial
  rcases h with ⟨hfree, -⟩ | ⟨j, op', rest', hin⟩
  · exact absurd hi (hfree i)
  · by_cases hj : i = j
    · subst hj
      obtain ⟨rfl, rfl⟩ := Phase.inside.inj (hphase.symm.trans hin.phase)
      exact hin
    · exact absurd hi (hin.others i hj)

/-- The lock is taken: the section is open. -/
theorem System.Shows.lock (h : s.Shows o base) {op : ι} {p : Prog ε σ ρ} {shared : σ}
    (call : o.call op = .inSection p) (hacquired : o.acquire s.shared = .ok shared) :
    (s.goOn i shared (.inside op p)).Shows o base := by
  obtain ⟨hfree, rfl⟩ := h.free hacquired
  refine Or.inr ⟨i, op, p, System.goOn_self .., fun j hj => ?_, ⟨p, shared, call, hacquired, rfl⟩,
    o.keeps op p call, o.held _ _ hacquired⟩
  rw [System.goOn_ne _ _ _ hj]
  exact hfree j

/-- One access of the section: what is left of it still gives the same. -/
theorem System.Shows.access (h : s.Shows o base) {op : ι} {β : Type}
    {act : σ → Except ε (β × σ)} {next : β → Prog ε σ ρ} {b : β} {shared : σ}
    (hphase : s.phase i = .inside op (.access act next))
    (haccessed : act s.shared = .ok (b, shared)) :
    (s.goOn i shared (.inside op (next b))).Shows o base := by
  obtain ⟨-, hothers, ⟨p, s₁, hcall, hacquire, hexec⟩, hkeeps, hheld⟩ := h.inside hphase
  cases hkeeps with
  | access hact hnext =>
      refine Or.inr ⟨i, op, next b, System.goOn_self .., fun j hj => ?_,
        ⟨p, s₁, hcall, hacquire, ?_⟩, hnext b, hact _ _ _ hheld haccessed⟩
      · rw [System.goOn_ne _ _ _ hj]
        exact hothers j hj
      · rw [hexec, Prog.exec, haccessed]
        rfl

/-- The lock is released: the call has done what it does when it has the object for itself. -/
theorem System.Shows.unlock (h : s.Shows o base) {op : ι} {r : ρ}
    (hphase : s.phase i = .inside op (.done r)) :
    ∃ base', o.apply op base = .ok (r, base')
      ∧ (s.goOn i (o.release s.shared) (.left op r)).Shows o base' := by
  obtain ⟨-, hothers, ⟨p, s₁, hcall, hacquire, hexec⟩, -, -⟩ := h.inside hphase
  refine ⟨o.release s.shared, ?_, Or.inl ⟨fun j => ?_, rfl⟩⟩
  · unfold Object.apply
    rw [hcall]
    show (o.acquire base >>= fun s => p.exec s >>= fun rs => pure (rs.1, o.release rs.2)) = _
    rw [hacquire]
    show (p.exec s₁ >>= fun rs => pure (rs.1, o.release rs.2)) = _
    rw [hexec]
    rfl
  · by_cases hj : j = i
    · subst hj
      rw [System.goOn_self]
      exact not_false
    · rw [System.goOn_ne _ _ _ hj]
      exact hothers j hj

/-- **Every step keeps the invariant.** -/
theorem Object.Step.inv (hstep : o.Step s e s') (h : Inv o s₀ es s) : Inv o s₀ (es ++ [e]) s' := by
  cases hstep with
  | invoke at_idle =>
      rename_i i op
      have hfits := h.fits i
      rw [at_idle] at hfits
      apply h.quiet i rfl rfl
      · refine ⟨by simp, ?_⟩
        rw [completed_quiet es rfl]
        exact hfits
      · intro r hr
        exact absurd hr (by simpa using h.no_ret (by simp [at_idle]) r)
      · exact fun base hshows => hshows.goOn (by rw [at_idle]; exact not_false) not_false
  | atOnce at_called call =>
      rename_i i op r
      have hfits := h.fits i
      rw [at_called] at hfits
      apply h.complete hfits (by simp [at_called])
      -- it takes effect on the base, even while another call is in its section
      intro base hshows
      refine ⟨base, ?_, hshows.goOn (by rw [at_called]; exact not_false) not_false⟩
      unfold Object.apply
      rw [call]
  | lock at_called call acquired =>
      rename_i i op p shared
      have hfits := h.fits i
      rw [at_called] at hfits
      apply h.quiet i rfl rfl
      · refine ⟨List.mem_append_left _ hfits.1, ?_⟩
        rw [completed_quiet es rfl]
        exact hfits.2
      · intro r hr
        exact absurd hr (by simpa using h.no_ret (by simp [at_called]) r)
      · exact fun base hshows => hshows.lock call acquired
  | access at_inside accessed =>
      rename_i i op β act next b shared
      have hfits := h.fits i
      rw [at_inside] at hfits
      apply h.quiet i rfl rfl
      · refine ⟨List.mem_append_left _ hfits.1, ?_⟩
        rw [completed_quiet es rfl]
        exact hfits.2
      · intro r hr
        exact absurd hr (by simpa using h.no_ret (by simp [at_inside]) r)
      · exact fun base hshows => hshows.access at_inside accessed
  | unlock at_inside =>
      -- a section takes effect as a whole when it releases the lock
      rename_i i op r
      have hfits := h.fits i
      rw [at_inside] at hfits
      exact h.complete hfits (by simp [at_inside]) fun base hshows => hshows.unlock at_inside
  | ret at_left =>
      rename_i i op r
      have hfits := h.fits i
      rw [at_left] at hfits
      apply h.quiet i rfl rfl
      · unfold Phase.Fits
        rw [completed_append]
        exact List.mem_append_left _ hfits
      · intro r' hr'
        rcases List.mem_append.mp hr' with hold | hnew
        · exact absurd hold (h.no_ret (by simp [at_left]) r')
        · cases List.mem_singleton.mp hnew
          exact ⟨op, rfl⟩
      · exact fun base hshows => hshows.goOn (by rw [at_left]; exact not_false) not_false

/-! ## Every interleaving -/

variable {t : List (Event κ ι ρ × System ε σ ι ρ κ)}

theorem run_inv (hsteps : Run o.Step (System.start s₀) t) :
    Inv o s₀ (labels t) (last (System.start s₀) t) :=
  hsteps.invariant (Inv o s₀) (System.start_inv o s₀) fun _ _ _ _ h hstep => hstep.inv h

/-- **A call that had returned before another one was made has taken effect before it.** -/
theorem run_order (hsteps : Run o.Step (System.start s₀) t) {es₁ es₂ : List (Event κ ι ρ)} {j : κ}
    {r : ρ} {op : ι} (hes : labels t = es₁ ++ .ret i r :: es₂) (hj : .invoke j op ∈ es₂)
    {ds₁ ds₂ : List (Done κ ι ρ)} {d : Done κ ι ρ}
    (hds : completed (labels t) = ds₁ ++ d :: ds₂) (hd : d.id = j) : ∃ d' ∈ ds₁, d'.id = i := by
  obtain ⟨t₁, s₁, t₂, rfl, rfl, rfl⟩ := exists_step_of_labels_eq hes
  obtain ⟨u₁, s₂, u₂, rfl⟩ := exists_step_of_mem_labels hj
  -- up to the second call, which is not made yet
  rw [← List.cons_append, ← List.append_assoc] at hsteps hds
  have hstep := hsteps.step_of
  have hinv := run_inv hsteps.of_append
  have hidle : (last (System.start s₀) (t₁ ++ (.ret i r, s₁) :: u₁)).phase j = .idle := by
    cases hstep with
    | invoke at_idle => exact at_idle
  have hnot := hinv.fits j
  rw [hidle] at hnot
  -- the first one has returned, and so taken effect
  obtain ⟨op', hphase⟩ := hinv.returned i r (by simp [labels])
  have hmem := hinv.fits i
  rw [hphase] at hmem
  rw [labels_append, completed_append] at hds
  have hsub := subset_of_notMem hds fun hd' => hnot d hd' hd
  exact ⟨⟨i, op', r⟩, hsub hmem, rfl⟩

/-- **Every interleaving is linearizable.** The calls take effect in the order in which they
complete. -/
theorem run_linearizes (hsteps : Run o.Step (System.start s₀) t) :
    ∃ base, Linearizes o s₀ (labels t) (completed (labels t)) base
      ∧ (last (System.start s₀) t).Shows o base := by
  have hinv := run_inv hsteps
  obtain ⟨base, hseq, hshows⟩ := hinv.shared
  refine ⟨base, ⟨hseq, hinv.nodup, hinv.invoked, ?_, ?_⟩, hshows⟩
  · intro i r hr
    obtain ⟨op, hphase⟩ := hinv.returned i r hr
    have hfits := hinv.fits i
    rw [hphase] at hfits
    exact ⟨op, hfits⟩
  · intro es₁ es₂ i r j op hes hj ds₁ d ds₂ hds hd
    exact run_order hsteps hes hj hds hd

end

end Monitor
