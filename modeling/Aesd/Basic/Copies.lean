import Aesd.Basic.Cells

set_option autoImplicit false

/-! # Calls that work on a copy

The shared state of an object has cells, and a call works on a copy of one of them: it makes the
copy before it takes the lock, and stores what has become of it when it has released the lock. So
the lock does not protect the cell. But if the sections come to their end whatever is in the cells,
no access faults (`Safe.access_ok`), and every call can return (`Safe.can_return`). -/

namespace Monitor

open Lts

/-! ## Objects -/

/-- What a call does: it returns at once, or after a section that is given the copy, and says what
is stored when it has been left. -/
inductive CopyingCall (ε σ π ρ : Type) : Type 1
  | atOnce (r : ρ)
  | inSection (p : π → Prog ε σ (ρ × Option π))

/-- **An object whose calls work on copies.** Each operation has its cell, and its section touches
no other one; the lock has nothing to do with the cells. -/
structure CopyingObject (ε σ ι ρ K π : Type) [DecidableEq K] : Type 1 where
  cells : Cells σ K π
  cell : ι → K
  acquire : σ → Except ε σ
  release : σ → σ
  call : ι → CopyingCall ε σ π ρ
  Held : σ → Prop
  held : ∀ s s', acquire s = .ok s' → Held s'
  waits : ∀ s s', Held s → acquire s ≠ .ok s'
  keeps : ∀ op p, call op = .inSection p → ∀ q, (p q).Keeps Held
  localTo : ∀ op p, call op = .inSection p → ∀ q, (p q).LocalTo cells (cell op)
  acquire_set : ∀ s f, acquire (cells.set s f) = (acquire s).map fun s => cells.set s f
  release_set : ∀ s f, release (cells.set s f) = cells.set (release s) f
  held_set : ∀ s f, Held s → Held (cells.set s f)

namespace CopyingObject

variable {ε σ ι ρ K π κ : Type} [DecidableEq K] (o : CopyingObject ε σ ι ρ K π)

/-- What is left when a section is done: to store the cell, and to return. -/
def finish (op : ι) (rv : ρ × Option π) : Prog ε σ ρ := do
  .assign (o.cells.store (o.cell op) rv.2)
  return rv.1

/-- The section of a call that looks at its cell and stores it itself. -/
def wholeSection (op : ι) (p : π → Prog ε σ (ρ × Option π)) : Prog ε σ ρ := do
  let q ← .look fun s => o.cells.get s (o.cell op)
  let rv ← p q
  o.finish op rv

/-- **The object without copies.** -/
def whole : Object ε σ ι ρ where
  acquire := o.acquire
  release := o.release
  call op :=
    match o.call op with
    | .atOnce r => .atOnce r
    | .inSection p => .inSection (o.wholeSection op p)
  Held := o.Held
  held := o.held
  waits := o.waits
  keeps op p hp := by
    cases hcall : o.call op with
    | atOnce r =>
        rw [hcall] at hp
        cases hp
    | inSection q =>
        rw [hcall] at hp
        cases hp
        refine (Prog.keeps_look _).bind fun v => (o.keeps op q hcall v).bind fun rv => ?_
        exact (Prog.keeps_assign fun s hs => o.held_set s _ hs).bind fun _ => Prog.keeps_pure _

variable {o}

theorem whole_atOnce {op : ι} {r : ρ} (h : o.call op = .atOnce r) :
    o.whole.call op = .atOnce r := by
  show (match o.call op with
    | .atOnce r => Call.atOnce r
    | .inSection p => .inSection (o.wholeSection op p)) = _
  rw [h]

theorem whole_inSection {op : ι} {p : π → Prog ε σ (ρ × Option π)} (h : o.call op = .inSection p) :
    o.whole.call op = .inSection (o.wholeSection op p) := by
  show (match o.call op with
    | .atOnce r => Call.atOnce r
    | .inSection p => .inSection (o.wholeSection op p)) = _
  rw [h]

end CopyingObject

/-- **The calls that are made come to their end and keep `I`**, whatever is in the cells, and
whatever copy they work on. -/
structure CopyingObject.Works {ε σ ι ρ K π : Type} [DecidableEq K]
    (o : CopyingObject ε σ ι ρ K π) (I : σ → Prop) (Good : ι → Prop) : Prop where
  set : ∀ s f, I s → I (o.cells.set s f)
  section_ends : ∀ s op p q, I s → Good op → o.call op = .inSection p → ∃ s',
    o.acquire s = .ok s' ∧ (p q).Ends o.cells (fun s => I (o.release s)) s'

/-! ## Interleavings -/

namespace Copying

/-- Where a call is. -/
inductive Phase (ε σ ι ρ π : Type) : Type 1
  | idle
  /-- It has been made. -/
  | called (op : ι)
  /-- It has its copy, and has not taken the lock. -/
  | ready (op : ι) (copy : π)
  /-- It holds the lock; `rest` is what it still does. -/
  | inside (op : ι) (rest : Prog ε σ (ρ × Option π))
  /-- It has released the lock, and has still to store `value`. -/
  | left (op : ι) (r : ρ) (value : Option π)
  | returned (op : ι) (r : ρ)

/-- The object while calls are being made on it. -/
structure System (ε σ ι ρ π κ : Type) : Type 1 where
  shared : σ
  phase : κ → Phase ε σ ι ρ π

section

variable {ε σ ι ρ K π κ : Type}

/-- Nobody has called. -/
def System.start (s : σ) : System ε σ ι ρ π κ := ⟨s, fun _ => .idle⟩

/-- The call is in its section. -/
def Phase.IsInside : Phase ε σ ι ρ π → Prop
  | .inside .. => True
  | .idle | .called _ | .ready .. | .left .. | .returned .. => False

/-- The operation that is under way. -/
def Phase.active : Phase ε σ ι ρ π → Option ι
  | .called op | .ready op _ | .inside op _ | .left op _ _ => some op
  | .idle | .returned .. => none

/-- What is still to be stored. -/
def Phase.pending : Phase ε σ ι ρ π → Option π
  | .left _ _ value => value
  | .idle | .called _ | .ready .. | .inside .. | .returned .. => none

variable [DecidableEq κ]

/-- Call `i` goes on at `p`, in the shared state `shared`. -/
def System.goOn (s : System ε σ ι ρ π κ) (i : κ) (shared : σ) (p : Phase ε σ ι ρ π) :
    System ε σ ι ρ π κ :=
  ⟨shared, Function.update s.phase i p⟩

variable [DecidableEq K] (o : CopyingObject ε σ ι ρ K π)

/-- The steps of the calls. The copy is made without the lock, and so is the store. -/
inductive Step : System ε σ ι ρ π κ → Event κ ι ρ → System ε σ ι ρ π κ → Prop
  | invoke {s : System ε σ ι ρ π κ} {i : κ} {op : ι} (at_idle : s.phase i = .idle) :
      Step s (.invoke i op) (s.goOn i s.shared (.called op))
  | atOnce {s : System ε σ ι ρ π κ} {i : κ} {op : ι} {r : ρ} (at_called : s.phase i = .called op)
      (call : o.call op = .atOnce r) :
      Step s (.complete i op r) (s.goOn i s.shared (.left op r none))
  | copy {s : System ε σ ι ρ π κ} {i : κ} {op : ι} {p : π → Prog ε σ (ρ × Option π)}
      (at_called : s.phase i = .called op) (call : o.call op = .inSection p) :
      Step s (.access i) (s.goOn i s.shared (.ready op (o.cells.get s.shared (o.cell op))))
  | lock {s : System ε σ ι ρ π κ} {i : κ} {op : ι} {p : π → Prog ε σ (ρ × Option π)} {q : π}
      {shared : σ} (at_ready : s.phase i = .ready op q) (call : o.call op = .inSection p)
      (acquired : o.acquire s.shared = .ok shared) :
      Step s (.lock i) (s.goOn i shared (.inside op (p q)))
  | access {s : System ε σ ι ρ π κ} {i : κ} {op : ι} {β : Type} {act : σ → Except ε (β × σ)}
      {next : β → Prog ε σ (ρ × Option π)} {b : β} {shared : σ}
      (at_inside : s.phase i = .inside op (.access act next))
      (accessed : act s.shared = .ok (b, shared)) :
      Step s (.access i) (s.goOn i shared (.inside op (next b)))
  | unlock {s : System ε σ ι ρ π κ} {i : κ} {op : ι} {r : ρ} {value : Option π}
      (at_inside : s.phase i = .inside op (.done (r, value))) :
      Step s (.complete i op r) (s.goOn i (o.release s.shared) (.left op r value))
  | ret {s : System ε σ ι ρ π κ} {i : κ} {op : ι} {r : ρ} {value : Option π}
      (at_left : s.phase i = .left op r value) :
      Step s (.ret i r)
        (s.goOn i (o.cells.store (o.cell op) value s.shared) (.returned op r))

/-- The same place in a call of the object without copies. -/
def Phase.whole : Phase ε σ ι ρ π → Monitor.Phase ε σ ι ρ
  | .idle => .idle
  | .called op | .ready op _ => .called op
  | .inside op rest => .inside op (rest >>= o.finish op)
  | .left op r _ => .left op r
  | .returned op r => .returned op r

end

/-! ## No fault, and no call that is stuck -/

section

variable {ε σ ι ρ K π κ : Type} [DecidableEq K] {o : CopyingObject ε σ ι ρ K π} {I : σ → Prop}
  {Good : ι → Prop} {s s' : System ε σ ι ρ π κ} {e : Event κ ι ρ} {i : κ} {op : ι}

/-- **The section that is open** comes to its end, and nobody else is in one. -/
structure InSection (o : CopyingObject ε σ ι ρ K π) (I : σ → Prop) (s : System ε σ ι ρ π κ) (i : κ)
    (op : ι) (rest : Prog ε σ (ρ × Option π)) : Prop where
  phase : s.phase i = .inside op rest
  others : ∀ j, j ≠ i → ¬ (s.phase j).IsInside
  ends : rest.Ends o.cells (fun shared => I (o.release shared)) s.shared
  keeps : rest.Keeps o.Held
  held : o.Held s.shared

/-- The invariant holds, or one call is in its section and will leave it so. -/
def System.Sound (o : CopyingObject ε σ ι ρ K π) (I : σ → Prop) (s : System ε σ ι ρ π κ) : Prop :=
  ((∀ i, ¬ (s.phase i).IsInside) ∧ I s.shared) ∨ ∃ i op rest, InSection o I s i op rest

/-- The invariant of the interleavings, also of those in which calls on one cell overlap. -/
structure Safe (o : CopyingObject ε σ ι ρ K π) (I : σ → Prop) (Good : ι → Prop)
    (s : System ε σ ι ρ π κ) : Prop where
  sound : s.Sound o I
  good : ∀ i op, (s.phase i).active = some op → Good op
  ready : ∀ i op q, s.phase i = .ready op q → ∃ p, o.call op = .inSection p

theorem Safe.start {s₀ : σ} (hinit : I s₀) :
    Safe o I Good (System.start s₀ : System ε σ ι ρ π κ) where
  sound := Or.inl ⟨fun _ => not_false, hinit⟩
  good _ _ h := by cases h
  ready _ _ _ h := by cases h

/-- The call that is inside is the one in its section. -/
theorem System.Sound.inside (h : s.Sound o I) {rest : Prog ε σ (ρ × Option π)}
    (hphase : s.phase i = .inside op rest) : InSection o I s i op rest := by
  have hi : (s.phase i).IsInside := by
    rw [hphase]
    trivial
  rcases h with ⟨hfree, -⟩ | ⟨j, op', rest', hin⟩
  · exact absurd hi (hfree i)
  · by_cases hj : i = j
    · subst hj
      obtain ⟨rfl, rfl⟩ := Phase.inside.inj (hphase.symm.trans hin.phase)
      exact hin
    · exact absurd hi (hin.others i hj)

/-- While nobody is in its section, the invariant holds. -/
theorem System.Sound.free (h : s.Sound o I) (hfree : ∀ i, ¬ (s.phase i).IsInside) :
    I s.shared := by
  rcases h with ⟨-, hI⟩ | ⟨i, op, rest, hin⟩
  · exact hI
  · apply absurd _ (hfree i)
    rw [hin.phase]
    trivial

/-- **No access faults.** -/
theorem Safe.access_ok (h : Safe o I Good s) {β : Type} {act : σ → Except ε (β × σ)}
    {next : β → Prog ε σ (ρ × Option π)} (hphase : s.phase i = .inside op (.access act next)) :
    ∃ b shared, act s.shared = .ok (b, shared) := by
  obtain ⟨b, shared, hact, -⟩ := (h.sound.inside hphase).ends (o.cells.get s.shared)
  rw [o.cells.set_get] at hact
  exact ⟨b, shared, hact⟩

variable [DecidableEq κ]

@[simp] theorem System.goOn_shared (s : System ε σ ι ρ π κ) (i : κ) (shared : σ)
    (p : Phase ε σ ι ρ π) : (s.goOn i shared p).shared = shared := rfl

@[simp] theorem System.goOn_self (s : System ε σ ι ρ π κ) (i : κ) (shared : σ)
    (p : Phase ε σ ι ρ π) : (s.goOn i shared p).phase i = p :=
  Function.update_self ..

theorem System.goOn_ne (s : System ε σ ι ρ π κ) {i j : κ} (shared : σ) (p : Phase ε σ ι ρ π)
    (hj : j ≠ i) : (s.goOn i shared p).phase j = s.phase j :=
  Function.update_of_ne hj ..

/-- A step outside the section, which can change the cells. -/
theorem System.Sound.goOn (hworks : o.Works I Good) (h : s.Sound o I) {p : Phase ε σ ι ρ π}
    (hout : ¬ (s.phase i).IsInside) (hp : ¬ p.IsInside) (f : K → π) :
    (s.goOn i (o.cells.set s.shared f) p).Sound o I := by
  rcases h with ⟨hfree, hI⟩ | ⟨j, op, rest, hin⟩
  · refine Or.inl ⟨fun j => ?_, hworks.set _ f hI⟩
    by_cases hj : j = i
    · subst hj
      rwa [System.goOn_self]
    · rw [System.goOn_ne _ _ _ hj]
      exact hfree j
  · have hji : j ≠ i := by
      rintro rfl
      rw [hin.phase] at hout
      exact hout trivial
    refine Or.inr ⟨j, op, rest, ?_, fun j' hj' => ?_, ?_, hin.keeps, o.held_set _ f hin.held⟩
    · rw [System.goOn_ne _ _ _ hji]
      exact hin.phase
    · by_cases hj : j' = i
      · subst hj
        rwa [System.goOn_self]
      · rw [System.goOn_ne _ _ _ hj]
        exact hin.others j' hj'
    · refine hin.ends.set (fun shared f' hI => ?_) f
      rw [o.release_set]
      exact hworks.set _ f' hI

/-- A step of one call. -/
theorem Safe.move (h : Safe o I Good s) {shared : σ} {p : Phase ε σ ι ρ π}
    (hsound : (s.goOn i shared p).Sound o I) (hgood : ∀ op, p.active = some op → Good op)
    (hready : ∀ op q, p = .ready op q → ∃ p, o.call op = .inSection p) :
    Safe o I Good (s.goOn i shared p) where
  sound := hsound
  good j op hj := by
    by_cases hji : j = i
    · subst hji
      rw [System.goOn_self] at hj
      exact hgood op hj
    · rw [System.goOn_ne _ _ _ hji] at hj
      exact h.good j op hj
  ready j op q hj := by
    by_cases hji : j = i
    · subst hji
      rw [System.goOn_self] at hj
      exact hready op q hj
    · rw [System.goOn_ne _ _ _ hji] at hj
      exact h.ready j op q hj

/-- A step outside the section, with which a call stays under way. -/
theorem Safe.wait (h : Safe o I Good s) (hworks : o.Works I Good) {p : Phase ε σ ι ρ π}
    (hout : ¬ (s.phase i).IsInside) (hp : ¬ p.IsInside)
    (hgood : ∀ op, p.active = some op → Good op)
    (hready : ∀ op q, p = .ready op q → ∃ p, o.call op = .inSection p) :
    Safe o I Good (s.goOn i s.shared p) := by
  have hsound := h.sound.goOn hworks hout hp (o.cells.get s.shared)
  rw [o.cells.set_get] at hsound
  exact h.move hsound hgood hready

/-- **Every step keeps the invariant.** -/
theorem Step.safe (hstep : Step o s e s') (hworks : o.Works I Good) (h : Safe o I Good s)
    (hmade : ∀ i op, e = .invoke i op → Good op) : Safe o I Good s' := by
  cases hstep with
  | invoke at_idle =>
      rename_i i op
      refine h.wait hworks (by rw [at_idle]; exact not_false) not_false ?_ fun _ _ hp => by cases hp
      rintro op' ⟨⟩
      exact hmade i op rfl
  | atOnce at_called call =>
      rename_i i op r
      refine h.wait hworks (by rw [at_called]; exact not_false) not_false ?_
        fun _ _ hp => by cases hp
      rintro op' ⟨⟩
      exact h.good i op (by rw [at_called]; rfl)
  | copy at_called call =>
      rename_i i op p
      refine h.wait hworks (by rw [at_called]; exact not_false) not_false ?_ ?_
      · rintro op' ⟨⟩
        exact h.good i op (by rw [at_called]; rfl)
      · rintro op' q ⟨⟩
        exact ⟨p, call⟩
  | lock at_ready call acquired =>
      rename_i i op p q shared
      have hgood := h.good i op (by rw [at_ready]; rfl)
      refine h.move ?_ (by rintro op' ⟨⟩; exact hgood) fun _ _ hp => by cases hp
      rcases h.sound with ⟨hfree, hI⟩ | ⟨j, op', rest, hin⟩
      · obtain ⟨shared', hacquire, hends⟩ := hworks.section_ends s.shared op p q hI hgood call
        obtain rfl := Except.ok.inj (acquired.symm.trans hacquire)
        refine Or.inr ⟨i, op, p q, System.goOn_self .., fun j hj => ?_, hends,
          o.keeps op p call q, o.held _ _ acquired⟩
        rw [System.goOn_ne _ _ _ hj]
        exact hfree j
      · exact absurd acquired (o.waits _ _ hin.held)
  | access at_inside accessed =>
      rename_i i op β act next b shared
      have hgood := h.good i op (by rw [at_inside]; rfl)
      refine h.move ?_ (by rintro op' ⟨⟩; exact hgood) fun _ _ hp => by cases hp
      obtain ⟨-, hothers, hends, hkeeps, hheld⟩ := h.sound.inside at_inside
      -- what is left of the section comes to its end as well
      obtain ⟨b', shared', hact, hnext⟩ := hends (o.cells.get s.shared)
      rw [o.cells.set_get, accessed] at hact
      obtain ⟨rfl, rfl⟩ := Prod.mk.inj (Except.ok.inj hact)
      cases hkeeps with
      | access hkeep hnextKeeps =>
          refine Or.inr ⟨i, op, next b, System.goOn_self .., fun j hj => ?_, hnext, hnextKeeps b,
            hkeep _ _ _ hheld accessed⟩
          rw [System.goOn_ne _ _ _ hj]
          exact hothers j hj
  | unlock at_inside =>
      rename_i i op r value
      have hgood := h.good i op (by rw [at_inside]; rfl)
      refine h.move ?_ (by rintro op' ⟨⟩; exact hgood) fun _ _ hp => by cases hp
      obtain ⟨-, hothers, hends, -, -⟩ := h.sound.inside at_inside
      refine Or.inl ⟨fun j => ?_, hends⟩
      by_cases hj : j = i
      · subst hj
        rw [System.goOn_self]
        exact not_false
      · rw [System.goOn_ne _ _ _ hj]
        exact hothers j hj
  | ret at_left =>
      rename_i i op r value
      refine h.move ?_ (fun _ hp => by cases hp) fun _ _ hp => by cases hp
      exact h.sound.goOn hworks (p := .returned op r) (by rw [at_left]; exact not_false) not_false _

variable {t : List (Event κ ι ρ × System ε σ ι ρ π κ)}

theorem Safe.run (h : Safe o I Good s) (hworks : o.Works I Good) (hsteps : Run (Step o) s t)
    (hmade : ∀ i op, .invoke i op ∈ labels t → Good op) : Safe o I Good (last s t) := by
  refine hsteps.invariant
    (fun es s => (∀ i op, .invoke i op ∈ es → Good op) → Safe o I Good s) (fun _ => h) ?_ hmade
  intro es s₁ e s₂ hsafe hstep hmade
  apply hstep.safe hworks (hsafe fun i op hi => hmade i op (List.mem_append_left _ hi))
  rintro i op rfl
  exact hmade i op (by simp)

/-- The operation that is called. -/
def made : Event κ ι ρ → Option ι
  | .invoke _ op => some op
  | .lock _ | .access _ | .complete .. | .ret .. => none

/-- **The call can return by itself**, and leave `shared`; nobody else moves. -/
def Returns (o : CopyingObject ε σ ι ρ K π) (s : System ε σ ι ρ π κ) (i : κ) (op : ι) (r : ρ)
    (shared : σ) : Prop :=
  ∃ t, Run (Step o) s t ∧ (last s t).phase i = .returned op r ∧ (last s t).shared = shared
    ∧ (∀ j, j ≠ i → (last s t).phase j = s.phase j) ∧ (labels t).filterMap made = []

/-- A step of the call before it can. -/
theorem Returns.of_step {shared shared' : σ} {p : Phase ε σ ι ρ π} {r : ρ}
    (hstep : Step o s e (s.goOn i shared p)) (he : made e = none)
    (h : Returns o (s.goOn i shared p) i op r shared') : Returns o s i op r shared' := by
  obtain ⟨t, hrun, hreturned, hshared, hothers, hmade⟩ := h
  have hone : Run (Step o) s [(e, s.goOn i shared p)] := Run.nil.snoc hstep
  refine ⟨_, hone.append hrun, ?_, ?_, fun j hj => ?_, ?_⟩
  · rw [last_append]
    exact hreturned
  · rw [last_append]
    exact hshared
  · rw [last_append]
    exact (hothers j hj).trans (System.goOn_ne _ _ _ hj)
  · rw [labels_append, List.filterMap_append, hmade]
    simp [labels, he]

/-- A call that has released the lock stores its cell. -/
theorem returns_of_left {r : ρ} {value : Option π} (hphase : s.phase i = .left op r value) :
    Returns o s i op r (o.cells.store (o.cell op) value s.shared) :=
  ⟨_, Run.nil.snoc (.ret hphase), System.goOn_self .., rfl, fun _ hj => System.goOn_ne _ _ _ hj,
    rfl⟩

/-- A call that has taken the lock runs its section to the end. -/
theorem returns_of_inside {rest : Prog ε σ (ρ × Option π)} {rv : ρ × Option π} {shared : σ}
    (hphase : s.phase i = .inside op rest) (hexec : rest.exec s.shared = .ok (rv, shared)) :
    Returns o s i op rv.1 (o.cells.store (o.cell op) rv.2 (o.release shared)) := by
  induction rest generalizing s with
  | done rv' =>
      obtain ⟨rfl, rfl⟩ := Prod.mk.inj (Except.ok.inj hexec)
      exact .of_step (.unlock hphase) rfl (returns_of_left (System.goOn_self ..))
  | access act next ih =>
      cases hact : act s.shared with
      | error e =>
          rw [Prog.exec, hact] at hexec
          cases hexec
      | ok bs =>
          rw [Prog.exec, hact] at hexec
          exact .of_step (.access hphase hact) rfl (ih bs.1 (System.goOn_self ..) hexec)

/-- A call that has its copy returns, if it can take the lock. -/
theorem returns_of_ready {q : π} {p : π → Prog ε σ (ρ × Option π)} {rv : ρ × Option π}
    {shared shared' : σ} (hphase : s.phase i = .ready op q) (hcall : o.call op = .inSection p)
    (hacquire : o.acquire s.shared = .ok shared) (hexec : (p q).exec shared = .ok (rv, shared')) :
    Returns o s i op rv.1 (o.cells.store (o.cell op) rv.2 (o.release shared')) :=
  .of_step (.lock hphase hcall hacquire) rfl (returns_of_inside (System.goOn_self ..) hexec)

/-- While nobody is in its section, a call that is under way returns. -/
theorem Safe.can_return_of_free (h : Safe o I Good s) (hworks : o.Works I Good)
    (hfree : ∀ i, ¬ (s.phase i).IsInside) (hactive : (s.phase i).active = some op) :
    ∃ r shared, Returns o s i op r shared := by
  have hgood := h.good i op hactive
  have hI := h.sound.free hfree
  cases hphase : s.phase i with
  | idle | returned op' r =>
      rw [hphase] at hactive
      cases hactive
  | inside op' rest => exact absurd (by rw [hphase]; trivial) (hfree i)
  | left op' r value =>
      obtain rfl := Option.some.inj ((congrArg Phase.active hphase).symm.trans hactive)
      exact ⟨r, _, returns_of_left hphase⟩
  | ready op' q =>
      obtain rfl := Option.some.inj ((congrArg Phase.active hphase).symm.trans hactive)
      obtain ⟨p, hcall⟩ := h.ready i op' q hphase
      obtain ⟨shared, hacquire, hends⟩ := hworks.section_ends s.shared op' p q hI hgood hcall
      obtain ⟨rv, shared', hexec, -⟩ := hends.exec
      exact ⟨rv.1, _, returns_of_ready hphase hcall hacquire hexec⟩
  | called op' =>
      obtain rfl := Option.some.inj ((congrArg Phase.active hphase).symm.trans hactive)
      cases hcall : o.call op' with
      | atOnce r =>
          exact ⟨r, _, .of_step (.atOnce hphase hcall) rfl (returns_of_left (System.goOn_self ..))⟩
      | inSection p =>
          -- it makes its copy first
          obtain ⟨shared, hacquire, hends⟩ := hworks.section_ends s.shared op' p
            (o.cells.get s.shared (o.cell op')) hI hgood hcall
          obtain ⟨rv, shared', hexec, -⟩ := hends.exec
          exact ⟨rv.1, _, .of_step (.copy hphase hcall) rfl
            (returns_of_ready (System.goOn_self ..) hcall hacquire hexec)⟩

/-- **Every call that has been made can return**, whatever the others are doing. -/
theorem Safe.can_return (h : Safe o I Good s) (hworks : o.Works I Good)
    (hmade : s.phase i ≠ .idle) :
    ∃ t op r, Run (Step o) s t ∧ (last s t).phase i = .returned op r := by
  cases hactive : (s.phase i).active with
  | none =>
      cases hphase : s.phase i with
      | idle => exact absurd hphase hmade
      | returned op r => exact ⟨[], op, r, Run.nil, hphase⟩
      | called | ready | inside | left =>
          rw [hphase] at hactive
          cases hactive
  | some op =>
      rcases h.sound with ⟨hfree, -⟩ | ⟨j, op', rest, hin⟩
      · obtain ⟨r, shared, t, hrun, hreturned, -⟩ := h.can_return_of_free hworks hfree hactive
        exact ⟨t, op, r, hrun, hreturned⟩
      · -- a call is in its section, which comes to its end
        obtain ⟨rv, shared, hexec, -⟩ := hin.ends.exec
        by_cases hij : i = j
        · subst hij
          obtain ⟨t, hrun, hreturned, -⟩ := returns_of_inside (o := o) hin.phase hexec
          exact ⟨t, op', rv.1, hrun, hreturned⟩
        · -- it was the only one, so the lock is free then
          obtain ⟨t₁, hrun₁, hreturned₁, -, hothers, hnone⟩ :=
            returns_of_inside (o := o) hin.phase hexec
          have hsafe := h.run hworks hrun₁ fun j' op₁ hj' =>
            absurd (List.filterMap_eq_nil_iff.mp hnone _ hj') (by simp [made])
          obtain ⟨r, shared', t₂, hrun₂, hreturned, -⟩ := hsafe.can_return_of_free (i := i) hworks
            (by
              intro j'
              by_cases hj' : j' = j
              · subst hj'
                rw [hreturned₁]
                exact not_false
              · rw [hothers j' hj']
                exact hin.others j' hj')
            (by rwa [hothers i hij])
          refine ⟨t₁ ++ t₂, op, r, hrun₁.append hrun₂, ?_⟩
          rw [last_append]
          exact hreturned

end

end Copying

end Monitor
