import Aesd.Basic.Processes

set_option autoImplicit false

/-! # Processes that fork and wait for each other

`fork` copies a process, and `waitpid` takes one off that has ended (`Step`). What one process does
is a run of its own from the beginning, in which the child takes over the past of its parent
(`Past`). `run_caller`, `run_other` and `run_waited` say this of the processes of a run, so what a
function does in all the processes it leads to is a matter of its tree. -/

namespace Unix

open Lts

/-! ## The system -/

/-- The processes, and who has forked whom. -/
structure System (φ α : Type) where
  procs : Pid → Option (Process φ α)
  parent : Pid → Option Pid

/-- One process, nobody's child. -/
def System.start {φ α : Type} (caller : Pid) (init : Process φ α) : System φ α where
  procs := Function.update (fun _ => none) caller (some init)
  parent _ := none

theorem System.start_self {φ α : Type} (caller : Pid) (init : Process φ α) :
    (System.start caller init).procs caller = some init := by
  simp [System.start]

theorem System.start_ne {φ α : Type} {caller p : Pid} (h : p ≠ caller) (init : Process φ α) :
    (System.start caller init).procs p = none := by
  simp [System.start, Function.update_of_ne h]

/-- The acts that do not touch another process. -/
def Act.Own {α : Type} : Act α → Prop
  | .forked _ | .born | .waited .. => False
  | _ => True

/-- The steps of the system: who does what. -/
inductive Step {φ α : Type} : System φ α → Pid × Act α → System φ α → Prop
  | own {s : System φ α} {p : Pid} {proc proc' : Process φ α} {act : Act α}
      (there : s.procs p = some proc) (is_own : act.Own) (does : Local proc act proc') :
      Step s (p, act) { s with procs := Function.update s.procs p (some proc') }
  /-- The child is a copy of the parent, but for what `fork` returns. -/
  | forked {s : System φ α} {p child : Pid} {proc proc' copy : Process φ α}
      (there : s.procs p = some proc) (is_new : s.procs child = none)
      (does : Local proc (.forked child) proc') (born : Local proc .born copy) :
      Step s (p, .forked child)
        { procs := Function.update (Function.update s.procs p (some proc')) child (some copy)
          parent := Function.update s.parent child (some p) }
  /-- A child that has ended is taken off. -/
  | waited {s : System φ α} {p child : Pid} {proc proc' : Process φ α} {how : Ending}
      {fds : Fds φ} (there : s.procs p = some proc)
      (has_ended : s.procs child = some ⟨.ended how, fds⟩) (is_child : s.parent child = some p)
      (does : Local proc (.waited child how) proc') :
      Step s (p, .waited child how)
        { s with procs := Function.update (Function.update s.procs p (some proc')) child none }

section

variable {φ α : Type} {s s' : System φ α} {e : Pid × Act α} {es : List (Pid × Act α)}
  {p caller child : Pid} {init proc proc' : Process φ α} {act : Act α}

/-- The past of a process: what it has taken over from its parent, its birth being the last of it,
and what it has done itself. -/
structure Past (α : Type) where
  before : List (Act α)
  own : List (Act α)

/-- All of it. -/
def Past.acts (past : Past α) : List (Act α) := past.before ++ past.own

/-- One more act of its own. -/
def Past.snoc (past : Past α) (act : Act α) : Past α := { past with own := past.own ++ [act] }

/-- The past of a child. -/
def Past.fork (past : Past α) : Past α := ⟨past.acts ++ [.born], []⟩

theorem Past.acts_snoc (past : Past α) (act : Act α) :
    (past.snoc act).acts = past.acts ++ [act] :=
  (List.append_assoc ..).symm

theorem Past.acts_fork (past : Past α) : past.fork.acts = past.acts ++ [.born] :=
  List.append_nil _

/-- **The invariant**: every process has come where it is by its past, the caller is the only one
that was not born, and what is a process's own in its past has happened. -/
structure Inv (caller : Pid) (init : Process φ α) (past : Pid → Past α) (es : List (Pid × Act α))
    (s : System φ α) : Prop where
  reaches : ∀ p proc, s.procs p = some proc → Reaches init (past p).acts proc
  own : ∀ p, ∀ act ∈ (past p).own, (p, act) ∈ es
  born : ∀ p, p ≠ caller → (s.procs p).isSome → ∃ pre, (past p).before = pre ++ [.born]
  caller_before : (past caller).before = []
  caller_own : ∀ act, (caller, act) ∈ es → act ∈ (past caller).own
  caller_there : (s.procs caller).isSome
  caller_parent : s.parent caller = none

theorem start_inv :
    Inv caller init (fun _ => ⟨[], []⟩) ([] : List (Pid × Act α)) (System.start caller init) where
  reaches p proc hp := by
    by_cases hpc : p = caller
    · rw [hpc, System.start_self, Option.some.injEq] at hp
      rw [← hp]
      exact Leads.nil Local init
    · rw [System.start_ne hpc] at hp
      cases hp
  own p act hact := by cases hact
  born p hne hp := by
    rw [System.start_ne hne] at hp
    cases hp
  caller_before := rfl
  caller_own act hact := by cases hact
  caller_there := by
    rw [System.start_self]
    rfl
  caller_parent := rfl

/-- An act of `p` in its past. -/
theorem Inv.grow {past : Pid → Past α} (h : Inv caller init past es s)
    (there : s.procs p = some proc) (does : Local proc act proc') :
    Inv caller init (Function.update past p ((past p).snoc act)) (es ++ [(p, act)])
      { s with procs := Function.update s.procs p (some proc') } where
  reaches q r hr := by
    by_cases hq : q = p
    · subst hq
      simp only [Function.update_self, Option.some.injEq] at hr
      rw [Function.update_self, Past.acts_snoc, ← hr]
      exact Leads.snoc (h.reaches q proc there) does
    · simp only [Function.update_of_ne hq] at hr
      rw [Function.update_of_ne hq]
      exact h.reaches q r hr
  own q a ha := by
    rw [List.mem_append, List.mem_singleton, Prod.mk.injEq]
    by_cases hq : q = p
    · subst hq
      rw [Function.update_self, Past.snoc, List.mem_append, List.mem_singleton] at ha
      exact ha.imp (h.own q a) fun ha => ⟨rfl, ha⟩
    · rw [Function.update_of_ne hq] at ha
      exact Or.inl (h.own q a ha)
  born q hne hq := by
    by_cases hqp : q = p
    · subst hqp
      rw [Function.update_self]
      exact h.born q hne (by rw [there]; rfl)
    · simp only [Function.update_of_ne hqp] at hq
      rw [Function.update_of_ne hqp]
      exact h.born q hne hq
  caller_before := by
    by_cases hc : caller = p
    · subst hc
      rw [Function.update_self]
      exact h.caller_before
    · rw [Function.update_of_ne hc]
      exact h.caller_before
  caller_own a ha := by
    rw [List.mem_append, List.mem_singleton, Prod.mk.injEq] at ha
    by_cases hc : caller = p
    · subst hc
      rw [Function.update_self, Past.snoc, List.mem_append, List.mem_singleton]
      exact ha.imp (h.caller_own a) And.right
    · rw [Function.update_of_ne hc]
      exact h.caller_own a (ha.resolve_right fun ha => hc ha.1)
  caller_there := by
    by_cases hc : caller = p
    · simp [hc]
    · simp only [Function.update_of_ne hc]
      exact h.caller_there
  caller_parent := h.caller_parent

/-- A process that is new begins with the past of its parent. -/
theorem Inv.fork {past : Pid → Past α} {copy : Process φ α} (h : Inv caller init past es s)
    (is_new : s.procs child = none) (copied : Reaches init ((past p).acts ++ [.born]) copy) :
    Inv caller init (Function.update past child (past p).fork) es
      { procs := Function.update s.procs child (some copy)
        parent := Function.update s.parent child (some p) } := by
  -- the caller is there, so the new process is another one
  have hcaller : caller ≠ child := by
    rintro rfl
    have hthere := h.caller_there
    rw [is_new] at hthere
    cases hthere
  refine ⟨?_, ?_, ?_, ?_, ?_, ?_, ?_⟩
  · intro q r hr
    by_cases hq : q = child
    · subst hq
      simp only [Function.update_self, Option.some.injEq] at hr
      rw [Function.update_self, Past.acts_fork, ← hr]
      exact copied
    · simp only [Function.update_of_ne hq] at hr
      rw [Function.update_of_ne hq]
      exact h.reaches q r hr
  · intro q a ha
    by_cases hq : q = child
    · -- it has not done anything yet
      subst hq
      rw [Function.update_self] at ha
      cases ha
    · rw [Function.update_of_ne hq] at ha
      exact h.own q a ha
  · intro q hne hq
    by_cases hqc : q = child
    · subst hqc
      rw [Function.update_self]
      exact ⟨(past p).acts, rfl⟩
    · simp only [Function.update_of_ne hqc] at hq
      rw [Function.update_of_ne hqc]
      exact h.born q hne hq
  · rw [Function.update_of_ne hcaller]
    exact h.caller_before
  · rw [Function.update_of_ne hcaller]
    exact h.caller_own
  · simp only [Function.update_of_ne hcaller]
    exact h.caller_there
  · simp only [Function.update_of_ne hcaller]
    exact h.caller_parent

/-- A process is taken off. -/
theorem Inv.remove {past : Pid → Past α} (h : Inv caller init past es s) (hne : caller ≠ child) :
    Inv caller init past es { s with procs := Function.update s.procs child none } := by
  have hsub : ∀ {q r}, Function.update s.procs child none q = some r → s.procs q = some r := by
    intro q r hr
    by_cases hq : q = child
    · simp [hq] at hr
    · rwa [Function.update_of_ne hq] at hr
  refine { h with reaches := ?_, born := ?_, caller_there := ?_ }
  · exact fun q r hr => h.reaches q r (hsub hr)
  · intro q hqc hq
    obtain ⟨r, hr⟩ := Option.isSome_iff_exists.mp hq
    exact h.born q hqc (by rw [hsub hr]; rfl)
  · simp only [Function.update_of_ne hne]
    exact h.caller_there

/-- **One step keeps the invariant.** -/
theorem Step.inv {past : Pid → Past α} (hstep : Step s e s') (h : Inv caller init past es s) :
    ∃ past', Inv caller init past' (es ++ [e]) s' := by
  cases hstep with
  | own there is_own does => exact ⟨_, h.grow there does⟩
  | waited there has_ended is_child does =>
      refine ⟨_, (h.grow there does).remove ?_⟩
      rintro rfl
      rw [h.caller_parent] at is_child
      cases is_child
  | forked there is_new does born =>
      rename_i p child proc proc' copy
      have hne : p ≠ child := by
        rintro rfl
        rw [is_new] at there
        cases there
      have hborn := h.fork is_new (Leads.snoc (h.reaches p proc there) born)
      have hthere : Function.update s.procs child (some copy) p = some proc := by
        rwa [Function.update_of_ne hne]
      have hgrown := hborn.grow hthere does
      dsimp only at hgrown
      rw [← Function.update_comm hne (some proc') (some copy) s.procs] at hgrown
      exact ⟨_, hgrown⟩

theorem run_inv {t : List ((Pid × Act α) × System φ α)}
    (hsteps : Run Step (System.start caller init) t) :
    ∃ past, Inv caller init past (labels t) (last (System.start caller init) t) :=
  hsteps.invariant (fun es s => ∃ past, Inv caller init past es s) ⟨_, start_inv⟩
    fun _ _ _ _ ⟨_, h⟩ hstep => hstep.inv h

/-! ## What a run says of its processes -/

theorem Step.local_of (hstep : Step s (p, act) s') :
    ∃ proc proc', s.procs p = some proc ∧ s'.procs p = some proc' ∧ Local proc act proc' := by
  cases hstep with
  | own there is_own does => exact ⟨_, _, there, Function.update_self .., does⟩
  | forked there is_new does =>
      refine ⟨_, _, there, ?_, does⟩
      refine (Function.update_of_ne ?_ ..).trans (Function.update_self ..)
      rintro rfl
      rw [is_new] at there
      cases there
  | waited there has_ended is_child does =>
      refine ⟨_, _, there, ?_, does⟩
      refine (Function.update_of_ne ?_ ..).trans (Function.update_self ..)
      rintro rfl
      rw [has_ended, Option.some.injEq] at there
      subst there
      cases does with
      | call calls => cases calls

variable {t : List ((Pid × Act α) × System φ α)}

theorem Step.not_born (hstep : Step s (p, act) s') : act ≠ .born := by
  cases hstep with
  | own there is_own =>
      rintro rfl
      exact is_own
  | forked | waited => simp

/-- **The caller** was not born, and has come where it is by its acts in the run. -/
theorem run_caller (hsteps : Run Step (System.start caller init) t) :
    ∃ acts proc, Reaches init acts proc ∧ .born ∉ acts
      ∧ (last (System.start caller init) t).procs caller = some proc
      ∧ ∀ act, act ∈ acts ↔ (caller, act) ∈ labels t := by
  obtain ⟨past, h⟩ := run_inv hsteps
  obtain ⟨proc, hproc⟩ := Option.isSome_iff_exists.mp h.caller_there
  have hacts : ∀ act, act ∈ (past caller).acts ↔ (caller, act) ∈ labels t := by
    intro act
    rw [Past.acts, h.caller_before, List.nil_append]
    exact ⟨h.own caller act, h.caller_own act⟩
  refine ⟨_, proc, h.reaches caller proc hproc, ?_, hproc, hacts⟩
  intro hborn
  obtain ⟨t₁, s', t₂, rfl⟩ := exists_step_of_mem_labels ((hacts _).mp hborn)
  exact hsteps.step_of.not_born rfl

/-- **Another process** was born, and has come where it is by what it has done since. -/
theorem run_other (hsteps : Run Step (System.start caller init) t) (hne : p ≠ caller)
    (hproc : (last (System.start caller init) t).procs p = some proc) :
    ∃ pre own, Reaches init (pre ++ .born :: own) proc ∧ ∀ act ∈ own, (p, act) ∈ labels t := by
  obtain ⟨past, h⟩ := run_inv hsteps
  obtain ⟨pre, hpre⟩ := h.born p hne (by rw [hproc]; rfl)
  refine ⟨pre, (past p).own, ?_, h.own p⟩
  have hreaches := h.reaches p proc hproc
  rwa [Past.acts, hpre, List.append_assoc] at hreaches

/-- What another process does is the last of what it has done since its birth. -/
theorem run_act {t₁ t₂ : List ((Pid × Act α) × System φ α)}
    (hsteps : Run Step (System.start caller init) (t₁ ++ ((p, act), s') :: t₂))
    (hne : p ≠ caller) :
    ∃ pre own proc, s'.procs p = some proc ∧ Reaches init (pre ++ .born :: (own ++ [act])) proc
      ∧ ∀ a ∈ own, (p, a) ∈ labels t₁ := by
  obtain ⟨proc, proc', hproc, hproc', does⟩ := hsteps.step_of.local_of
  obtain ⟨pre, own, hreaches, hown⟩ := run_other hsteps.of_append hne hproc
  refine ⟨pre, own, proc', hproc', ?_, hown⟩
  have hnext := Leads.snoc hreaches does
  rwa [List.append_assoc] at hnext

/-- **A process that is waited for** was born, and has come to its end. -/
theorem run_waited {how : Ending} (hsteps : Run Step (System.start caller init) t)
    (hwaited : (p, .waited child how) ∈ labels t) :
    ∃ pre own fds, Reaches init (pre ++ .born :: own) ⟨.ended how, fds⟩
      ∧ ∀ act ∈ own, (child, act) ∈ labels t := by
  obtain ⟨t₁, s', t₂, rfl⟩ := exists_step_of_mem_labels hwaited
  cases hsteps.step_of with
  | own there is_own => exact absurd is_own id
  | waited there has_ended is_child does =>
      obtain ⟨past, h⟩ := run_inv hsteps.of_append
      have hne : child ≠ caller := by
        rintro rfl
        rw [h.caller_parent] at is_child
        cases is_child
      obtain ⟨pre, own, hreaches, hown⟩ := run_other hsteps.of_append hne has_ended
      refine ⟨pre, own, _, hreaches, fun act ha => ?_⟩
      rw [labels_append]
      exact List.mem_append_left _ (hown act ha)

/-! ## Runs with one child

To show that something can happen, it is enough to say what the caller and its child do. -/

/-- It can come to where only the caller is there. -/
def Alone (s₀ : System φ α) (es : List (Pid × Act α)) (p : Pid) (proc : Process φ α) : Prop :=
  ∃ s, Leads Step s₀ es s ∧ s.procs p = some proc ∧ ∀ q, q ≠ p → s.procs q = none

/-- It can come to where the caller and its child are there. -/
def Both (s₀ : System φ α) (es : List (Pid × Act α)) (p child : Pid) (proc copy : Process φ α) :
    Prop :=
  ∃ s, Leads Step s₀ es s ∧ s.procs p = some proc ∧ s.procs child = some copy
    ∧ s.parent child = some p ∧ ∀ q, q ≠ p → q ≠ child → s.procs q = none

variable {s₀ : System φ α} {copy copy' : Process φ α}

theorem alone_start (p : Pid) (proc : Process φ α) : Alone (System.start p proc) [] p proc :=
  ⟨_, Leads.nil Step _, System.start_self p proc, fun _ hq => System.start_ne hq proc⟩

theorem Alone.own (h : Alone s₀ es p proc) (does : Local proc act proc') (is_own : act.Own) :
    Alone s₀ (es ++ [(p, act)]) p proc' := by
  obtain ⟨s, hleads, there, hnone⟩ := h
  refine ⟨_, hleads.snoc (.own there is_own does), Function.update_self .., fun q hq => ?_⟩
  exact (Function.update_of_ne hq ..).trans (hnone q hq)

theorem Alone.forked (h : Alone s₀ es p proc) (hne : child ≠ p)
    (does : Local proc (.forked child) proc') (born : Local proc .born copy) :
    Both s₀ (es ++ [(p, .forked child)]) p child proc' copy := by
  obtain ⟨s, hleads, there, hnone⟩ := h
  refine ⟨_, hleads.snoc (.forked there (hnone child hne) does born), ?_, Function.update_self ..,
    Function.update_self .., fun q hq hqc => ?_⟩
  · exact (Function.update_of_ne hne.symm ..).trans (Function.update_self ..)
  · exact (Function.update_of_ne hqc ..).trans ((Function.update_of_ne hq ..).trans (hnone q hq))

theorem Both.does (h : Both s₀ es p child proc copy) (hne : child ≠ p)
    (does : Local copy act copy') (is_own : act.Own) :
    Both s₀ (es ++ [(child, act)]) p child proc copy' := by
  obtain ⟨s, hleads, there, hcopy, hparent, hnone⟩ := h
  refine ⟨_, hleads.snoc (.own hcopy is_own does), ?_, Function.update_self .., hparent,
    fun q hq hqc => ?_⟩
  · exact (Function.update_of_ne hne.symm ..).trans there
  · exact (Function.update_of_ne hqc ..).trans (hnone q hq hqc)

theorem Both.waited {how : Ending} {fds : Fds φ}
    (h : Both s₀ es p child proc ⟨.ended how, fds⟩) (hne : child ≠ p)
    (does : Local proc (.waited child how) proc') :
    Alone s₀ (es ++ [(p, .waited child how)]) p proc' := by
  obtain ⟨s, hleads, there, hcopy, hparent, hnone⟩ := h
  refine ⟨_, hleads.snoc (.waited there hcopy hparent does), ?_, fun q hq => ?_⟩
  · exact (Function.update_of_ne hne.symm ..).trans (Function.update_self ..)
  · by_cases hqc : q = child
    · exact hqc ▸ Function.update_self ..
    · exact (Function.update_of_ne hqc ..).trans
        ((Function.update_of_ne hq ..).trans (hnone q hq hqc))

variable {fds : Fds φ} {code : Code φ α} {val : Option Nat → α}

theorem Alone.spawn (h : Alone s₀ es p ⟨.runs (.spawn code val), fds⟩) (child : Pid)
    (hpos : 0 < child) (hne : child ≠ p) :
    Both s₀ (es ++ [(p, .forked child)]) p child
      ⟨.runs (.waitpid child fun status => .done (val status)), fds⟩ ⟨.runs code, fds⟩ := by
  refine h.forked hne ?_ (.call .born)
  have hparent : ¬ (child : Int) = 0 := Int.natCast_ne_zero.mpr (Nat.ne_of_gt hpos)
  have herror : ¬ (child : Int) = -1 := by omega
  have hforked : Call ⟨.runs (.spawn code val), fds⟩ (.forked child)
      ⟨.runs (if (child : Int) = -1 then Code.done (val none)
        else if (child : Int) = 0 then code
        else .waitpid child fun status => .done (val status)), fds⟩ := .forked hpos
  rw [if_neg herror, if_neg hparent] at hforked
  exact .call hforked

/-- The program that the child runs exits. -/
theorem Both.exits {life : Life φ α} {fds' : Fds φ}
    (h : Both s₀ es p child proc ⟨life, fds'⟩) (hne : child ≠ p) (n : Int)
    (hlife : life.IsProgram) :
    Both s₀ (es ++ [(child, .ends (.exit n))]) p child proc ⟨.ended (.exit n), fds'⟩ :=
  h.does hne (.exits hlife) trivial

/-- The child has ended, and the parent returns. -/
theorem Both.returns {how : Ending} {fds' : Fds φ}
    (h : Both s₀ es p child ⟨.runs (.waitpid child fun status => .done (val status)), fds⟩
      ⟨.ended how, fds'⟩) (hne : child ≠ p) (hvalid : how.Valid) :
    Alone s₀ (es ++ [(p, .waited child how)] ++ [(p, .returns (val (some how.status)))]) p
      ⟨.caller, fds⟩ :=
  (h.waited hne (.call (.waited hvalid))).own (.call .returns) trivial

end

end Unix
