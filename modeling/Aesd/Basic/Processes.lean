import Aesd.Basic.Lts

set_option autoImplicit false

/-! # One process

A function that makes system calls is a tree: each call, with what comes after each value it may
return (`Code`). A process runs such code, and after it the code of the caller or another program,
of which nothing is known but that they may end in any way (`Local`). `fork` can come out as the
parent or as the child, and `waitpid` with any end. `Reaches` is a way through the tree; there is a
rule for each call, and two for a function that forks, runs one thing in the child and waits
(`spawn_parent`, `spawn_child`). -/

namespace Unix

open Lts

/-! ## How processes end -/

/-- The end of a process: `exit`, or a signal. -/
inductive Ending
  | exit (code : Int)
  | killed (signal : Nat) (core : Bool)
  deriving DecidableEq

/-- The numbers of signals. -/
def Ending.Valid : Ending → Prop
  | .exit _ => True
  | .killed signal _ => 0 < signal ∧ signal < 127

/-- The word that `waitpid` stores. -/
def Ending.status : Ending → Nat
  | .exit code => (code % 256).toNat * 256
  | .killed signal core => signal + if core then 128 else 0

/-- `WIFEXITED`. -/
def wifexited (status : Nat) : Bool := status % 128 == 0

/-- `WEXITSTATUS`. -/
def wexitstatus (status : Nat) : Nat := status / 256 % 256

/-- **What the word says**: of `exit` the code up to multiples of 256, and of a signal that there
was one. -/
theorem Ending.status_spec {how : Ending} (hvalid : how.Valid) :
    (∃ code, how = .exit code ∧ wifexited how.status = true
        ∧ wexitstatus how.status = (code % 256).toNat)
      ∨ (∃ signal core, how = .killed signal core ∧ wifexited how.status = false) := by
  cases how with
  | exit code =>
      left
      refine ⟨code, rfl, ?_, ?_⟩
      · unfold wifexited
        rw [beq_iff_eq]
        show (code % 256).toNat * 256 % 128 = 0
        omega
      · show (code % 256).toNat * 256 / 256 % 256 = (code % 256).toNat
        omega
  | killed signal core =>
      right
      refine ⟨signal, core, rfl, ?_⟩
      obtain ⟨hpos, hlt⟩ := hvalid
      unfold wifexited
      rw [beq_eq_false_iff_ne]
      cases core with
      | false =>
          show (signal + 0) % 128 ≠ 0
          omega
      | true =>
          show (signal + 128) % 128 ≠ 0
          omega

/-! ## Code -/

/-- The number of a process. -/
abbrev Pid := Nat

/-- A file descriptor. -/
abbrev Fd := Nat

/-- What a function does; `φ` is what a descriptor can be open on. -/
inductive Code (φ α : Type)
  /-- It returns. -/
  | done (value : α)
  | openFile (file : φ) (next : Int → Code φ α)
  | fork (next : Int → Code φ α)
  | dup2 (fd newfd : Fd) (next : Int → Code φ α)
  | close (fd : Fd) (next : Code φ α)
  /-- It goes on with `next` if `execv` fails, as it does on a null pointer. -/
  | execv (path : Option String) (argv : List String) (next : Code φ α)
  | exit (code : Int)
  | abort
  /-- The status, if the call does not fail. -/
  | waitpid (pid : Int) (next : Option Nat → Code φ α)

/-- What a process runs. -/
inductive Life (φ α : Type)
  | runs (code : Code φ α)
  /-- The code the function was called from. -/
  | caller
  /-- The program of a successful `execv`. -/
  | command (path : String) (argv : List String)
  | ended (how : Ending)

/-- A descriptor that is open: on what, and whether `execv` closes it. -/
structure Descriptor (φ : Type) where
  file : φ
  cloexec : Bool
  deriving DecidableEq

/-- What `open` and `dup2` make is not close-on-exec. -/
def Descriptor.plain {φ : Type} (file : φ) : Descriptor φ := ⟨file, false⟩

/-- The table of descriptors. -/
abbrev Fds (φ : Type) := Fd → Option (Descriptor φ)

/-- `dup2` of an open descriptor. Onto itself it changes nothing. -/
def Fds.dup {φ : Type} (fds : Fds φ) (fd newfd : Fd) : Fds φ :=
  if newfd = fd then fds
  else Function.update fds newfd ((fds fd).map fun d => .plain d.file)

/-- What is left of them when `execv` succeeds. -/
def Fds.inherited {φ : Type} (fds : Fds φ) : Fds φ := fun fd => (fds fd).filter fun d => !d.cloexec

/-- A process, with its descriptors. -/
structure Process (φ α : Type) where
  life : Life φ α
  fds : Fds φ

/-- What a process does. -/
inductive Act (α : Type)
  | opened (fd : Fd)
  | openFails
  | forked (child : Pid)
  | forkFails
  /-- It comes out of `fork` as the child. -/
  | born
  | duped
  | dup2Fails
  | closed
  | exec (path : String) (argv : List String)
  | execFails
  | returns (value : α)
  | ends (how : Ending)
  | waited (child : Pid) (how : Ending)
  | waitFails
  deriving DecidableEq

section

variable {φ α : Type}

/-- It has not ended. -/
def Life.Alive : Life φ α → Prop
  | .ended _ => False
  | _ => True

/-- Nothing is known of it but that it may end. -/
def Life.IsProgram : Life φ α → Prop
  | .caller | .command .. => True
  | _ => False

/-- What the calls of the code do in its process. -/
inductive Call : Process φ α → Act α → Process φ α → Prop
  /-- `open` takes the lowest descriptor that is free. -/
  | opened {file : φ} {next : Int → Code φ α} {fds : Fds φ} {fd : Fd}
      (is_free : fds fd = none) (lowest : ∀ fd' < fd, fds fd' ≠ none) :
      Call ⟨.runs (.openFile file next), fds⟩ (.opened fd)
        ⟨.runs (next fd), Function.update fds fd (some (.plain file))⟩
  | openFails {file : φ} {next : Int → Code φ α} {fds : Fds φ} :
      Call ⟨.runs (.openFile file next), fds⟩ .openFails ⟨.runs (next (-1)), fds⟩
  | forked {next : Int → Code φ α} {fds : Fds φ} {child : Pid} (pos : 0 < child) :
      Call ⟨.runs (.fork next), fds⟩ (.forked child) ⟨.runs (next child), fds⟩
  | forkFails {next : Int → Code φ α} {fds : Fds φ} :
      Call ⟨.runs (.fork next), fds⟩ .forkFails ⟨.runs (next (-1)), fds⟩
  | born {next : Int → Code φ α} {fds : Fds φ} :
      Call ⟨.runs (.fork next), fds⟩ .born ⟨.runs (next 0), fds⟩
  | duped {fd newfd : Fd} {next : Int → Code φ α} {fds : Fds φ} (is_open : fds fd ≠ none) :
      Call ⟨.runs (.dup2 fd newfd next), fds⟩ .duped ⟨.runs (next newfd), fds.dup fd newfd⟩
  | dup2Fails {fd newfd : Fd} {next : Int → Code φ α} {fds : Fds φ} :
      Call ⟨.runs (.dup2 fd newfd next), fds⟩ .dup2Fails ⟨.runs (next (-1)), fds⟩
  | closed {fd : Fd} {next : Code φ α} {fds : Fds φ} :
      Call ⟨.runs (.close fd next), fds⟩ .closed ⟨.runs next, Function.update fds fd none⟩
  /-- The program inherits the descriptors that are not close-on-exec. -/
  | exec {path : String} {argv : List String} {next : Code φ α} {fds : Fds φ} :
      Call ⟨.runs (.execv (some path) argv next), fds⟩ (.exec path argv)
        ⟨.command path argv, fds.inherited⟩
  | execFails {path : Option String} {argv : List String} {next : Code φ α} {fds : Fds φ} :
      Call ⟨.runs (.execv path argv next), fds⟩ .execFails ⟨.runs next, fds⟩
  | returns {value : α} {fds : Fds φ} :
      Call ⟨.runs (.done value), fds⟩ (.returns value) ⟨.caller, fds⟩
  | exit {code : Int} {fds : Fds φ} :
      Call ⟨.runs (.exit code), fds⟩ (.ends (.exit code)) ⟨.ended (.exit code), fds⟩
  | waited {child : Pid} {next : Option Nat → Code φ α} {fds : Fds φ} {how : Ending}
      (valid : how.Valid) :
      Call ⟨.runs (.waitpid child next), fds⟩ (.waited child how)
        ⟨.runs (next (some how.status)), fds⟩
  | waitFails {pid : Int} {next : Option Nat → Code φ α} {fds : Fds φ} :
      Call ⟨.runs (.waitpid pid next), fds⟩ .waitFails ⟨.runs (next none), fds⟩

/-- What one process can do, as far as it alone is concerned. -/
inductive Local : Process φ α → Act α → Process φ α → Prop
  | call {proc proc' : Process φ α} {act : Act α} (calls : Call proc act proc') :
      Local proc act proc'
  | exits {life : Life φ α} {fds : Fds φ} {code : Int} (is_program : life.IsProgram) :
      Local ⟨life, fds⟩ (.ends (.exit code)) ⟨.ended (.exit code), fds⟩
  /-- A signal can come at any time; `abort` sends one. -/
  | killed {life : Life φ α} {fds : Fds φ} {signal : Nat} {core : Bool}
      (is_alive : life.Alive) (valid : (Ending.killed signal core).Valid) :
      Local ⟨life, fds⟩ (.ends (.killed signal core)) ⟨.ended (.killed signal core), fds⟩

/-- The process `init` can come to `proc` by the acts. -/
def Reaches (init : Process φ α) (acts : List (Act α)) (proc : Process φ α) : Prop :=
  Leads Local init acts proc

variable {init proc proc' : Process φ α} {acts : List (Act α)} {act : Act α}
  {fds : Fds φ} {value : α}

theorem Reaches.cases (h : Reaches init acts proc) :
    (acts = [] ∧ proc = init)
      ∨ ∃ act acts' mid, acts = act :: acts' ∧ Local init act mid ∧ Reaches mid acts' proc :=
  Leads.cases h

/-- A process that has ended does nothing more. -/
theorem Reaches.of_ended {how : Ending} (h : Reaches ⟨.ended how, fds⟩ acts proc) :
    acts = [] ∧ proc = ⟨.ended how, fds⟩ := by
  rcases h.cases with h | ⟨act, acts', mid, -, hstep, -⟩
  · exact h
  · cases hstep with
    | call calls => cases calls
    | exits is_program => exact absurd is_program id
    | killed is_alive => exact absurd is_alive id

/-- The end by a signal. -/
def Act.Kill (act : Act α) : Prop := ∃ signal core, act = .ends (.killed signal core)

/-- **Code makes its next call**, if no signal comes. -/
theorem Reaches.of_code {code : Code φ α} (h : Reaches ⟨.runs code, fds⟩ acts proc) :
    ((∀ a ∈ acts, a.Kill) ∧ proc.fds = fds)
      ∨ ∃ act acts' mid, acts = act :: acts' ∧ Call ⟨.runs code, fds⟩ act mid
        ∧ Reaches mid acts' proc := by
  rcases h.cases with ⟨rfl, rfl⟩ | ⟨act, acts', mid, rfl, hstep, hrest⟩
  · exact Or.inl ⟨fun a ha => (List.not_mem_nil ha).elim, rfl⟩
  · cases hstep with
    | call calls => exact Or.inr ⟨act, acts', mid, rfl, calls, hrest⟩
    | exits is_program => exact absurd is_program id
    | killed =>
        obtain ⟨rfl, rfl⟩ := hrest.of_ended
        refine Or.inl ⟨fun a ha => ⟨_, _, List.mem_singleton.mp ha⟩, rfl⟩

/-- A program does nothing but end. -/
theorem Reaches.of_program (life : Life φ α) (hlife : life.IsProgram)
    (h : Reaches ⟨life, fds⟩ acts proc) :
    (∀ a ∈ acts, ∃ how, a = .ends how) ∧ proc.fds = fds := by
  rcases h.cases with ⟨rfl, rfl⟩ | ⟨act, acts', mid, rfl, hstep, hrest⟩
  · exact ⟨fun a ha => (List.not_mem_nil ha).elim, rfl⟩
  · cases hstep with
    | call calls => cases calls <;> exact absurd hlife id
    | exits =>
        obtain ⟨rfl, rfl⟩ := hrest.of_ended
        exact ⟨fun a ha => ⟨_, List.mem_singleton.mp ha⟩, rfl⟩
    | killed =>
        obtain ⟨rfl, rfl⟩ := hrest.of_ended
        exact ⟨fun a ha => ⟨_, List.mem_singleton.mp ha⟩, rfl⟩

theorem Local.ends_of_ended {how : Ending} (h : Local proc act proc')
    (hended : proc'.life = .ended how) : act = .ends how := by
  cases h with
  | call calls =>
      cases calls with
      | exit => exact congrArg Act.ends (Life.ended.inj hended)
      | opened | openFails | forked | forkFails | born | duped | dup2Fails | closed | exec
      | execFails | returns | waited | waitFails => cases hended
  | exits => exact congrArg Act.ends (Life.ended.inj hended)
  | killed => exact congrArg Act.ends (Life.ended.inj hended)

/-- Who has ended has done so. -/
theorem Reaches.ends_mem {how : Ending} {code : Code φ α}
    (h : Reaches ⟨.runs code, fds⟩ acts proc) (hended : proc.life = .ended how) :
    .ends how ∈ acts := by
  obtain ⟨t, hrun, rfl, rfl⟩ := h
  cases hrun with
  | nil => cases hended
  | snoc _ hnext =>
      rw [last_concat] at hended
      rw [labels_concat, hnext.ends_of_ended hended]
      exact List.mem_append_right _ (List.mem_singleton.mpr rfl)

/-! ## What the code does in its process -/

theorem Reaches.of_done (h : Reaches ⟨.runs (.done value), fds⟩ acts proc) :
    (∀ a ∈ acts, a = .returns value ∨ ∃ how, a = .ends how) ∧ proc.fds = fds := by
  rcases h.of_code with ⟨hkill, hfds⟩ | ⟨act, acts', mid, rfl, calls, hrest⟩
  · refine ⟨fun a ha => ?_, hfds⟩
    obtain ⟨signal, core, rfl⟩ := hkill a ha
    exact Or.inr ⟨_, rfl⟩
  · cases calls
    obtain ⟨hends, hfds⟩ := Reaches.of_program .caller trivial hrest
    refine ⟨fun a ha => ?_, hfds⟩
    rcases List.mem_cons.mp ha with rfl | ha
    · exact Or.inl rfl
    · exact Or.inr (hends a ha)

/-- Only after the function has returned can its process exit. -/
theorem Reaches.returns_of_exit {n : Int} (h : Reaches ⟨.runs (.done value), fds⟩ acts proc)
    (hexit : .ends (.exit n) ∈ acts) : .returns value ∈ acts := by
  rcases h.of_code with ⟨hkill, -⟩ | ⟨act, acts', mid, rfl, calls, hrest⟩
  · obtain ⟨signal, core, heq⟩ := hkill _ hexit
    cases heq
  · cases calls
    exact List.mem_cons_self

theorem Reaches.of_openFile {file : φ} {next : Int → Code φ α}
    (h : Reaches ⟨.runs (.openFile file next), fds⟩ acts proc) :
    ((∀ a ∈ acts, a.Kill) ∧ proc.fds = fds)
      ∨ (∃ acts', acts = .openFails :: acts' ∧ Reaches ⟨.runs (next (-1)), fds⟩ acts' proc)
      ∨ ∃ (fd : Fd) (acts' : List (Act α)), fds fd = none ∧ (∀ fd' < fd, fds fd' ≠ none)
        ∧ acts = .opened fd :: acts'
        ∧ Reaches ⟨.runs (next fd), Function.update fds fd (some (.plain file))⟩ acts' proc := by
  rcases h.of_code with hkill | ⟨act, acts', mid, rfl, calls, hrest⟩
  · exact Or.inl hkill
  · right
    cases calls with
    | openFails => exact Or.inl ⟨acts', rfl, hrest⟩
    | opened is_free lowest => exact Or.inr ⟨_, acts', is_free, lowest, rfl, hrest⟩

theorem Reaches.of_dup2 {fd newfd : Fd} {next : Int → Code φ α}
    (h : Reaches ⟨.runs (.dup2 fd newfd next), fds⟩ acts proc) :
    ((∀ a ∈ acts, a.Kill) ∧ proc.fds = fds)
      ∨ (∃ acts', acts = .dup2Fails :: acts' ∧ Reaches ⟨.runs (next (-1)), fds⟩ acts' proc)
      ∨ ∃ acts', acts = .duped :: acts'
        ∧ Reaches ⟨.runs (next newfd), fds.dup fd newfd⟩ acts' proc := by
  rcases h.of_code with hkill | ⟨act, acts', mid, rfl, calls, hrest⟩
  · exact Or.inl hkill
  · right
    cases calls with
    | dup2Fails => exact Or.inl ⟨acts', rfl, hrest⟩
    | duped => exact Or.inr ⟨acts', rfl, hrest⟩

theorem Reaches.of_close {fd : Fd} {next : Code φ α}
    (h : Reaches ⟨.runs (.close fd next), fds⟩ acts proc) :
    ((∀ a ∈ acts, a.Kill) ∧ proc.fds = fds)
      ∨ ∃ acts', acts = .closed :: acts'
        ∧ Reaches ⟨.runs next, Function.update fds fd none⟩ acts' proc := by
  rcases h.of_code with hkill | ⟨act, acts', mid, rfl, calls, hrest⟩
  · exact Or.inl hkill
  · cases calls
    exact Or.inr ⟨acts', rfl, hrest⟩

theorem Reaches.of_abort (h : Reaches ⟨.runs .abort, fds⟩ acts proc) : ∀ a ∈ acts, a.Kill := by
  rcases h.of_code with ⟨hkill, -⟩ | ⟨act, acts', mid, rfl, calls, -⟩
  · exact hkill
  · cases calls

theorem Reaches.of_exit {code : Int} (h : Reaches ⟨.runs (.exit code), fds⟩ acts proc) :
    ∀ a ∈ acts, a.Kill ∨ a = .ends (.exit code) := by
  rcases h.of_code with ⟨hkill, -⟩ | ⟨act, acts', mid, rfl, calls, hrest⟩
  · exact fun a ha => Or.inl (hkill a ha)
  · cases calls
    obtain ⟨rfl, -⟩ := hrest.of_ended
    exact fun a ha => Or.inr (List.mem_singleton.mp ha)

/-- `execv` fails, or its program does what it likes. -/
theorem Reaches.of_execv {path : Option String} {argv : List String} {next : Code φ α}
    (h : Reaches ⟨.runs (.execv path argv next), fds⟩ acts proc) :
    (∀ a ∈ acts, a.Kill)
      ∨ (∃ p acts', path = some p ∧ acts = .exec p argv :: acts'
        ∧ (∀ a ∈ acts', ∃ how, a = .ends how) ∧ proc.fds = fds.inherited)
      ∨ ∃ acts', acts = .execFails :: acts' ∧ Reaches ⟨.runs next, fds⟩ acts' proc := by
  rcases h.of_code with ⟨hkill, -⟩ | ⟨act, acts', mid, rfl, calls, hrest⟩
  · exact Or.inl hkill
  · right
    cases calls with
    | exec =>
        obtain ⟨hends, hfds⟩ := Reaches.of_program (.command _ _) trivial hrest
        exact Or.inl ⟨_, acts', rfl, rfl, hends, hfds⟩
    | execFails => exact Or.inr ⟨acts', rfl, hrest⟩

/-- Code that does not fork. -/
def Code.ForkFree : Code φ α → Prop
  | .done _ | .exit _ | .abort => True
  | .openFile _ next => ∀ r, (next r).ForkFree
  | .fork _ => False
  | .dup2 _ _ next => ∀ r, (next r).ForkFree
  | .close _ next => next.ForkFree
  | .execv _ _ next => next.ForkFree
  | .waitpid _ next => ∀ r, (next r).ForkFree

/-- It does not fork, as far as it is known. -/
def Life.ForkFree : Life φ α → Prop
  | .runs code => code.ForkFree
  | _ => True

theorem Local.forkFree (hstep : Local proc act proc') (h : proc.life.ForkFree) :
    act ≠ .born ∧ proc'.life.ForkFree := by
  cases hstep with
  | call calls =>
      cases calls with
      | opened | openFails | duped | dup2Fails | waited | waitFails => exact ⟨by simp, h _⟩
      | forked | forkFails | born => exact absurd h id
      | closed | execFails => exact ⟨by simp, h⟩
      | exec | returns | exit => exact ⟨by simp, trivial⟩
  | exits | killed => exact ⟨by simp, trivial⟩

theorem Reaches.not_born (code : Code φ α) (hfree : code.ForkFree)
    (h : Reaches ⟨.runs code, fds⟩ acts proc) : .born ∉ acts := by
  obtain ⟨t, hrun, rfl, rfl⟩ := h
  refine (hrun.invariant (fun acts proc => .born ∉ acts ∧ proc.life.ForkFree)
    ⟨List.not_mem_nil, hfree⟩ ?_).1
  rintro acts proc act proc' ⟨hborn, hlife⟩ hstep
  obtain ⟨hne, hlife'⟩ := hstep.forkFree hlife
  rw [List.mem_append, List.mem_singleton, not_or]
  exact ⟨⟨hborn, Ne.symm hne⟩, hlife'⟩

/-! ## Spawning -/

/-- `fork`; the child runs `child`, and the parent waits for it and returns the `value` of its
status, if both calls succeed. -/
def Code.spawn (child : Code φ α) (value : Option Nat → α) : Code φ α :=
  .fork fun pid =>
    if pid = -1 then .done (value none)
    else if pid = 0 then child
    else .waitpid pid fun status => .done (value status)

variable {child : Code φ α} {val : Option Nat → α}

theorem Code.spawn_ext (next : Option Nat → Code φ α)
    (h : ∀ status, next status = .done (val status)) :
    (.fork fun pid =>
      if pid = -1 then next none else if pid = 0 then child else .waitpid pid next)
      = Code.spawn child val := by
  obtain rfl : next = fun status => .done (val status) := funext h
  rfl

/-- The two ways on from `fork`, and its failure. -/
theorem Reaches.of_spawn (h : Reaches ⟨.runs (.spawn child val), fds⟩ acts proc) :
    ((∀ a ∈ acts, a.Kill) ∧ proc.fds = fds)
      ∨ (∃ acts', acts = .forkFails :: acts' ∧ Reaches ⟨.runs (.done (val none)), fds⟩ acts' proc)
      ∨ (∃ (pid : Pid) (acts' : List (Act α)), acts = .forked pid :: acts'
        ∧ Reaches ⟨.runs (.waitpid pid fun status => .done (val status)), fds⟩ acts' proc)
      ∨ ∃ acts', acts = .born :: acts' ∧ Reaches ⟨.runs child, fds⟩ acts' proc := by
  rcases h.of_code with hkill | ⟨act, acts', mid, rfl, calls, hrest⟩
  · exact Or.inl hkill
  · right
    unfold Code.spawn at calls
    cases calls with
    | forkFails => exact Or.inl ⟨acts', rfl, hrest⟩
    | forked pos =>
        rename_i pid
        refine Or.inr (Or.inl ⟨pid, acts', rfl, ?_⟩)
        have hparent : ¬ (pid : Int) = 0 := Int.natCast_ne_zero.mpr (Nat.ne_of_gt pos)
        have herror : ¬ (pid : Int) = -1 := by omega
        dsimp only at hrest
        rwa [if_neg herror, if_neg hparent] at hrest
    | born => exact Or.inr (Or.inr ⟨acts', rfl, hrest⟩)

/-- The parent waits, or fails to. -/
theorem Reaches.of_waitpid {pid : Pid}
    (h : Reaches ⟨.runs (.waitpid pid fun status => .done (val status)), fds⟩ acts proc) :
    ((∀ a ∈ acts, a.Kill) ∧ proc.fds = fds)
      ∨ (∃ acts', acts = .waitFails :: acts' ∧ Reaches ⟨.runs (.done (val none)), fds⟩ acts' proc)
      ∨ ∃ how acts', how.Valid ∧ acts = .waited pid how :: acts'
        ∧ Reaches ⟨.runs (.done (val (some how.status))), fds⟩ acts' proc := by
  rcases h.of_code with hkill | ⟨act, acts', mid, rfl, calls, hrest⟩
  · exact Or.inl hkill
  · right
    generalize hpid : (pid : Int) = pid' at calls
    cases calls with
    | waitFails => exact Or.inl ⟨acts', rfl, hrest⟩
    | waited valid =>
        rename_i pid' how
        obtain rfl : pid = pid' := Int.ofNat.inj hpid
        exact Or.inr ⟨how, acts', valid, rfl, hrest⟩

/-- What the parent does in `spawn` if it does not wait. -/
def Act.Fruitless (value : α) : Act α → Prop
  | .forked _ | .forkFails | .waitFails | .ends _ => True
  | .returns v => v = value
  | _ => False

/-- What the parent does in `spawn` if it waits. -/
def Act.Waiting (pid : Pid) (how : Ending) (value : α) : Act α → Prop
  | .forked p => p = pid
  | .waited p e => p = pid ∧ e = how
  | .ends _ => True
  | .returns v => v = value
  | _ => False

theorem fruitless_of_kill (hkill : ∀ a ∈ acts, a.Kill) : ∀ a ∈ acts, a.Fruitless value := by
  intro a ha
  obtain ⟨signal, core, rfl⟩ := hkill a ha
  trivial

theorem fruitless_of_done (h : Reaches ⟨.runs (.done value), fds⟩ acts proc) :
    ∀ a ∈ acts, a.Fruitless value := by
  intro a ha
  rcases h.of_done.1 a ha with rfl | ⟨how, rfl⟩
  · rfl
  · trivial

theorem waiting_of_done {pid : Pid} {how : Ending}
    (h : Reaches ⟨.runs (.done value), fds⟩ acts proc) : ∀ a ∈ acts, a.Waiting pid how value := by
  intro a ha
  rcases h.of_done.1 a ha with rfl | ⟨how, rfl⟩
  · rfl
  · trivial

/-- **The parent** returns what belongs to no status, or to that of the child it has waited for. -/
theorem Reaches.spawn_parent (h : Reaches ⟨.runs (.spawn child val), fds⟩ acts proc)
    (hborn : .born ∉ acts) :
    proc.fds = fds ∧ ((∀ a ∈ acts, a.Fruitless (val none))
      ∨ ∃ pid how, how.Valid ∧ .waited pid how ∈ acts
        ∧ ∀ a ∈ acts, a.Waiting pid how (val (some how.status))) := by
  rcases h.of_spawn with ⟨hkill, hfds⟩ | ⟨acts', rfl, hrest⟩ | ⟨pid, acts', rfl, hrest⟩
    | ⟨acts', rfl, -⟩
  · exact ⟨hfds, Or.inl (fruitless_of_kill hkill)⟩
  · exact ⟨hrest.of_done.2, Or.inl (List.forall_mem_cons.mpr ⟨trivial, fruitless_of_done hrest⟩)⟩
  · rcases hrest.of_waitpid with ⟨hkill, hfds⟩ | ⟨acts', rfl, hdone⟩
      | ⟨how, acts', valid, rfl, hdone⟩
    · exact ⟨hfds, Or.inl (List.forall_mem_cons.mpr ⟨trivial, fruitless_of_kill hkill⟩)⟩
    · refine ⟨hdone.of_done.2, Or.inl (List.forall_mem_cons.mpr ⟨trivial, ?_⟩)⟩
      exact List.forall_mem_cons.mpr ⟨trivial, fruitless_of_done hdone⟩
    · refine ⟨hdone.of_done.2, Or.inr ⟨pid, how, valid, ?_, ?_⟩⟩
      · exact List.mem_cons_of_mem _ List.mem_cons_self
      · refine List.forall_mem_cons.mpr ⟨rfl, List.forall_mem_cons.mpr ⟨⟨rfl, rfl⟩, ?_⟩⟩
        exact waiting_of_done hdone
  · exact absurd List.mem_cons_self hborn

/-- **The child** runs what it is to run, from its birth on. -/
theorem Reaches.spawn_child {pre own : List (Act α)} (hfree : child.ForkFree)
    (h : Reaches ⟨.runs (.spawn child val), fds⟩ (pre ++ .born :: own) proc) :
    pre = [] ∧ Reaches ⟨.runs child, fds⟩ own proc := by
  have hborn : Act.born ∈ pre ++ .born :: own := List.mem_append_right _ List.mem_cons_self
  rcases h.of_spawn with ⟨hkill, -⟩ | ⟨acts', hacts, hrest⟩ | ⟨pid, acts', hacts, hrest⟩
    | ⟨acts', hacts, hrest⟩
  · obtain ⟨signal, core, hkill⟩ := hkill _ hborn
    cases hkill
  · rw [hacts, List.mem_cons] at hborn
    exact absurd (hborn.resolve_left (by simp)) (hrest.not_born (.done _) trivial)
  · rw [hacts, List.mem_cons] at hborn
    exact absurd (hborn.resolve_left (by simp))
      (hrest.not_born (.waitpid _ fun _ => .done _) fun _ => trivial)
  · cases pre with
    | nil =>
        obtain rfl : own = acts' := (List.cons.inj hacts).2
        exact ⟨rfl, hrest⟩
    | cons a pre =>
        obtain rfl : pre ++ .born :: own = acts' := (List.cons.inj hacts).2
        exact absurd (List.mem_append_right _ List.mem_cons_self) (hrest.not_born child hfree)

end

end Unix
