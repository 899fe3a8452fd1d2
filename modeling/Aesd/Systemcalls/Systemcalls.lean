import Aesd.Basic.Forking

set_option autoImplicit false

/-! # Commands in processes of their own

The three functions of the example: `do_system`, `do_exec` and `do_exec_redirect`. All of them fork,
run a command in the child and wait for it, so the value they return is that of `Code.spawn`. What
differs is what becomes of a child in which the command cannot be executed: `do_exec` aborts it and
the shell of `system` exits, while `do_exec_redirect` returns in it. -/

namespace Aesd

open Lts Unix

/-! ## The functions -/

section

variable {φ α : Type}

/-- `do_exec`; `command` holds the arguments after `count`. -/
def doExec (command : List String) : Code φ Bool :=
  .fork fun pid =>
    if pid = -1 then .done false
    else if pid = 0 then .execv command.head? command .abort
    else .waitpid pid fun
      | none => .done false
      | some status => .done (wifexited status && wexitstatus status == 0)

/-- `do_exec_redirect`. -/
def doExecRedirect (outputfile : φ) (command : List String) : Code φ Bool :=
  .openFile outputfile fun fd =>
    if fd < 0 then .done false
    else .fork fun pid =>
      if pid = -1 then .done false
      else if pid = 0 then
        .dup2 fd.toNat 1 fun ret =>
          if ret < 0 then .close fd.toNat (.done false)
          else .close fd.toNat (.execv command.head? command (.done false))
      else .waitpid pid fun
        | none => .done false
        | some status => .done (wifexited status && wexitstatus status == 0)

/-- `system` of the C library: the shell runs the line, and exits with 127 if it cannot be executed.
Without a line it says whether the shell can run at all. -/
def system (cmd : Option String) (next : Int → Code φ α) : Code φ α :=
  match cmd with
  | none => shell "exit 0" fun ret => next (if ret = 0 then 1 else 0)
  | some line => shell line next
where
  /-- The value is the status of the shell, or -1. -/
  shell (line : String) (next : Int → Code φ α) : Code φ α :=
    .fork fun pid =>
      if pid = -1 then next (-1)
      else if pid = 0 then .execv (some "/bin/sh") ["sh", "-c", line] (.exit 127)
      else .waitpid pid fun
        | none => next (-1)
        | some status => next status

/-- `do_system`. -/
def doSystem (cmd : Option String) : Code φ Bool :=
  system cmd fun ret =>
    match cmd with
    | some _ => .done (ret != -1 && (wifexited ret.toNat && wexitstatus ret.toNat == 0))
    | none => .done (ret != 0)

end

/-! ## Each of them spawns a process -/

section

variable {φ : Type}

/-- Process `caller` is about to run `code`. -/
abbrev calling (caller : Pid) (code : Code φ Bool) (fds : Fds φ) : Unix.System φ Bool :=
  Unix.System.start caller ⟨.runs code, fds⟩

/-- What `do_exec` makes of the status. -/
def exitedZero : Option Nat → Bool
  | none => false
  | some status => wifexited status && wexitstatus status == 0

/-- What `do_system` makes of it: without a command, any other status is a failure too. -/
def systemValue : Option String → Option Nat → Bool
  | _, none => false
  | some _, some status => wifexited status && wexitstatus status == 0
  | none, some status => status == 0

/-- The line that the shell is given. -/
def shellLine (cmd : Option String) : String := cmd.getD "exit 0"

/-- What the child of `do_exec_redirect` does. -/
def redirected (fd : Nat) (command : List String) : Code φ Bool :=
  .dup2 fd 1 fun ret =>
    if ret < 0 then .close fd (.done false)
    else .close fd (.execv command.head? command (.done false))

theorem doExec_eq (command : List String) :
    (doExec command : Code φ Bool)
      = .spawn (.execv command.head? command .abort) exitedZero := by
  refine Code.spawn_ext (fun
    | none => .done false
    | some status => .done (wifexited status && wexitstatus status == 0)) ?_
  intro status
  cases status <;> rfl

theorem doSystem_eq (cmd : Option String) :
    (doSystem cmd : Code φ Bool)
      = .spawn (.execv (some "/bin/sh") ["sh", "-c", shellLine cmd] (.exit 127))
          (systemValue cmd) := by
  cases cmd with
  | none =>
      refine Code.spawn_ext (fun
        | none => .done false
        | some status => .done ((if (status : Int) = 0 then (1 : Int) else 0) != 0)) ?_
      intro status
      cases status with
      | none => rfl
      | some status =>
          show Code.done ((if (status : Int) = 0 then (1 : Int) else 0) != 0)
            = .done (status == 0)
          by_cases h : status = 0 <;> simp [h]
  | some line =>
      refine Code.spawn_ext (fun
        | none => .done false
        | some status => .done ((status : Int) != -1
            && (wifexited (status : Int).toNat && wexitstatus (status : Int).toNat == 0))) ?_
      intro status
      cases status with
      | none => rfl
      | some status =>
          have hne : ((status : Int) != -1) = true := by
            rw [bne_iff_ne]
            omega
          dsimp only
          rw [hne, Bool.true_and, Int.toNat_natCast]
          rfl

theorem doExecRedirect_eq (outputfile : φ) (command : List String) :
    doExecRedirect outputfile command
      = .openFile outputfile fun fd =>
          if fd < 0 then .done false else .spawn (redirected fd.toNat command) exitedZero := by
  refine congrArg (Code.openFile outputfile) (funext fun fd => ?_)
  refine congrArg (fun code : Code φ Bool => if fd < 0 then Code.done false else code) ?_
  refine Code.spawn_ext (fun
    | none => .done false
    | some status => .done (wifexited status && wexitstatus status == 0)) ?_
  intro status
  cases status <;> rfl

/-! ## The value -/

/-- It is `true` of a child that has exited with a multiple of 256, and of nothing else. -/
def Checks (val : Option Nat → Bool) : Prop :=
  val none = false ∧ ∀ how : Ending, how.Valid →
    (val (some how.status) = true ↔ ∃ code, how = .exit code ∧ code % 256 = 0)

theorem exitedZero_checks : Checks exitedZero := by
  refine ⟨rfl, fun how hvalid => ?_⟩
  show (wifexited how.status && wexitstatus how.status == 0) = true ↔ _
  rw [Bool.and_eq_true, beq_iff_eq]
  rcases Ending.status_spec hvalid with ⟨code, rfl, hexited, hcode⟩ | ⟨signal, core, rfl, hkilled⟩
  · rw [hexited, hcode]
    constructor
    · rintro ⟨-, h⟩
      exact ⟨code, rfl, by omega⟩
    · rintro ⟨code', heq, h⟩
      obtain rfl := Ending.exit.inj heq
      exact ⟨rfl, by omega⟩
  · rw [hkilled]
    constructor
    · rintro ⟨h, -⟩
      cases h
    · rintro ⟨code, heq, -⟩
      cases heq

theorem systemValue_checks (cmd : Option String) : Checks (systemValue cmd) := by
  cases cmd with
  | some line => exact ⟨rfl, exitedZero_checks.2⟩
  | none =>
      refine ⟨rfl, fun how hvalid => ?_⟩
      show (how.status == 0) = true ↔ _
      rw [beq_iff_eq]
      cases how with
      | exit code =>
          show (code % 256).toNat * 256 = 0 ↔ _
          constructor
          · intro h
            exact ⟨code, rfl, by omega⟩
          · rintro ⟨code', heq, h⟩
            obtain rfl := Ending.exit.inj heq
            omega
      | killed signal core =>
          obtain ⟨hpos, -⟩ := hvalid
          show (signal + if core = true then 128 else 0) = 0 ↔ _
          constructor
          · intro h
            omega
          · rintro ⟨code, heq, -⟩
            cases heq

variable {child : Code φ Bool} {val : Option Nat → Bool} {fds : Fds φ}
  {acts : List (Act Bool)} {proc : Unix.Process φ Bool}

/-- **The value that the parent returns.** -/
theorem returns_iff (hval : Checks val) (h : Reaches ⟨.runs (.spawn child val), fds⟩ acts proc)
    (hborn : .born ∉ acts) {value : Bool} (hvalue : .returns value ∈ acts) :
    value = true ↔ ∃ pid code, .waited pid (.exit code) ∈ acts ∧ code % 256 = 0 := by
  obtain ⟨hnone, hsome⟩ := hval
  rcases (h.spawn_parent hborn).2 with hacts | ⟨pid, how, hvalid, hmem, hacts⟩
  · have hfalse : value = false := (hacts _ hvalue).trans hnone
    rw [hfalse]
    constructor
    · intro h
      cases h
    · rintro ⟨pid, code, hmem, -⟩
      exact absurd (hacts _ hmem) id
  · have heq : value = val (some how.status) := hacts _ hvalue
    rw [heq, hsome how hvalid]
    constructor
    · rintro ⟨code, rfl, hcode⟩
      exact ⟨pid, code, hmem, hcode⟩
    · rintro ⟨pid', code, hmem', hcode⟩
      exact ⟨code, (hacts _ hmem').2.symm, hcode⟩

/-! ## `do_exec` and `do_system` -/

/-- What a process that runs a command leaves behind: only the caller returns, its value says how
the child it has waited for has exited, that child has then executed the command, and nobody has
executed anything else. -/
structure Executes (caller : Pid) (path : Option String) (argv : List String)
    (es : List (Pid × Act Bool)) : Prop where
  only_caller : ∀ p value, (p, .returns value) ∈ es → p = caller
  value_iff : ∀ value, (caller, .returns value) ∈ es →
    (value = true ↔ ∃ pid code, (caller, .waited pid (.exit code)) ∈ es ∧ code % 256 = 0)
  executed : ∀ pid code, (caller, .waited pid (.exit code)) ∈ es → code % 256 = 0 →
    ∃ p, path = some p ∧ (pid, .exec p argv) ∈ es
  only_command : ∀ pid p argv', (pid, .exec p argv') ∈ es →
    pid ≠ caller ∧ path = some p ∧ argv' = argv

/-- Code that is left to a child in which `execv` has failed: it can only die, and not as if
nothing were wrong. -/
def Dies (code : Code φ Bool) : Prop :=
  code.ForkFree ∧ ∀ fds acts proc, Reaches ⟨.runs code, fds⟩ acts proc →
    ∀ a ∈ acts, a.Kill ∨ ∃ n : Int, a = .ends (.exit n) ∧ n % 256 ≠ 0

theorem abort_dies : Dies (.abort : Code φ Bool) :=
  ⟨trivial, fun _ _ _ h a ha => Or.inl (h.of_abort a ha)⟩

theorem exit_dies : Dies (.exit 127 : Code φ Bool) := by
  refine ⟨trivial, fun fds acts proc h a ha => ?_⟩
  exact (h.of_exit a ha).imp id fun ha => ⟨127, ha, by omega⟩

variable {path : Option String} {argv : List String} {next : Code φ Bool}

/-- **What the child does**: it executes the command, fails to, and ends. -/
theorem child_acts (hnext : Dies next)
    (h : Reaches ⟨.runs (.execv path argv next), fds⟩ acts proc) :
    (∀ value, .returns value ∉ acts)
      ∧ (∀ p argv', .exec p argv' ∈ acts → path = some p ∧ argv' = argv)
      ∧ ∀ n : Int, .ends (.exit n) ∈ acts → n % 256 = 0 →
        ∃ p, path = some p ∧ .exec p argv ∈ acts := by
  rcases h.of_execv with hkill | ⟨p, acts', rfl, rfl, hends, -⟩ | ⟨acts', rfl, hrest⟩
  · -- it is killed before the call
    refine ⟨?_, ?_, ?_⟩
    · intro value hmem
      obtain ⟨signal, core, heq⟩ := hkill _ hmem
      cases heq
    · intro p argv' hmem
      obtain ⟨signal, core, heq⟩ := hkill _ hmem
      cases heq
    · intro n hmem
      obtain ⟨signal, core, heq⟩ := hkill _ hmem
      cases heq
  · -- it has become the command, which only ends
    refine ⟨?_, ?_, ?_⟩
    · intro value hmem
      obtain ⟨how, heq⟩ := hends _ ((List.mem_cons.mp hmem).resolve_left (by simp))
      cases heq
    · intro p' argv' hmem
      rcases List.mem_cons.mp hmem with heq | hmem
      · obtain ⟨rfl, rfl⟩ := Act.exec.inj heq
        exact ⟨rfl, rfl⟩
      · obtain ⟨how, heq⟩ := hends _ hmem
        cases heq
    · exact fun n _ _ => ⟨p, rfl, List.mem_cons_self⟩
  · -- `execv` has failed
    have hdies := hnext.2 fds acts' proc hrest
    refine ⟨?_, ?_, ?_⟩
    · intro value hmem
      rcases hdies _ ((List.mem_cons.mp hmem).resolve_left (by simp)) with ⟨_, _, heq⟩ | ⟨n, heq, -⟩
        <;> cases heq
    · intro p argv' hmem
      rcases hdies _ ((List.mem_cons.mp hmem).resolve_left (by simp)) with ⟨_, _, heq⟩ | ⟨n, heq, -⟩
        <;> cases heq
    · intro n hmem hzero
      rcases hdies _ ((List.mem_cons.mp hmem).resolve_left (by simp)) with ⟨_, _, heq⟩
        | ⟨n', heq, hn'⟩
      · cases heq
      · obtain rfl := Ending.exit.inj (Act.ends.inj heq)
        exact absurd hzero hn'

variable {caller : Pid} {t : List ((Pid × Act Bool) × Unix.System φ Bool)}

theorem run_executes (hval : Checks val) (hnext : Dies next)
    (hrun : Run Unix.Step (calling caller (.spawn (.execv path argv next) val) fds) t) :
    Executes caller path argv (labels t) := by
  obtain ⟨acts, proc, hreaches, hborn, -, hacts⟩ := run_caller hrun
  have hfree : Code.ForkFree (.execv path argv next) := hnext.1
  -- everybody else is a child that was to execute the command
  have hchild : ∀ {p act}, p ≠ caller → (p, act) ∈ labels t →
      ∃ own fds proc, Reaches ⟨.runs (.execv path argv next), fds⟩ own proc ∧ act ∈ own := by
    intro p act hne hmem
    obtain ⟨t₁, s', t₂, rfl⟩ := exists_step_of_mem_labels hmem
    obtain ⟨pre, own, proc, -, hreaches, -⟩ := run_act hrun hne
    exact ⟨_, _, _, (hreaches.spawn_child hfree).2, List.mem_append_right _ List.mem_cons_self⟩
  refine ⟨?_, ?_, ?_, ?_⟩
  · intro p value hmem
    by_contra hne
    obtain ⟨own, fds, proc, hown, hvalue⟩ := hchild hne hmem
    exact (child_acts hnext hown).1 value hvalue
  · intro value hmem
    rw [returns_iff hval hreaches hborn ((hacts _).mpr hmem)]
    simp only [hacts]
  · -- a child that exits with 0 has not died of `next`
    intro pid code hmem hzero
    obtain ⟨pre, own, fds', hreaches', hown⟩ := run_waited hrun hmem
    obtain ⟨-, hchild⟩ := hreaches'.spawn_child hfree
    obtain ⟨p, hp, hexec⟩ := (child_acts hnext hchild).2.2 code (hchild.ends_mem rfl) hzero
    exact ⟨p, hp, hown _ hexec⟩
  · intro pid p argv' hmem
    have hne : pid ≠ caller := by
      rintro rfl
      have hexec := (hacts _).mpr hmem
      rcases (hreaches.spawn_parent hborn).2 with h | ⟨pid, how, -, -, h⟩ <;> exact h _ hexec
    obtain ⟨own, fds, proc, hown, hexec⟩ := hchild hne hmem
    exact ⟨hne, (child_acts hnext hown).2.1 p argv' hexec⟩

/-- A run in which the command is executed and exits. -/
theorem spawn_executed (p : String) (argv : List String) (next : Code φ Bool)
    (val : Option Nat → Bool) (fds : Fds φ) (caller : Pid) (n : Int) :
    ∃ t, Run Unix.Step (calling caller (.spawn (.execv (some p) argv next) val) fds) t
      ∧ labels t = [(caller, .forked (caller + 1)), (caller + 1, .exec p argv),
        (caller + 1, .ends (.exit n)), (caller, .waited (caller + 1) (.exit n)),
        (caller, .returns (val (some (Ending.exit n).status)))] := by
  have hne : caller + 1 ≠ caller := Nat.succ_ne_self caller
  have hchild := (alone_start caller ⟨.runs (.spawn (.execv (some p) argv next) val), fds⟩).spawn
    (caller + 1) (Nat.succ_pos caller) hne
  have hexec := hchild.does hne (.call .exec) trivial
  have hexited := hexec.exits hne n trivial
  obtain ⟨s, ⟨t, hrun, hlabels, -⟩, -⟩ := hexited.returns hne trivial
  exact ⟨t, hrun, hlabels⟩

/-- **`do_exec` does what it says**, in every run: it returns `true` exactly if the child has
executed the command and the command has exited with 0. Without arguments it never does. -/
theorem run_doExec {command : List String}
    (hrun : Run Unix.Step (calling caller (doExec command) fds) t) :
    Executes caller command.head? command (labels t) := by
  rw [doExec_eq] at hrun
  exact run_executes exitedZero_checks abort_dies hrun

theorem run_doExec_true : ∃ t : List ((Pid × Act Bool) × Unix.System Unit Bool),
    (1, .returns true) ∈ labels t ∧ Executes 1 (some "/bin/true") ["/bin/true"] (labels t) := by
  obtain ⟨t, hrun, hlabels⟩ := spawn_executed "/bin/true" ["/bin/true"] (.abort : Code Unit Bool)
    exitedZero (fun _ => none) 1 0
  refine ⟨t, ?_, @run_doExec Unit (fun _ => none) 1 t ["/bin/true"] ?_⟩
  · rw [hlabels]
    decide
  · rw [doExec_eq]
    exact hrun

/-- **`do_system`** is the same for the shell. Without a command it asks the shell to exit. -/
theorem run_doSystem {cmd : Option String}
    (hrun : Run Unix.Step (calling caller (doSystem cmd) fds) t) :
    Executes caller (some "/bin/sh") ["sh", "-c", shellLine cmd] (labels t) := by
  rw [doSystem_eq] at hrun
  exact run_executes (systemValue_checks cmd) exit_dies hrun

theorem run_doSystem_exitThree : ∃ t : List ((Pid × Act Bool) × Unix.System Unit Bool),
    (1, .returns false) ∈ labels t
      ∧ Executes 1 (some "/bin/sh") ["sh", "-c", "exit 3"] (labels t) := by
  obtain ⟨t, hrun, hlabels⟩ := spawn_executed "/bin/sh" ["sh", "-c", "exit 3"]
    (.exit 127 : Code Unit Bool) (systemValue (some "exit 3")) (fun _ => none) 1 3
  refine ⟨t, ?_, @run_doSystem Unit (fun _ => none) 1 t (some "exit 3") ?_⟩
  · rw [hlabels]
    decide
  · rw [doSystem_eq]
    exact hrun

/-! ## `do_exec_redirect` -/

/-- What the child of `do_exec_redirect` does before it executes the command or returns. -/
def Prepares : Act Bool → Prop
  | .duped | .dup2Fails | .closed | .execFails => True
  | _ => False

/-- The child is killed, executes the command with its output in the file, or returns, which it does
if one of the calls has failed. -/
inductive Redirected (fds : Fds φ) (fd : Fd) (command : List String)
    (pre post : List (Act Bool)) (proc : Unix.Process φ Bool) : Prop
  | killed (hkill : ∀ a ∈ post, a.Kill)
  | executed (p : String) (rest : List (Act Bool)) (hpath : command.head? = some p)
      (hpost : post = .exec p command :: rest) (hends : ∀ a ∈ rest, ∃ how, a = .ends how)
      (hfds : proc.fds = Fds.inherited (Function.update (fds.dup fd 1) fd none))
  | returned (hfails : .dup2Fails ∈ pre ∨ .execFails ∈ pre)
      (hdone : ∀ a ∈ post, a = .returns false ∨ ∃ how, a = .ends how)
      (hexit : ∀ n : Int, .ends (.exit n) ∈ post → .returns false ∈ post)

theorem redirected_acts {fd : Fd} {command : List String}
    (h : Reaches ⟨.runs (redirected fd command), fds⟩ acts proc) :
    ∃ pre post, acts = pre ++ post ∧ (∀ a ∈ pre, Prepares a)
      ∧ Redirected fds fd command pre post proc := by
  rcases Reaches.of_dup2 h with ⟨hkill, -⟩ | ⟨acts₁, rfl, h₁⟩ | ⟨acts₁, rfl, h₁⟩
  · exact ⟨[], acts, rfl, fun a ha => (List.not_mem_nil ha).elim, .killed hkill⟩
  · rw [if_pos (by decide)] at h₁
    rcases h₁.of_close with ⟨hkill, -⟩ | ⟨acts₂, rfl, h₂⟩
    · exact ⟨[.dup2Fails], acts₁, rfl, by simp [Prepares], .killed hkill⟩
    · refine ⟨[.dup2Fails, .closed], acts₂, rfl, by simp [Prepares], ?_⟩
      exact .returned (Or.inl List.mem_cons_self) h₂.of_done.1 fun n hn => h₂.returns_of_exit hn
  · rw [if_neg (by decide)] at h₁
    rcases h₁.of_close with ⟨hkill, -⟩ | ⟨acts₂, rfl, h₂⟩
    · exact ⟨[.duped], acts₁, rfl, by simp [Prepares], .killed hkill⟩
    · rcases h₂.of_execv with hkill | ⟨p, acts₃, hp, rfl, hends, hfds⟩ | ⟨acts₃, rfl, h₃⟩
      · exact ⟨[.duped, .closed], acts₂, rfl, by simp [Prepares], .killed hkill⟩
      · refine ⟨[.duped, .closed], _, rfl, by simp [Prepares], ?_⟩
        exact .executed p acts₃ hp rfl hends hfds
      · refine ⟨[.duped, .closed, .execFails], acts₃, rfl, by simp [Prepares], ?_⟩
        exact .returned (Or.inr (by simp)) h₃.of_done.1 fun n hn => h₃.returns_of_exit hn

theorem redirected_forkFree (fd : Fd) (command : List String) :
    (redirected fd command : Code φ Bool).ForkFree := by
  intro r
  dsimp only
  split <;> trivial

variable {outputfile : φ} {command : List String}

/-- The child has the file open at the lowest descriptor that was free. -/
theorem redirect_child {pre own : List (Act Bool)}
    (h : Reaches ⟨.runs (doExecRedirect outputfile command), fds⟩ (pre ++ .born :: own) proc) :
    ∃ fd, fds fd = none ∧ (∀ fd' < fd, fds fd' ≠ none)
      ∧ Reaches ⟨.runs (redirected fd command), Function.update fds fd (some (.plain outputfile))⟩ own
        proc := by
  have hborn : Act.born ∈ pre ++ .born :: own := List.mem_append_right _ List.mem_cons_self
  rw [doExecRedirect_eq] at h
  rcases h.of_openFile with ⟨hkill, -⟩ | ⟨acts', hacts, hrest⟩
    | ⟨fd, acts', hfree, hlow, hacts, hrest⟩
  · obtain ⟨signal, core, heq⟩ := hkill _ hborn
    cases heq
  · rw [if_pos (by decide)] at hrest
    rw [hacts, List.mem_cons] at hborn
    exact absurd (hborn.resolve_left (by simp)) (hrest.not_born (.done _) trivial)
  · rw [if_neg (by omega), Int.toNat_natCast] at hrest
    cases pre with
    | nil => cases hacts
    | cons a pre =>
        obtain rfl : acts' = pre ++ .born :: own := (List.cons.inj hacts).2.symm
        exact ⟨fd, hfree, hlow, (hrest.spawn_child (redirected_forkFree fd command)).2⟩

/-- The caller executes nothing. -/
theorem spawn_parent_exec (h : Reaches ⟨.runs (.spawn child val), fds⟩ acts proc)
    (hborn : .born ∉ acts) (p : String) (argv' : List String) : .exec p argv' ∉ acts := by
  intro hmem
  rcases (h.spawn_parent hborn).2 with hacts | ⟨pid, how, -, -, hacts⟩ <;> exact hacts _ hmem

/-- The caller returns what the child deserves, and keeps the file open. -/
theorem redirect_caller
    (h : Reaches ⟨.runs (doExecRedirect outputfile command), fds⟩ acts proc)
    (hborn : .born ∉ acts) :
    (∀ value, .returns value ∈ acts →
        (value = true ↔ ∃ pid code, .waited pid (.exit code) ∈ acts ∧ code % 256 = 0))
      ∧ (∀ p argv, .exec p argv ∉ acts)
      ∧ ∀ fd, .opened fd ∈ acts → proc.fds = Function.update fds fd (some (.plain outputfile)) := by
  rw [doExecRedirect_eq] at h
  rcases h.of_openFile with ⟨hkill, -⟩ | ⟨acts', rfl, hrest⟩ | ⟨fd, acts', -, -, rfl, hrest⟩
  · refine ⟨?_, ?_, ?_⟩
    · intro value hmem
      obtain ⟨signal, core, heq⟩ := hkill _ hmem
      cases heq
    · intro p argv hmem
      obtain ⟨signal, core, heq⟩ := hkill _ hmem
      cases heq
    · intro fd hmem
      obtain ⟨signal, core, heq⟩ := hkill _ hmem
      cases heq
  · -- `open` has failed: there is nothing but the `false` it returns
    rw [if_pos (by decide)] at hrest
    obtain ⟨hdone, -⟩ := hrest.of_done
    have hnot : ∀ a, a ≠ .openFails → (∀ how, a ≠ .ends how) → a ≠ .returns false →
        a ∉ Act.openFails :: acts' := by
      intro a ha hends hfalse hmem
      rcases hdone a ((List.mem_cons.mp hmem).resolve_left ha) with heq | ⟨how, heq⟩
      · exact hfalse heq
      · exact hends how heq
    refine ⟨?_, ?_, ?_⟩
    · intro value hmem
      cases value with
      | true => exact absurd hmem (hnot _ (by simp) (by simp) (by simp))
      | false =>
          refine iff_of_false (by simp) ?_
          rintro ⟨pid, code, hwaited, -⟩
          exact hnot _ (by simp) (by simp) (by simp) hwaited
    · exact fun p argv => hnot _ (by simp) (by simp) (by simp)
    · exact fun fd hmem => absurd hmem (hnot _ (by simp) (by simp) (by simp))
  · -- with the file open it goes on like `do_exec`
    rw [if_neg (by omega), Int.toNat_natCast] at hrest
    have hborn' : .born ∉ acts' := fun hmem => hborn (List.mem_cons_of_mem _ hmem)
    have hmem_iff : ∀ {a : Act Bool}, a ≠ .opened fd →
        (a ∈ Act.opened fd :: acts' ↔ a ∈ acts') := by
      intro a ha
      rw [List.mem_cons, or_iff_right ha]
    refine ⟨?_, ?_, ?_⟩
    · intro value hmem
      rw [returns_iff exitedZero_checks hrest hborn' ((hmem_iff (by simp)).mp hmem)]
      simp only [hmem_iff (show Act.waited _ _ ≠ Act.opened fd by simp)]
    · intro p argv hmem
      exact spawn_parent_exec hrest hborn' p argv ((hmem_iff (by simp)).mp hmem)
    · intro fd' hmem
      obtain ⟨hfds, hacts⟩ := hrest.spawn_parent hborn'
      rcases List.mem_cons.mp hmem with heq | hmem
      · obtain rfl := Act.opened.inj heq
        exact hfds
      · rcases hacts with hacts | ⟨pid, how, -, -, hacts⟩
        · exact absurd (hacts _ hmem) id
        · exact absurd (hacts _ hmem) id

/-- The caller has opened the file and forked, and its child has it as its output. -/
theorem redirect_duped (outputfile : φ) (command : List String) (fds : Fds φ) (caller : Pid)
    (hfree : ∃ fd, fds fd = none) :
    ∃ (fd : Fd) (fds' : Fds φ),
      Both (calling caller (doExecRedirect outputfile command) fds)
        [(caller, .opened fd), (caller, .forked (caller + 1)), (caller + 1, .duped)]
        caller (caller + 1)
        ⟨.runs (.waitpid (caller + 1 : Nat) fun status => .done (exitedZero status)), fds'⟩
        ⟨.runs (.close fd (.execv command.head? command (.done false))), fds'.dup fd 1⟩ := by
  classical
  have hne : caller + 1 ≠ caller := Nat.succ_ne_self caller
  rw [doExecRedirect_eq]
  have hopen := (alone_start caller ⟨.runs (.openFile outputfile fun fd =>
    if fd < 0 then .done false else .spawn (redirected fd.toNat command) exitedZero), fds⟩).own
    (.call (.opened (Nat.find_spec hfree) fun fd' h => Nat.find_min hfree h)) trivial
  rw [if_neg (by omega), Int.toNat_natCast] at hopen
  have hchild := hopen.spawn (caller + 1) (Nat.succ_pos caller) hne
  have hduped := hchild.does hne (.call (.duped (by simp))) trivial
  exact ⟨_, _, hduped⟩

/-- A run in which the command is not executed, and the caller returns `true`. -/
theorem redirect_unexecuted (outputfile : φ) (command : List String) (fds : Fds φ)
    (caller : Pid) (hfree : ∃ fd, fds fd = none) :
    ∃ t fd, Run Unix.Step (calling caller (doExecRedirect outputfile command) fds) t
      ∧ labels t = [(caller, .opened fd), (caller, .forked (caller + 1)), (caller + 1, .duped),
        (caller + 1, .closed), (caller + 1, .execFails), (caller + 1, .returns false),
        (caller + 1, .ends (.exit 0)), (caller, .waited (caller + 1) (.exit 0)),
        (caller, .returns true)] := by
  have hne : caller + 1 ≠ caller := Nat.succ_ne_self caller
  obtain ⟨fd, fds', hduped⟩ := redirect_duped outputfile command fds caller hfree
  have hclosed := hduped.does hne (.call .closed) trivial
  have hfailed := hclosed.does hne (.call .execFails) trivial
  have hreturned := hfailed.does hne (.call .returns) trivial
  have hexited := hreturned.exits hne 0 trivial
  obtain ⟨s, ⟨t, hrun, hlabels, -⟩, -⟩ := hexited.returns hne trivial
  exact ⟨t, fd, hrun, hlabels⟩

/-- **`do_exec_redirect`** returns in its caller as `do_exec` does. But where the command cannot be
executed it returns in the child too: the value is `false` there, and what the code after the call
makes of it decides what the caller gets. -/
theorem run_doExecRedirect
    (hrun : Run Unix.Step (calling caller (doExecRedirect outputfile command) fds) t) :
    (∀ value, (caller, .returns value) ∈ labels t →
        (value = true ↔ ∃ pid code, (caller, .waited pid (.exit code)) ∈ labels t ∧ code % 256 = 0))
      ∧ (∀ pid code, (caller, .waited pid (.exit code)) ∈ labels t →
          (∃ p, command.head? = some p ∧ (pid, .exec p command) ∈ labels t)
            ∨ (pid, .returns false) ∈ labels t)
      ∧ ∀ p value, p ≠ caller → (p, .returns value) ∈ labels t →
          value = false ∧ ((p, .dup2Fails) ∈ labels t ∨ (p, .execFails) ∈ labels t) := by
  obtain ⟨acts, proc, hreaches, hborn, -, hacts⟩ := run_caller hrun
  refine ⟨?_, ?_, ?_⟩
  · intro value hmem
    rw [(redirect_caller hreaches hborn).1 value ((hacts _).mpr hmem)]
    simp only [hacts]
  · intro pid code hmem
    obtain ⟨pre, own, fds', hreaches', hown⟩ := run_waited hrun hmem
    obtain ⟨fd, -, -, hchild⟩ := redirect_child hreaches'
    have hends := hchild.ends_mem rfl
    obtain ⟨pre', post, rfl, hpre, hpost⟩ := redirected_acts hchild
    have hends' : .ends (.exit code) ∈ post :=
      (List.mem_append.mp hends).resolve_left fun hmem => hpre _ hmem
    cases hpost with
    | killed hkill =>
        obtain ⟨signal, core, heq⟩ := hkill _ hends'
        cases heq
    | executed p rest hpath hpost =>
        refine Or.inl ⟨p, hpath, hown _ (List.mem_append_right _ ?_)⟩
        rw [hpost]
        exact List.mem_cons_self
    | returned hfails hdone hexit =>
        exact Or.inr (hown _ (List.mem_append_right _ (hexit code hends')))
  · intro p value hne hmem
    obtain ⟨t₁, s', t₂, rfl⟩ := exists_step_of_mem_labels hmem
    obtain ⟨pre, own, proc', -, hreaches', hown⟩ := run_act hrun hne
    obtain ⟨fd, -, -, hchild⟩ := redirect_child hreaches'
    obtain ⟨pre', post, heq, hpre, hpost⟩ := redirected_acts hchild
    -- the child prepares before it returns, and what has failed is among what it did then
    have hlast : .returns value ∈ post := by
      have hmem' : Act.returns value ∈ pre' ++ post :=
        heq ▸ List.mem_append_right _ List.mem_cons_self
      exact (List.mem_append.mp hmem').resolve_left fun hmem => hpre _ hmem
    have hfailed : ∀ a, a ≠ .returns value → a ∈ pre' →
        (p, a) ∈ labels (t₁ ++ ((p, .returns value), s') :: t₂) := by
      intro a ha hmem
      have hmem' : a ∈ own ++ [.returns value] := heq ▸ List.mem_append_left _ hmem
      rw [labels_append]
      apply List.mem_append_left
      exact hown a ((List.mem_append.mp hmem').resolve_right (by simpa using ha))
    cases hpost with
    | killed hkill =>
        obtain ⟨signal, core, heq⟩ := hkill _ hlast
        cases heq
    | executed q rest hpath hpost hends =>
        rw [hpost] at hlast
        obtain ⟨how, heq⟩ := hends _ ((List.mem_cons.mp hlast).resolve_left (by simp))
        cases heq
    | returned hfails hdone hexit =>
        constructor
        · rcases hdone _ hlast with heq | ⟨how, heq⟩
          · exact Act.returns.inj heq
          · cases heq
        · exact hfails.imp (hfailed _ (by simp)) (hfailed _ (by simp))

theorem run_doExecRedirect_unexecuted : ∃ t : List ((Pid × Act Bool) × Unix.System Unit Bool),
    (1, .returns true) ∈ labels t ∧ (2, .execFails) ∈ labels t ∧ (2, .returns false) ∈ labels t
      ∧ ∀ p value, p ≠ 1 → (p, .returns value) ∈ labels t →
          value = false ∧ ((p, .dup2Fails) ∈ labels t ∨ (p, .execFails) ∈ labels t) := by
  obtain ⟨t, fd, hrun, hlabels⟩ :=
    redirect_unexecuted () ["/no/such"] (fun _ => none) 1 ⟨0, rfl⟩
  refine ⟨t, ?_, ?_, ?_, (run_doExecRedirect hrun).2.2⟩ <;> simp [hlabels]

/-- When the file takes the place of the output. -/
theorem lowest_eq_one {fd : Fd} (hfree : fds fd = none) (hlow : ∀ fd' < fd, fds fd' ≠ none) :
    fd = 1 ↔ fds 0 ≠ none ∧ fds 1 = none := by
  constructor
  · rintro rfl
    exact ⟨hlow 0 Nat.zero_lt_one, hfree⟩
  · rintro ⟨hzero, hone⟩
    rcases Nat.lt_trichotomy fd 1 with h | h | h
    · obtain rfl : fd = 0 := Nat.lt_one_iff.mp h
      exact absurd hfree hzero
    · exact h
    · exact absurd hone (hlow 1 h)

/-- `dup2` of the file that has just been opened. -/
theorem dup_opened (fds : Fds φ) (fd : Fd) (file : φ) :
    Fds.dup (Function.update fds fd (some (.plain file))) fd 1
      = Function.update (Function.update fds fd (some (.plain file))) 1 (some (.plain file)) := by
  unfold Fds.dup
  by_cases h : 1 = fd
  · rw [if_pos h, ← h, Function.update_idem]
  · rw [if_neg h, Function.update_self]
    rfl

/-- **The descriptors**: the caller still has the file open when the function has returned, and the
command has it as its output and else what `execv` leaves of the descriptors of the caller. But if
the caller has its input open and not its output, the file is closed before the command is
executed. -/
theorem run_doExecRedirect_fds
    (hrun : Run Unix.Step (calling caller (doExecRedirect outputfile command) fds) t) :
    (∀ fd proc, (caller, .opened fd) ∈ labels t →
        (last (calling caller (doExecRedirect outputfile command) fds) t).procs caller
          = some proc →
        proc.fds = Function.update fds fd (some (.plain outputfile)))
      ∧ ∀ t₁ t₂ p path argv s', t = t₁ ++ ((p, .exec path argv), s') :: t₂ →
          ∃ proc, s'.procs p = some proc
            ∧ proc.fds 1
              = (if fds 0 ≠ none ∧ fds 1 = none then none else some (.plain outputfile))
            ∧ ∀ fd, fd ≠ 1 → proc.fds fd = fds.inherited fd := by
  constructor
  · intro fd proc hopened hproc
    obtain ⟨acts, proc', hreaches, hborn, hproc', hacts⟩ := run_caller hrun
    obtain rfl : proc = proc' := Option.some.inj (hproc.symm.trans hproc')
    exact (redirect_caller hreaches hborn).2.2 fd ((hacts _).mpr hopened)
  · rintro t₁ t₂ p path argv s' rfl
    obtain ⟨acts, proc', hreaches, hborn, -, hacts⟩ := run_caller hrun
    have hne : p ≠ caller := by
      rintro rfl
      refine (redirect_caller hreaches hborn).2.1 path argv ((hacts _).mpr ?_)
      rw [labels_append]
      exact List.mem_append_right _ List.mem_cons_self
    obtain ⟨pre, own, proc, hproc, hreaches', -⟩ := run_act hrun hne
    obtain ⟨fd, hfree, hlow, hchild⟩ := redirect_child hreaches'
    obtain ⟨pre', post, heq, hpre, hpost⟩ := redirected_acts hchild
    have hexec : .exec path argv ∈ post := by
      have hmem : Act.exec path argv ∈ pre' ++ post :=
        heq ▸ List.mem_append_right _ List.mem_cons_self
      exact (List.mem_append.mp hmem).resolve_left fun hmem => hpre _ hmem
    refine ⟨proc, hproc, ?_⟩
    cases hpost with
    | killed hkill =>
        obtain ⟨signal, core, heq⟩ := hkill _ hexec
        cases heq
    | returned hfails hdone =>
        rcases hdone _ hexec with heq | ⟨how, heq⟩ <;> cases heq
    | executed q rest hpath hpost hends hfds =>
        rw [hfds, dup_opened]
        unfold Fds.inherited
        constructor
        · -- `close(fd)` closes the copy too if the file was opened as the output
          simp only [← lowest_eq_one hfree hlow]
          by_cases h : fd = 1
          · rw [if_pos h, h, Function.update_self]
            rfl
          · rw [if_neg h, Function.update_of_ne (Ne.symm h), Function.update_self]
            rfl
        · intro fd' hfd'
          by_cases h : fd' = fd
          · rw [h, Function.update_self, hfree]
          · rw [Function.update_of_ne h, Function.update_of_ne hfd', Function.update_of_ne h]

theorem run_doExecRedirect_fds_noOutput :
    ∃ (t : List ((Pid × Act Bool) × Unix.System Unit Bool)) (s' : Unix.System Unit Bool)
      (proc : Unix.Process Unit Bool),
      Run Unix.Step
          (calling 1 (doExecRedirect () ["/bin/true"])
            fun fd => if fd = 0 then some (.plain ()) else none)
          (t ++ [((2, .exec "/bin/true" ["/bin/true"]), s')])
        ∧ s'.procs 2 = some proc ∧ proc.fds 1 = none := by
  obtain ⟨fd, fds', hduped⟩ := redirect_duped () ["/bin/true"]
    (fun fd => if fd = 0 then some (.plain ()) else none) 1 ⟨1, rfl⟩
  have hclosed := hduped.does (by decide) (.call .closed) trivial
  obtain ⟨s, ⟨t, hrun, hlabels, rfl⟩, -, hchild, -⟩ := hclosed
  have hexec := hrun.snoc (.own hchild (by trivial) (.call .exec))
  obtain ⟨proc, hproc, hout, -⟩ := (run_doExecRedirect_fds hexec).2 t [] 2 _ _ _ rfl
  exact ⟨t, _, proc, hexec, hproc, hout⟩

/-- **`true` does not mean that the command has been executed**: `execv` fails, the child returns to
the code of the caller, and that code ends well. -/
theorem doExecRedirect_true_unexecuted (outputfile : φ) (command : List String) (caller : Pid)
    (hfree : ∃ fd, fds fd = none) :
    ∃ t, Run Unix.Step (calling caller (doExecRedirect outputfile command) fds) t
      ∧ (caller, .returns true) ∈ labels t ∧ ∀ p path argv, (p, .exec path argv) ∉ labels t := by
  obtain ⟨t, fd, hrun, hlabels⟩ := redirect_unexecuted outputfile command fds caller hfree
  refine ⟨t, hrun, ?_, ?_⟩
  · simp [hlabels]
  · simp [hlabels]

theorem doExecRedirect_true_unexecuted_noSuch :
    ∃ t, Run Unix.Step (calling 1 (doExecRedirect () ["/no/such"]) (fun _ => none)) t
      ∧ (1, .returns true) ∈ labels t ∧ ∀ p path argv, (p, .exec path argv) ∉ labels t :=
  doExecRedirect_true_unexecuted () ["/no/such"] 1 ⟨0, rfl⟩

end

end Aesd
