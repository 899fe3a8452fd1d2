import Aesd.Basic.Lts
import Aesd.Basic.Stages

set_option autoImplicit false

/-! # The life of connections, contexts and threads

`main` accepts connections and hands each to `connection_manager_register_connection`, which
allocates a `connection_ctx` for it, starts a thread with it and puts it into the list of the
manager; the thread destroys the connection when it is done, and `connection_manager_destroy`
joins the threads of the list and frees the contexts. Any thread can end at any time, so these
steps interleave with those of `main`.

Every object goes through its stages in order (`Basic.Stages`), and the state of the process is
known from how far the objects are (`Fits`). At the end all have come to the last stage, but those
for which `pthread_create` has failed are left behind (`run_accounted_iff`). -/

namespace Aesd

open Lts Stages

/-! ## The process -/

/-- A connection, by its number in the order of `accept`. The context that is allocated for it,
and the thread that is started for it, go under the same number. -/
abbrev ClientId := Nat

/-- `connection_ctx_t`: the pointer to the connection, and `thread` once it is set. -/
structure ConnectionCtx where
  connection : Option ClientId
  thread : Option ClientId

/-- Where the main thread is. -/
inductive MainPhase
  /-- At the head of the loop in `main`. -/
  | loop
  /-- In `tcp_server_accept_connection`. -/
  | accept
  /-- In `connection_manager_register_connection`, with a new connection. -/
  | register (c : ClientId)
  /-- The context is allocated. -/
  | create (x : ClientId)
  /-- The thread is started. -/
  | insert (x : ClientId)
  /-- At the head of the loop in `connection_manager_destroy`. -/
  | join
  /-- The thread of the first context has been joined. -/
  | removeHead (x : ClientId)
  /-- The context is out of the list. -/
  | freeCtx (x : ClientId)
  /-- `connection_manager_destroy` has returned. -/
  | returned

/-- Where a thread that has not been joined is in `thread_routine`. -/
inductive ThreadPhase
  /-- In its loop. -/
  | loop
  /-- It has destroyed the connection. -/
  | destroyed
  /-- It has returned. -/
  | finished

/-- The state: the flag of the signal handler, the main thread, the number of connections so far,
the contexts that are allocated, the list of the manager, and the threads that have been started
and not joined. -/
structure Process where
  exitProgram : Bool
  main : MainPhase
  accepted : Nat
  ctx : ClientId → Option ConnectionCtx
  connectionCtxList : List ClientId
  thread : ClientId → Option ThreadPhase

/-- The process when `main` comes to its loop. -/
def Process.start : Process where
  exitProgram := false
  main := .loop
  accepted := 0
  ctx _ := none
  connectionCtxList := []
  thread _ := none

/-- What happens. -/
inductive LifeEvent
  | signal
  | enter
  | accept (c : ClientId)
  | acceptFails
  | mallocCtx (x : ClientId)
  | create (t : ClientId)
  | createFails (x : ClientId)
  | insert (x : ClientId)
  | leave
  | join (t : ClientId)
  | removeHead (x : ClientId)
  | freeCtx (x : ClientId)
  | freeManager
  | destroyConnection (c : ClientId)
  | finish (t : ClientId)
  deriving DecidableEq

/-- The steps of the main thread, of the signal handler and of the connection threads. -/
inductive LifeStep : Process → LifeEvent → Process → Prop
  /-- `signal_handler`, at any time. -/
  | signal {s : Process} : LifeStep s .signal { s with exitProgram := true }
  | enter {s : Process} (at_loop : s.main = .loop) (goes_on : s.exitProgram = false) :
      LifeStep s .enter { s with main := .accept }
  | accept {s : Process} (at_accept : s.main = .accept) :
      LifeStep s (.accept s.accepted)
        { s with main := .register s.accepted, accepted := s.accepted + 1 }
  /-- `accept`, or `tcp_connection_create`, fails. -/
  | acceptFails {s : Process} (at_accept : s.main = .accept) :
      LifeStep s .acceptFails { s with main := .loop }
  | mallocCtx {s : Process} {c : ClientId} (at_register : s.main = .register c) :
      LifeStep s (.mallocCtx c)
        { s with main := .create c, ctx := Function.update s.ctx c (some ⟨some c, none⟩) }
  | create {s : Process} {x : ClientId} (at_create : s.main = .create x) :
      LifeStep s (.create x)
        { s with main := .insert x, thread := Function.update s.thread x (some .loop) }
  /-- `pthread_create` fails: `false` is returned, which `main` does not look at. -/
  | createFails {s : Process} {x : ClientId} (at_create : s.main = .create x) :
      LifeStep s (.createFails x) { s with main := .loop }
  /-- `thread` is set, and the context becomes the head of the list. -/
  | insert {s : Process} {x : ClientId} {ctx : ConnectionCtx} (at_insert : s.main = .insert x)
      (allocated : s.ctx x = some ctx) :
      LifeStep s (.insert x)
        { s with
          main := .loop
          ctx := Function.update s.ctx x (some { ctx with thread := some x })
          connectionCtxList := x :: s.connectionCtxList }
  /-- The loop of `main` ends; `tcp_server_destroy`, and `connection_manager_destroy` is called. -/
  | leave {s : Process} (at_loop : s.main = .loop) (stops : s.exitProgram = true) :
      LifeStep s .leave { s with main := .join }
  /-- `pthread_join` of the first thread waits until it has returned. -/
  | join {s : Process} {x t : ClientId} {rest : List ClientId} {ctx : ConnectionCtx}
      (at_join : s.main = .join) (first : s.connectionCtxList = x :: rest)
      (allocated : s.ctx x = some ctx) (tid : ctx.thread = some t)
      (ended : s.thread t = some .finished) :
      LifeStep s (.join t)
        { s with main := .removeHead x, thread := Function.update s.thread t none }
  | removeHead {s : Process} {x : ClientId} (at_removeHead : s.main = .removeHead x) :
      LifeStep s (.removeHead x)
        { s with main := .freeCtx x, connectionCtxList := s.connectionCtxList.tail }
  | freeCtx {s : Process} {x : ClientId} (at_freeCtx : s.main = .freeCtx x) :
      LifeStep s (.freeCtx x) { s with main := .join, ctx := Function.update s.ctx x none }
  /-- The list is empty: mutex, timer, file name and manager go. -/
  | freeManager {s : Process} (at_join : s.main = .join) (empty : s.connectionCtxList = []) :
      LifeStep s .freeManager { s with main := .returned }
  /-- A thread leaves its loop, because its client has closed or `close_connections` is set, and
  calls `tcp_connection_destroy`. -/
  | destroyConnection {s : Process} {t c : ClientId} {ctx : ConnectionCtx}
      (at_loop : s.thread t = some .loop) (allocated : s.ctx t = some ctx)
      (connection : ctx.connection = some c) :
      LifeStep s (.destroyConnection c)
        { s with thread := Function.update s.thread t (some .destroyed) }
  /-- It sets `connection` to `NULL` and returns. -/
  | finish {s : Process} {t : ClientId} {ctx : ConnectionCtx}
      (at_destroyed : s.thread t = some .destroyed) (allocated : s.ctx t = some ctx) :
      LifeStep s (.finish t)
        { s with
          ctx := Function.update s.ctx t (some { ctx with connection := none })
          thread := Function.update s.thread t (some .finished) }

/-- **Everything is accounted for** in the events of a run. -/
structure Accounted (es : List LifeEvent) : Prop where
  /-- Every connection that was accepted is destroyed exactly once. -/
  connections : ∀ c, .accept c ∈ es → es.count (.destroyConnection c) = 1
  /-- Every context that was allocated is freed exactly once. -/
  contexts : ∀ x, .mallocCtx x ∈ es → es.count (.freeCtx x) = 1
  /-- Every thread that was started is joined exactly once. -/
  threads : ∀ t, .create t ∈ es → es.count (.join t) = 1
  /-- When a context is freed, its thread has been joined. -/
  joined_first : ∀ x es₁ es₂, .create x ∈ es → es = es₁ ++ .freeCtx x :: es₂ → .join x ∈ es₁

/-! ## Stages -/

/-- What goes through stages: the objects of a connection as the main thread sees them, and its
thread. -/
inductive Track
  | main (c : ClientId)
  | thread (c : ClientId)
  deriving DecidableEq

/-- The stage an event enters. -/
def LifeEvent.stage : LifeEvent → Option (Track × Nat)
  | .accept c => some (.main c, 0)
  | .mallocCtx x => some (.main x, 1)
  | .create t => some (.main t, 2)
  | .insert x => some (.main x, 3)
  | .join t => some (.main t, 4)
  | .removeHead x => some (.main x, 5)
  | .freeCtx x => some (.main x, 6)
  | .destroyConnection c => some (.thread c, 0)
  | .finish t => some (.thread t, 1)
  | .signal | .enter | .acceptFails | .createFails _ | .leave | .freeManager => none

/-- The stages that are entered in a run. -/
def stages (es : List LifeEvent) : List (Track × Nat) := es.filterMap LifeEvent.stage

theorem stages_concat (es : List LifeEvent) (e : LifeEvent) :
    stages (es ++ [e]) = stages es ++ e.stage.toList := by
  rw [stages, List.filterMap_append]
  cases h : e.stage <;> simp [stages, h]

/-- The event that enters a stage. -/
def LifeEvent.ofStage : Track × Nat → Option LifeEvent
  | (.main c, 0) => some (.accept c)
  | (.main c, 1) => some (.mallocCtx c)
  | (.main c, 2) => some (.create c)
  | (.main c, 3) => some (.insert c)
  | (.main c, 4) => some (.join c)
  | (.main c, 5) => some (.removeHead c)
  | (.main c, 6) => some (.freeCtx c)
  | (.thread c, 0) => some (.destroyConnection c)
  | (.thread c, 1) => some (.finish c)
  | _ => none

theorem LifeEvent.ofStage_eq {e : LifeEvent} {entry : Track × Nat} (h : e.stage = some entry) :
    LifeEvent.ofStage entry = some e := by
  cases e <;> cases h <;> rfl

/-- No two events enter the same stage. -/
theorem LifeEvent.stage_inj {e e' : LifeEvent} {entry : Track × Nat} (h : e.stage = some entry)
    (h' : e'.stage = some entry) : e = e' :=
  Option.some.inj ((LifeEvent.ofStage_eq h).symm.trans (LifeEvent.ofStage_eq h'))

theorem mem_stages_iff {es : List LifeEvent} {e : LifeEvent} {entry : Track × Nat}
    (h : e.stage = some entry) : entry ∈ stages es ↔ e ∈ es := by
  rw [stages, List.mem_filterMap]
  constructor
  · rintro ⟨e', hmem, h'⟩
    rwa [LifeEvent.stage_inj h h']
  · exact fun hmem => ⟨e, hmem, h⟩

theorem count_stages {es : List LifeEvent} {e : LifeEvent} {entry : Track × Nat}
    (h : e.stage = some entry) : (stages es).count entry = es.count e := by
  induction es with
  | nil => rfl
  | cons e' rest ih =>
      rw [List.count_cons, ← ih, stages, stages]
      by_cases he : e' = e
      · subst he
        rw [List.filterMap_cons_some h]
        simp
      · cases h' : e'.stage with
        | none =>
            rw [List.filterMap_cons_none h']
            simp [he]
        | some entry' =>
            have hne : entry' ≠ entry := by
              rintro rfl
              exact he (LifeEvent.stage_inj h' h)
            rw [List.filterMap_cons_some h']
            simp [he, hne]

/-! ## How far a connection has come -/

/-- The stations of a connection, with its context and its thread. -/
inductive Life
  | unborn
  | accepted
  | allocated
  /-- `pthread_create` has failed. -/
  | refused
  /-- The thread runs, and the context is not in the list yet. -/
  | started (t : ThreadPhase)
  | listed (t : ThreadPhase)
  | joined
  | removed
  | freed

/-- How many stages a thread has entered. -/
def ThreadPhase.stage : ThreadPhase → Nat
  | .loop => 0
  | .destroyed => 1
  | .finished => 2

/-- The connection in the context of a thread. -/
def ThreadPhase.connection (n : ClientId) : ThreadPhase → Option ClientId
  | .loop | .destroyed => some n
  | .finished => none

/-- The connection the main thread works on. -/
def MainPhase.client : MainPhase → Option ClientId
  | .register n | .create n | .insert n | .removeHead n | .freeCtx n => some n
  | .loop | .accept | .join | .returned => none

/-- The connection an event is about. -/
def LifeEvent.client : LifeEvent → Option ClientId
  | .accept n | .mallocCtx n | .create n | .createFails n | .insert n | .join n | .removeHead n
  | .freeCtx n | .destroyConnection n | .finish n => some n
  | .signal | .enter | .acceptFails | .leave | .freeManager => none

namespace Life

/-- How many stages it has entered with the main thread. -/
def mainStage : Life → Nat
  | unborn => 0
  | accepted => 1
  | allocated | refused => 2
  | started _ => 3
  | listed _ => 4
  | joined => 5
  | removed => 6
  | freed => 7

/-- How many stages its thread has entered. -/
def threadStage : Life → Nat
  | unborn | accepted | allocated | refused => 0
  | started t | listed t => t.stage
  | joined | removed | freed => 2

/-- Has the connection been accepted? -/
def Born : Life → Prop
  | unborn => False
  | _ => True

/-- Its context. -/
def ctx (n : ClientId) : Life → Option ConnectionCtx
  | unborn | accepted | freed => none
  | allocated | refused => some ⟨some n, none⟩
  | started t => some ⟨t.connection n, none⟩
  | listed t => some ⟨t.connection n, some n⟩
  | joined | removed => some ⟨none, some n⟩

/-- Its thread. -/
def thread : Life → Option ThreadPhase
  | started t | listed t => some t
  | _ => none

/-- Is the context in the list? -/
def InList : Life → Prop
  | listed _ | joined => True
  | _ => False

/-- Where the main thread is if it works on the connection. -/
def mainPhase (n : ClientId) : Life → Option MainPhase
  | accepted => some (.register n)
  | allocated => some (.create n)
  | started _ => some (.insert n)
  | joined => some (.removeHead n)
  | removed => some (.freeCtx n)
  | unborn | refused | listed _ | freed => none

/-- The way from one station to the next. -/
inductive Next (n : ClientId) : LifeEvent → Life → Life → Prop
  | accept : Next n (.accept n) unborn accepted
  | mallocCtx : Next n (.mallocCtx n) accepted allocated
  | create : Next n (.create n) allocated (started .loop)
  | createFails : Next n (.createFails n) allocated refused
  | insert {t : ThreadPhase} : Next n (.insert n) (started t) (listed t)
  | join : Next n (.join n) (listed .finished) joined
  | removeHead : Next n (.removeHead n) joined removed
  | freeCtx : Next n (.freeCtx n) removed freed
  | destroyStarted : Next n (.destroyConnection n) (started .loop) (started .destroyed)
  | destroyListed : Next n (.destroyConnection n) (listed .loop) (listed .destroyed)
  | finishStarted : Next n (.finish n) (started .destroyed) (started .finished)
  | finishListed : Next n (.finish n) (listed .destroyed) (listed .finished)

/-- An event enters the next stage of the connection or of its thread, or none. -/
theorem Next.stage_cases {n : ClientId} {e : LifeEvent} {l l' : Life} (h : Next n e l l') :
    (e.stage = some (.main n, l.mainStage) ∧ l'.mainStage = l.mainStage + 1
        ∧ l'.threadStage = l.threadStage)
      ∨ (e.stage = some (.thread n, l.threadStage) ∧ l'.mainStage = l.mainStage
        ∧ l'.threadStage = l.threadStage + 1)
      ∨ (e.stage = none ∧ l'.mainStage = l.mainStage ∧ l'.threadStage = l.threadStage) := by
  cases h with
  | destroyStarted | destroyListed | finishStarted | finishListed =>
      exact Or.inr (Or.inl ⟨rfl, rfl, rfl⟩)
  | createFails => exact Or.inr (Or.inr ⟨rfl, rfl, rfl⟩)
  | _ => exact Or.inl ⟨rfl, rfl, rfl⟩

theorem Next.refused_iff {n : ClientId} {e : LifeEvent} {l l' : Life} (h : Next n e l l') :
    l ≠ refused ∧ (l' = refused ↔ e = .createFails n) := by
  cases h <;> simp

theorem Next.client_eq {n : ClientId} {e : LifeEvent} {l l' : Life} (h : Next n e l l') :
    e.client = some n := by
  cases h <;> rfl

/-- Where there is a thread, it has been started, and the context is in the list or not yet. -/
theorem of_thread {l : Life} {t : ThreadPhase} (h : l.thread = some t) :
    l = started t ∨ l = listed t := by
  cases l with
  | started => exact Or.inl (congrArg started (Option.some.inj h))
  | listed => exact Or.inr (congrArg listed (Option.some.inj h))
  | _ => cases h

end Life

/-- The state shows connection `n` at the station `l`. -/
structure Process.ShowsLife (s : Process) (n : ClientId) (l : Life) : Prop where
  accepted : n < s.accepted ↔ l.Born
  ctx : s.ctx n = l.ctx n
  thread : s.thread n = l.thread
  inList : n ∈ s.connectionCtxList ↔ l.InList
  main : l.mainPhase n = if s.main.client = some n then some s.main else none

/-- The events and the state say that connection `n` has come to `l`. -/
structure Fits (es : List LifeEvent) (s : Process) (n : ClientId) (l : Life) : Prop
    extends s.ShowsLife n l where
  mainStage : reached (stages es) (.main n) = l.mainStage
  threadStage : reached (stages es) (.thread n) = l.threadStage
  refused : .createFails n ∈ es ↔ l = .refused

/-- **The invariant**: the stages are entered in order, every connection has come somewhere, and
the list is as the main thread needs it. -/
structure LifeInv (es : List LifeEvent) (s : Process) : Prop where
  orderly : Orderly (stages es)
  nodup : s.connectionCtxList.Nodup
  first : ∀ x, s.main = .removeHead x → s.connectionCtxList.head? = some x
  empty : s.main = .returned → s.connectionCtxList = []
  fits : ∀ n, ∃ l, Fits es s n l

section

variable {es : List LifeEvent} {s s' : Process} {e : LifeEvent} {n m : ClientId} {l : Life}

theorem Process.start_lifeInv : LifeInv [] Process.start where
  orderly := .nil
  nodup := List.nodup_nil
  first := by simp [Process.start]
  empty := fun _ => rfl
  fits n := ⟨.unborn, ⟨⟨iff_of_false (Nat.not_lt_zero n) id, rfl, rfl,
    iff_of_false List.not_mem_nil id, rfl⟩, rfl, rfl, by simp⟩⟩

/-- The stage an event enters is one of the connection it is about. -/
theorem LifeEvent.client_of_stage {k : Track} {j : Nat} (h : e.stage = some (k, j)) :
    ∃ n, e.client = some n ∧ (k = .main n ∨ k = .thread n) := by
  cases e <;> cases h <;> exact ⟨_, rfl, by simp⟩

/-- What is about another connection. -/
theorem reached_stages_ne (hm : e.client ≠ some m) :
    reached (stages (es ++ [e])) (.main m) = reached (stages es) (.main m)
      ∧ reached (stages (es ++ [e])) (.thread m) = reached (stages es) (.thread m) := by
  rw [stages_concat]
  cases h : e.stage with
  | none => simp
  | some entry =>
      obtain ⟨k, j⟩ := entry
      obtain ⟨n, hn, hk⟩ := LifeEvent.client_of_stage h
      have hne : n ≠ m := by
        rintro rfl
        exact hm hn
      constructor <;> refine reached_concat_ne _ _ ?_ <;> rcases hk with rfl | rfl <;> simp [hne]

/-- The objects of connection `m` are the same in both states. -/
structure Process.SameAt (m : ClientId) (s s' : Process) : Prop where
  accepted : m < s'.accepted ↔ m < s.accepted
  ctx : s'.ctx m = s.ctx m
  thread : s'.thread m = s.thread m
  inList : m ∈ s'.connectionCtxList ↔ m ∈ s.connectionCtxList
  main : s'.main = s.main ∨ s.main.client ≠ some m ∧ s'.main.client ≠ some m

theorem Process.ShowsLife.same (h : s.ShowsLife m l) (hsame : s.SameAt m s') :
    s'.ShowsLife m l where
  accepted := hsame.accepted.trans h.accepted
  ctx := hsame.ctx.trans h.ctx
  thread := hsame.thread.trans h.thread
  inList := hsame.inList.trans h.inList
  main := by
    rw [h.main]
    rcases hsame.main with heq | ⟨hbefore, hafter⟩
    · rw [heq]
    · rw [if_neg hbefore, if_neg hafter]

/-- A step about another connection leaves this one where it is. -/
theorem Fits.frame (h : Fits es s m l) (hm : e.client ≠ some m) (hsame : s.SameAt m s') :
    Fits (es ++ [e]) s' m l where
  toShowsLife := h.toShowsLife.same hsame
  mainStage := (reached_stages_ne hm).1.trans h.mainStage
  threadStage := (reached_stages_ne hm).2.trans h.threadStage
  refused := by
    rw [List.mem_append, List.mem_singleton, ← h.refused]
    refine or_iff_left ?_
    rintro rfl
    exact hm rfl

/-- What the events say of a connection that has gone on to its next station. -/
theorem Fits.reached_next {l' : Life} (h : Fits es s n l) (hnext : l.Next n e l') :
    reached (stages (es ++ [e])) (.main n) = l'.mainStage
      ∧ reached (stages (es ++ [e])) (.thread n) = l'.threadStage := by
  rw [stages_concat]
  rcases hnext.stage_cases with ⟨hstage, hm, ht⟩ | ⟨hstage, hm, ht⟩ | ⟨hstage, hm, ht⟩
  · rw [hstage, Option.toList_some, reached_concat_self, reached_concat_ne _ _ (by simp),
      h.mainStage, h.threadStage, hm, ht]
    exact ⟨rfl, rfl⟩
  · rw [hstage, Option.toList_some, reached_concat_self, reached_concat_ne _ _ (by simp),
      h.mainStage, h.threadStage, hm, ht]
    exact ⟨rfl, rfl⟩
  · rw [hstage, Option.toList_none, List.append_nil, h.mainStage, h.threadStage, hm, ht]
    exact ⟨rfl, rfl⟩

/-- A step on the way of this connection. -/
theorem Fits.next {l' : Life} (h : Fits es s n l) (hnext : l.Next n e l')
    (hshows : s'.ShowsLife n l') : Fits (es ++ [e]) s' n l' where
  toShowsLife := hshows
  mainStage := (h.reached_next hnext).1
  threadStage := (h.reached_next hnext).2
  refused := by
    obtain ⟨hold, hnew⟩ := hnext.refused_iff
    rw [List.mem_append, List.mem_singleton, h.refused, hnew, eq_comm (a := e)]
    exact or_iff_right hold

/-- **One connection goes on to its next station**, and the others stay. -/
theorem LifeInv.next {l' : Life} (h : LifeInv es s) (hl : Fits es s n l) (hnext : l.Next n e l')
    (hshows : s'.ShowsLife n l') (hsame : ∀ m, m ≠ n → s.SameAt m s')
    (hnodup : s'.connectionCtxList.Nodup)
    (hfirst : ∀ x, s'.main = .removeHead x → s'.connectionCtxList.head? = some x)
    (hempty : s'.main = .returned → s'.connectionCtxList = []) : LifeInv (es ++ [e]) s' where
  orderly := by
    rw [stages_concat]
    rcases hnext.stage_cases with ⟨hstage, -⟩ | ⟨hstage, -⟩ | ⟨hstage, -⟩
    · rw [hstage, ← hl.mainStage]
      exact h.orderly.snoc
    · rw [hstage, ← hl.threadStage]
      exact h.orderly.snoc
    · rw [hstage, Option.toList_none, List.append_nil]
      exact h.orderly
  nodup := hnodup
  first := hfirst
  empty := hempty
  fits m := by
    by_cases hm : m = n
    · subst hm
      exact ⟨l', hl.next hnext hshows⟩
    · obtain ⟨lm, hlm⟩ := h.fits m
      have hother : e.client ≠ some m := by
        rw [hnext.client_eq]
        exact fun heq => hm (Option.some.inj heq).symm
      exact ⟨lm, hlm.frame hother (hsame m hm)⟩

/-- **The thread of a connection goes on**; the main thread and the list are as they were. -/
theorem LifeInv.nextOfThread {l' : Life} (h : LifeInv es s) (hl : Fits es s n l)
    (hnext : l.Next n e l') (hborn : l'.Born ↔ l.Born) (hin : l'.InList ↔ l.InList)
    (hmain : l'.mainPhase n = l.mainPhase n) :
    LifeInv (es ++ [e])
      { s with
        ctx := Function.update s.ctx n (l'.ctx n)
        thread := Function.update s.thread n l'.thread } := by
  refine h.next hl hnext
    ⟨hl.accepted.trans hborn.symm, Function.update_self .., Function.update_self ..,
      hl.inList.trans hin.symm, hmain.trans hl.main⟩
    (fun m hm => ?_) h.nodup h.first h.empty
  exact ⟨Iff.rfl, Function.update_of_ne hm .., Function.update_of_ne hm .., Iff.rfl, Or.inl rfl⟩

/-- A step that is about no connection. -/
theorem LifeInv.quiet (h : LifeInv es s) (he : e.client = none) {exit : Bool} {p : MainPhase}
    (hp : p = s.main ∨ s.main.client = none ∧ p.client = none)
    (hempty : p = .returned → s.connectionCtxList = []) :
    LifeInv (es ++ [e]) { s with exitProgram := exit, main := p } where
  orderly := by
    have hstage : e.stage = none := by
      rw [Option.eq_none_iff_forall_ne_some]
      rintro ⟨k, j⟩ hstage
      obtain ⟨n, hn, -⟩ := LifeEvent.client_of_stage hstage
      rw [he] at hn
      cases hn
    rw [stages_concat, hstage, Option.toList_none, List.append_nil]
    exact h.orderly
  nodup := h.nodup
  first := by
    rintro x rfl
    rcases hp with hp | ⟨-, hp⟩
    · exact h.first x hp.symm
    · cases hp
  empty := hempty
  fits m := by
    obtain ⟨lm, hlm⟩ := h.fits m
    refine ⟨lm, hlm.frame (by simp [he]) ⟨Iff.rfl, rfl, rfl, Iff.rfl, ?_⟩⟩
    exact hp.imp id fun ⟨hbefore, hafter⟩ => by simp [hbefore, hafter]

/-! ## Steps -/

/-- The station of the connection the main thread works on. -/
theorem Fits.mainPhase_eq (h : Fits es s n l) {p : MainPhase} (hp : s.main = p)
    (hn : p.client = some n) : l.mainPhase n = some p := by
  rw [h.main, hp, if_pos hn]

/-- A step of the main thread with connection `n`, before or after it. -/
theorem MainPhase.elsewhere {p p' : MainPhase} (hp : p.client = none ∨ p.client = some n)
    (hp' : p'.client = none ∨ p'.client = some n) (hm : m ≠ n) :
    p.client ≠ some m ∧ p'.client ≠ some m := by
  have hne : ∀ {q : MainPhase}, (q.client = none ∨ q.client = some n) → q.client ≠ some m := by
    rintro q hq heq
    rcases hq with hq | hq <;> rw [heq] at hq
    · cases hq
    · exact hm (Option.some.inj hq)
  exact ⟨hne hp, hne hp'⟩

/-- **Every step keeps the invariant.** -/
theorem LifeStep.lifeInv (hstep : LifeStep s e s') (h : LifeInv es s) : LifeInv (es ++ [e]) s' := by
  cases hstep with
  | signal => exact h.quiet rfl (Or.inl rfl) h.empty
  | enter at_loop | acceptFails at_accept | leave at_loop =>
      exact h.quiet rfl (Or.inr ⟨by simp [MainPhase.client, *], rfl⟩) (by simp)
  | freeManager at_join empty =>
      exact h.quiet rfl (Or.inr ⟨by rw [at_join]; rfl, rfl⟩) fun _ => empty
  | accept at_accept =>
      -- the next number has not been given to a connection yet
      obtain ⟨l, hl⟩ := h.fits s.accepted
      obtain rfl : l = .unborn := by
        cases l with
        | unborn => rfl
        | _ => exact absurd (hl.accepted.mpr trivial) (Nat.lt_irrefl _)
      refine h.next hl .accept ⟨?_, hl.ctx, hl.thread, hl.inList, (if_pos rfl).symm⟩
        (fun m hm => ⟨?_, rfl, rfl, Iff.rfl, Or.inr ?_⟩) h.nodup (by simp) (by simp)
      · exact iff_of_true (Nat.lt_succ_self _) trivial
      · exact Nat.lt_succ_iff_lt_or_eq.trans (or_iff_left hm)
      · exact MainPhase.elsewhere (by rw [at_accept]; exact Or.inl rfl) (Or.inr rfl) hm
  | mallocCtx at_register =>
      rename_i c
      obtain ⟨l, hl⟩ := h.fits c
      have hphase := hl.mainPhase_eq at_register rfl
      obtain rfl : l = .accepted := by cases l <;> first | rfl | cases hphase
      refine h.next hl .mallocCtx
        ⟨hl.accepted, Function.update_self .., hl.thread, hl.inList, (if_pos rfl).symm⟩
        (fun m hm => ⟨Iff.rfl, Function.update_of_ne hm .., rfl, Iff.rfl, Or.inr ?_⟩)
        h.nodup (by simp) (by simp)
      exact MainPhase.elsewhere (by rw [at_register]; exact Or.inr rfl) (Or.inr rfl) hm
  | create at_create =>
      rename_i x
      obtain ⟨l, hl⟩ := h.fits x
      have hphase := hl.mainPhase_eq at_create rfl
      obtain rfl : l = .allocated := by cases l <;> first | rfl | cases hphase
      refine h.next hl .create
        ⟨hl.accepted, hl.ctx, Function.update_self .., hl.inList, (if_pos rfl).symm⟩
        (fun m hm => ⟨Iff.rfl, rfl, Function.update_of_ne hm .., Iff.rfl, Or.inr ?_⟩)
        h.nodup (by simp) (by simp)
      exact MainPhase.elsewhere (by rw [at_create]; exact Or.inr rfl) (Or.inr rfl) hm
  | createFails at_create =>
      rename_i x
      obtain ⟨l, hl⟩ := h.fits x
      have hphase := hl.mainPhase_eq at_create rfl
      obtain rfl : l = .allocated := by cases l <;> first | rfl | cases hphase
      refine h.next hl .createFails ⟨hl.accepted, hl.ctx, hl.thread, hl.inList, rfl⟩
        (fun m hm => ⟨Iff.rfl, rfl, rfl, Iff.rfl, Or.inr ?_⟩) h.nodup (by simp) (by simp)
      exact MainPhase.elsewhere (by rw [at_create]; exact Or.inr rfl) (Or.inl rfl) hm
  | insert at_insert allocated =>
      rename_i x ctx
      obtain ⟨l, hl⟩ := h.fits x
      have hphase := hl.mainPhase_eq at_insert rfl
      obtain ⟨t, rfl⟩ : ∃ t, l = .started t := by
        cases l <;> first | exact ⟨_, rfl⟩ | cases hphase
      -- its thread may have come anywhere by now
      have hnotin : x ∉ s.connectionCtxList := hl.inList.mp
      obtain rfl := Option.some.inj (allocated.symm.trans hl.ctx)
      refine h.next hl .insert ⟨hl.accepted, Function.update_self .., hl.thread, ?_, rfl⟩
        (fun m hm => ⟨Iff.rfl, Function.update_of_ne hm .., rfl, ?_, Or.inr ?_⟩)
        (List.nodup_cons.mpr ⟨hnotin, h.nodup⟩) (by simp) (by simp)
      · exact iff_of_true (List.mem_cons_self ..) trivial
      · exact List.mem_cons.trans (or_iff_right hm)
      · exact MainPhase.elsewhere (by rw [at_insert]; exact Or.inr rfl) (Or.inl rfl) hm
  | join at_join first allocated tid ended =>
      rename_i x t rest ctx
      obtain ⟨l, hl⟩ := h.fits x
      have hin : l.InList := hl.inList.mp (by rw [first]; exact List.mem_cons_self ..)
      have hphase := hl.main
      rw [at_join] at hphase
      -- a context of the list the main thread does not work on
      obtain ⟨phase, rfl⟩ : ∃ phase, l = .listed phase := by
        cases l with
        | listed phase => exact ⟨phase, rfl⟩
        | joined => cases hphase
        | _ => exact absurd hin id
      obtain rfl := Option.some.inj (allocated.symm.trans hl.ctx)
      obtain rfl : x = t := Option.some.inj tid
      obtain rfl : phase = .finished := Option.some.inj (hl.thread.symm.trans ended)
      refine h.next hl .join
        ⟨hl.accepted, hl.ctx, Function.update_self .., hl.inList, (if_pos rfl).symm⟩
        (fun m hm => ⟨Iff.rfl, rfl, Function.update_of_ne hm .., Iff.rfl, Or.inr ?_⟩)
        h.nodup ?_ (by simp)
      · exact MainPhase.elsewhere (by rw [at_join]; exact Or.inl rfl) (Or.inr rfl) hm
      · rintro y hy
        cases hy
        simp [first]
  | removeHead at_removeHead =>
      rename_i x
      obtain ⟨l, hl⟩ := h.fits x
      have hphase := hl.mainPhase_eq at_removeHead rfl
      obtain rfl : l = .joined := by cases l <;> first | rfl | cases hphase
      -- nothing was inserted since the join, so the context is still the head
      obtain ⟨rest, hlist⟩ := List.head?_eq_some_iff.mp (h.first x at_removeHead)
      have hnodup := h.nodup
      rw [hlist, List.nodup_cons] at hnodup
      refine h.next hl .removeHead ⟨hl.accepted, hl.ctx, hl.thread, ?_, (if_pos rfl).symm⟩
        (fun m hm => ⟨Iff.rfl, rfl, rfl, ?_, Or.inr ?_⟩) ?_ (by simp) (by simp)
      · rw [hlist]
        exact iff_of_false hnodup.1 id
      · rw [hlist]
        exact (List.mem_cons.trans (or_iff_right hm)).symm
      · exact MainPhase.elsewhere (by rw [at_removeHead]; exact Or.inr rfl) (Or.inr rfl) hm
      · rw [hlist]
        exact hnodup.2
  | freeCtx at_freeCtx =>
      rename_i x
      obtain ⟨l, hl⟩ := h.fits x
      have hphase := hl.mainPhase_eq at_freeCtx rfl
      obtain rfl : l = .removed := by cases l <;> first | rfl | cases hphase
      refine h.next hl .freeCtx
        ⟨hl.accepted, Function.update_self .., hl.thread, hl.inList, rfl⟩
        (fun m hm => ⟨Iff.rfl, Function.update_of_ne hm .., rfl, Iff.rfl, Or.inr ?_⟩)
        h.nodup (by simp) (by simp)
      exact MainPhase.elsewhere (by rw [at_freeCtx]; exact Or.inr rfl) (Or.inl rfl) hm
  | destroyConnection at_loop allocated connection =>
      rename_i t c ctx
      obtain ⟨l, hl⟩ := h.fits t
      have hctx := hl.ctx.symm.trans allocated
      -- the thread runs, and its context still names its connection
      rcases Life.of_thread (hl.thread.symm.trans at_loop) with rfl | rfl
      · obtain rfl := Option.some.inj hctx
        obtain rfl : t = c := Option.some.inj connection
        have hnext := h.nextOfThread hl .destroyStarted Iff.rfl Iff.rfl rfl
        rwa [Function.update_eq_self_iff.mpr hl.ctx.symm] at hnext
      · obtain rfl := Option.some.inj hctx
        obtain rfl : t = c := Option.some.inj connection
        have hnext := h.nextOfThread hl .destroyListed Iff.rfl Iff.rfl rfl
        rwa [Function.update_eq_self_iff.mpr hl.ctx.symm] at hnext
  | finish at_destroyed allocated =>
      rename_i t ctx
      obtain ⟨l, hl⟩ := h.fits t
      have hctx := hl.ctx.symm.trans allocated
      rcases Life.of_thread (hl.thread.symm.trans at_destroyed) with rfl | rfl
      · obtain rfl := Option.some.inj hctx
        exact h.nextOfThread hl .finishStarted Iff.rfl Iff.rfl rfl
      · obtain rfl := Option.some.inj hctx
        exact h.nextOfThread hl .finishListed Iff.rfl Iff.rfl rfl

/-- The invariant holds after every run. -/
theorem run_lifeInv {t : List (LifeEvent × Process)} (hsteps : Run LifeStep Process.start t) :
    LifeInv (labels t) (last Process.start t) :=
  hsteps.invariant LifeInv Process.start_lifeInv fun _ _ _ _ h hstep => hstep.lifeInv h

/-! ## The end -/

/-- How often an event that enters a stage has happened. -/
theorem LifeInv.count_eq (h : LifeInv es s) {k : Track} {j : Nat} (he : e.stage = some (k, j)) :
    es.count e = if j < reached (stages es) k then 1 else 0 := by
  rw [← count_stages he, h.orderly.count_eq]

theorem LifeInv.mem_iff (h : LifeInv es s) {k : Track} {j : Nat} (he : e.stage = some (k, j)) :
    e ∈ es ↔ j < reached (stages es) k := by
  rw [← mem_stages_iff he, h.orderly.mem_iff]

/-- **A thread finds its context allocated**, as long as it runs. -/
theorem LifeInv.ctx_isSome (h : LifeInv es s) {phase : ThreadPhase}
    (ht : s.thread n = some phase) : (s.ctx n).isSome := by
  obtain ⟨l, hl⟩ := h.fits n
  rw [hl.ctx]
  rcases Life.of_thread (hl.thread.symm.trans ht) with rfl | rfl <;> rfl

/-- At the end a connection is freed, refused, or was never accepted. -/
theorem Fits.of_returned (hl : Fits es s n l) (hempty : s.connectionCtxList = [])
    (hreturned : s.main = .returned) : l = .unborn ∨ l = .refused ∨ l = .freed := by
  have hidle := hl.main
  rw [hreturned] at hidle
  have hout : ¬ l.InList := by
    rw [← hl.inList, hempty]
    exact List.not_mem_nil
  cases l with
  | unborn => exact Or.inl rfl
  | refused => exact Or.inr (Or.inl rfl)
  | freed => exact Or.inr (Or.inr rfl)
  | listed => exact absurd trivial hout
  | accepted | allocated | started | joined | removed => cases hidle

/-- A context is freed after its thread has been joined. -/
theorem LifeInv.join_before_free (h : LifeInv es s) {es₁ es₂ : List LifeEvent}
    (hes : es = es₁ ++ .freeCtx n :: es₂) : .join n ∈ es₁ := by
  have horderly := h.orderly
  rw [hes, stages, List.filterMap_append,
    List.filterMap_cons_some (show (LifeEvent.freeCtx n).stage = some (.main n, 6) from rfl)]
    at horderly
  have hmem : (Track.main n, 4) ∈ stages es₁ := horderly.mem_before (by decide)
  rwa [mem_stages_iff (e := .join n) rfl] at hmem

end

/-- **The accounting.** When `connection_manager_destroy` has returned, after any number of
connections and any interleaving with the threads: every connection was destroyed, every context
freed and every thread joined, each exactly once and in this order of `pthread_join` and `free`,
if and only if `pthread_create` has never failed. A connection for which it has failed is not
destroyed, and its context is not freed. -/
theorem run_accounted_iff (t : List (LifeEvent × Process)) (hsteps : Run LifeStep Process.start t)
    (hreturned : (last Process.start t).main = .returned) :
    (Accounted (labels t) ↔ ∀ x, .createFails x ∉ labels t)
      ∧ ∀ x, .createFails x ∈ labels t → .accept x ∈ labels t ∧ .mallocCtx x ∈ labels t
        ∧ (labels t).count (.destroyConnection x) = 0 ∧ (labels t).count (.freeCtx x) = 0 := by
  have h := run_lifeInv hsteps
  have hempty := h.empty hreturned
  set es := labels t with hes
  have hlost : ∀ x, .createFails x ∈ es → .accept x ∈ es ∧ .mallocCtx x ∈ es
      ∧ es.count (.destroyConnection x) = 0 ∧ es.count (.freeCtx x) = 0 := by
    intro x hx
    obtain ⟨l, hl⟩ := h.fits x
    obtain rfl := hl.refused.mp hx
    rw [h.mem_iff (e := .accept x) rfl, h.mem_iff (e := .mallocCtx x) rfl,
      h.count_eq (e := .destroyConnection x) rfl, h.count_eq (e := .freeCtx x) rfl, hl.mainStage,
      hl.threadStage]
    exact ⟨by decide, by decide, rfl, rfl⟩
  refine ⟨⟨fun hacc x hx => ?_, fun hnone => ?_⟩, hlost⟩
  · -- the connection is accepted and not destroyed
    obtain ⟨haccept, -, hcount, -⟩ := hlost x hx
    have hone := hacc.connections x haccept
    rw [hcount] at hone
    cases hone
  · -- what has entered any stage has been freed
    have hfreed : ∀ n k, k < reached (stages es) (.main n) →
        reached (stages es) (.main n) = 7 ∧ reached (stages es) (.thread n) = 2 := by
      intro n k hk
      obtain ⟨l, hl⟩ := h.fits n
      rw [hl.mainStage] at hk
      rw [hl.mainStage, hl.threadStage]
      rcases hl.of_returned hempty hreturned with rfl | rfl | rfl
      · exact absurd hk (Nat.not_lt_zero _)
      · exact absurd (hl.refused.mpr rfl) (hnone n)
      · exact ⟨rfl, rfl⟩
    constructor
    · intro c hc
      obtain ⟨-, hthread⟩ := hfreed c 0 ((h.mem_iff rfl).mp hc)
      rw [h.count_eq (e := .destroyConnection c) rfl, hthread]
      rfl
    · intro x hx
      obtain ⟨hmain, -⟩ := hfreed x 1 ((h.mem_iff rfl).mp hx)
      rw [h.count_eq (e := .freeCtx x) rfl, hmain]
      rfl
    · intro t ht
      obtain ⟨hmain, -⟩ := hfreed t 2 ((h.mem_iff rfl).mp ht)
      rw [h.count_eq (e := .join t) rfl, hmain]
      rfl
    · intro x es₁ es₂ _ hsplit
      exact h.join_before_free hsplit

/-- One connection, and the end: the events. -/
def oneConnection : List LifeEvent :=
  [.enter, .accept 0, .mallocCtx 0, .create 0, .destroyConnection 0, .insert 0, .signal, .finish 0,
    .leave, .join 0, .removeHead 0, .freeCtx 0, .freeManager]

theorem run_accounted_iff_oneConnection :
    ∃ t : List (LifeEvent × Process), Run LifeStep Process.start t
      ∧ (last Process.start t).main = .returned ∧ labels t = oneConnection
      ∧ (Accounted (labels t) ↔ ∀ x, .createFails x ∉ labels t)
      ∧ ∀ x, .createFails x ∈ labels t → .accept x ∈ labels t ∧ .mallocCtx x ∈ labels t
        ∧ (labels t).count (.destroyConnection x) = 0 ∧ (labels t).count (.freeCtx x) = 0 := by
  have h₁ : Run LifeStep Process.start _ := Run.nil.snoc (.enter rfl rfl)
  have h₂ := h₁.snoc (.accept rfl)
  have h₃ := h₂.snoc (.mallocCtx rfl)
  have h₄ := h₃.snoc (.create rfl)
  have h₅ := h₄.snoc (.destroyConnection (t := 0) rfl rfl rfl)
  have h₆ := h₅.snoc (.insert rfl rfl)
  have h₇ := h₆.snoc .signal
  have h₈ := h₇.snoc (.finish (t := 0) rfl rfl)
  have h₉ := h₈.snoc (.leave rfl rfl)
  have h₁₀ := h₉.snoc (.join rfl rfl rfl rfl rfl)
  have h₁₁ := h₁₀.snoc (.removeHead rfl)
  have h₁₂ := h₁₁.snoc (.freeCtx rfl)
  have h₁₃ := h₁₂.snoc (.freeManager rfl rfl)
  exact ⟨_, h₁₃, rfl, rfl, run_accounted_iff _ h₁₃ rfl⟩

/-- One connection whose thread cannot be started: it is never destroyed. -/
theorem not_accounted_createFails :
    ∃ t : List (LifeEvent × Process), Run LifeStep Process.start t
      ∧ (last Process.start t).main = .returned
      ∧ labels t = [.enter, .accept 0, .mallocCtx 0, .createFails 0, .signal, .leave, .freeManager]
      ∧ ¬ Accounted (labels t) := by
  have h₁ : Run LifeStep Process.start _ := Run.nil.snoc (.enter rfl rfl)
  have h₂ := h₁.snoc (.accept rfl)
  have h₃ := h₂.snoc (.mallocCtx rfl)
  have h₄ := h₃.snoc (.createFails rfl)
  have h₅ := h₄.snoc .signal
  have h₆ := h₅.snoc (.leave rfl rfl)
  have h₇ := h₆.snoc (.freeManager rfl rfl)
  refine ⟨_, h₇, rfl, rfl, fun hacc => ?_⟩
  exact absurd (hacc.connections 0 (by decide)) (by decide)

end Aesd
