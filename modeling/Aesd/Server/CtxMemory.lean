import Aesd.Basic.Chain
import Aesd.Driver.Kernel
import Aesd.Server.Lifecycle

set_option autoImplicit false

/-! # The contexts in memory

`Lifecycle` has the contexts of the connections by their numbers, and the list of the manager as a
list. In the program there are pointers: `connection_ctx_t` is a block with a link in it, and the
macros of `queue.h` follow and change the links. Here the steps of `connection_manager.c` are those
of `Lifecycle` again, but each one loads and stores through pointers, and what `malloc` returns is a
block of any content at any free address. Every run of them is a run of `Lifecycle`
(`run_ctxMemory_refines`), and no pointer that is followed dangles (`run_ctxMemory_safe`). -/

namespace Aesd

open CInt Lts

/-! ## The memory -/

/-- A pointer to a `connection_ctx_t`. -/
abbrev CtxPtr := Nat

/-- `connection_ctx_t`; `sleNext` is `nodes.sle_next`. -/
structure CtxBlock where
  connection : Option ClientId
  thread : Option ClientId
  sleNext : Option CtxPtr

/-- The blocks that are allocated, and `slh_first` of `connection_ctx_list`. -/
structure CtxMemory where
  block : CtxPtr → Option CtxBlock
  slhFirst : Option CtxPtr

namespace CtxMemory

/-- A store to a field of the block at `p`. -/
def update (m : CtxMemory) (p : CtxPtr) (f : CtxBlock → CtxBlock) : Except Fault CtxMemory :=
  match m.block p with
  | none => .error .outOfBounds
  | some b => .ok { m with block := Function.update m.block p (some (f b)) }

/-- `SLIST_NEXT`. -/
def slistNext (m : CtxMemory) (p : CtxPtr) : Except Fault (Option CtxPtr) :=
  match m.block p with
  | none => .error .outOfBounds
  | some b => .ok b.sleNext

/-- `SLIST_INSERT_HEAD`. -/
def slistInsertHead (m : CtxMemory) (p : CtxPtr) : Except Fault CtxMemory := do
  let m ← m.update p fun b => { b with sleNext := m.slhFirst }
  return { m with slhFirst := some p }

/-- `SLIST_REMOVE_HEAD`. -/
def slistRemoveHead (m : CtxMemory) : Except Fault CtxMemory :=
  match m.slhFirst with
  | none => .error .outOfBounds
  | some p => do
      let next ← m.slistNext p
      return { m with slhFirst := next }

/-- `free`. -/
def free (m : CtxMemory) (p : CtxPtr) : Except Fault CtxMemory :=
  match m.block p with
  | none => .error .badFree
  | some _ => .ok { m with block := Function.update m.block p none }

/-- The links of the list. -/
def links (m : CtxMemory) (p : CtxPtr) : Option (Option CtxPtr) :=
  (m.block p).map CtxBlock.sleNext

end CtxMemory

/-! ## The process -/

/-- Where the main thread is, with its local variables `connection` (or the `pthread_t` it has
joined) and `connection_ctx`. -/
inductive PtrPhase
  | loop
  | accept
  | register (c : ClientId)
  | create (c : ClientId) (p : CtxPtr)
  | insert (c : ClientId) (p : CtxPtr)
  | join
  | removeHead (t : ClientId) (p : CtxPtr)
  | freeCtx (t : ClientId) (p : CtxPtr)
  | returned

/-- The state. A thread has the pointer it was started with. -/
structure PtrProcess where
  exitProgram : Bool
  main : PtrPhase
  accepted : Nat
  memory : CtxMemory
  thread : ClientId → Option (ThreadPhase × CtxPtr)

/-- The process when `main` comes to its loop; the list is as `SLIST_INIT` has left it. -/
def PtrProcess.start : PtrProcess where
  exitProgram := false
  main := .loop
  accepted := 0
  memory := ⟨fun _ => none, none⟩
  thread _ := none

/-- The steps of `LifeStep`, through pointers. -/
inductive PtrStep : PtrProcess → LifeEvent → PtrProcess → Prop
  | signal {s : PtrProcess} : PtrStep s .signal { s with exitProgram := true }
  | enter {s : PtrProcess} (at_loop : s.main = .loop) (goes_on : s.exitProgram = false) :
      PtrStep s .enter { s with main := .accept }
  | accept {s : PtrProcess} (at_accept : s.main = .accept) :
      PtrStep s (.accept s.accepted)
        { s with main := .register s.accepted, accepted := s.accepted + 1 }
  | acceptFails {s : PtrProcess} (at_accept : s.main = .accept) :
      PtrStep s .acceptFails { s with main := .loop }
  /-- `malloc` returns a free address, with anything in the block but what is stored at once. That
  it fails, which nobody checks, is left out. -/
  | mallocCtx {s : PtrProcess} {c : ClientId} {p : CtxPtr} {junk : CtxBlock}
      (at_register : s.main = .register c) (is_free : s.memory.block p = none) :
      PtrStep s (.mallocCtx c)
        { s with
          main := .create c p
          memory := { s.memory with
            block := Function.update s.memory.block p (some { junk with connection := some c }) } }
  | create {s : PtrProcess} {c : ClientId} {p : CtxPtr} (at_create : s.main = .create c p) :
      PtrStep s (.create c)
        { s with main := .insert c p, thread := Function.update s.thread c (some (.loop, p)) }
  | createFails {s : PtrProcess} {c : ClientId} {p : CtxPtr} (at_create : s.main = .create c p) :
      PtrStep s (.createFails c) { s with main := .loop }
  | insert {s : PtrProcess} {c : ClientId} {p : CtxPtr} {m m' : CtxMemory}
      (at_insert : s.main = .insert c p)
      (stored : s.memory.update p (fun b => { b with thread := some c }) = .ok m)
      (inserted : m.slistInsertHead p = .ok m') :
      PtrStep s (.insert c) { s with main := .loop, memory := m' }
  | leave {s : PtrProcess} (at_loop : s.main = .loop) (stops : s.exitProgram = true) :
      PtrStep s .leave { s with main := .join }
  /-- `SLIST_FIRST`, and `pthread_join` of `connection_ctx->thread`. -/
  | join {s : PtrProcess} {p q : CtxPtr} {b : CtxBlock} {t : ClientId} (at_join : s.main = .join)
      (first : s.memory.slhFirst = some p) (loaded : s.memory.block p = some b)
      (tid : b.thread = some t) (ended : s.thread t = some (.finished, q)) :
      PtrStep s (.join t)
        { s with main := .removeHead t p, thread := Function.update s.thread t none }
  | removeHead {s : PtrProcess} {t : ClientId} {p : CtxPtr} {m : CtxMemory}
      (at_removeHead : s.main = .removeHead t p) (removed : s.memory.slistRemoveHead = .ok m) :
      PtrStep s (.removeHead t) { s with main := .freeCtx t p, memory := m }
  | freeCtx {s : PtrProcess} {t : ClientId} {p : CtxPtr} {m : CtxMemory}
      (at_freeCtx : s.main = .freeCtx t p) (freed : s.memory.free p = .ok m) :
      PtrStep s (.freeCtx t) { s with main := .join, memory := m }
  /-- `SLIST_EMPTY`. -/
  | freeManager {s : PtrProcess} (at_join : s.main = .join) (empty : s.memory.slhFirst = none) :
      PtrStep s .freeManager { s with main := .returned }
  | destroyConnection {s : PtrProcess} {t c : ClientId} {p : CtxPtr} {b : CtxBlock}
      (at_loop : s.thread t = some (.loop, p)) (loaded : s.memory.block p = some b)
      (connection : b.connection = some c) :
      PtrStep s (.destroyConnection c)
        { s with thread := Function.update s.thread t (some (.destroyed, p)) }
  | finish {s : PtrProcess} {t : ClientId} {p : CtxPtr} {m : CtxMemory}
      (at_destroyed : s.thread t = some (.destroyed, p))
      (stored : s.memory.update p (fun b => { b with connection := none }) = .ok m) :
      PtrStep s (.finish t)
        { s with memory := m, thread := Function.update s.thread t (some (.finished, p)) }

/-! ## What the memory shows -/

/-- The phase without the pointer. -/
def PtrPhase.phase : PtrPhase → MainPhase
  | .loop => .loop
  | .accept => .accept
  | .register c => .register c
  | .create c _ => .create c
  | .insert c _ => .insert c
  | .join => .join
  | .removeHead t _ => .removeHead t
  | .freeCtx t _ => .freeCtx t
  | .returned => .returned

/-- The context the main thread has a pointer to. -/
def PtrPhase.holds : PtrPhase → Option (ClientId × CtxPtr)
  | .create c p | .insert c p => some (c, p)
  | .removeHead t p | .freeCtx t p => some (t, p)
  | .loop | .accept | .register _ | .join | .returned => none

/-- A block holds a context. A `thread` that has not been set may be anything. -/
structure CtxBlock.Holds (b : CtxBlock) (ctx : ConnectionCtx) : Prop where
  connection : b.connection = ctx.connection
  thread : ∀ t, ctx.thread = some t → b.thread = some t

/-- The memory shows the contexts `ctx` at the addresses `addr`, and the list. -/
structure CtxMemory.Shows (m : CtxMemory) (addr : ClientId → CtxPtr)
    (ctx : ClientId → Option ConnectionCtx) (nodes : List ClientId) : Prop where
  block : ∀ x c, ctx x = some c → ∃ b, m.block (addr x) = some b ∧ b.Holds c
  owned : ∀ p, (m.block p).isSome → ∃ x, (ctx x).isSome ∧ addr x = p
  inj : ∀ x y, (ctx x).isSome → (ctx y).isSome → addr x = addr y → x = y
  list : Chain m.links m.slhFirst (nodes.map addr)
  listed : ∀ x ∈ nodes, (ctx x).isSome

/-- The state shows the state `a` of `Lifecycle`. -/
structure PtrProcess.Shows (s : PtrProcess) (addr : ClientId → CtxPtr) (a : Process) : Prop where
  exitProgram : a.exitProgram = s.exitProgram
  main : a.main = s.main.phase
  accepted : a.accepted = s.accepted
  memory : s.memory.Shows addr a.ctx a.connectionCtxList
  thread : ∀ t, a.thread t = (s.thread t).map Prod.fst
  holds : ∀ x p, s.main.holds = some (x, p) → p = addr x
  argument : ∀ t phase p, s.thread t = some (phase, p) → p = addr t

/-! ## What the operations do to it -/

namespace CtxMemory

variable {m : CtxMemory} {addr : ClientId → CtxPtr} {ctx : ClientId → Option ConnectionCtx}
  {nodes : List ClientId} {x : ClientId} {p : CtxPtr} {b : CtxBlock} {c c' : ConnectionCtx}

theorem update_of_block (hb : m.block p = some b) (f : CtxBlock → CtxBlock) :
    m.update p f = .ok { m with block := Function.update m.block p (some (f b)) } := by
  unfold CtxMemory.update
  rw [hb]

theorem slistInsertHead_of_block (hb : m.block p = some b) :
    m.slistInsertHead p
      = .ok ⟨Function.update m.block p (some { b with sleNext := m.slhFirst }), some p⟩ := by
  unfold CtxMemory.slistInsertHead
  rw [update_of_block hb]
  rfl

theorem links_of_block (hb : m.block p = some b) : m.links p = some b.sleNext := by
  unfold links
  rw [hb]
  rfl

/-- Where a context is, if there is one. -/
theorem Shows.isSome (h : m.Shows addr ctx nodes) (hx : (ctx x).isSome) :
    (m.block (addr x)).isSome := by
  obtain ⟨c, hc⟩ := Option.isSome_iff_exists.mp hx
  obtain ⟨b, hb, -⟩ := h.block x c hc
  rw [hb]
  rfl

/-- Two contexts are at two addresses. -/
theorem Shows.addr_ne (h : m.Shows addr ctx nodes) (hx : (ctx x).isSome) {y : ClientId}
    (hy : (ctx y).isSome) (hne : y ≠ x) : addr y ≠ addr x :=
  fun heq => hne (h.inj y x hy hx heq)

theorem Shows.addr_notMem (h : m.Shows addr ctx nodes) (hx : (ctx x).isSome) (hout : x ∉ nodes) :
    addr x ∉ nodes.map addr := by
  intro hmem
  obtain ⟨y, hy, heq⟩ := List.mem_map.mp hmem
  obtain rfl := h.inj y x (h.listed y hy) hx heq
  exact hout hy

/-- **A block is stored to**: the link may change only if it is not in the list. -/
theorem Shows.update (h : m.Shows addr ctx nodes) (hx : ctx x = some c)
    (hb : m.block (addr x) = some b)
    {b' : CtxBlock} (hb' : b'.Holds c') (hlink : b'.sleNext = b.sleNext ∨ x ∉ nodes) :
    CtxMemory.Shows ⟨Function.update m.block (addr x) (some b'), m.slhFirst⟩ addr
      (Function.update ctx x (some c')) nodes := by
  have hsome : (ctx x).isSome := by rw [hx]; rfl
  have hiff : ∀ y, (Function.update ctx x (some c') y).isSome ↔ (ctx y).isSome := by
    intro y
    by_cases hy : y = x
    · rw [hy, Function.update_self, hx]
      exact Iff.rfl
    · rw [Function.update_of_ne hy]
  refine ⟨?_, ?_, ?_, ?_, ?_⟩
  · -- the other contexts are in other blocks
    intro y d hd
    by_cases hy : y = x
    · subst hy
      rw [Function.update_self] at hd
      obtain rfl := Option.some.inj hd
      exact ⟨b', Function.update_self .., hb'⟩
    · rw [Function.update_of_ne hy] at hd
      obtain ⟨d', hd', hholds⟩ := h.block y d hd
      refine ⟨d', ?_, hholds⟩
      show Function.update m.block (addr x) (some b') (addr y) = some d'
      rwa [Function.update_of_ne (h.addr_ne hsome (by rw [hd]; rfl) hy)]
  · intro p hp
    by_cases hpx : p = addr x
    · exact ⟨x, (hiff x).mpr hsome, hpx.symm⟩
    · have hp' : (Function.update m.block (addr x) (some b') p).isSome := hp
      rw [Function.update_of_ne hpx] at hp'
      obtain ⟨y, hy, rfl⟩ := h.owned p hp'
      exact ⟨y, (hiff y).mpr hy, rfl⟩
  · exact fun y z hy hz => h.inj y z ((hiff y).mp hy) ((hiff z).mp hz)
  · -- the links of the list are what they were
    apply h.list.congr
    intro q hq
    by_cases hqx : q = addr x
    · subst hqx
      rcases hlink with hlink | hout
      · rw [links_of_block hb, ← hlink]
        exact links_of_block (Function.update_self ..)
      · exact absurd hq (h.addr_notMem hsome hout)
    · show (Function.update m.block (addr x) (some b') q).map CtxBlock.sleNext = _
      rw [Function.update_of_ne hqx]
      rfl
  · exact fun y hy => (hiff y).mpr (h.listed y hy)

/-- **`SLIST_INSERT_HEAD`** of a context that is not in the list. -/
theorem Shows.slistInsertHead (h : m.Shows addr ctx nodes) (hx : ctx x = some c)
    (hout : x ∉ nodes) :
    ∃ m', m.slistInsertHead (addr x) = .ok m' ∧ m'.Shows addr ctx (x :: nodes) := by
  obtain ⟨b, hb, hholds⟩ := h.block x c hx
  have hsome : (ctx x).isSome := by rw [hx]; rfl
  have hsame : Function.update ctx x (some c) = ctx := by
    rw [← hx]
    exact Function.update_eq_self ..
  have hstored := h.update hx hb
    (show CtxBlock.Holds { b with sleNext := m.slhFirst } c from ⟨hholds.connection, hholds.thread⟩)
    (Or.inr hout)
  rw [hsame] at hstored
  refine ⟨_, slistInsertHead_of_block hb, hstored.block, hstored.owned, hstored.inj, ?_, ?_⟩
  · refine h.list.push (h.addr_notMem hsome hout)
      (links_of_block (b := { b with sleNext := m.slhFirst }) (Function.update_self ..)) ?_
    intro q hq
    show (Function.update m.block (addr x) (some _) q).map CtxBlock.sleNext = _
    rw [Function.update_of_ne hq]
    rfl
  · intro y hy
    rcases List.mem_cons.mp hy with rfl | hy
    · exact hsome
    · exact h.listed y hy

/-- **`SLIST_REMOVE_HEAD`** of a list that is not empty. -/
theorem Shows.slistRemoveHead (h : m.Shows addr ctx (x :: nodes)) :
    ∃ m', m.slistRemoveHead = .ok m' ∧ m'.Shows addr ctx nodes := by
  have hfirst : m.slhFirst = some (addr x) := h.list.head?_eq.symm
  obtain ⟨b, hb⟩ := Option.isSome_iff_exists.mp (h.isSome (h.listed x List.mem_cons_self))
  have hlist := h.list
  rw [hfirst] at hlist
  refine ⟨⟨m.block, b.sleNext⟩, ?_, h.block, h.owned, h.inj, ?_,
    fun y hy => h.listed y (List.mem_cons_of_mem x hy)⟩
  · simp only [CtxMemory.slistRemoveHead, hfirst, slistNext, hb, bind, Except.bind]
    rfl
  · exact hlist.pop (links_of_block hb)

/-- **`free`** of a context that is not in the list. -/
theorem Shows.free (h : m.Shows addr ctx nodes) (hx : (ctx x).isSome) (hout : x ∉ nodes) :
    ∃ m', m.free (addr x) = .ok m' ∧ m'.Shows addr (Function.update ctx x none) nodes := by
  obtain ⟨b, hb⟩ := Option.isSome_iff_exists.mp (h.isSome hx)
  have hne : ∀ {y : ClientId}, (Function.update ctx x none y).isSome → y ≠ x ∧ (ctx y).isSome := by
    intro y hy
    by_cases hyx : y = x
    · rw [hyx, Function.update_self] at hy
      cases hy
    · rw [Function.update_of_ne hyx] at hy
      exact ⟨hyx, hy⟩
  refine ⟨⟨Function.update m.block (addr x) none, m.slhFirst⟩, ?_, ?_, ?_, ?_, ?_, ?_⟩
  · unfold CtxMemory.free
    rw [hb]
  · -- what is left of the contexts is in other blocks
    intro y d hd
    obtain ⟨hyx, hy⟩ := hne (by rw [hd]; rfl)
    rw [Function.update_of_ne hyx] at hd
    obtain ⟨d', hd', hholds⟩ := h.block y d hd
    refine ⟨d', ?_, hholds⟩
    show Function.update m.block (addr x) none (addr y) = some d'
    rwa [Function.update_of_ne (h.addr_ne hx hy hyx)]
  · intro p hp
    have hp' : (Function.update m.block (addr x) none p).isSome := hp
    have hpx : p ≠ addr x := by
      rintro rfl
      rw [Function.update_self] at hp'
      cases hp'
    rw [Function.update_of_ne hpx] at hp'
    obtain ⟨y, hy, rfl⟩ := h.owned p hp'
    refine ⟨y, ?_, rfl⟩
    rw [Function.update_of_ne (fun hyx => hpx (congrArg addr hyx))]
    exact hy
  · exact fun y z hy hz => h.inj y z (hne hy).2 (hne hz).2
  · -- the block was not in the list
    apply h.list.congr
    intro q hq
    have hqx : q ≠ addr x := fun hqx => h.addr_notMem hx hout (hqx ▸ hq)
    show (Function.update m.block (addr x) none q).map CtxBlock.sleNext = _
    rw [Function.update_of_ne hqx]
    rfl
  · intro y hy
    have hyx : y ≠ x := by
      rintro rfl
      exact hout hy
    rw [Function.update_of_ne hyx]
    exact h.listed y hy

/-- **`malloc`** of a context, at a free address. -/
theorem Shows.malloc (h : m.Shows addr ctx nodes) (hp : m.block p = none) (hx : ctx x = none)
    (hout : x ∉ nodes) {b : CtxBlock} (hb : b.Holds c) :
    CtxMemory.Shows { m with block := Function.update m.block p (some b) }
      (Function.update addr x p) (Function.update ctx x (some c)) nodes := by
  -- no context is at the new address, so the old addresses can be kept
  have hfree : ∀ {y : ClientId}, (ctx y).isSome → addr y ≠ p := by
    intro y hy heq
    have hsome := h.isSome hy
    rw [heq, hp] at hsome
    cases hsome
  have hother : ∀ {y : ClientId}, y ≠ x → Function.update addr x p y = addr y :=
    fun hy => Function.update_of_ne hy ..
  have hctx : ∀ {y : ClientId}, y ≠ x → Function.update ctx x (some c) y = ctx y :=
    fun hy => Function.update_of_ne hy ..
  have hmap : nodes.map (Function.update addr x p) = nodes.map addr := by
    apply List.map_congr_left
    intro y hy
    apply hother
    rintro rfl
    exact hout hy
  refine ⟨?_, ?_, ?_, ?_, ?_⟩
  · intro y d hd
    by_cases hy : y = x
    · subst hy
      rw [Function.update_self] at hd
      obtain rfl := Option.some.inj hd
      exact ⟨b, by rw [Function.update_self]; exact Function.update_self .., hb⟩
    · rw [hctx hy] at hd
      obtain ⟨d', hd', hholds⟩ := h.block y d hd
      refine ⟨d', ?_, hholds⟩
      rw [hother hy]
      show Function.update m.block p (some b) (addr y) = some d'
      rwa [Function.update_of_ne (hfree (by rw [hd]; rfl))]
  · intro q hq
    by_cases hqp : q = p
    · exact ⟨x, by rw [Function.update_self]; rfl, by rw [Function.update_self, hqp]⟩
    · have hq' : (Function.update m.block p (some b) q).isSome := hq
      rw [Function.update_of_ne hqp] at hq'
      obtain ⟨y, hy, rfl⟩ := h.owned q hq'
      have hyx : y ≠ x := by
        rintro rfl
        rw [hx] at hy
        cases hy
      exact ⟨y, by rwa [hctx hyx], hother hyx⟩
  · -- two contexts are apart: one of them may be the new one
    intro y z hy hz heq
    by_cases hyx : y = x
    · by_cases hzx : z = x
      · rw [hyx, hzx]
      · rw [hyx, Function.update_self, hother hzx] at heq
        rw [hctx hzx] at hz
        exact absurd heq.symm (hfree hz)
    · rw [hctx hyx] at hy
      by_cases hzx : z = x
      · rw [hzx, Function.update_self, hother hyx] at heq
        exact absurd heq (hfree hy)
      · rw [hctx hzx] at hz
        rw [hother hyx, hother hzx] at heq
        exact h.inj y z hy hz heq
  · rw [hmap]
    apply h.list.congr
    intro q hq
    have hqp : q ≠ p := by
      rintro rfl
      obtain ⟨y, hy, heq⟩ := List.mem_map.mp hq
      exact hfree (h.listed y hy) heq
    show (Function.update m.block p (some b) q).map CtxBlock.sleNext = _
    rw [Function.update_of_ne hqp]
    rfl
  · intro y hy
    have hyx : y ≠ x := by
      rintro rfl
      exact hout hy
    rw [hctx hyx]
    exact h.listed y hy

end CtxMemory

/-! ## One step -/

section

variable {s s' : PtrProcess} {a : Process} {e : LifeEvent} {es : List LifeEvent}
  {addr : ClientId → CtxPtr}

/-- The context the main thread has a pointer to is allocated. -/
theorem PtrProcess.Shows.ctx_of_holds (h : s.Shows addr a) (hinv : LifeInv es a) {x : ClientId}
    {p : CtxPtr} (hx : s.main.holds = some (x, p)) : (a.ctx x).isSome := by
  obtain ⟨l, hl⟩ := hinv.fits x
  have hmain := h.main
  rw [hl.ctx]
  cases hphase : s.main with
  | create c q | insert c q | removeHead c q | freeCtx c q =>
      rw [hphase] at hx hmain
      obtain ⟨rfl, -⟩ := Prod.mk.inj (Option.some.inj hx)
      have hstation := hl.mainPhase_eq hmain rfl
      cases l with
      | unborn | accepted | freed => cases hstation
      | allocated | refused | started | listed | joined | removed => rfl
  | loop | accept | register | join | returned =>
      rw [hphase] at hx
      cases hx

/-- The head of the list is the context whose thread has just been joined. -/
theorem LifeInv.list_eq_cons (hinv : LifeInv es a) {x : ClientId} (hmain : a.main = .removeHead x) :
    a.connectionCtxList = x :: a.connectionCtxList.tail :=
  List.eq_cons_of_mem_head? (hinv.first x hmain)

/-- A context that is about to be inserted or freed is not in the list. -/
theorem LifeInv.notMem_of_main (hinv : LifeInv es a) {x : ClientId}
    (hmain : a.main = .insert x ∨ a.main = .freeCtx x ∨ a.main = .register x) :
    x ∉ a.connectionCtxList := by
  obtain ⟨l, hl⟩ := hinv.fits x
  rw [hl.inList]
  -- in the list is only what comes after `insert` and before `removeHead`
  rcases hmain with hmain | hmain | hmain
  all_goals
    have hstation := hl.mainPhase_eq hmain rfl
    cases l <;> first | exact id | cases hstation

/-- The main thread goes on without a pointer to a context. -/
theorem PtrProcess.Shows.setMain (h : s.Shows addr a) {phase : PtrPhase} {main : MainPhase}
    (hmain : main = phase.phase) (hholds : phase.holds = none) :
    PtrProcess.Shows { s with main := phase } addr { a with main := main } where
  exitProgram := h.exitProgram
  main := hmain
  accepted := h.accepted
  memory := h.memory
  thread := h.thread
  holds x p hx := by
    rw [hholds] at hx
    cases hx
  argument := h.argument

/-- A thread goes on, with the pointer it has. -/
theorem PtrProcess.Shows.setThread (h : s.Shows addr a) {t : ClientId} (phase : ThreadPhase)
    {p : CtxPtr} (hp : p = addr t) {m : CtxMemory} {ctx : ClientId → Option ConnectionCtx}
    (hm : m.Shows addr ctx a.connectionCtxList) :
    PtrProcess.Shows
      { s with memory := m, thread := Function.update s.thread t (some (phase, p)) } addr
      { a with ctx := ctx, thread := Function.update a.thread t (some phase) } where
  exitProgram := h.exitProgram
  main := h.main
  accepted := h.accepted
  memory := hm
  thread t' := by
    by_cases ht : t' = t
    · rw [ht]
      simp
    · simp only [Function.update_of_ne ht]
      exact h.thread t'
  holds := h.holds
  argument t' phase' q ht' := by
    by_cases ht : t' = t
    · simp only [ht, Function.update_self, Option.some.injEq, Prod.mk.injEq] at ht'
      rw [ht, ← ht'.2, hp]
    · simp only [Function.update_of_ne ht] at ht'
      exact h.argument t' phase' q ht'

/-- **Every step through pointers is a step of `Lifecycle`**, and shows it again. -/
theorem PtrStep.refines (hstep : PtrStep s e s') (h : s.Shows addr a) (hinv : LifeInv es a) :
    ∃ a' addr', LifeStep a e a' ∧ s'.Shows addr' a' := by
  have hmain := h.main
  have hexit := h.exitProgram
  cases hstep with
  | signal =>
      exact ⟨_, addr, .signal, rfl, hmain, h.accepted, h.memory, h.thread, h.holds, h.argument⟩
  | enter at_loop goes_on =>
      rw [at_loop] at hmain
      exact ⟨_, addr, .enter hmain (hexit.trans goes_on), h.setMain rfl rfl⟩
  | accept at_accept =>
      rw [at_accept] at hmain
      rw [← h.accepted]
      exact ⟨_, addr, .accept hmain, hexit, rfl, rfl, h.memory, h.thread, by rintro x p ⟨⟩,
        h.argument⟩
  | acceptFails at_accept =>
      rw [at_accept] at hmain
      exact ⟨_, addr, .acceptFails hmain, h.setMain rfl rfl⟩
  | mallocCtx at_register is_free =>
      rename_i c p junk
      rw [at_register] at hmain
      -- the connection has no context yet, and no thread that could have a pointer to one
      obtain ⟨l, hl⟩ := hinv.fits c
      have hstation := hl.mainPhase_eq hmain rfl
      obtain rfl : l = .accepted := by cases l <;> first | rfl | cases hstation
      have hmemory := h.memory.malloc (x := c) (c := ⟨some c, none⟩)
        (b := { junk with connection := some c }) is_free hl.ctx
        (hinv.notMem_of_main (Or.inr (Or.inr hmain))) ⟨rfl, fun t ht => by cases ht⟩
      refine ⟨_, Function.update addr c p, .mallocCtx hmain, hexit, rfl, h.accepted, hmemory,
        h.thread, ?_, ?_⟩
      · rintro x q ⟨⟩
        exact (Function.update_self c p addr).symm
      · intro t phase q ht
        have hne : t ≠ c := by
          rintro rfl
          have hthread := h.thread t
          rw [hl.thread, ht] at hthread
          cases hthread
        rw [Function.update_of_ne hne]
        exact h.argument t phase q ht
  | create at_create =>
      rename_i c p
      rw [at_create] at hmain
      have hp := h.holds c p (by rw [at_create]; rfl)
      have hshows := h.setThread .loop hp h.memory
      refine ⟨_, addr, .create hmain, hexit, rfl, h.accepted, h.memory, hshows.thread, ?_,
        hshows.argument⟩
      rintro x q ⟨⟩
      exact hp
  | createFails at_create =>
      rw [at_create] at hmain
      exact ⟨_, addr, .createFails hmain, h.setMain rfl rfl⟩
  | insert at_insert stored inserted =>
      rename_i c p m m'
      rw [at_insert] at hmain
      obtain rfl : p = addr c := h.holds c p (by rw [at_insert]; rfl)
      have hsome := h.ctx_of_holds hinv (x := c) (p := addr c) (by rw [at_insert]; rfl)
      have hout := hinv.notMem_of_main (Or.inl hmain)
      obtain ⟨ctx, hctx⟩ := Option.isSome_iff_exists.mp hsome
      obtain ⟨b, hb, hholds⟩ := h.memory.block c ctx hctx
      -- `thread` is set, and then the block becomes the head
      rw [CtxMemory.update_of_block hb] at stored
      obtain rfl := Except.ok.inj stored
      have hstored := h.memory.update hctx hb
        (show CtxBlock.Holds { b with thread := some c } { ctx with thread := some c } from
          ⟨hholds.connection, fun t ht => ht⟩) (Or.inl rfl)
      obtain ⟨m₂, hinserted, hm₂⟩ := hstored.slistInsertHead (Function.update_self ..) hout
      rw [inserted] at hinserted
      obtain rfl := Except.ok.inj hinserted
      exact ⟨_, addr, .insert hmain hctx, hexit, rfl, h.accepted, hm₂, h.thread,
        by rintro x q ⟨⟩, h.argument⟩
  | leave at_loop stops =>
      rw [at_loop] at hmain
      exact ⟨_, addr, .leave hmain (hexit.trans stops), h.setMain rfl rfl⟩
  | join at_join first loaded tid ended =>
      rename_i p q b t
      rw [at_join] at hmain
      -- the first block is that of the first context, whose thread is set
      obtain ⟨x, rest, hnodes, rfl⟩ : ∃ x rest, a.connectionCtxList = x :: rest ∧ addr x = p := by
        have hhead := h.memory.list.head?_eq
        rw [first, List.head?_map] at hhead
        obtain ⟨x, hx, hp⟩ := Option.map_eq_some_iff.mp hhead
        exact ⟨x, _, List.eq_cons_of_mem_head? hx, hp⟩
      obtain ⟨l, hl⟩ := hinv.fits x
      have hin : l.InList := hl.inList.mp (by rw [hnodes]; exact List.mem_cons_self)
      obtain ⟨ctx, hctx, htid⟩ : ∃ ctx, a.ctx x = some ctx ∧ ctx.thread = some x := by
        rw [hl.ctx]
        cases l with
        | listed t => exact ⟨_, rfl, rfl⟩
        | joined => exact ⟨_, rfl, rfl⟩
        | unborn | accepted | allocated | refused | started | removed | freed =>
            exact absurd hin id
      obtain ⟨b', hb', hholds⟩ := h.memory.block x ctx hctx
      rw [loaded] at hb'
      obtain rfl := Option.some.inj hb'
      obtain rfl : t = x := Option.some.inj (tid.symm.trans (hholds.thread x htid))
      have hended : a.thread t = some .finished := by
        rw [h.thread, ended]
        rfl
      refine ⟨_, addr, .join hmain hnodes hctx htid hended, hexit, rfl, h.accepted, h.memory, ?_,
        by rintro x q ⟨⟩; rfl, ?_⟩
      · intro t'
        by_cases ht : t' = t
        · rw [ht]
          simp
        · simp only [Function.update_of_ne ht]
          exact h.thread t'
      · intro t' phase q' ht'
        by_cases ht : t' = t
        · simp [ht] at ht'
        · simp only [Function.update_of_ne ht] at ht'
          exact h.argument t' phase q' ht'
  | removeHead at_removeHead removed =>
      rename_i t p m
      rw [at_removeHead] at hmain
      have hmemory := h.memory
      rw [hinv.list_eq_cons hmain] at hmemory
      obtain ⟨m', hm', hshows⟩ := hmemory.slistRemoveHead
      rw [removed] at hm'
      obtain rfl := Except.ok.inj hm'
      refine ⟨_, addr, .removeHead hmain, hexit, rfl, h.accepted, hshows, h.thread, ?_, h.argument⟩
      rintro x q ⟨⟩
      exact h.holds t p (by rw [at_removeHead]; rfl)
  | freeCtx at_freeCtx freed =>
      rename_i t p m
      rw [at_freeCtx] at hmain
      obtain rfl : p = addr t := h.holds t p (by rw [at_freeCtx]; rfl)
      have hsome := h.ctx_of_holds hinv (x := t) (p := addr t) (by rw [at_freeCtx]; rfl)
      obtain ⟨m', hm', hshows⟩ := h.memory.free hsome (hinv.notMem_of_main (Or.inr (Or.inl hmain)))
      rw [freed] at hm'
      obtain rfl := Except.ok.inj hm'
      exact ⟨_, addr, .freeCtx hmain, hexit, rfl, h.accepted, hshows, h.thread,
        by rintro x q ⟨⟩, h.argument⟩
  | freeManager at_join empty =>
      rw [at_join] at hmain
      have hnodes : a.connectionCtxList = [] := by
        have hhead := h.memory.list.head?_eq
        rw [empty, List.head?_eq_none_iff, List.map_eq_nil_iff] at hhead
        exact hhead
      exact ⟨_, addr, .freeManager hmain hnodes, h.setMain rfl rfl⟩
  | destroyConnection at_loop loaded connection =>
      rename_i t c p b
      -- the connection it destroys is the one in its own context
      have hp := h.argument t .loop p at_loop
      have hthread : a.thread t = some .loop := by
        rw [h.thread, at_loop]
        rfl
      obtain ⟨ctx, hctx⟩ := Option.isSome_iff_exists.mp (hinv.ctx_isSome hthread)
      obtain ⟨b', hb', hholds⟩ := h.memory.block t ctx hctx
      rw [← hp, loaded] at hb'
      obtain rfl := Option.some.inj hb'
      exact ⟨_, addr, .destroyConnection hthread hctx (hholds.connection.symm.trans connection),
        h.setThread _ hp h.memory⟩
  | finish at_destroyed stored =>
      rename_i t p m
      have hp := h.argument t .destroyed p at_destroyed
      have hthread : a.thread t = some .destroyed := by
        rw [h.thread, at_destroyed]
        rfl
      obtain ⟨ctx, hctx⟩ := Option.isSome_iff_exists.mp (hinv.ctx_isSome hthread)
      obtain ⟨b, hb, hholds⟩ := h.memory.block t ctx hctx
      rw [hp, CtxMemory.update_of_block hb] at stored
      obtain rfl := Except.ok.inj stored
      have hstored := h.memory.update hctx hb
        (show CtxBlock.Holds { b with connection := none } { ctx with connection := none } from
          ⟨rfl, hholds.thread⟩) (Or.inl rfl)
      exact ⟨_, addr, .finish hthread hctx, h.setThread _ hp hstored⟩

theorem PtrProcess.start_shows : PtrProcess.start.Shows id Process.start where
  exitProgram := rfl
  main := rfl
  accepted := rfl
  memory :=
    { block := by intro x c hc; cases hc
      owned := by intro p hp; cases hp
      inj := by intro x y hx; cases hx
      list := Chain.nil
      listed := by intro x hx; cases hx }
  thread _ := rfl
  holds := by intro x p hx; cases hx
  argument := by intro t phase p ht; cases ht

end

/-- The run of `Lifecycle` behind a run of pointers. -/
theorem run_shows {t : List (LifeEvent × PtrProcess)} (hsteps : Run PtrStep PtrProcess.start t) :
    ∃ (t' : List (LifeEvent × Process)) (addr : ClientId → CtxPtr),
      Run LifeStep Process.start t' ∧ labels t' = labels t
        ∧ (last PtrProcess.start t).Shows addr (last Process.start t') := by
  refine hsteps.invariant
    (fun es s => ∃ (t' : List (LifeEvent × Process)) (addr : ClientId → CtxPtr),
      Run LifeStep Process.start t' ∧ labels t' = es ∧ s.Shows addr (last Process.start t'))
    ⟨[], id, Run.nil, rfl, PtrProcess.start_shows⟩ ?_
  rintro es s e s' ⟨t', addr, hrun, rfl, hshows⟩ hstep
  obtain ⟨a', addr', hstep', hshows'⟩ := hstep.refines hshows (run_lifeInv hrun)
  refine ⟨t' ++ [(e, a')], addr', hrun.snoc hstep', labels_concat .., ?_⟩
  rwa [last_concat]

/-! ## Safety -/

/-- **No pointer that is followed dangles.** -/
structure PtrProcess.MemorySafe (s : PtrProcess) : Prop where
  /-- A thread finds the context it was started with, until it is joined. -/
  thread : ∀ t phase p, s.thread t = some (phase, p) → (s.memory.block p).isSome
  /-- The context is inserted. -/
  insert : ∀ c p, s.main = .insert c p → ∃ m m',
    s.memory.update p (fun b => { b with thread := some c }) = .ok m ∧ m.slistInsertHead p = .ok m'
  /-- `pthread_join` is called on a thread that has been started and not joined. -/
  join : s.main = .join → ∀ p, s.memory.slhFirst = some p →
    ∃ b t, s.memory.block p = some b ∧ b.thread = some t ∧ (s.thread t).isSome
  /-- What is taken off the list is the context whose thread was joined. -/
  removeHead : ∀ t p, s.main = .removeHead t p →
    s.memory.slhFirst = some p ∧ ∃ m, s.memory.slistRemoveHead = .ok m
  /-- What is freed is allocated, not in the list, and no thread has a pointer to it. -/
  freeCtx : ∀ t p, s.main = .freeCtx t p → (∃ m, s.memory.free p = .ok m)
    ∧ (∀ ps, Chain s.memory.links s.memory.slhFirst ps → p ∉ ps)
    ∧ ∀ t' phase q, s.thread t' = some (phase, q) → q ≠ p
  /-- The list ends, and has no cycle. -/
  list : ∃ ps, Chain s.memory.links s.memory.slhFirst ps ∧ ps.Nodup
  /-- When the manager is gone, the list is empty and no thread is left to look at it. -/
  returned : s.main = .returned → s.memory.slhFirst = none ∧ ∀ t, s.thread t = none

section

variable {s : PtrProcess} {a : Process} {es : List LifeEvent} {addr : ClientId → CtxPtr}

/-- The context of a thread that has not been joined. -/
theorem PtrProcess.Shows.ctx_of_thread (h : s.Shows addr a) (hinv : LifeInv es a) {t : ClientId}
    {phase : ThreadPhase} {p : CtxPtr} (ht : s.thread t = some (phase, p)) : (a.ctx t).isSome := by
  have hthread : a.thread t = some phase := by
    rw [h.thread, ht]
    rfl
  exact hinv.ctx_isSome hthread

/-- The first context of the list, while its thread is waited for. -/
theorem PtrProcess.Shows.join_safe (h : s.Shows addr a) (hinv : LifeInv es a)
    (hmain : s.main = .join) {p : CtxPtr} (hfirst : s.memory.slhFirst = some p) :
    ∃ b t, s.memory.block p = some b ∧ b.thread = some t ∧ (s.thread t).isSome := by
  have hhead := h.memory.list.head?_eq
  rw [hfirst, List.head?_map] at hhead
  obtain ⟨x, hx, rfl⟩ := Option.map_eq_some_iff.mp hhead
  obtain ⟨l, hl⟩ := hinv.fits x
  have hin : l.InList := hl.inList.mp (List.mem_of_mem_head? hx)
  -- it is in the list and not joined, or the main thread would be elsewhere
  have hidle := hl.main
  rw [h.main, hmain] at hidle
  cases l with
  | listed t =>
      obtain ⟨b, hb, hholds⟩ := h.memory.block x _ hl.ctx
      refine ⟨b, x, hb, hholds.thread x rfl, ?_⟩
      have hthread := h.thread x
      rw [hl.thread] at hthread
      obtain ⟨y, hy, -⟩ := Option.map_eq_some_iff.mp hthread.symm
      rw [hy]
      rfl
  | joined => cases hidle
  | unborn | accepted | allocated | refused | started | removed | freed => exact absurd hin id

theorem PtrProcess.Shows.memorySafe (h : s.Shows addr a) (hinv : LifeInv es a) : s.MemorySafe where
  thread t phase p ht := by
    rw [h.argument t phase p ht]
    exact h.memory.isSome (h.ctx_of_thread hinv ht)
  insert c p hmain := by
    obtain rfl : p = addr c := h.holds c p (by rw [hmain]; rfl)
    obtain ⟨b, hb⟩ := Option.isSome_iff_exists.mp
      (h.memory.isSome (h.ctx_of_holds hinv (x := c) (p := addr c) (by rw [hmain]; rfl)))
    exact ⟨_, _, CtxMemory.update_of_block hb _,
      CtxMemory.slistInsertHead_of_block (Function.update_self ..)⟩
  join hmain p hfirst := h.join_safe hinv hmain hfirst
  removeHead t p hmain := by
    have hnodes := hinv.list_eq_cons (x := t) (by rw [h.main, hmain]; rfl)
    have hmemory := h.memory
    rw [hnodes] at hmemory
    obtain ⟨m, hm, -⟩ := hmemory.slistRemoveHead
    refine ⟨?_, m, hm⟩
    rw [h.holds t p (by rw [hmain]; rfl)]
    exact hmemory.list.head?_eq.symm
  freeCtx t p hmain := by
    obtain rfl : p = addr t := h.holds t p (by rw [hmain]; rfl)
    have hsome := h.ctx_of_holds hinv (x := t) (p := addr t) (by rw [hmain]; rfl)
    have hphase : a.main = .freeCtx t := by rw [h.main, hmain]; rfl
    have hout := hinv.notMem_of_main (Or.inr (Or.inl hphase))
    obtain ⟨m, hm, -⟩ := h.memory.free hsome hout
    refine ⟨⟨m, hm⟩, fun ps hps => ?_, fun t' phase q ht' hq => ?_⟩
    · rw [hps.unique h.memory.list]
      exact h.memory.addr_notMem hsome hout
    · -- the thread of this context has been joined
      rw [h.argument t' phase q ht'] at hq
      obtain rfl := h.memory.inj t' t (h.ctx_of_thread hinv ht') hsome hq
      obtain ⟨l, hl⟩ := hinv.fits t'
      have hstation := hl.mainPhase_eq hphase rfl
      obtain rfl : l = .removed := by cases l <;> first | rfl | cases hstation
      have hthread := h.thread t'
      rw [hl.thread, ht'] at hthread
      cases hthread
  list := ⟨_, h.memory.list, h.memory.list.nodup⟩
  returned hmain := by
    have hphase : a.main = .returned := by rw [h.main, hmain]; rfl
    have hempty := hinv.empty hphase
    refine ⟨?_, fun t => ?_⟩
    · have hhead := h.memory.list.head?_eq
      rw [hempty] at hhead
      exact hhead.symm
    · obtain ⟨l, hl⟩ := hinv.fits t
      have hthread := h.thread t
      rw [hl.thread] at hthread
      rcases hl.of_returned hempty hphase with rfl | rfl | rfl
      all_goals exact Option.map_eq_none_iff.mp hthread.symm

end

/-! ## No step is lost -/

section

variable {s : PtrProcess} {a a' a₁ a₂ : Process} {e : LifeEvent} {es : List LifeEvent}
  {addr : ClientId → CtxPtr}

/-- A thread in its loop still has its own connection. -/
theorem LifeInv.connection_eq (hinv : LifeInv es a) {t c : ClientId} {ctx : ConnectionCtx}
    (hthread : a.thread t = some .loop) (hctx : a.ctx t = some ctx)
    (hconnection : ctx.connection = some c) : t = c := by
  obtain ⟨l, hl⟩ := hinv.fits t
  have heq := hl.ctx.symm.trans hctx
  rcases Life.of_thread (hl.thread.symm.trans hthread) with rfl | rfl
  all_goals
    obtain rfl := Option.some.inj heq
    exact Option.some.inj hconnection

/-- The event of a step says where it leads to. -/
theorem LifeStep.det (hinv : LifeInv es a) (h₁ : LifeStep a e a₁) (h₂ : LifeStep a e a₂) :
    a₁ = a₂ := by
  cases h₁ with
  | insert at_insert allocated =>
      cases h₂ with
      | insert _ allocated' =>
          obtain rfl := Option.some.inj (allocated.symm.trans allocated')
          rfl
  | join at_join first =>
      cases h₂ with
      | join _ first' =>
          obtain ⟨rfl, -⟩ := List.cons.inj (first.symm.trans first')
          rfl
  | destroyConnection at_loop allocated connection =>
      cases h₂ with
      | destroyConnection at_loop' allocated' connection' =>
          obtain rfl := hinv.connection_eq at_loop allocated connection
          obtain rfl := hinv.connection_eq at_loop' allocated' connection'
          rfl
  | finish at_destroyed allocated =>
      cases h₂ with
      | finish _ allocated' =>
          obtain rfl := Option.some.inj (allocated.symm.trans allocated')
          rfl
  | signal | enter | accept | acceptFails | mallocCtx | create | createFails | leave | removeHead
  | freeCtx | freeManager =>
      cases h₂
      rfl

/-- The phase with the pointer. -/
def MainPhase.withPtr (addr : ClientId → CtxPtr) : MainPhase → PtrPhase
  | .loop => .loop
  | .accept => .accept
  | .register c => .register c
  | .create c => .create c (addr c)
  | .insert c => .insert c (addr c)
  | .join => .join
  | .removeHead t => .removeHead t (addr t)
  | .freeCtx t => .freeCtx t (addr t)
  | .returned => .returned

theorem PtrProcess.Shows.main_eq (h : s.Shows addr a) : s.main = a.main.withPtr addr := by
  have hholds := h.holds
  rw [h.main]
  cases hphase : s.main with
  | create c p | insert c p | removeHead c p | freeCtx c p =>
      rw [hphase] at hholds
      rw [hholds c p rfl]
      rfl
  | loop | accept | register | join | returned => rfl

/-- The pointer of a thread. -/
theorem PtrProcess.Shows.thread_eq (h : s.Shows addr a) {t : ClientId} {phase : ThreadPhase}
    (ht : a.thread t = some phase) : s.thread t = some (phase, addr t) := by
  rw [h.thread] at ht
  obtain ⟨⟨phase', p⟩, hp, rfl⟩ := Option.map_eq_some_iff.mp ht
  rw [hp, h.argument t phase' p hp]

/-- There is always a free address. -/
theorem PtrProcess.Shows.exists_free (h : s.Shows addr a) (hinv : LifeInv es a) :
    ∃ p, s.memory.block p = none := by
  -- a block belongs to a connection that has been accepted, and these are finitely many
  obtain ⟨p, hp⟩ := Infinite.exists_notMem_finset ((Finset.range a.accepted).image addr)
  refine ⟨p, ?_⟩
  by_contra hsome
  obtain ⟨x, hx, rfl⟩ := h.memory.owned p (Option.isSome_iff_ne_none.mpr hsome)
  apply hp
  rw [Finset.mem_image]
  refine ⟨x, ?_, rfl⟩
  obtain ⟨l, hl⟩ := hinv.fits x
  rw [Finset.mem_range, hl.accepted]
  rw [hl.ctx] at hx
  cases l with
  | unborn => cases hx
  | accepted | allocated | refused | started | listed | joined | removed | freed => trivial

/-- **Every step of `Lifecycle` can be made through pointers.** -/
theorem LifeStep.exists_ptrStep (hstep : LifeStep a e a') (h : s.Shows addr a)
    (hinv : LifeInv es a) : ∃ s', PtrStep s e s' := by
  have hsafe := h.memorySafe hinv
  have hmain := h.main_eq
  have hexit := h.exitProgram
  cases hstep with
  | signal => exact ⟨_, .signal⟩
  | enter at_loop goes_on =>
      rw [at_loop] at hmain
      exact ⟨_, .enter hmain (hexit.symm.trans goes_on)⟩
  | accept at_accept =>
      rw [at_accept] at hmain
      rw [h.accepted]
      exact ⟨_, .accept hmain⟩
  | acceptFails at_accept =>
      rw [at_accept] at hmain
      exact ⟨_, .acceptFails hmain⟩
  | mallocCtx at_register =>
      rw [at_register] at hmain
      obtain ⟨p, hp⟩ := h.exists_free hinv
      exact ⟨_, @PtrStep.mallocCtx _ _ _ ⟨none, none, none⟩ hmain hp⟩
  | create at_create =>
      rw [at_create] at hmain
      exact ⟨_, .create hmain⟩
  | createFails at_create =>
      rw [at_create] at hmain
      exact ⟨_, .createFails hmain⟩
  | insert at_insert =>
      rw [at_insert] at hmain
      obtain ⟨m, m', hm, hm'⟩ := hsafe.insert _ _ hmain
      exact ⟨_, .insert hmain hm hm'⟩
  | leave at_loop stops =>
      rw [at_loop] at hmain
      exact ⟨_, .leave hmain (hexit.symm.trans stops)⟩
  | join at_join first allocated tid ended =>
      rename_i x t rest ctx
      rw [at_join] at hmain
      have hfirst : s.memory.slhFirst = some (addr x) := by
        rw [← h.memory.list.head?_eq, first]
        rfl
      obtain ⟨b, hb, hholds⟩ := h.memory.block x ctx allocated
      exact ⟨_, .join hmain hfirst hb (hholds.thread t tid) (h.thread_eq ended)⟩
  | removeHead at_removeHead =>
      rw [at_removeHead] at hmain
      obtain ⟨-, m, hm⟩ := hsafe.removeHead _ _ hmain
      exact ⟨_, .removeHead hmain hm⟩
  | freeCtx at_freeCtx =>
      rw [at_freeCtx] at hmain
      obtain ⟨⟨m, hm⟩, -⟩ := hsafe.freeCtx _ _ hmain
      exact ⟨_, .freeCtx hmain hm⟩
  | freeManager at_join empty =>
      rw [at_join] at hmain
      refine ⟨_, .freeManager hmain ?_⟩
      rw [← h.memory.list.head?_eq, empty]
      rfl
  | destroyConnection at_loop allocated connection =>
      rename_i t c ctx
      obtain ⟨b, hb, hholds⟩ := h.memory.block t ctx allocated
      exact ⟨_, .destroyConnection (h.thread_eq at_loop) hb (hholds.connection.trans connection)⟩
  | finish at_destroyed allocated =>
      rename_i t ctx
      obtain ⟨b, hb, -⟩ := h.memory.block t ctx allocated
      exact ⟨_, .finish (h.thread_eq at_destroyed) (CtxMemory.update_of_block hb _)⟩

end

/-! ## Every run -/

/-- **The pointers carry out the list.** Whatever addresses `malloc` returns and whatever is in
fresh memory: events are those of a run of the program with its pointers if and only if they are
those of a run of `Lifecycle`. -/
theorem run_ctxMemory_iff (es : List LifeEvent) :
    (∃ t : List (LifeEvent × PtrProcess), Run PtrStep PtrProcess.start t ∧ labels t = es)
      ↔ ∃ t : List (LifeEvent × Process), Run LifeStep Process.start t ∧ labels t = es := by
  constructor
  · rintro ⟨t, hsteps, rfl⟩
    obtain ⟨t', addr, hrun, hlabels, -⟩ := run_shows hsteps
    exact ⟨t', hrun, hlabels⟩
  · rintro ⟨t, hsteps, rfl⟩
    -- the run of pointers follows the run of `Lifecycle` step by step
    obtain ⟨-, t', addr, hrun, hlabels, -⟩ := hsteps.invariant
      (fun es a => LifeInv es a ∧ ∃ (t' : List (LifeEvent × PtrProcess)) (addr : ClientId → CtxPtr),
        Run PtrStep PtrProcess.start t' ∧ labels t' = es ∧ (last PtrProcess.start t').Shows addr a)
      ⟨Process.start_lifeInv, [], id, Run.nil, rfl, PtrProcess.start_shows⟩
      (by
        rintro es a e a' ⟨hinv, t', addr, hrun, rfl, hshows⟩ hstep
        obtain ⟨s', hptr⟩ := hstep.exists_ptrStep hshows hinv
        obtain ⟨a'', addr', hstep', hshows'⟩ := hptr.refines hshows hinv
        obtain rfl := hstep.det hinv hstep'
        refine ⟨hstep.lifeInv hinv, t' ++ [(e, s')], addr', hrun.snoc hptr, labels_concat .., ?_⟩
        rwa [last_concat])
    exact ⟨t', hrun, hlabels⟩

/-- **Memory safety of the manager and its threads**, in every state that any run leads to: every
load, store, `pthread_join` and `free` is one of a context that is there, and the memory shows the
contexts and the list of the run of `Lifecycle` with the same events. -/
theorem run_ctxMemory_safe (t : List (LifeEvent × PtrProcess))
    (hsteps : Run PtrStep PtrProcess.start t) :
    (last PtrProcess.start t).MemorySafe
      ∧ ∃ (t' : List (LifeEvent × Process)) (addr : ClientId → CtxPtr),
        Run LifeStep Process.start t' ∧ labels t' = labels t
          ∧ (last PtrProcess.start t).memory.Shows addr (last Process.start t').ctx
            (last Process.start t').connectionCtxList := by
  obtain ⟨t', addr, hrun, hlabels, hshows⟩ := run_shows hsteps
  exact ⟨hshows.memorySafe (run_lifeInv hrun), t', addr, hrun, hlabels, hshows.memory⟩

theorem run_ctxMemory_safe_oneConnection : ∃ t : List (LifeEvent × PtrProcess),
    Run PtrStep PtrProcess.start t
      ∧ labels t = [.enter, .accept 0, .mallocCtx 0, .create 0, .insert 0]
      ∧ (last PtrProcess.start t).memory.slhFirst = some 7
      ∧ (last PtrProcess.start t).MemorySafe := by
  have h₁ : Run PtrStep PtrProcess.start _ := Run.nil.snoc (.enter rfl rfl)
  have h₂ := h₁.snoc (.accept rfl)
  have h₃ := h₂.snoc (@PtrStep.mallocCtx _ _ 7 ⟨none, some 5, some 9⟩ rfl rfl)
  have h₄ := h₃.snoc (.create rfl)
  have h₅ := h₄.snoc (.insert rfl rfl rfl)
  exact ⟨_, h₅, rfl, rfl, (run_ctxMemory_safe _ h₅).1⟩

end Aesd
