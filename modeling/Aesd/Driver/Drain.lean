import Aesd.Basic.Draining
import Aesd.Driver.History

set_option autoImplicit false

/-! # Reading to the end

What a reader gets that calls `aesd_read` again and again, with counts of its own choice and all
copies succeeding. A single read stops at the end of the command that holds the position
(`Shows.call_read`); the reads together are a draining of the flattened content
(`reads_drain`). With it `aesd_llseek` can be compared to `aesd_read`: the end that `SEEK_END`
refers to is the number of bytes a reader gets from position `0` (`llseek_agrees_with_read`). -/

namespace Aesd

open CInt CircArray FlatIndex Draining Kernel

section

variable {api : KernelApi} {k k' : Kernel} {d : Device} {f : FileId} {p : Nat}

/-! ## A file at a position -/

/-- The state with another position of `f`. -/
def Kernel.seekTo (k : Kernel) (f : FileId) (p : Nat) : Kernel :=
  { k with fPos := Function.update k.fPos f (some p) }

@[simp] theorem Kernel.seekTo_fPos (k : Kernel) (f : FileId) (p : Nat) :
    (k.seekTo f p).fPos f = some p :=
  Function.update_self ..

theorem Kernel.seekTo_fPos_ne (k : Kernel) {f g : FileId} (p : Nat) (hne : g ≠ f) :
    (k.seekTo f p).fPos g = k.fPos g :=
  Function.update_of_ne hne ..

@[simp] theorem Kernel.seekTo_seekTo (k : Kernel) (f : FileId) (p q : Nat) :
    (k.seekTo f p).seekTo f q = k.seekTo f q := by
  simp [seekTo]

theorem Kernel.Shows.seekTo (h : k.Shows api d) (f : FileId) (p : Nat) :
    (k.seekTo f p).Shows api d :=
  h.withFPos _

/-- **A read whose copy succeeds**: the bytes up to the end of the command, and the position moves
behind them. -/
theorem Kernel.Shows.call_read (h : k.Shows api d) (f : FileId) (count p : Nat) :
    (k.seekTo f p).call api (.read f count 0)
      = .ok (⟨(d.readLen count p : Nat), (d.flat.drop p).take (d.readLen count p)⟩,
          k.seekTo f (p + d.readLen count p)) := by
  obtain ⟨staged, ring, hr⟩ := h.seekTo f p
  have hread := hr.aesdRead_eq count p 0
  simp only [Nat.zero_min, gt_iff_lt, Nat.lt_irrefl, if_false] at hread
  simp only [Kernel.call, seekTo_fPos, hread, bind, Except.bind]
  rw [← seekTo_seekTo k f p (p + d.readLen count p)]
  rfl

/-! ## Repeated reads -/

/-- The position before read number `n`. -/
def Device.readPos (d : Device) (counts : Nat → Nat) (p : Nat) : Nat → Nat
  | 0 => p
  | n + 1 => d.readPos counts p n + d.readLen (counts n) (d.readPos counts p n)

/-- What read number `n` returns. -/
def Device.readRet (d : Device) (counts : Nat → Nat) (p n : Nat) : SysRet :=
  let len := d.readLen (counts n) (d.readPos counts p n)
  ⟨(len : Int), (d.flat.drop (d.readPos counts p n)).take len⟩

/-- **Reads of at least one byte drain the content.** -/
theorem Device.readPos_drains (d : Device) {counts : Nat → Nat} (hcounts : ∀ n, 1 ≤ counts n)
    (p : Nat) :
    Drains d.flat (d.readPos counts p) fun n => d.readLen (counts n) (d.readPos counts p n) where
  next _ := rfl
  below n hlt := Device.readLen_of_lt (hcounts n) hlt
  at_end n hge := Device.readLen_of_le (counts n) hge

/-- The first `n` reads of a reader that asks for `counts i` bytes in read number `i`. -/
def readCalls (f : FileId) (counts : Nat → Nat) (n : Nat) : List DevCall :=
  (List.range n).map fun i => .read f (counts i) 0

theorem Kernel.run_concat {calls : List DevCall} {rs : List SysRet}
    (h : k.run api calls = .ok (rs, k')) {c : DevCall} {r : SysRet} {k'' : Kernel}
    (hcall : k'.call api c = .ok (r, k'')) :
    k.run api (calls ++ [c]) = .ok (rs ++ [r], k'') := by
  induction calls generalizing k rs with
  | nil =>
      obtain ⟨rfl, rfl⟩ := Prod.mk.inj (Except.ok.inj h)
      exact run_cons.mpr ⟨r, k'', [], hcall, rfl, rfl⟩
  | cons c' rest ih =>
      obtain ⟨r', k₁, rs', hcall', hrest, rfl⟩ := run_cons.mp h
      exact run_cons.mpr ⟨r', k₁, rs' ++ [r], hcall', ih hrest, rfl⟩

/-- What the reads return, and where they leave the position. -/
theorem Kernel.Shows.run_readCalls (h : k.Shows api d) (f : FileId) (counts : Nat → Nat)
    (p n : Nat) :
    (k.seekTo f p).run api (readCalls f counts n)
      = .ok ((List.range n).map (d.readRet counts p), k.seekTo f (d.readPos counts p n)) := by
  induction n with
  | zero => rfl
  | succ n ih =>
      rw [readCalls, List.range_succ, List.map_append, List.map_append]
      exact run_concat ih (h.call_read f (counts n) (d.readPos counts p n))

end

/-- **Draining reads.** In every state a run can lead to, a reader at any position that calls
`aesd_read` with any counts of at least one byte, all copies succeeding, gets a positive number
of bytes and no more than it asks for while it is below the end, moves by what it gets, is at
the end after at most as many calls as there are bytes left, gets `0` from then on, and has got
exactly the rest of the content. -/
theorem reads_drain (api : KernelApi) (dev : AesdDev) (calls : List DevCall) (rs : List SysRet)
    (k : Kernel) (hcalls : ∀ c ∈ calls, c.InRange)
    (hrun : (Kernel.loaded dev).run api calls = .ok (rs, k)) (commands : List (List UInt8))
    (hcommands : k.ringContents = .ok commands) (f : FileId) (p : Nat) (counts : Nat → Nat)
    (hcounts : ∀ n, 1 ≤ counts n) :
    let content := commands.flatten
    ∃ (pos : Nat → Nat) (r : Nat → SysRet),
      (∀ n, (k.seekTo f p).run api (readCalls f counts n)
        = .ok ((List.range n).map r, k.seekTo f (pos n)))
      ∧ pos 0 = p
      ∧ (∀ n, 0 ≤ (r n).ret ∧ (r n).ret ≤ counts n ∧ (pos (n + 1) : Int) = pos n + (r n).ret
          ∧ ((r n).bytes.length : Int) = (r n).ret)
      ∧ (∀ n, pos n < content.length → 0 < (r n).ret)
      ∧ (p ≤ content.length → pos (content.length - p) = content.length)
      ∧ (∀ n, content.length ≤ pos n → ∀ i, n ≤ i → (r i).ret = 0)
      ∧ ∀ n, content.length - p ≤ n →
          ((List.range n).map fun i => (r i).bytes).flatten = content.drop p := by
  have hshows := (Kernel.loaded_shows api dev).run hcalls hrun
  set d := Device.empty.afterAll calls rs with hd
  obtain rfl : d.commands = commands := Except.ok.inj (hshows.ringContents_eq.symm.trans hcommands)
  have hdrain := d.readPos_drains hcounts p
  refine ⟨d.readPos counts p, d.readRet counts p, hshows.run_readCalls f counts p, rfl, ?_, ?_,
    ?_, ?_, ?_⟩
  · intro n
    have hle := d.readLen_le_count (counts n) (d.readPos counts p n)
    have hinside : d.readLen (counts n) (d.readPos counts p n)
        ≤ d.flat.length - d.readPos counts p n := by
      rcases Nat.lt_or_ge (d.readPos counts p n) d.flat.length with hlt | hge
      · have hin := (hdrain.below n hlt).2
        omega
      · rw [hdrain.at_end n hge]
        exact Nat.zero_le _
    refine ⟨Int.natCast_nonneg _, Int.ofNat_le.mpr hle, Int.natCast_add _ _, ?_⟩
    show (List.length (List.take _ _) : Int) = _
    rw [List.length_take, List.length_drop, Nat.min_eq_left hinside]
    rfl
  · intro n hlt
    exact Int.natCast_pos.mpr (hdrain.below n hlt).1
  · intro hp
    exact Nat.le_antisymm (hdrain.pos_le hp _) (hdrain.reaches (Nat.le_refl _))
  · intro n hend i hi
    have hstay : d.flat.length ≤ d.readPos counts p i := by
      obtain ⟨j, rfl⟩ := Nat.exists_eq_add_of_le hi
      exact Nat.le_trans hend (hdrain.mono n j)
    exact congrArg Nat.cast (hdrain.at_end i hstay)
  · intro n hn
    exact hdrain.flatten_of_reached hn

/-- Two commands. -/
def twoWrites : List DevCall :=
  [.openFile 1, .write 1 [65, 66, newline] (some ⟨1, fun _ => 0⟩) 0,
    .write 1 [67, newline] (some ⟨2, fun _ => 0⟩) 0]

theorem reads_drain_twoWrites :
    ∃ (rs : List SysRet) (k : Kernel), (Kernel.loaded .zero).run .linux twoWrites = .ok (rs, k)
      ∧ ∃ (pos : Nat → Nat) (r : Nat → SysRet),
        (∀ n, (k.seekTo 1 1).run .linux (readCalls 1 (fun i => i + 1) n)
          = .ok ((List.range n).map r, k.seekTo 1 (pos n)))
        ∧ ∀ n, 5 - 1 ≤ n →
          ((List.range n).map fun i => (r i).bytes).flatten = [66, newline, 67, newline] := by
  obtain ⟨rs, k, hrun, hcommands⟩ : ∃ rs k,
      (Kernel.loaded .zero).run .linux twoWrites = .ok (rs, k)
        ∧ k.ringContents = .ok [[65, 66, newline], [67, newline]] := ⟨_, _, rfl, rfl⟩
  obtain ⟨pos, r, hreads, -, -, -, -, -, hall⟩ := reads_drain .linux .zero twoWrites rs k
    (by simp [twoWrites, DevCall.InRange, maxRwCount]) hrun _ hcommands 1 1 (fun i => i + 1)
    (by simp)
  exact ⟨rs, k, hrun, pos, r, hreads, hall⟩

/-! ## The end of the data -/

/-- Reading on from the position of `f` until `aesd_read` returns `0`, with any counts of at least
one byte and all copies succeeding, yields `bytes`. -/
inductive Kernel.ReadsToEnd (api : KernelApi) (f : FileId) : Kernel → List UInt8 → Prop
  | done {k k' : Kernel} {count : Nat} {r : SysRet} : 1 ≤ count →
      k.call api (.read f count 0) = .ok (r, k') → r.ret = 0 → ReadsToEnd api f k []
  | more {k k' : Kernel} {count : Nat} {r : SysRet} {rest : List UInt8} : 1 ≤ count →
      k.call api (.read f count 0) = .ok (r, k') → 0 < r.ret → ReadsToEnd api f k' rest →
        ReadsToEnd api f k (r.bytes ++ rest)

section

variable {api : KernelApi} {k k' : Kernel} {d : Device} {f : FileId}

/-- What reading to the end yields is the content from the position on. -/
theorem Kernel.ReadsToEnd.eq_drop {q : Kernel} {bytes : List UInt8}
    (hreads : q.ReadsToEnd api f bytes) (h : k.Shows api d) {p : Nat}
    (hq : q = k.seekTo f p) : bytes = d.flat.drop p := by
  induction hreads generalizing p with
  | done hcount hcall hret =>
      rename_i count _
      rw [hq, h.call_read f count p] at hcall
      obtain ⟨rfl, -⟩ := Prod.mk.inj (Except.ok.inj hcall)
      have hzero : d.readLen count p = 0 := Int.natCast_eq_zero.mp hret
      -- a read of at least one byte returns `0` at the end only
      have hend : d.flat.length ≤ p := by
        by_contra hlt
        have hpos := (Device.readLen_of_lt (d := d) hcount (Nat.lt_of_not_le hlt)).1
        omega
      rw [List.drop_of_length_le hend]
  | more hcount hcall hret _ ih =>
      rename_i count _ _ _
      rw [hq, h.call_read f count p] at hcall
      obtain ⟨rfl, rfl⟩ := Prod.mk.inj (Except.ok.inj hcall)
      rw [ih rfl, ← List.drop_drop]
      exact List.take_append_drop _ _

/-- From every position the end is reached. -/
theorem Kernel.Shows.readsToEnd (h : k.Shows api d) (f : FileId) {n p : Nat}
    (hn : d.flat.length - p ≤ n) : (k.seekTo f p).ReadsToEnd api f (d.flat.drop p) := by
  induction n generalizing p with
  | zero =>
      have hend : d.flat.length ≤ p := by omega
      have hzero := Device.readLen_of_le 1 hend
      rw [List.drop_of_length_le hend]
      refine .done (Nat.le_refl 1) (h.call_read f 1 p) ?_
      rw [hzero]
      rfl
  | succ n ih =>
      rcases Nat.lt_or_ge p d.flat.length with hlt | hend
      · -- one byte at a time is enough
        have hread := Device.readLen_of_lt (d := d) Nat.zero_lt_one hlt
        have hrest := ih (p := p + d.readLen 1 p) (by omega)
        have hmore := ReadsToEnd.more (Nat.le_refl 1) (h.call_read f 1 p)
          (Int.natCast_pos.mpr hread.1) hrest
        rwa [← List.drop_drop, List.take_append_drop] at hmore
      · exact ih (by omega)

/-- **Reading to the end yields the rest of the content**, and nothing else. -/
theorem Kernel.Shows.readsToEnd_iff (h : k.Shows api d) (f : FileId) (p : Nat)
    (bytes : List UInt8) :
    (k.seekTo f p).ReadsToEnd api f bytes ↔ bytes = d.flat.drop p := by
  constructor
  · intro hreads
    exact hreads.eq_drop h rfl
  · rintro rfl
    exact h.readsToEnd f (Nat.le_refl _)

/-- **`aesd_llseek` on an open file**: it fails and changes nothing, or it moves to the position it
returns. -/
theorem Kernel.Shows.call_llseek (h : k.Shows api d) {p : Nat} (hp : k.fPos f = some p)
    (off whence : Int) :
    let ret := (api.fixedSizeLlseek p off whence d.flat.length).1
    k.call api (.llseek f off whence)
      = .ok (.value ret, if 0 ≤ ret then k.seekTo f ret.toNat else k) := by
  intro ret
  obtain ⟨staged, ring, hr⟩ := h
  have hseek := hr.aesdLlseek_eq p off whence
  have hmove : (api.fixedSizeLlseek p off whence d.flat.length).2
      = if 0 ≤ ret then ret.toNat else p := by
    by_cases hret : 0 ≤ ret
    · have hmoves : _ = ret := api.llseek_moves p off whence _ hret
      rw [if_pos hret, ← hmoves, Int.toNat_natCast]
    · rw [if_neg hret]
      exact api.llseek_stays p off whence _ (Int.not_le.mp hret)
  simp only [Kernel.call, hp, hseek, hmove, bind, Except.bind]
  by_cases hret : 0 ≤ ret
  · simp only [if_pos hret]
    rfl
  · simp only [if_neg hret, restore_fPos hp]
    rfl

end

/-- **`aesd_llseek` and `aesd_read` agree on where the data ends.** In every state a run can lead
to there is one string `content` that reading from position `0` to the end yields. `SEEK_END`
takes exactly the distances within it, and reading on from there yields the bytes behind;
`SEEK_SET` takes exactly the positions within it; and a call that fails changes nothing. -/
theorem llseek_agrees_with_read (api : KernelApi) (dev : AesdDev) (calls : List DevCall)
    (rs : List SysRet) (k : Kernel) (hcalls : ∀ c ∈ calls, c.InRange)
    (hrun : (Kernel.loaded dev).run api calls = .ok (rs, k)) (f : FileId) (p : Nat)
    (hopen : k.fPos f = some p) :
    ∃ content : List UInt8, (∀ bytes, (k.seekTo f 0).ReadsToEnd api f bytes ↔ bytes = content)
      ∧ (∀ n : Int, ∃ (r : SysRet) (k' : Kernel),
          k.call api (.llseek f (-n) SEEK_END) = .ok (r, k')
          ∧ (0 ≤ r.ret ↔ 0 ≤ n ∧ n ≤ content.length)
          ∧ (0 ≤ r.ret → ∀ bytes, k'.ReadsToEnd api f bytes ↔ bytes = content.rtake n.toNat))
      ∧ (∀ off : Int, ∃ (r : SysRet) (k' : Kernel),
          k.call api (.llseek f off SEEK_SET) = .ok (r, k')
          ∧ (0 ≤ r.ret ↔ 0 ≤ off ∧ off ≤ content.length))
      ∧ ∀ (off whence : Int) (r : SysRet) (k' : Kernel),
          k.call api (.llseek f off whence) = .ok (r, k') → r.ret < 0 → k' = k := by
  have h := (Kernel.loaded_shows api dev).run hcalls hrun
  set d := Device.empty.afterAll calls rs with hd
  have hEINVAL : ¬ 0 ≤ -EINVAL := by decide
  refine ⟨d.flat, fun bytes => h.readsToEnd_iff f 0 bytes, fun n => ?_, fun off => ?_, ?_⟩
  · -- `SEEK_END`: the base is `size`, and `size` is the length of the content
    refine ⟨_, _, h.call_llseek hopen (-n) SEEK_END, ?_⟩
    simp only [SysRet.value, api.llseek_end]
    by_cases hin : 0 ≤ (d.flat.length : Int) + -n ∧ (d.flat.length : Int) + -n ≤ d.flat.length
    · rw [if_pos hin]
      refine ⟨iff_of_true hin.1 (by omega), fun _ bytes => ?_⟩
      have hpos : ((d.flat.length : Int) + -n).toNat = d.flat.length - n.toNat := by omega
      rw [if_pos hin.1, h.readsToEnd_iff, hpos]
      rfl
    · rw [if_neg hin]
      exact ⟨iff_of_false hEINVAL (by omega), fun hret => absurd hret hEINVAL⟩
  · -- `SEEK_SET`
    refine ⟨_, _, h.call_llseek hopen off SEEK_SET, ?_⟩
    simp only [SysRet.value, api.llseek_set]
    by_cases hin : 0 ≤ off ∧ off ≤ d.flat.length
    · rw [if_pos hin]
      exact iff_of_true hin.1 hin
    · rw [if_neg hin]
      exact iff_of_false hEINVAL hin
  · intro off whence r k' hcall hneg
    exact (h.call (c := .llseek f off whence) trivial hcall).2 hneg

theorem llseek_agrees_with_read_twoWrites :
    ∃ (rs : List SysRet) (k : Kernel), (Kernel.loaded .zero).run .linux twoWrites = .ok (rs, k)
      ∧ ∃ content : List UInt8,
        (∀ bytes, (k.seekTo 1 0).ReadsToEnd .linux 1 bytes ↔ bytes = content)
        ∧ ∃ (r : SysRet) (k' : Kernel), k.call .linux (.llseek 1 (-2) SEEK_END) = .ok (r, k')
          ∧ (0 ≤ r.ret ↔ (0 : Int) ≤ 2 ∧ (2 : Int) ≤ content.length) := by
  obtain ⟨rs, k, hrun, hopen⟩ : ∃ rs k,
      (Kernel.loaded .zero).run .linux twoWrites = .ok (rs, k) ∧ k.fPos 1 = some 0 :=
    ⟨_, _, rfl, rfl⟩
  obtain ⟨content, hcontent, hend, -, -⟩ := llseek_agrees_with_read .linux .zero twoWrites rs k
    (by simp [twoWrites, DevCall.InRange, maxRwCount]) hrun 1 0 hopen
  obtain ⟨r, k', hcall, hiff, -⟩ := hend 2
  exact ⟨rs, k, hrun, content, hcontent, r, k', hcall, hiff⟩

end Aesd
