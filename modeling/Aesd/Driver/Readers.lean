import Aesd.Driver.FilePointers
import Aesd.Driver.History
import Aesd.Driver.Specification

set_option autoImplicit false

/-! # Readers beside writers

A file that is only read and written, never moved by `llseek` or `ioctl`, reads the history of the
device in order (`reads_in_order`): no byte twice, none out of order, and what it passes over has
been evicted before it came there. The positions it compares are relative to the oldest command
that is left, so an eviction moves the reader on by as many bytes as it removes; a reader that has
read everything loses the beginning of the next command (`follower_misses`). -/

namespace Aesd

open CInt CircArray Gather Kernel

/-! ## What has been evicted -/

/-- How many bytes of the written history are not in the ring any more. -/
def evictedBytes (writes : List (List UInt8)) : Nat :=
  ((gather endsCommand writes).1.rdrop maxWriteOperationsSupported).flatten.length

/-- The bytes in the ring begin where the evicted ones end. -/
theorem drop_evictedBytes (writes : List (List UInt8)) :
    writes.flatten.drop (evictedBytes writes)
      = (writes.foldl Device.write Device.empty).flat
        ++ (writes.foldl Device.write Device.empty).pending := by
  obtain ⟨hcommands, hpending⟩ := Device.foldl_write writes
  have hsplit := rdrop_append_rtake (n := maxWriteOperationsSupported)
    (gather endsCommand writes).1
  rw [Device.flat, hcommands, hpending, ← flatten_gather endsCommand writes]
  conv_lhs => rw [← hsplit]
  rw [List.flatten_append, List.append_assoc, evictedBytes, List.drop_left]

/-- A piece more closes at most one group. -/
theorem gather_prefix (writes : List (List UInt8)) (buf : List UInt8) :
    (gather endsCommand writes).1 <+: (gather endsCommand (writes ++ [buf])).1 := by
  rw [gather_concat, gatherStep]
  split
  · exact List.prefix_append _ _
  · exact List.prefix_refl _

/-- Nothing comes back. -/
theorem evictedBytes_le (writes : List (List UInt8)) (buf : List UInt8) :
    evictedBytes writes ≤ evictedBytes (writes ++ [buf]) := by
  obtain ⟨more, hmore⟩ := gather_prefix writes buf
  have hprefix : (gather endsCommand writes).1.rdrop maxWriteOperationsSupported
      <+: (gather endsCommand (writes ++ [buf])).1.rdrop maxWriteOperationsSupported := by
    rw [← hmore]
    unfold List.rdrop
    rw [List.prefix_take_iff, List.length_take, List.length_append]
    exact ⟨(List.take_prefix _ _).trans (List.prefix_append _ _), by omega⟩
  exact hprefix.flatten.length_le

/-! ## One call -/

/-- A call that moves file `f` only by reading. -/
def DevCall.PlainOn (f : FileId) : DevCall → Prop
  | .write .. | .read .. => True
  | .openFile g | .release g | .llseek g .. | .ioctl g .. => g ≠ f

/-- What a successful read of file `f` delivers. -/
def DevCall.received (f : FileId) : DevCall → SysRet → List UInt8
  | .read g _ _, r => if g = f ∧ 0 < r.ret then r.bytes else []
  | _, _ => []

/-- The bytes that all reads of file `f` have delivered. -/
def received (f : FileId) (calls : List DevCall) (rs : List SysRet) : List UInt8 :=
  ((calls.zip rs).map fun cr => cr.1.received f cr.2).flatten

section

variable {api : KernelApi} {k k' : Kernel} {f : FileId}
  {writes : List (List UInt8)} {got : List UInt8}

/-- **The reader `f` is in order**: it stands behind the bytes it has received, and these are part
of the history up to where it stands. -/
structure ReaderInOrder (api : KernelApi) (k : Kernel) (writes : List (List UInt8)) (f : FileId)
    (got : List UInt8) : Prop where
  shows : k.Shows api (writes.foldl Device.write Device.empty)
  position : k.fPos f = some got.length
  ordered : got.Sublist (writes.flatten.take (evictedBytes writes + got.length))

/-- What the reader would read next begins behind what it has read and what has been evicted. -/
theorem drop_history (writes : List (List UInt8)) (got : List UInt8) :
    writes.flatten.drop (evictedBytes writes + got.length)
      = (writes.foldl Device.write Device.empty).flat.drop got.length
        ++ (writes.foldl Device.write Device.empty).pending.drop
          (got.length - (writes.foldl Device.write Device.empty).flat.length) := by
  calc writes.flatten.drop (evictedBytes writes + got.length)
      = (writes.flatten.drop (evictedBytes writes)).drop got.length := List.drop_drop.symm
    _ = ((writes.foldl Device.write Device.empty).flat
          ++ (writes.foldl Device.write Device.empty).pending).drop got.length := by
        rw [drop_evictedBytes]
    _ = (writes.foldl Device.write Device.empty).flat.drop got.length
          ++ (writes.foldl Device.write Device.empty).pending.drop
            (got.length - (writes.foldl Device.write Device.empty).flat.length) :=
        List.drop_append

/-- A call that is not a read of `f` leaves the reader where it is. -/
theorem ReaderInOrder.stay (h : ReaderInOrder api k writes f got)
    {c : DevCall} (hc : c.InRange) {r : SysRet} (hcall : k.call api c = .ok (r, k'))
    (hpos : k'.fPos f = k.fPos f) :
    ReaderInOrder api k' (writes ++ (c.added r).toList) f got := by
  have hshows := (h.shows.call hc hcall).1
  cases hadded : c.added r with
  | none =>
      rw [Device.after, hadded] at hshows
      rw [Option.toList_none, List.append_nil]
      exact ⟨hshows, hpos.trans h.position, h.ordered⟩
  | some buf =>
      rw [Device.after, hadded] at hshows
      -- the history becomes longer, and what is evicted moves the reader forward in it
      refine ⟨?_, hpos.trans h.position, h.ordered.trans (List.IsPrefix.sublist ?_)⟩
      · show k'.Shows api ((writes ++ [buf]).foldl Device.write Device.empty)
        rw [List.foldl_append]
        exact hshows
      · have hle := evictedBytes_le writes buf
        show _ <+: (writes ++ [buf]).flatten.take (evictedBytes (writes ++ [buf]) + got.length)
        rw [List.flatten_concat, List.prefix_take_iff, List.length_take]
        exact ⟨(List.take_prefix _ _).trans (List.prefix_append _ _), by omega⟩

/-- A read moves the file by what it returns, if it returns anything. -/
theorem ReaderInOrder.read_position (h : ReaderInOrder api k writes f got) {count uncopied : Nat}
    {r : SysRet} (hcall : k.call api (.read f count uncopied) = .ok (r, k')) :
    k'.fPos f = some (got.length + r.ret.toNat) := by
  rw [h.shows.hasView.call_read h.position rfl] at hcall
  split_ifs at hcall
  · obtain ⟨rfl, rfl⟩ := Prod.mk.inj (Except.ok.inj hcall)
    exact h.position
  · obtain ⟨rfl, rfl⟩ := Prod.mk.inj (Except.ok.inj hcall)
    rw [Kernel.seekTo_fPos, Int.toNat_natCast]

/-- A read of `f` delivers the next bytes of the history. -/
theorem ReaderInOrder.read (h : ReaderInOrder api k writes f got) {count uncopied : Nat}
    {r : SysRet} (hcall : k.call api (.read f count uncopied) = .ok (r, k')) (hpos : 0 < r.ret) :
    r.bytes = (writes.flatten.drop (evictedBytes writes + got.length)).take r.ret.toNat
      ∧ ReaderInOrder api k' writes f (got ++ r.bytes) := by
  obtain ⟨hbytes, hle⟩ := h.shows.read_bytes h.position hcall hpos
  have hflat : r.bytes
      = (writes.flatten.drop (evictedBytes writes + got.length)).take r.ret.toNat := by
    have hinside : r.ret.toNat
        ≤ ((writes.foldl Device.write Device.empty).flat.drop got.length).length := by
      rw [List.length_drop]
      omega
    rw [hbytes, drop_history, List.take_append_of_le_length hinside]
  have hlen : r.bytes.length = r.ret.toNat := by
    rw [hbytes, List.length_take, List.length_drop]
    omega
  refine ⟨hflat, (h.shows.call (c := .read f count uncopied) trivial hcall).1, ?_, ?_⟩
  · rw [h.read_position hcall, List.length_append, hlen]
  · rw [List.length_append, hlen, ← Nat.add_assoc, List.take_add, ← hflat]
    exact h.ordered.append (List.Sublist.refl _)

/-- A call moves no other file than its own. -/
theorem Kernel.Shows.call_fPos_ne {d : Device} (h : k.Shows api d) {c : DevCall} {r : SysRet}
    (hcall : k.call api c = .ok (r, k')) (hf : c.request.file ≠ f) : k'.fPos f = k.fPos f := by
  have hmoves : c.Counted → k'.fPos f = k.fPos f := by
    intro hc
    obtain ⟨v', hanswer, hview'⟩ := h.hasView.call_answers hc hcall
    rw [hview'.fPos]
    exact hanswer.pos_ne hf
  cases c with
  | write g buf choice uncopied => rw [Kernel.call_write_fPos hcall]
  | openFile g | release g | read g count uncopied | llseek g off whence
  | ioctl g cmd seekto uncopied => exact hmoves trivial

/-- What one call does to the reader. -/
theorem ReaderInOrder.call (h : ReaderInOrder api k writes f got) {c : DevCall} (hc : c.InRange)
    (hplain : c.PlainOn f) {r : SysRet} (hcall : k.call api c = .ok (r, k')) :
    ReaderInOrder api k' (writes ++ (c.added r).toList) f (got ++ c.received f r) := by
  by_cases hf : c.request.file = f
  · cases c with
    | openFile g | release g | llseek g off whence | ioctl g cmd seekto uncopied =>
        exact absurd hf hplain
    | write g buf choice uncopied =>
        show ReaderInOrder api k' _ f (got ++ [])
        rw [List.append_nil]
        apply h.stay hc hcall
        rw [Kernel.call_write_fPos hcall]
    | read g count uncopied =>
        have hg : g = f := hf
        subst hg
        by_cases hpos : 0 < r.ret
        · rw [DevCall.received, if_pos ⟨rfl, hpos⟩]
          simp only [DevCall.added, Option.toList_none, List.append_nil]
          exact (h.read hcall hpos).2
        · rw [DevCall.received, if_neg fun hand => hpos hand.2, List.append_nil]
          apply h.stay hc hcall
          rw [h.read_position hcall, h.position, Int.toNat_of_nonpos (Int.not_lt.mp hpos)]
          rfl
  · -- the call is on another file
    have hnone : c.received f r = [] := by
      cases c with
      | read g count uncopied => exact if_neg fun hand => hf hand.1
      | _ => rfl
    rw [hnone, List.append_nil]
    exact h.stay hc hcall (h.shows.call_fPos_ne hcall hf)

theorem ReaderInOrder.run {calls : List DevCall} {rs : List SysRet}
    (h : ReaderInOrder api k writes f got) (hcalls : ∀ c ∈ calls, c.InRange)
    (hplain : ∀ c ∈ calls, c.PlainOn f) (hrun : k.run api calls = .ok (rs, k')) :
    ReaderInOrder api k' (writes ++ successfulWrites calls rs) f (got ++ received f calls rs) := by
  induction calls generalizing k writes got rs with
  | nil =>
      obtain ⟨rfl, rfl⟩ := Prod.mk.inj (Except.ok.inj hrun)
      show ReaderInOrder api k (writes ++ []) f (got ++ [])
      rwa [List.append_nil, List.append_nil]
  | cons c rest ih =>
      obtain ⟨r, k₁, rs', hcall, hrest, rfl⟩ := Kernel.run_cons.mp hrun
      have h₁ := h.call (hcalls c List.mem_cons_self) (hplain c List.mem_cons_self) hcall
      have h₂ := ih h₁ (fun c' hc' => hcalls c' (List.mem_cons_of_mem _ hc'))
        (fun c' hc' => hplain c' (List.mem_cons_of_mem _ hc')) hrest
      have hwrites : successfulWrites (c :: rest) (r :: rs')
          = (c.added r).toList ++ successfulWrites rest rs' := by
        unfold successfulWrites
        rw [List.zip_cons_cons, List.filterMap_cons]
        cases c.added r <;> rfl
      have hreceived : received f (c :: rest) (r :: rs')
          = c.received f r ++ received f rest rs' := rfl
      rw [hwrites, hreceived, ← List.append_assoc, ← List.append_assoc]
      exact h₂

end

/-- **A reader reads the history in order.** Between the opening of a file and any later moment,
while the file is only read and written and everything else happens on other files, all bytes
delivered to it are part of what has been written, in that order and each at most once; and the
next read goes on behind what it has received and what has been evicted. -/
theorem reads_in_order (api : KernelApi) (dev : AesdDev) (pre mid : List DevCall)
    (rs₀ rs : List SysRet) (k₀ k₁ k : Kernel) (f : FileId) (hpre : ∀ c ∈ pre, c.InRange)
    (hmid : ∀ c ∈ mid, c.InRange) (hplain : ∀ c ∈ mid, c.PlainOn f)
    (hrun₀ : (Kernel.loaded dev).run api pre = .ok (rs₀, k₀))
    (hopen : k₀.call api (.openFile f) = .ok (.value 0, k₁))
    (hrun : k₁.run api mid = .ok (rs, k)) :
    let written := successfulWrites pre rs₀ ++ successfulWrites mid rs
    let got := received f mid rs
    got.Sublist written.flatten
      ∧ ∀ (count uncopied : Nat) (r : SysRet) (k' : Kernel),
        k.call api (.read f count uncopied) = .ok (r, k') → 0 < r.ret →
          r.bytes
            = (written.flatten.drop (evictedBytes written + got.length)).take r.ret.toNat := by
  intro written got
  have hshows₀ : k₀.Shows api ((successfulWrites pre rs₀).foldl Device.write Device.empty) :=
    (Kernel.loaded_shows api dev).run hpre hrun₀
  have hfirst : ReaderInOrder api k₁ (successfulWrites pre rs₀) f [] := by
    cases hp : k₀.fPos f with
    | some p =>
        simp only [Kernel.call, hp] at hopen
        cases congrArg SysRet.ret (Prod.mk.inj (Except.ok.inj hopen)).1
    | none =>
        simp only [Kernel.call, hp] at hopen
        obtain ⟨-, rfl⟩ := Prod.mk.inj (Except.ok.inj hopen)
        exact ⟨hshows₀.seekTo f 0, Kernel.seekTo_fPos k₀ f 0, List.nil_sublist _⟩
  have hlast : ReaderInOrder api k written f got := hfirst.run hmid hplain hrun
  refine ⟨hlast.ordered.trans (List.take_sublist _ _), ?_⟩
  intro count uncopied r k' hcall hpos
  exact (hlast.read hcall hpos).1

theorem reads_in_order_beside_writes :
    let mid : List DevCall := [.read 2 1 0, .write 1 [68, newline] (some ⟨3, fun _ => 0⟩) 0]
    ∃ (rs₀ rs : List SysRet) (k₀ k₁ k : Kernel),
      (Kernel.loaded .zero).run .linux twoWrites = .ok (rs₀, k₀)
      ∧ k₀.call .linux (.openFile 2) = .ok (.value 0, k₁) ∧ k₁.run .linux mid = .ok (rs, k)
      ∧ (received 2 mid rs).Sublist
        (successfulWrites twoWrites rs₀ ++ successfulWrites mid rs).flatten := by
  refine ⟨_, _, _, _, _, rfl, rfl, rfl, (reads_in_order .linux .zero twoWrites
    [.read 2 1 0, .write 1 [68, newline] (some ⟨3, fun _ => 0⟩) 0] _ _ _ _ _ 2
    ?_ ?_ ?_ rfl rfl rfl).1⟩
  · simp [twoWrites, DevCall.InRange, maxRwCount]
  · simp [DevCall.InRange, maxRwCount]
  · simp [DevCall.PlainOn]

/-! ## A reader at the end -/

/-- **A reader that has read everything misses the beginning of the next command** when the ring is
full: the command that is evicted takes as many bytes off the positions, so the reader stands that
far inside the new one, or behind it. -/
theorem follower_misses (api : KernelApi) (dev : AesdDev) (calls : List DevCall)
    (rs : List SysRet) (k : Kernel) (hcalls : ∀ c ∈ calls, c.InRange)
    (hrun : (Kernel.loaded dev).run api calls = .ok (rs, k)) (oldest : List UInt8)
    (others : List (List UInt8)) (pend : List UInt8)
    (hring : k.ringContents = .ok (oldest :: others))
    (hfull : (oldest :: others).length = maxWriteOperationsSupported)
    (hpend : k.stagingContents = .ok pend) (f g : FileId)
    (hend : k.fPos f = some (oldest :: others).flatten.length) (buf : List UInt8)
    (choice : Option KmallocBlock) (uncopied : Nat) (r : SysRet) (k' : Kernel)
    (hbuf : buf.length ≤ maxRwCount) (hnewline : endsCommand (pend ++ buf) = true)
    (hwrite : k.call api (.write g buf choice uncopied) = .ok (r, k')) (hok : 0 ≤ r.ret) :
    ∀ bytes, k'.ReadsToEnd api f bytes ↔ bytes = (pend ++ buf).drop oldest.length := by
  have hshows := (Kernel.loaded_shows api dev).run hcalls hrun
  generalize Device.empty.afterAll calls rs = d at hshows
  have hcommands : d.commands = oldest :: others :=
    Except.ok.inj (hshows.ringContents_eq.symm.trans hring)
  have hpending : d.pending = pend :=
    Except.ok.inj (hshows.stagingContents_eq.symm.trans hpend)
  have hne : buf ≠ [] := by
    rintro rfl
    have hopen := d.pending_open
    rw [List.append_nil, ← hpending, hopen] at hnewline
    cases hnewline
  have hcounted : (DevCall.write g buf choice uncopied).Counted :=
    ⟨List.length_pos_iff.mpr hne, hbuf⟩
  -- the ring has lost `oldest` and ends with the new command
  have hafter : d.after (.write g buf choice uncopied) r = d.write buf := by
    rw [Device.after, DevCall.added, if_pos hok]
    rfl
  have hshows' : k'.Shows api (d.write buf) := hafter ▸ (hshows.call hcounted.inRange hwrite).1
  have hflat : (d.write buf).flat = others.flatten ++ (pend ++ buf) := by
    have hends : endsCommand (d.pending ++ buf) = true := by rwa [hpending]
    have hrtake : (d.write buf).commands = others ++ [pend ++ buf] := by
      rw [(d.write_of_ends buf hends).1, hcommands, hpending, rtake_concat _ _ (by decide),
        if_neg (by omega), rtake_of_length_le (Nat.le_of_eq hfull), List.tail_cons]
    calc (d.write buf).flat
        = (others ++ [pend ++ buf]).flatten := by rw [Device.flat, hrtake]
      _ = others.flatten ++ (pend ++ buf) := List.flatten_concat
  -- and the file stands where it stood
  obtain ⟨v', hanswer, hview'⟩ := hshows.hasView.call_answers hcounted hwrite
  have hpos : k'.fPos f = some (oldest :: others).flatten.length := by
    rw [hview'.fPos, hanswer.pos_write]
    exact hend
  have hstands : k' = k'.seekTo f (oldest :: others).flatten.length :=
    (Kernel.restore_fPos hpos).symm
  intro bytes
  have hrest : (d.write buf).flat.drop (oldest :: others).flatten.length
      = (pend ++ buf).drop oldest.length := by
    calc (d.write buf).flat.drop (oldest :: others).flatten.length
        = (others.flatten ++ (pend ++ buf)).drop (others.flatten.length + oldest.length) := by
          rw [hflat, List.flatten_cons, List.length_append, Nat.add_comm]
      _ = ((others.flatten ++ (pend ++ buf)).drop others.flatten.length).drop oldest.length :=
          List.drop_drop.symm
      _ = (pend ++ buf).drop oldest.length := by rw [List.drop_left]
  rw [hstands, hshows'.readsToEnd_iff, hrest]

/-- Ten commands of three bytes, and a reader that has read them. -/
def tenCommands : List DevCall :=
  [.openFile 0, .openFile 1]
    ++ (List.range 10).map (fun i => .write 0 [65, 66, newline] (some ⟨i, fun _ => 0⟩) 0)
    ++ [.llseek 1 0 SEEK_END]

theorem tenCommands_inRange : ∀ c ∈ tenCommands, c.InRange := by
  intro c hc
  simp only [tenCommands, List.mem_append, List.mem_cons, List.not_mem_nil, or_false, List.mem_map,
    List.mem_range] at hc
  rcases hc with ((rfl | rfl) | ⟨i, -, rfl⟩) | rfl
  · trivial
  · trivial
  · exact show 3 ≤ maxRwCount by decide
  · trivial

theorem follower_misses_tenCommands :
    ∃ (rs : List SysRet) (k k' : Kernel), (Kernel.loaded .zero).run .linux tenCommands = .ok (rs, k)
      ∧ k.call .linux (.write 0 [67, 68, 69, 70, newline] (some ⟨10, fun _ => 0⟩) 0)
        = .ok (.value 5, k')
      ∧ ∀ bytes, k'.ReadsToEnd .linux 1 bytes ↔ bytes = [70, newline] :=
  ⟨_, _, _, rfl, rfl, follower_misses .linux .zero tenCommands _ _
    tenCommands_inRange rfl [65, 66, newline]
    (List.replicate 9 [65, 66, newline]) [] rfl rfl rfl 1 0 rfl [67, 68, 69, 70, newline]
    (some ⟨10, fun _ => 0⟩) 0 (.value 5) _ (by decide) rfl rfl (by decide)⟩

end Aesd
