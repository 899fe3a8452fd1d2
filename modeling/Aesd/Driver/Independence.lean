import Aesd.Driver.FilePointers
import Aesd.Driver.Specification

set_option autoImplicit false

/-! # Readers beside readers

Every open file has a position of its own, and nothing else in the device belongs to one file. So
nobody can see what others read or where they seek: leaving such calls out of a run changes no
result of the calls that remain (`unseen_calls_invisible`). A call is compared between two states
that agree in the memory and in the positions that are watched (`Kernel.AgreesOn`); a write does
not look at any position (`aesdWrite_withFPos`), and what the other calls do depends on the
position of their own file only (`call_quiet`). -/

namespace Aesd

open CInt Kernel

/-! ## Watched and unwatched calls -/

/-- A call that moves its own file, and does nothing else. -/
def DevCall.quiet : DevCall → Bool
  | .read .. | .llseek .. | .ioctl .. => true
  | .openFile _ | .release _ | .write .. => false

/-- What is left of the calls when nobody watches the other files. -/
def DevCall.seenBy (seen : FileId → Bool) (c : DevCall) : Bool :=
  seen c.request.file || !c.quiet

/-- Two states that differ in the positions of the files nobody watches. -/
structure Kernel.AgreesOn (seen : FileId → Bool) (k k₂ : Kernel) : Prop where
  same : k₂ = k.withFPos k₂.fPos
  positions : ∀ g, seen g = true → k₂.fPos g = k.fPos g
  isOpen : ∀ g, (k₂.fPos g).isSome = (k.fPos g).isSome

section

variable {api : KernelApi} {k k' k₂ : Kernel} {d : Device} {seen : FileId → Bool} {f : FileId}

theorem Kernel.AgreesOn.refl (k : Kernel) : k.AgreesOn seen k := ⟨rfl, fun _ _ => rfl, fun _ => rfl⟩

theorem Kernel.AgreesOn.shows (h : k.AgreesOn seen k₂) (hk : k.Shows api d) : k₂.Shows api d := by
  rw [h.same]
  exact hk.withFPos k₂.fPos

/-- The same file is moved, opened or closed on both sides. -/
theorem Kernel.AgreesOn.update (h : k.AgreesOn seen k₂) (f : FileId) (p : Option Nat) :
    Kernel.AgreesOn seen (k.withFPos (Function.update k.fPos f p))
      (k₂.withFPos (Function.update k₂.fPos f p)) where
  same := by
    have hsame := h.same
    rw [hsame]
    rfl
  positions g hg := by
    show Function.update k₂.fPos f p g = Function.update k.fPos f p g
    rw [Function.update_apply, Function.update_apply, h.positions g hg]
  isOpen g := by
    show (Function.update k₂.fPos f p g).isSome = (Function.update k.fPos f p g).isSome
    rw [Function.update_apply, Function.update_apply]
    split
    · rfl
    · exact h.isOpen g

/-- An open file that nobody watches is moved on one side. -/
theorem Kernel.AgreesOn.seekTo_unseen (h : k.AgreesOn seen k₂) (hf : seen f = false) {p : Nat}
    (hp : k.fPos f = some p) (q : Nat) : (k.seekTo f q).AgreesOn seen k₂ where
  same := h.same
  positions g hg := by
    rw [Kernel.seekTo_fPos_ne k q (by rintro rfl; rw [hf] at hg; cases hg)]
    exact h.positions g hg
  isOpen g := by
    rw [h.isOpen g]
    by_cases hg : g = f
    · rw [hg, Kernel.seekTo_fPos, hp]
      rfl
    · rw [Kernel.seekTo_fPos_ne k q hg]

/-- What a quiet call does depends on the memory of the device and on where its file stands. -/
theorem call_quiet (api : KernelApi) (d : Device) (p : Nat) {c : DevCall} (hc : c.quiet = true) :
    ∃ (r : SysRet) (q : Nat), ∀ k : Kernel, k.Shows api d → k.fPos c.request.file = some p →
      k.call api c = .ok (r, k.seekTo c.request.file q) := by
  -- a call that fails moves its file to where it stands
  have hstay : ∀ (r : SysRet) {k : Kernel}, k.fPos c.request.file = some p →
      (Except.ok (r, k) : Except Fault (SysRet × Kernel))
        = .ok (r, k.seekTo c.request.file p) := by
    intro r k hp
    rw [show k.seekTo c.request.file p = k from Kernel.restore_fPos hp]
  cases c with
  | openFile f | release f | write f buf choice uncopied => cases hc
  | read f count uncopied =>
      by_cases hleft : min uncopied (d.readLen count p) > 0
      · refine ⟨⟨-EFAULT,
          (d.flat.drop p).take (d.readLen count p - min uncopied (d.readLen count p))⟩,
          p, fun k hk hp => ?_⟩
        rw [hk.hasView.call_read (f := f) hp rfl, if_pos hleft]
        exact hstay _ hp
      · refine ⟨⟨(d.readLen count p : Nat), (d.flat.drop p).take (d.readLen count p)⟩,
          p + d.readLen count p, fun k hk hp => ?_⟩
        rw [hk.hasView.call_read (f := f) hp rfl, if_neg hleft]
        rfl
  | llseek f off whence =>
      refine ⟨.value (api.fixedSizeLlseek p off whence d.flat.length).1,
        (api.fixedSizeLlseek p off whence d.flat.length).2, fun k hk hp => ?_⟩
      exact hk.hasView.call_llseek hp off whence
  | ioctl f cmd seekto uncopied =>
      have hcall : ∀ k : Kernel, k.Shows api d → k.fPos f = some p → _ :=
        fun k hk hp => hk.hasView.call_ioctl hp cmd seekto uncopied
      by_cases hcmd : cmd = AESDCHAR_IOCSEEKTO
      · by_cases hcopy : min uncopied sizeofAesdSeekto ≠ 0
        · refine ⟨.value (-EFAULT), p, fun k hk hp => ?_⟩
          rw [hcall k hk hp, if_pos hcmd, if_pos hcopy]
          exact hstay _ hp
        · by_cases hcan : View.CanSeek ⟨d, fun _ => none⟩ seekto
          · refine ⟨.value 0, (View.seekPos ⟨d, fun _ => none⟩ seekto).toNat, fun k hk hp => ?_⟩
            rw [hcall k hk hp, if_pos hcmd, if_neg hcopy]
            exact if_pos hcan
          · refine ⟨.value (-EINVAL), p, fun k hk hp => ?_⟩
            rw [hcall k hk hp, if_pos hcmd, if_neg hcopy]
            exact (if_neg hcan).trans (hstay _ hp)
      · refine ⟨.value (-ENOTTY), p, fun k hk hp => ?_⟩
        rw [hcall k hk hp, if_neg hcmd]
        exact hstay _ hp

theorem Kernel.AgreesOn.isOpen_iff (h : k.AgreesOn seen k₂) :
    k₂.fPos f = none ↔ k.fPos f = none := by
  rw [← Option.not_isSome_iff_eq_none, ← Option.not_isSome_iff_eq_none, h.isOpen f]

/-- A call that somebody watches returns the same on both sides. -/
theorem Kernel.AgreesOn.call_seen (h : k.AgreesOn seen k₂) (hk : k.Shows api d) {c : DevCall}
    (hseen : c.seenBy seen = true) {r : SysRet}
    (hcall : k.call api c = .ok (r, k')) :
    ∃ k₂', k₂.call api c = .ok (r, k₂') ∧ k'.AgreesOn seen k₂' := by
  cases hp : k.fPos c.request.file with
  | none =>
      -- it is closed on both sides
      have hp₂ : k₂.fPos c.request.file = none := h.isOpen_iff.mpr hp
      cases c with
      | openFile f =>
          have hf : k.fPos f = none := hp
          have hf₂ : k₂.fPos f = none := hp₂
          simp only [Kernel.call, hf] at hcall
          obtain ⟨rfl, rfl⟩ := Prod.mk.inj (Except.ok.inj hcall)
          exact ⟨_, by simp only [Kernel.call, hf₂]; rfl, h.update f (some 0)⟩
      | release f | write f buf choice uncopied | read f count uncopied | llseek f off whence
      | ioctl f cmd seekto uncopied =>
          rw [Kernel.call_closed hp (by simp [DevCall.request])] at hcall
          obtain ⟨rfl, rfl⟩ := Prod.mk.inj (Except.ok.inj hcall)
          exact ⟨k₂, Kernel.call_closed hp₂ (by simp [DevCall.request]), h⟩
  | some p =>
      obtain ⟨p₂, hp₂⟩ : ∃ p₂, k₂.fPos c.request.file = some p₂ := by
        apply Option.isSome_iff_exists.mp
        rw [h.isOpen, hp]
        rfl
      by_cases hquiet : c.quiet = true
      · -- the file is watched, so it stands at the same position
        have hfile : seen c.request.file = true := by
          rw [DevCall.seenBy, hquiet, Bool.not_true, Bool.or_false] at hseen
          exact hseen
        obtain ⟨r', q, hsame⟩ := call_quiet api d p hquiet
        rw [hsame k hk hp] at hcall
        obtain ⟨rfl, rfl⟩ := Prod.mk.inj (Except.ok.inj hcall)
        have hp₂' : k₂.fPos c.request.file = some p := (h.positions _ hfile).trans hp
        exact ⟨_, hsame k₂ (h.shows hk) hp₂', h.update c.request.file (some q)⟩
      · cases c with
        | read f count uncopied | llseek f off whence | ioctl f cmd seekto uncopied =>
            exact absurd rfl hquiet
        | openFile f =>
            have hf : k.fPos f = some p := hp
            have hf₂ : k₂.fPos f = some p₂ := hp₂
            simp only [Kernel.call, hf] at hcall
            obtain ⟨rfl, rfl⟩ := Prod.mk.inj (Except.ok.inj hcall)
            exact ⟨k₂, by simp only [Kernel.call, hf₂], h⟩
        | release f =>
            have hf : k.fPos f = some p := hp
            have hf₂ : k₂.fPos f = some p₂ := hp₂
            simp only [Kernel.call, hf] at hcall
            obtain ⟨rfl, rfl⟩ := Prod.mk.inj (Except.ok.inj hcall)
            exact ⟨_, by simp only [Kernel.call, hf₂]; rfl, h.update f none⟩
        | write f buf choice uncopied =>
            have hf : k.fPos f = some p := hp
            have hf₂ : k₂.fPos f = some p₂ := hp₂
            -- where the files are does not matter, and they stay there
            have hfPos : k'.fPos = k.fPos := Kernel.call_write_fPos hcall
            simp only [Kernel.call, hf] at hcall
            obtain ⟨⟨ret, k''⟩, hwrite, hret⟩ := bind_eq_ok.mp hcall
            obtain ⟨rfl, rfl⟩ := Prod.mk.inj (Except.ok.inj hret)
            have hwrite₂ : aesdWrite api k₂ buf choice uncopied
                = .ok (ret, k''.withFPos k₂.fPos) := by
              rw [h.same, aesdWrite_withFPos, hwrite]
              rfl
            refine ⟨_, Kernel.call_write hf₂ buf choice uncopied hwrite₂, rfl, ?_, ?_⟩
            · intro g hg
              rw [hfPos]
              exact h.positions g hg
            · intro g
              rw [hfPos]
              exact h.isOpen g

/-- A call that nobody watches leaves the two sides in agreement. -/
theorem Kernel.AgreesOn.call_unseen (h : k.AgreesOn seen k₂) (hk : k.Shows api d) {c : DevCall}
    (hunseen : c.seenBy seen = false) {r : SysRet} (hcall : k.call api c = .ok (r, k')) :
    k'.AgreesOn seen k₂ := by
  obtain ⟨hfile, hquiet⟩ := Bool.or_eq_false_iff.mp hunseen
  rw [Bool.not_eq_false'] at hquiet
  cases hp : k.fPos c.request.file with
  | none =>
      have hother : c.request ≠ .openFile c.request.file := by
        cases c with
        | openFile f => cases hquiet
        | _ => simp [DevCall.request]
      rw [Kernel.call_closed hp hother] at hcall
      obtain ⟨-, rfl⟩ := Prod.mk.inj (Except.ok.inj hcall)
      exact h
  | some p =>
      obtain ⟨r', q, hsame⟩ := call_quiet api d p hquiet
      rw [hsame k hk hp] at hcall
      obtain ⟨-, rfl⟩ := Prod.mk.inj (Except.ok.inj hcall)
      exact h.seekTo_unseen hfile hp q

/-- The results of the calls somebody watches. -/
def seenResults (seen : FileId → Bool) (calls : List DevCall) (rs : List SysRet) : List SysRet :=
  ((calls.zip rs).filter fun cr => cr.1.seenBy seen).map Prod.snd

theorem Kernel.AgreesOn.run {calls : List DevCall} {rs : List SysRet} (h : k.AgreesOn seen k₂)
    (hk : k.Shows api d) (hcalls : ∀ c ∈ calls, c.InRange)
    (hrun : k.run api calls = .ok (rs, k')) :
    ∃ k₂', k₂.run api (calls.filter fun c => c.seenBy seen) = .ok (seenResults seen calls rs, k₂')
      ∧ k'.AgreesOn seen k₂' := by
  induction calls generalizing k k₂ d rs with
  | nil =>
      obtain ⟨rfl, rfl⟩ := Prod.mk.inj (Except.ok.inj hrun)
      exact ⟨k₂, rfl, h⟩
  | cons c rest ih =>
      obtain ⟨r, k₁, rs', hcall, hrest, rfl⟩ := Kernel.run_cons.mp hrun
      have hc := hcalls c List.mem_cons_self
      have hk₁ := (hk.call hc hcall).1
      have hrest' := fun c' hc' => hcalls c' (List.mem_cons_of_mem c hc')
      cases hseen : c.seenBy seen with
      | true =>
          obtain ⟨k₃, hcall₂, h₁⟩ := h.call_seen hk hseen hcall
          obtain ⟨k₂', hrun₂, h₂⟩ := ih h₁ hk₁ hrest' hrest
          have hresults : seenResults seen (c :: rest) (r :: rs')
              = r :: seenResults seen rest rs' := by simp [seenResults, hseen]
          refine ⟨k₂', ?_, h₂⟩
          rw [List.filter_cons_of_pos hseen, hresults]
          exact Kernel.run_cons.mpr ⟨r, k₃, _, hcall₂, hrun₂, rfl⟩
      | false =>
          have hno : ¬ c.seenBy seen = true := by rw [hseen]; decide
          obtain ⟨k₂', hrun₂, h₂⟩ := ih (h.call_unseen hk hseen hcall) hk₁ hrest' hrest
          have hresults : seenResults seen (c :: rest) (r :: rs') = seenResults seen rest rs' := by
            simp [seenResults, hseen]
          refine ⟨k₂', ?_, h₂⟩
          rw [List.filter_cons_of_neg hno, hresults]
          exact hrun₂

end

/-- **Nobody sees the others read or seek.** From any run, all reads and seeks on files outside a
set can be left out, and the calls that remain return what they returned. -/
theorem unseen_calls_invisible (api : KernelApi) (dev : AesdDev) (calls : List DevCall)
    (rs : List SysRet) (k : Kernel) (hcalls : ∀ c ∈ calls, c.InRange)
    (hrun : (Kernel.loaded dev).run api calls = .ok (rs, k)) (seen : FileId → Bool) :
    ∃ k', (Kernel.loaded dev).run api (calls.filter fun c => c.seenBy seen)
        = .ok (seenResults seen calls rs, k')
      ∧ k.AgreesOn seen k' :=
  (Kernel.AgreesOn.refl _).run (Kernel.loaded_shows api dev) hcalls hrun

theorem unseen_calls_invisible_twoReaders :
    let calls : List DevCall := twoWrites ++ [.openFile 2, .read 2 9 0, .read 1 2 0]
    ∃ (rs : List SysRet) (k k' : Kernel), (Kernel.loaded .zero).run .linux calls = .ok (rs, k)
      ∧ (Kernel.loaded .zero).run .linux (calls.filter fun c => c.seenBy fun f => f == 1)
        = .ok (seenResults (fun f => f == 1) calls rs, k') := by
  intro calls
  have hcalls : ∀ c ∈ calls, c.InRange := by
    simp [calls, twoWrites, DevCall.InRange, maxRwCount]
  obtain ⟨k', hrun, -⟩ := unseen_calls_invisible .linux .zero calls _ _ hcalls rfl fun f => f == 1
  exact ⟨_, _, k', rfl, hrun⟩

end Aesd
