import Aesd.Server.Message

set_option autoImplicit false

/-! # Which messages are seek commands

`decode_ioctl_command` compares the head of the message and leaves the rest to `sscanf` with the
format `"%u,%u"`. The accepted language is therefore the one of `%u` (`SeekText`): a client may
put white space and a sign in front of each number and anything behind the second one, and a
number is taken as `strtoul` and the narrowing to 32 bits leave it. The plain form
(`PlainSeekText`) is one part of it. -/

namespace Aesd

open CInt Scanf

/-- The messages that are decoded to `seekto`. -/
def SeekText (message : List UInt8) (seekto : AesdSeekto) : Prop :=
  ∃ x y rest : List UInt8, message = seekCommandHead ++ (x ++ comma :: (y ++ rest))
    ∧ UnsignedText x seekto.writeCmd ∧ UnsignedText y seekto.writeCmdOffset
    ∧ ∀ c ∈ rest.head?, isDigit c = false

/-- The plain form: two numbers below `2 ^ 32` in decimal digits, and nothing else. -/
def PlainSeekText (message : List UInt8) (seekto : AesdSeekto) : Prop :=
  ∃ x y : List UInt8, message = seekCommandHead ++ (x ++ comma :: y)
    ∧ Digits x ∧ digitsValue x = seekto.writeCmd ∧ seekto.writeCmd < 2 ^ 32
    ∧ Digits y ∧ digitsValue y = seekto.writeCmdOffset ∧ seekto.writeCmdOffset < 2 ^ 32

theorem scanChar_eq_some_iff {c : UInt8} {s rest : List UInt8} :
    scanChar c s = some rest ↔ s = c :: rest := by
  cases s with
  | nil => simp [scanChar]
  | cons c' s =>
      rw [scanChar]
      by_cases hc : c' = c
      · simp [hc]
      · simp [hc]

/-- **The language of the format `"%u,%u"`.** -/
theorem sscanfPair_eq_some_iff {s : List UInt8} {m n : Nat} :
    sscanfPair s = some (m, n) ↔
      ∃ x y rest : List UInt8, s = x ++ comma :: (y ++ rest) ∧ UnsignedText x m
        ∧ UnsignedText y n ∧ ∀ c ∈ rest.head?, isDigit c = false := by
  simp only [sscanfPair, Option.bind_eq_bind, Option.bind_eq_some_iff, Option.pure_def,
    Option.some.injEq]
  constructor
  · rintro ⟨⟨m', s₁⟩, hfirst, s₂, hcomma, ⟨n', rest⟩, hsecond, heq⟩
    obtain ⟨rfl, rfl⟩ := Prod.mk.inj heq
    obtain ⟨x, hx, rfl, -⟩ := scanUnsigned_eq_some_iff.mp hfirst
    obtain ⟨y, hy, rfl, hrest⟩ := scanUnsigned_eq_some_iff.mp hsecond
    obtain rfl := scanChar_eq_some_iff.mp hcomma
    exact ⟨x, y, rest, rfl, hx, hy, hrest⟩
  · rintro ⟨x, y, rest, rfl, hx, hy, hrest⟩
    have hcomma : ∀ c ∈ (comma :: (y ++ rest)).head?, isDigit c = false := by
      intro c hc
      obtain rfl : comma = c := Option.some.inj hc
      decide
    exact ⟨(m, comma :: (y ++ rest)), scanUnsigned_eq_some_iff.mpr ⟨x, hx, rfl, hcomma⟩,
      y ++ rest, scanChar_eq_some_iff.mpr rfl,
      (n, rest), scanUnsigned_eq_some_iff.mpr ⟨y, hy, rfl, hrest⟩, rfl⟩

/-- The comparison with the head, and what is behind it. -/
theorem take_head_iff {head message : List UInt8} :
    message.take head.length = head ↔ ∃ rest, message = head ++ rest := by
  constructor
  · intro h
    have hsplit := (List.take_append_drop head.length message).symm
    rw [h] at hsplit
    exact ⟨_, hsplit⟩
  · rintro ⟨rest, rfl⟩
    exact List.take_left

/-- **The language of `decode_ioctl_command`.** -/
theorem decodeIoctlCommand_eq_some_iff {message : List UInt8} {seekto : AesdSeekto} :
    decodeIoctlCommand message = some seekto ↔ SeekText message seekto := by
  obtain ⟨m, n⟩ := seekto
  rw [decodeIoctlCommand]
  constructor
  · intro h
    by_cases hhead : message.take seekCommandHead.length = seekCommandHead
    · obtain ⟨s, rfl⟩ := take_head_iff.mp hhead
      rw [if_pos hhead, List.drop_left, Option.map_eq_some_iff] at h
      obtain ⟨⟨m', n'⟩, hpair, heq⟩ := h
      cases heq
      obtain ⟨x, y, rest, rfl, hx, hy, hrest⟩ := sscanfPair_eq_some_iff.mp hpair
      exact ⟨x, y, rest, rfl, hx, hy, hrest⟩
    · rw [if_neg hhead] at h
      cases h
  · rintro ⟨x, y, rest, rfl, hx, hy, hrest⟩
    rw [List.take_left, if_pos rfl, List.drop_left,
      sscanfPair_eq_some_iff.mpr ⟨x, y, rest, rfl, hx, hy, hrest⟩]
    rfl

/-- The plain form is accepted. -/
theorem PlainSeekText.seekText {message : List UInt8} {seekto : AesdSeekto}
    (h : PlainSeekText message seekto) : SeekText message seekto := by
  obtain ⟨x, y, hmessage, hx, hxv, hxlt, hy, hyv, hylt⟩ := h
  refine ⟨x, y, [], by rw [hmessage, List.append_nil], ?_, ?_, by simp⟩
  · rw [← hxv]
    exact unsignedText_digits hx (by rwa [hxv])
  · rw [← hyv]
    exact unsignedText_digits hy (by rwa [hyv])

/-- **What `handle_message` takes for a seek command.** A message is decoded exactly if it is the
head, a number as `%u` reads it, a comma, and another such number; what is behind the second
number is ignored. The plain form gives the numbers as they are written. Such a message is
passed to `ioctl` and nothing of it is stored; of every other message all bytes are. -/
theorem handleMessage_seekText :
    (∀ (message : List UInt8) (seekto : AesdSeekto),
      decodeIoctlCommand message = some seekto ↔ SeekText message seekto)
    ∧ (∀ (message : List UInt8) (seekto : AesdSeekto), PlainSeekText message seekto →
        decodeIoctlCommand message = some seekto)
    ∧ ∀ {σ ω : Type} (ops : FileOps σ ω) (message : List UInt8) (plan : StdioPlan ω) (env : ω)
        (s : σ),
      (∀ seekto, SeekText (cString message) seekto →
        handleMessage ops message plan env s = ops.ioctl env AESDCHAR_IOCSEEKTO seekto s)
      ∧ ((¬ ∃ seekto, SeekText (cString message) seekto) →
          plan.Prints (cString message ++ [newline]) →
          ∀ s', writeChunks ops plan.chunks s = .ok (true, s') →
            handleMessage ops message plan env s
              = .ok ((((cString message).length + 1 : Nat) : Int), s')) := by
  refine ⟨fun _ _ => decodeIoctlCommand_eq_some_iff,
    fun _ _ h => decodeIoctlCommand_eq_some_iff.mpr h.seekText,
    fun ops message plan env s => ⟨fun seekto h => ?_, fun hno _ s' hw => ?_⟩⟩
  · exact handleMessage_command ops (decodeIoctlCommand_eq_some_iff.mpr h)
  · refine handleMessage_data ops ?_ hw
    cases hdecode : decodeIoctlCommand (cString message) with
    | none => rfl
    | some seekto => exact absurd ⟨seekto, decodeIoctlCommand_eq_some_iff.mp hdecode⟩ hno

/-- `" -1,2 x"` behind the head is a seek command too, for command `2 ^ 32 - 1`. -/
theorem not_plainSeekText_of_decoded :
    let message := seekCommandHead ++ [32, 45, 49, 44, 50, 32, 120]
    decodeIoctlCommand message = some ⟨4294967295, 2⟩
      ∧ ¬ ∃ seekto, PlainSeekText message seekto := by
  refine ⟨by decide, ?_⟩
  rintro ⟨seekto, x, y, hmessage, ⟨hne, hdigits⟩, -⟩
  obtain ⟨c, x, rfl⟩ := List.exists_cons_of_ne_nil hne
  -- the first byte behind the head is a blank
  have hbehind := List.append_cancel_left hmessage
  have hblank : 32 = c := (List.cons.inj hbehind).1
  exact absurd (hdigits c (by simp)) (by rw [← hblank]; decide)

end Aesd
