import Aesd.Server.Connection

set_option autoImplicit false

/-! # One call of `tcp_connection_receive_message`

What a call does on any stream, with errors of `recv` anywhere in it. It takes in the bytes up to
the first delimiter, error or end (`segment`), and which of the three comes decides what it returns
(`tcpConnectionReceiveMessage_cases`). The buffer is doubled as an `int`, which goes well below
1 GiB: a segment of `2 ^ 30` bytes makes `buffer_size *= 2` overflow
(`receive_sizesInRange_iff`). -/

namespace Aesd

open CInt Delimited

/-! ## Segments -/

/-- The bytes a call takes in: those before the first delimiter, error or end. -/
def segment (d : UInt8) : List RecvRet → List UInt8
  | .byte x :: rest => if x = d then [] else x :: segment d rest
  | .error :: _ => []
  | [] => []

theorem delimiter_notMem_segment (d : UInt8) (incoming : List RecvRet) :
    d ∉ segment d incoming := by
  induction incoming with
  | nil => exact List.not_mem_nil
  | cons r rest ih =>
      cases r with
      | error => exact List.not_mem_nil
      | byte x =>
          rw [segment]
          by_cases hx : x = d
          · rw [if_pos hx]
            exact List.not_mem_nil
          · rw [if_neg hx, List.mem_cons, not_or]
            exact ⟨fun h => hx h.symm, ih⟩

/-- Bytes without the delimiter are one segment. -/
theorem segment_map {d : UInt8} {bytes : List UInt8} (h : d ∉ bytes) :
    segment d (bytes.map .byte) = bytes := by
  induction bytes with
  | nil => rfl
  | cons x rest ih =>
      rw [List.mem_cons, not_or] at h
      rw [List.map_cons, segment, if_neg (fun hx => h.1 hx.symm), ih h.2]

/-- The segment of bytes that the delimiter follows. -/
theorem segment_delimiter {d : UInt8} {bytes : List UInt8} (h : d ∉ bytes)
    (rest : List RecvRet) : segment d (bytes.map .byte ++ .byte d :: rest) = bytes := by
  induction bytes with
  | nil => exact if_pos rfl
  | cons x bytes ih =>
      rw [List.mem_cons, not_or] at h
      rw [List.map_cons, List.cons_append, segment, if_neg (fun hx => h.1 hx.symm), ih h.2]

/-- **What is behind the segment**: nothing, an error, or the delimiter. -/
theorem segment_cases (d : UInt8) (incoming : List RecvRet) :
    incoming = (segment d incoming).map .byte
      ∨ (∃ rest, incoming = (segment d incoming).map .byte ++ .error :: rest)
      ∨ ∃ rest, incoming = (segment d incoming).map .byte ++ .byte d :: rest := by
  induction incoming with
  | nil => exact Or.inl rfl
  | cons r rest ih =>
      cases r with
      | error => exact Or.inr (Or.inl ⟨rest, rfl⟩)
      | byte x =>
          by_cases hx : x = d
          · subst hx
            refine Or.inr (Or.inr ⟨rest, ?_⟩)
            rw [segment, if_pos rfl]
            rfl
          · rw [segment, if_neg hx]
            rcases ih with h | ⟨rest', h⟩ | ⟨rest', h⟩
            · exact Or.inl (congrArg _ h)
            · exact Or.inr (Or.inl ⟨rest', congrArg _ h⟩)
            · exact Or.inr (Or.inr ⟨rest', congrArg _ h⟩)

/-! ## The size of the buffer -/

/-- The buffer has been doubled `k` times from 1024 bytes on, and only when it was full. -/
def RecvBuffer.Doubled (b : RecvBuffer) : Prop :=
  ∃ k, b.bufferSize = 1024 * 2 ^ k ∧ (k = 0 ∨ b.bufferSize ≤ 2 * b.currentSize)

namespace RecvBuffer

variable {b b' : RecvBuffer} {received : List UInt8} {x : UInt8} {junk : Nat → UInt8}

theorem start_doubled (junk : Nat → UInt8) : (start junk).Doubled := ⟨0, rfl, Or.inl rfl⟩

theorem Doubled.of_advance (h : b.Doubled)
    (hadv : RecvBuffer.advance { b with buffer := b.buffer.set b.currentSize x } junk = .ok b') :
    b'.Doubled := by
  obtain ⟨k, hsize, hk⟩ := h
  unfold RecvBuffer.advance at hadv
  split at hadv
  · cases hadv
  · simp only at hadv
    by_cases hfull : b.currentSize + 1 = b.bufferSize
    · rw [if_pos hfull] at hadv
      split at hadv
      · cases hadv
      · cases hadv
        refine ⟨k + 1, ?_, Or.inr ?_⟩
        · show b.bufferSize * 2 = 1024 * 2 ^ (k + 1)
          rw [hsize, pow_succ, Nat.mul_assoc]
        · show b.bufferSize * 2 ≤ 2 * (b.currentSize + 1)
          omega
    · rw [if_neg hfull] at hadv
      cases hadv
      refine ⟨k, hsize, hk.imp id fun hle => ?_⟩
      show b.bufferSize ≤ 2 * (b.currentSize + 1)
      omega

/-- Below 1 GiB the size is an `int` with room to spare. -/
theorem Doubled.bufferSize_le (h : b.Doubled) (hcur : b.currentSize < 2 ^ 30) :
    b.bufferSize ≤ INT_MAX := by
  obtain ⟨k, hsize, rfl | hle⟩ := h
  · rw [hsize]
    decide
  · unfold INT_MAX
    omega

/-- **At 1 GiB the doubling overflows.** -/
theorem Doubled.advance_overflows (h : b.Doubled) (hb : b.Holds received)
    (hlen : received.length + 1 = 2 ^ 30) :
    RecvBuffer.advance { b with buffer := b.buffer.set b.currentSize x } junk
      = .error .signedOverflow := by
  have hcur := hb.currentSize_eq
  have hroom := hb.room
  obtain ⟨k, hsize, hk⟩ := h
  -- the only power of two between the bytes received so far and twice as many
  have hge : 20 ≤ k := by
    by_contra hlt
    have hpow : 2 ^ k ≤ 2 ^ 19 := Nat.pow_le_pow_right (by decide) (by omega)
    omega
  have hle : k ≤ 20 := by
    by_contra hlt
    have hpow : 2 ^ 21 ≤ 2 ^ k := Nat.pow_le_pow_right (by decide) (by omega)
    omega
  obtain rfl : k = 20 := Nat.le_antisymm hle hge
  have hmax : ¬ INT_MAX < b.currentSize + 1 := by
    unfold INT_MAX
    omega
  have hfull : b.currentSize + 1 = b.bufferSize := by omega
  have hover : INT_MAX < b.bufferSize * 2 := by
    unfold INT_MAX
    omega
  simp only [RecvBuffer.advance, if_neg hmax, if_pos hfull, if_pos hover]

/-- From the start of a call on. -/
theorem start_fill (junk : Nat → UInt8) {bytes : List UInt8} (hsize : bytes.length < 2 ^ 30) :
    ∃ b : RecvBuffer, (start junk).fill junk bytes = .ok b ∧ b.Holds bytes ∧ b.Doubled :=
  (start_holds junk).fill_keeps (fun hd hadv => hd.of_advance hadv) (start_doubled junk) hsize

end RecvBuffer

/-! ## The call -/

section

variable {d : UInt8} {junk : Nat → UInt8} {connection : TcpConnection}

/-- **What a call does**, if its segment is shorter than 1 GiB. At the end of the stream it closes
the connection; at an error it drops the segment; at the delimiter it returns the segment. -/
theorem tcpConnectionReceiveMessage_cases
    (hsize : (segment d connection.incoming).length < 2 ^ 30) :
    (connection.incoming = (segment d connection.incoming).map .byte
        ∧ tcpConnectionReceiveMessage connection d junk = .ok (none, ⟨[], false⟩))
      ∨ (∃ rest, connection.incoming = (segment d connection.incoming).map .byte ++ .error :: rest
        ∧ tcpConnectionReceiveMessage connection d junk
          = .ok (none, ⟨rest, connection.isOpen⟩))
      ∨ ∃ rest block,
        connection.incoming = (segment d connection.incoming).map .byte ++ .byte d :: rest
        ∧ tcpConnectionReceiveMessage connection d junk
          = .ok (some block, ⟨rest, connection.isOpen⟩)
        ∧ block.take ((segment d connection.incoming).length + 1)
          = segment d connection.incoming ++ [0] := by
  have hd := delimiter_notMem_segment d connection.incoming
  obtain ⟨incoming, isOpen⟩ := connection
  simp only at hsize hd ⊢
  have hcases := segment_cases d incoming
  generalize segment d incoming = seg at hsize hd hcases ⊢
  rcases hcases with rfl | ⟨rest, rfl⟩ | ⟨rest, rfl⟩
  · exact Or.inl ⟨rfl, receiveMessage_end d junk isOpen hd hsize⟩
  · exact Or.inr (Or.inl ⟨rest, rfl, receiveMessage_error d junk isOpen hd hsize rest⟩)
  · obtain ⟨block, hcall, htake⟩ := receiveMessage_delimiter d junk isOpen hd hsize rest
    exact Or.inr (Or.inr ⟨rest, block, rfl, hcall, htake⟩)

/-- **A segment of 1 GiB or more makes the size overflow.** -/
theorem tcpConnectionReceiveMessage_overflows
    (hsize : 2 ^ 30 ≤ (segment d connection.incoming).length) :
    tcpConnectionReceiveMessage connection d junk = .error .signedOverflow := by
  have hd := delimiter_notMem_segment d connection.incoming
  obtain ⟨rest, hrest⟩ : ∃ rest,
      connection.incoming = (segment d connection.incoming).map .byte ++ rest := by
    rcases segment_cases d connection.incoming with h | ⟨rest, h⟩ | ⟨rest, h⟩
    · exact ⟨[], by rwa [List.append_nil]⟩
    · exact ⟨_, h⟩
    · exact ⟨_, h⟩
  generalize segment d connection.incoming = seg at hsize hd hrest
  -- all but one byte of the first GiB are taken in, and the next one fills the buffer
  have hlt : 2 ^ 30 - 1 < seg.length := by omega
  have hsplit : seg = seg.take (2 ^ 30 - 1) ++ seg[2 ^ 30 - 1] :: seg.drop (2 ^ 30 - 1 + 1) := by
    rw [List.getElem_cons_drop, List.take_append_drop]
  have hlen : (seg.take (2 ^ 30 - 1)).length = 2 ^ 30 - 1 := by
    rw [List.length_take]
    omega
  generalize seg.take (2 ^ 30 - 1) = first, seg[2 ^ 30 - 1] = x,
    seg.drop (2 ^ 30 - 1 + 1) = last at hsplit hlen
  have hfirst : first.length < 2 ^ 30 := by omega
  obtain ⟨b, hfill, hb, hdoubled⟩ := RecvBuffer.start_fill junk hfirst
  rw [hsplit, List.mem_append, List.mem_cons, not_or, not_or] at hd
  rw [hsplit, List.map_append, List.map_cons, List.append_assoc, List.cons_append] at hrest
  rw [tcpConnectionReceiveMessage, hrest, receiveLoop_fill _ hd.1 _ hfill]
  have hx : x ≠ d := fun h => hd.2.1 h.symm
  simp only [receiveLoop, hb.put_eq, bind, Except.bind, if_neg hx,
    hdoubled.advance_overflows hb (x := x) (by omega)]

/-- A call that returns has taken in less than that. -/
theorem segment_lt {r : Option (List UInt8) × TcpConnection}
    (h : tcpConnectionReceiveMessage connection d junk = .ok r) :
    (segment d connection.incoming).length < 2 ^ 30 := by
  by_contra hsize
  rw [tcpConnectionReceiveMessage_overflows (by omega)] at h
  cases h

/-- A call on a packet that ends with the delimiter returns the packet, if it returns. -/
theorem receive_packet {packet : List UInt8} {rest : List RecvRet} {connection' : TcpConnection}
    {message : Option (List UInt8)} (hpacket : d ∉ packet)
    (hin : connection.incoming = packet.map .byte ++ .byte d :: rest)
    (h : tcpConnectionReceiveMessage connection d junk = .ok (message, connection')) :
    ∃ block, message = some block ∧ block.take (packet.length + 1) = packet ++ [0] := by
  have hsegment : segment d connection.incoming = packet := by
    rw [hin]
    exact segment_delimiter hpacket rest
  have hsize := segment_lt h
  rw [hsegment] at hsize
  obtain ⟨incoming, isOpen⟩ := connection
  obtain rfl : incoming = packet.map .byte ++ .byte d :: rest := hin
  obtain ⟨block, hcall, hblock⟩ := receiveMessage_delimiter d junk isOpen hpacket hsize rest
  rw [hcall] at h
  cases h
  exact ⟨block, rfl, hblock⟩

end

/-! ## The sizes stay in range -/

/-- **The arithmetic of a call does not overflow**: whatever part of the segment has been taken in,
`0 ≤ current_size < buffer_size`, and `buffer_size` is an `int` of the form `1024 * 2 ^ k` and the
size of the block. -/
structure SizesInRange (d : UInt8) (junk : Nat → UInt8) (connection : TcpConnection) : Prop where
  sizes : ∀ received, received <+: segment d connection.incoming →
    ∃ b : RecvBuffer, (RecvBuffer.start junk).fill junk received = .ok b ∧ b.Holds received
      ∧ b.bufferSize ≤ INT_MAX ∧ ∃ k, b.bufferSize = 1024 * 2 ^ k
  returns : ∃ r, tcpConnectionReceiveMessage connection d junk = .ok r

/-- **When the sizes stay in range**: on every stream, exactly if fewer than `2 ^ 30` bytes come
before the first delimiter, error or end. -/
theorem receive_sizesInRange_iff (d : UInt8) (junk : Nat → UInt8) (connection : TcpConnection) :
    SizesInRange d junk connection ↔ (segment d connection.incoming).length < 2 ^ 30 := by
  constructor
  · intro h
    obtain ⟨r, hr⟩ := h.returns
    exact segment_lt hr
  · intro hsize
    refine ⟨fun received hpre => ?_, ?_⟩
    · have hlt := Nat.lt_of_le_of_lt hpre.length_le hsize
      obtain ⟨b, hfill, hb, hdoubled⟩ := RecvBuffer.start_fill junk hlt
      have hle := hdoubled.bufferSize_le (by rwa [hb.currentSize_eq])
      obtain ⟨k, hk, -⟩ := hdoubled
      exact ⟨b, hfill, hb, hle, k, hk⟩
    · rcases @tcpConnectionReceiveMessage_cases d junk connection hsize with
        ⟨-, h⟩ | ⟨_, -, h⟩ | ⟨_, _, -, h, -⟩
      · exact ⟨_, h⟩
      · exact ⟨_, h⟩
      · exact ⟨_, h⟩

/-- A client that sends 1 GiB or more without a delimiter. -/
theorem not_sizesInRange_replicate {d x : UInt8} (hx : d ≠ x) (junk : Nat → UInt8) {n : Nat}
    (hn : 2 ^ 30 ≤ n) : ¬ SizesInRange d junk (.sending (List.replicate n x)) := by
  have hbytes : d ∉ List.replicate n x := fun h => hx (List.eq_of_mem_replicate h)
  intro h
  obtain ⟨r, hr⟩ := h.returns
  have hlt := segment_lt hr
  rw [TcpConnection.sending, segment_map hbytes, List.length_replicate] at hlt
  exact absurd hn (Nat.not_le.mpr hlt)

/-- `2 ^ 30` bytes without a newline: the last doubling is one to `2 ^ 31`. -/
theorem not_sizesInRange_gib :
    ¬ SizesInRange 10 (fun _ => 0) (.sending (List.replicate (2 ^ 30) 65)) :=
  not_sizesInRange_replicate (by decide) _ (Nat.le_refl _)

end Aesd
