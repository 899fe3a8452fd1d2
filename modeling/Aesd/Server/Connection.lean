import Aesd.Basic.CInt
import Aesd.Basic.Delimited
import Aesd.Driver.Kernel

set_option autoImplicit false

/-! # Messages from a connection

`tcp_connection.c`: `tcp_connection_receive_message` collects the bytes of one message in a
buffer that doubles when it is full. The stream a client sends is the list of what `recv` will
report, byte by byte; once it is used up the client has closed. -/

namespace Aesd

open CInt Delimited

/-- One `recv` of one byte that does not report the end of the stream. -/
inductive RecvRet
  /-- One byte has arrived. -/
  | byte (b : UInt8)
  /-- `recv` returned `-1`. -/
  | error
  deriving DecidableEq, Repr

/-- `tcp_connection_t`: what is still to be received, and `is_open`. -/
structure TcpConnection where
  incoming : List RecvRet
  isOpen : Bool
  deriving DecidableEq, Repr

/-- A connection on which a client has sent `bytes` and closed. -/
def TcpConnection.sending (bytes : List UInt8) : TcpConnection := ⟨bytes.map .byte, true⟩

/-! ## The buffer -/

/-- The locals of `tcp_connection_receive_message`: the block `buffer` points to, and the two
`int` counters. -/
structure RecvBuffer where
  buffer : List UInt8
  bufferSize : Nat
  currentSize : Nat
  deriving DecidableEq, Repr

namespace RecvBuffer

/-- `malloc(1024)`; `junk` is what happens to be in fresh memory. -/
def start (junk : Nat → UInt8) : RecvBuffer := ⟨(List.range 1024).map junk, 1024, 0⟩

/-- A store to `buffer[current_size]`. -/
def put (b : RecvBuffer) (x : UInt8) : Except Fault RecvBuffer :=
  if b.currentSize < b.buffer.length then .ok { b with buffer := b.buffer.set b.currentSize x }
  else .error .outOfBounds

/-- `realloc(buffer, buffer_size)`. -/
def realloc (b : RecvBuffer) (junk : Nat → UInt8) : RecvBuffer :=
  { b with
    buffer := b.buffer.take b.bufferSize
      ++ (List.range (b.bufferSize - b.buffer.length)).map junk }

/-- `current_size++`, and the doubling that follows it when the buffer is full. -/
def advance (b : RecvBuffer) (junk : Nat → UInt8) : Except Fault RecvBuffer :=
  if INT_MAX < b.currentSize + 1 then .error .signedOverflow
  else
    let b := { b with currentSize := b.currentSize + 1 }
    if b.currentSize = b.bufferSize then
      if INT_MAX < b.bufferSize * 2 then .error .signedOverflow
      else .ok ({ b with bufferSize := b.bufferSize * 2 }.realloc junk)
    else .ok b

/-- The iterations of the loop that take in `bytes`, none of them the delimiter. -/
def fill (junk : Nat → UInt8) : List UInt8 → RecvBuffer → Except Fault RecvBuffer
  | [], b => .ok b
  | x :: rest, b => do
      let b ← b.put x
      let b ← b.advance junk
      fill junk rest b

end RecvBuffer

/-- The loop of `tcp_connection_receive_message`: the block stored in `*message`, or `none` for
`NULL`, and the connection afterwards. -/
def receiveLoop (delimiter : UInt8) (junk : Nat → UInt8) (isOpen : Bool) :
    List RecvRet → RecvBuffer → Except Fault (Option (List UInt8) × TcpConnection)
  | [], _ => .ok (none, ⟨[], false⟩)
  | .error :: rest, _ => .ok (none, ⟨rest, isOpen⟩)
  | .byte x :: rest, b => do
      let b ← b.put x
      if x = delimiter then
        let b ← b.put 0
        return (some b.buffer, ⟨rest, isOpen⟩)
      else
        let b ← b.advance junk
        receiveLoop delimiter junk isOpen rest b

/-- `tcp_connection_receive_message`; the allocations are asserted to succeed. -/
def tcpConnectionReceiveMessage (connection : TcpConnection) (delimiter : UInt8)
    (junk : Nat → UInt8) : Except Fault (Option (List UInt8) × TcpConnection) :=
  receiveLoop delimiter junk connection.isOpen connection.incoming (.start junk)

/-- The first `n` calls on a connection. -/
def receiveMessages (delimiter : UInt8) (junk : Nat → UInt8) :
    Nat → TcpConnection → Except Fault (List (Option (List UInt8)) × TcpConnection)
  | 0, connection => .ok ([], connection)
  | n + 1, connection => do
      let (message, connection) ← tcpConnectionReceiveMessage connection delimiter junk
      let (messages, connection) ← receiveMessages delimiter junk n connection
      return (message :: messages, connection)

/-! ## What the buffer holds -/

/-- The invariant of the loop: the buffer starts with the bytes received so far, it has the size
the counter says, and there is room for one more byte. -/
structure RecvBuffer.Holds (b : RecvBuffer) (received : List UInt8) : Prop where
  currentSize_eq : b.currentSize = received.length
  length_eq : b.buffer.length = b.bufferSize
  room : b.currentSize < b.bufferSize
  bytes : b.buffer.take b.currentSize = received

namespace RecvBuffer

variable {b : RecvBuffer} {received : List UInt8}

theorem start_holds (junk : Nat → UInt8) : (start junk).Holds [] where
  currentSize_eq := rfl
  length_eq := by simp [start]
  room := by simp [start]
  bytes := rfl

/-- A store at the current index stays inside the buffer. -/
theorem Holds.put_eq (h : b.Holds received) (x : UInt8) :
    b.put x = .ok { b with buffer := b.buffer.set b.currentSize x } :=
  if_pos (by rw [h.length_eq]; exact h.room)

/-- It puts the byte behind the bytes received so far. -/
theorem Holds.take_set (h : b.Holds received) (x : UInt8) :
    (b.buffer.set b.currentSize x).take (b.currentSize + 1) = received ++ [x] := by
  have hlt : b.currentSize < b.buffer.length := by
    rw [h.length_eq]
    exact h.room
  rw [List.take_add_one, List.take_set_of_le (Nat.le_refl _), h.bytes, List.getElem?_set_self hlt]
  rfl

/-- **One more byte**, if no counter overflows: the bytes received so far survive the doubling, and
there is room again. -/
theorem Holds.of_advance (h : b.Holds received) {x : UInt8} {junk : Nat → UInt8} {b' : RecvBuffer}
    (hadv : RecvBuffer.advance { b with buffer := b.buffer.set b.currentSize x } junk = .ok b') :
    b'.Holds (received ++ [x]) := by
  have hcur := h.currentSize_eq
  have hroom := h.room
  have hlen := h.length_eq
  have hset := h.take_set x
  unfold RecvBuffer.advance at hadv
  split at hadv
  · cases hadv
  · simp only at hadv
    by_cases hfull : b.currentSize + 1 = b.bufferSize
    · -- the buffer is full: it doubles, and the bytes so far are copied
      rw [if_pos hfull] at hadv
      split at hadv
      · cases hadv
      · cases hadv
        have hkeep : (b.buffer.set b.currentSize x).take (b.bufferSize * 2)
            = b.buffer.set b.currentSize x :=
          List.take_of_length_le (by rw [List.length_set]; omega)
        refine ⟨by simp [realloc, hcur], ?_, ?_, ?_⟩
        · simp only [realloc, hkeep, List.length_append, List.length_set, List.length_map,
            List.length_range]
          omega
        · simp only [realloc]
          omega
        · simp only [realloc, hkeep]
          rw [List.take_append_of_le_length (by rw [List.length_set]; omega), hset]
    · -- there is room
      rw [if_neg hfull] at hadv
      cases hadv
      exact ⟨by simp [hcur], by simpa using hlen, by simp only; omega, hset⟩

/-- Below 1 GiB no counter overflows. -/
theorem Holds.advance (h : b.Holds received) (x : UInt8) (junk : Nat → UInt8)
    (hsize : received.length + 1 < 2 ^ 30) :
    ∃ b' : RecvBuffer,
      RecvBuffer.advance { b with buffer := b.buffer.set b.currentSize x } junk = .ok b'
      ∧ b'.Holds (received ++ [x]) := by
  have hcur := h.currentSize_eq
  have hmax : ¬ INT_MAX < b.currentSize + 1 := by
    unfold INT_MAX
    omega
  have hok : ∃ b' : RecvBuffer,
      RecvBuffer.advance { b with buffer := b.buffer.set b.currentSize x } junk = .ok b' := by
    by_cases hfull : b.currentSize + 1 = b.bufferSize
    · have hdouble : ¬ INT_MAX < b.bufferSize * 2 := by
        unfold INT_MAX
        omega
      exact ⟨(RecvBuffer.mk (b.buffer.set b.currentSize x) (b.bufferSize * 2)
          (b.currentSize + 1)).realloc junk,
        by simp only [RecvBuffer.advance, if_neg hmax, if_pos hfull, if_neg hdouble]⟩
    · exact ⟨⟨b.buffer.set b.currentSize x, b.bufferSize, b.currentSize + 1⟩,
        by simp only [RecvBuffer.advance, if_neg hmax, if_neg hfull]⟩
  obtain ⟨b', hadv⟩ := hok
  exact ⟨b', hadv, h.of_advance hadv⟩

/-- **The loop takes in any bytes below 1 GiB**, and keeps its invariant and whatever else one more
byte keeps. -/
theorem Holds.fill_keeps {P : RecvBuffer → Prop} {junk : Nat → UInt8}
    (hP : ∀ {b b' : RecvBuffer} {x : UInt8}, P b →
      RecvBuffer.advance { b with buffer := b.buffer.set b.currentSize x } junk = .ok b' → P b')
    (h : b.Holds received) (hb : P b) {bytes : List UInt8}
    (hsize : (received ++ bytes).length < 2 ^ 30) :
    ∃ b' : RecvBuffer, b.fill junk bytes = .ok b' ∧ b'.Holds (received ++ bytes) ∧ P b' := by
  induction bytes generalizing b received with
  | nil => exact ⟨b, rfl, by rwa [List.append_nil], hb⟩
  | cons x bytes ih =>
      rw [List.append_cons received x bytes] at hsize ⊢
      have hone : received.length + 1 < 2 ^ 30 := by
        simp only [List.length_append, List.length_singleton] at hsize
        omega
      obtain ⟨b₁, hadv, h₁⟩ := h.advance x junk hone
      obtain ⟨b', hfill, h'⟩ := ih h₁ (hP hb hadv) hsize
      refine ⟨b', ?_, h'⟩
      simp only [RecvBuffer.fill, h.put_eq, hadv, bind, Except.bind, hfill]

theorem Holds.fill (h : b.Holds received) (junk : Nat → UInt8) {bytes : List UInt8}
    (hsize : (received ++ bytes).length < 2 ^ 30) :
    ∃ b' : RecvBuffer, b.fill junk bytes = .ok b' ∧ b'.Holds (received ++ bytes) := by
  obtain ⟨b', hfill, h', -⟩ := h.fill_keeps (P := fun _ => True) (fun _ _ => trivial) trivial hsize
  exact ⟨b', hfill, h'⟩

end RecvBuffer

/-! ## One message -/

section

variable {d : UInt8} {junk : Nat → UInt8} {b b' : RecvBuffer}

/-- Up to the delimiter the loop only fills the buffer. -/
theorem receiveLoop_fill (isOpen : Bool) {bytes : List UInt8} (hbytes : d ∉ bytes)
    (rest : List RecvRet) (hfill : b.fill junk bytes = .ok b') :
    receiveLoop d junk isOpen (bytes.map .byte ++ rest) b = receiveLoop d junk isOpen rest b' := by
  induction bytes generalizing b with
  | nil => rw [Except.ok.inj hfill]; rfl
  | cons x bytes ih =>
      have hx : x ≠ d := fun hxd => hbytes (by simp [hxd])
      simp only [RecvBuffer.fill, bind, Except.bind] at hfill
      simp only [List.map_cons, List.cons_append, receiveLoop, bind, Except.bind, if_neg hx]
      cases hput : b.put x with
      | error e =>
          rw [hput] at hfill
          cases hfill
      | ok b₁ =>
          rw [hput] at hfill
          simp only at hfill ⊢
          cases hadv : b₁.advance junk with
          | error e =>
              rw [hadv] at hfill
              cases hfill
          | ok b₂ =>
              rw [hadv] at hfill
              exact ih (fun hmem => hbytes (List.mem_cons_of_mem _ hmem)) hfill

/-- The delimiter is overwritten with `0`, and the buffer is the message. -/
theorem receiveLoop_delimiter (d : UInt8) (junk : Nat → UInt8) (isOpen : Bool) {line : List UInt8}
    (h : b.Holds line) (rest : List RecvRet) :
    ∃ block : List UInt8,
      receiveLoop d junk isOpen (.byte d :: rest) b = .ok (some block, ⟨rest, isOpen⟩)
      ∧ block.take (line.length + 1) = line ++ [0] := by
  -- the delimiter has been stored at the same index
  have hput : ({ b with buffer := b.buffer.set b.currentSize d } : RecvBuffer).put 0
      = .ok { b with buffer := b.buffer.set b.currentSize 0 } := by
    rw [RecvBuffer.put, if_pos (by
      show b.currentSize < (b.buffer.set b.currentSize d).length
      rw [List.length_set, h.length_eq]
      exact h.room)]
    simp only [List.set_set]
  refine ⟨b.buffer.set b.currentSize 0, ?_, ?_⟩
  · simp only [receiveLoop, h.put_eq, hput, bind, Except.bind, if_true]
    rfl
  · rw [← h.currentSize_eq]
    exact h.take_set 0

/-- **One call, when a delimiter is to come.** It returns the bytes up to the delimiter and a
terminating `0`, and leaves what is behind the delimiter. -/
theorem receiveMessage_delimiter (d : UInt8) (junk : Nat → UInt8) (isOpen : Bool)
    {line : List UInt8} (hline : d ∉ line) (hsize : line.length < 2 ^ 30) (rest : List RecvRet) :
    ∃ block : List UInt8,
      tcpConnectionReceiveMessage ⟨line.map .byte ++ .byte d :: rest, isOpen⟩ d junk
        = .ok (some block, ⟨rest, isOpen⟩)
      ∧ block.take (line.length + 1) = line ++ [0] := by
  obtain ⟨b, hfill, hb⟩ := (RecvBuffer.start_holds junk).fill junk hsize
  obtain ⟨block, hloop, hblock⟩ := receiveLoop_delimiter d junk isOpen hb rest
  exact ⟨block, (receiveLoop_fill isOpen hline _ hfill).trans hloop, hblock⟩

/-- **One call, when an error is to come.** The bytes before it are dropped. -/
theorem receiveMessage_error (d : UInt8) (junk : Nat → UInt8) (isOpen : Bool)
    {line : List UInt8} (hline : d ∉ line) (hsize : line.length < 2 ^ 30) (rest : List RecvRet) :
    tcpConnectionReceiveMessage ⟨line.map .byte ++ .error :: rest, isOpen⟩ d junk
      = .ok (none, ⟨rest, isOpen⟩) := by
  obtain ⟨b, hfill, -⟩ := (RecvBuffer.start_holds junk).fill junk hsize
  exact receiveLoop_fill isOpen hline _ hfill

/-- **One call, when neither is to come.** The bytes are dropped, and the connection is closed. -/
theorem receiveMessage_end (d : UInt8) (junk : Nat → UInt8) (isOpen : Bool)
    {line : List UInt8} (hline : d ∉ line) (hsize : line.length < 2 ^ 30) :
    tcpConnectionReceiveMessage ⟨line.map .byte, isOpen⟩ d junk = .ok (none, ⟨[], false⟩) := by
  obtain ⟨b, hfill, -⟩ := (RecvBuffer.start_holds junk).fill junk hsize
  have h := receiveLoop_fill isOpen hline [] hfill
  rwa [List.append_nil] at h

end

/-- A call on a framed stream returns its first line. -/
theorem receiveMessage_framed {d : UInt8} (junk : Nat → UInt8) {line : List UInt8}
    (lines : List (List UInt8)) (tail : List UInt8) (hline : d ∉ line)
    (hsize : line.length < 2 ^ 30) :
    ∃ block : List UInt8,
      tcpConnectionReceiveMessage (.sending (framed d (line :: lines) tail)) d junk
        = .ok (some block, .sending (framed d lines tail))
      ∧ block.take (line.length + 1) = line ++ [0] := by
  rw [framed_cons, TcpConnection.sending, List.map_append, List.map_cons]
  exact receiveMessage_delimiter d junk true hline hsize _

/-- A call on an incomplete line closes the connection. -/
theorem receiveMessage_tail {d : UInt8} (junk : Nat → UInt8) {tail : List UInt8}
    (htail : d ∉ tail) (hsize : tail.length < 2 ^ 30) :
    tcpConnectionReceiveMessage (.sending tail) d junk = .ok (none, ⟨[], false⟩) :=
  receiveMessage_end d junk true htail hsize

/-! ## All messages -/

/-- The first calls return the first records, one each. -/
theorem receiveMessages_framed {d : UInt8} (junk : Nat → UInt8) {lines : List (List UInt8)}
    {tail : List UInt8} (hlines : ∀ l ∈ lines, d ∉ l ∧ l.length < 2 ^ 30) {i : Nat}
    (hi : i ≤ lines.length) :
    ∃ blocks : List (List UInt8),
      receiveMessages d junk i (.sending (framed d lines tail))
        = .ok (blocks.map some, .sending (framed d (lines.drop i) tail))
      ∧ List.Forall₂ (fun block line => block.take (line.length + 1) = line ++ [0]) blocks
          (lines.take i) := by
  induction i generalizing lines with
  | zero => exact ⟨[], rfl, List.Forall₂.nil⟩
  | succ i ih =>
      cases lines with
      | nil => exact absurd hi (by simp)
      | cons line lines =>
          obtain ⟨hline, hsize⟩ := hlines line (by simp)
          obtain ⟨block, hcall, hblock⟩ :=
            receiveMessage_framed junk lines tail hline hsize
          obtain ⟨blocks, hcalls, hblocks⟩ :=
            ih (fun l hl => hlines l (List.mem_cons_of_mem _ hl)) (Nat.le_of_succ_le_succ hi)
          refine ⟨block :: blocks, ?_, List.Forall₂.cons hblock hblocks⟩
          simp only [receiveMessages, hcall, hcalls, bind, Except.bind]
          rfl

/-- **Message framing.** On a stream that a client sends before closing, split at the delimiter:
there are as many complete lines as delimiters; the first `i` calls return the first `i` of
them, each as a block that starts with the line and a terminating `0`, and leave exactly the
bytes behind the `i`-th delimiter; and the call after the last one drops the rest, returns
`NULL` and closes the connection. None of the calls leaves its buffer, and whenever a part of a
line is received, the buffer holds it and has room for one more byte. -/
theorem receiveMessages_splitOn (d : UInt8) (junk : Nat → UInt8) (bytes : List UInt8)
    (hsize : ∀ l ∈ bytes.splitOn d, l.length < 2 ^ 30) :
    ∃ (lines : List (List UInt8)) (tail : List UInt8),
      bytes.splitOn d = lines ++ [tail]
      ∧ bytes = framed d lines tail
      ∧ lines.length = bytes.count d
      ∧ (∀ i ≤ lines.length, ∃ blocks : List (List UInt8),
          receiveMessages d junk i (.sending bytes)
            = .ok (blocks.map some, .sending (framed d (lines.drop i) tail))
          ∧ List.Forall₂ (fun block line => block.take (line.length + 1) = line ++ [0]) blocks
              (lines.take i))
      ∧ tcpConnectionReceiveMessage (.sending (framed d (lines.drop lines.length) tail)) d junk
          = .ok (none, ⟨[], false⟩)
      ∧ ∀ line ∈ bytes.splitOn d, ∀ received, received <+: line →
          ∃ b : RecvBuffer, (RecvBuffer.start junk).fill junk received = .ok b
            ∧ b.Holds received := by
  obtain ⟨lines, tail, hsplit, hbytes, hlines, htail⟩ := framed_splitOn d bytes
  rw [hsplit] at hsize ⊢
  refine ⟨lines, tail, rfl, hbytes, ?_, ?_, ?_, ?_⟩
  · rw [hbytes, count_framed hlines htail]
  · intro i hi
    rw [hbytes]
    exact receiveMessages_framed junk
      (fun l hl => ⟨hlines l hl, hsize l (List.mem_append_left _ hl)⟩) hi
  · rw [List.drop_length, framed_nil]
    exact receiveMessage_tail junk htail (hsize tail (by simp))
  · intro line hmem received hpre
    exact (RecvBuffer.start_holds junk).fill junk
      (Nat.lt_of_le_of_lt hpre.length_le (hsize line hmem))

theorem receiveMessages_splitOn_twoLines :
    ∃ (lines : List (List UInt8)) (tail : List UInt8),
      [10, 65, 66, 10, 67].splitOn 10 = lines ++ [tail]
      ∧ [10, 65, 66, 10, 67] = framed 10 lines tail
      ∧ lines.length = [10, 65, 66, 10, 67].count 10
      ∧ (∀ i ≤ lines.length, ∃ blocks : List (List UInt8),
          receiveMessages 10 (fun _ => 0) i (.sending [10, 65, 66, 10, 67])
            = .ok (blocks.map some, .sending (framed 10 (lines.drop i) tail))
          ∧ List.Forall₂ (fun block line => block.take (line.length + 1) = line ++ [0]) blocks
              (lines.take i))
      ∧ tcpConnectionReceiveMessage (.sending (framed 10 (lines.drop lines.length) tail)) 10
          (fun _ => 0) = .ok (none, ⟨[], false⟩)
      ∧ ∀ line ∈ [10, 65, 66, 10, 67].splitOn 10, ∀ received, received <+: line →
          ∃ b : RecvBuffer, (RecvBuffer.start fun _ => 0).fill (fun _ => 0) received = .ok b
            ∧ b.Holds received :=
  receiveMessages_splitOn 10 (fun _ => 0) [10, 65, 66, 10, 67] (by decide)

end Aesd
