import Aesd.Basic.Scanf
import Aesd.Driver.CharDevice

set_option autoImplicit false

/-! # Handling one message

`connection_manager.c` from a received message to the reply: `decode_ioctl_command`,
`handle_message`, `tcp_connection_send_message` and `tcp_connection_send_file`. They are written
over `FileOps`, the system calls on the open file, so that the two builds of the server share
them. What stdio and the environment decide on their own is an argument: how the printed text
is cut into `write` calls (`StdioPlan`), how much a `send` takes, and whatever a system call of
the build depends on (`ω`). -/

namespace Aesd

open CInt Scanf

/-! ## The seek command -/

/-- The string a `char *` points to: the bytes before the first `0`. -/
def cString (block : List UInt8) : List UInt8 := block.takeWhile (· ≠ 0)

/-- A block that starts with some bytes and a `0` holds the string that the bytes hold. -/
theorem cString_of_take {block line : List UInt8}
    (hblock : block.take (line.length + 1) = line ++ [0]) : cString block = cString line := by
  have hstop : ∀ rest : List UInt8, ([0] ++ rest).takeWhile (· ≠ 0) = [] := fun _ => rfl
  unfold cString
  rw [← List.take_append_drop (line.length + 1) block, hblock, List.append_assoc,
    List.takeWhile_append, hstop, List.append_nil]
  split
  · next hall => exact ((List.takeWhile_prefix _).eq_of_length hall).symm
  · rfl

/-- Bytes without a `0` are a string. -/
theorem cString_eq_self_iff {line : List UInt8} : cString line = line ↔ 0 ∉ line := by
  rw [cString, List.takeWhile_eq_self_iff]
  constructor
  · intro hall hzero
    exact absurd (hall 0 hzero) (by decide)
  · intro hline c hc
    rw [decide_eq_true_eq]
    rintro rfl
    exact hline hc

theorem cString_eq_of_take {block line : List UInt8}
    (hblock : block.take (line.length + 1) = line ++ [0]) (hline : 0 ∉ line) :
    cString block = line := by
  rw [cString_of_take hblock, cString_eq_self_iff.mpr hline]

/-- `"AESDCHAR_IOCSEEKTO:"`. -/
def seekCommandHead : List UInt8 :=
  (['A', 'E', 'S', 'D', 'C', 'H', 'A', 'R', '_', 'I', 'O', 'C', 'S', 'E', 'E', 'K', 'T', 'O', ':']
    : List Char).map fun c => UInt8.ofNat c.toNat

/-- `','`. -/
def comma : UInt8 := 44

/-- `sscanf(s, "%u,%u", …) == 2`, with the two numbers. -/
def sscanfPair (s : List UInt8) : Option (Nat × Nat) := do
  let (writeCmd, s) ← scanUnsigned s
  let s ← scanChar comma s
  let (writeCmdOffset, _) ← scanUnsigned s
  return (writeCmd, writeCmdOffset)

/-- `decode_ioctl_command`: the `seekto` it fills in when it returns `true`. -/
def decodeIoctlCommand (message : List UInt8) : Option AesdSeekto :=
  if message.take seekCommandHead.length = seekCommandHead then
    (sscanfPair (message.drop seekCommandHead.length)).map fun (writeCmd, writeCmdOffset) =>
      ⟨writeCmd, writeCmdOffset⟩
  else none

/-- The seek command for a command index and an offset, as a client writes it. -/
def seekCommand (x y : Nat) : List UInt8 := seekCommandHead ++ decimal x ++ comma :: decimal y

/-- **It is decoded to the numbers it was made of.** -/
theorem decodeIoctlCommand_seekCommand {x y : Nat} (hx : x < 2 ^ 32) (hy : y < 2 ^ 32) :
    decodeIoctlCommand (seekCommand x y) = some ⟨x, y⟩ := by
  have hcomma : ∀ c ∈ (comma :: decimal y).head?, isDigit c = false := by
    intro c hc
    obtain rfl : comma = c := Option.some.inj hc
    decide
  have hy' := scanUnsigned_decimal hy [] (by simp)
  rw [List.append_nil] at hy'
  have hpair : sscanfPair (decimal x ++ comma :: decimal y) = some (x, y) := by
    rw [sscanfPair, scanUnsigned_decimal hx _ hcomma]
    simp only [Option.bind_eq_bind, Option.bind_some, scanChar, if_true, hy']
    rfl
  rw [decodeIoctlCommand, seekCommand, List.append_assoc, List.take_left, if_pos rfl,
    List.drop_left, hpair]
  rfl

theorem zero_notMem_seekCommand (x y : Nat) : 0 ∉ seekCommand x y := by
  have hdec : ∀ n, 0 ∉ decimal n := by
    intro n h0
    exact absurd (isDigit_of_mem_decimal h0) (by decide)
  simp only [seekCommand, List.mem_append, List.mem_cons, not_or]
  exact ⟨⟨by decide, hdec x⟩, by decide, hdec y⟩

/-! ## Files -/

/-- The system calls on an open file. A call takes what the environment decides during it and
the state of the file system; it returns its value and the new state, and `read` also the bytes
that have arrived. -/
structure FileOps (σ ω : Type) where
  write : ω → List UInt8 → σ → Except Fault (Int × σ)
  read : ω → Nat → σ → Except Fault (Int × List UInt8 × σ)
  ioctl : ω → Nat → AesdSeekto → σ → Except Fault (Int × σ)

/-- The bytes stdio passes to one `write`, and what the environment decides during it. -/
structure Chunk (ω : Type) where
  bytes : List UInt8
  env : ω

/-- How stdio writes what `fprintf` prints: the chunks `fprintf` writes itself, and those it
leaves in the stream buffer for `fflush`. -/
structure StdioPlan (ω : Type) where
  direct : List (Chunk ω)
  buffered : List (Chunk ω)

/-- All chunks of a plan, in order. -/
def StdioPlan.chunks {ω : Type} (plan : StdioPlan ω) : List (Chunk ω) :=
  plan.direct ++ plan.buffered

/-- The plan is one for `text`: its chunks are not empty and make up the text. -/
structure StdioPlan.Prints {ω : Type} (plan : StdioPlan ω) (text : List UInt8) : Prop where
  ne_nil : ∀ c ∈ plan.chunks, c.bytes ≠ []
  flatten : (plan.chunks.map Chunk.bytes).flatten = text

/-- A text in one chunk. -/
def StdioPlan.whole {ω : Type} (text : List UInt8) (env : ω) : StdioPlan ω := ⟨[], [⟨text, env⟩]⟩

theorem StdioPlan.whole_prints {ω : Type} (text : List UInt8) (hne : text ≠ []) (env : ω) :
    (StdioPlan.whole text env).Prints text where
  ne_nil := by
    intro c hc
    obtain rfl : c = ⟨text, env⟩ := List.mem_singleton.mp hc
    exact hne
  flatten := by simp [StdioPlan.whole, StdioPlan.chunks]

section

variable {σ ω : Type} (ops : FileOps σ ω)

/-- Chunks are written one after the other up to the first that is rejected. The result says
whether all were accepted. -/
def writeChunks : List (Chunk ω) → σ → Except Fault (Bool × σ)
  | [], s => .ok (true, s)
  | c :: rest, s => do
      let (ret, s) ← ops.write c.env c.bytes s
      if ret < 0 then return (false, s)
      else writeChunks rest s

/-- `handle_message`: the returned value and the state. -/
def handleMessage (message : List UInt8) (plan : StdioPlan ω) (env : ω) (s : σ) :
    Except Fault (Int × σ) :=
  match decodeIoctlCommand (cString message) with
  | some seekto => ops.ioctl env AESDCHAR_IOCSEEKTO seekto s
  | none => do
      let (printed, s) ← writeChunks ops plan.direct s
      if printed then
        -- the value of `fflush` is ignored
        let (_, s) ← writeChunks ops plan.buffered s
        return (((cString message).length + 1 : Nat), s)
      else
        return (-1, s)

/-- `tcp_connection_send_message`: the returned value, and the bytes the socket has taken. A
`send` fails (`none`), or it takes the first bytes up to some number of them. -/
def tcpConnectionSendMessage (message : List UInt8) (outcome : Option Nat) : Bool × List UInt8 :=
  match outcome with
  | none => (false, [])
  | some n => (true, message.take n)

/-- `buffer_size` of `tcp_connection_send_file`. -/
def sendBufferSize : Nat := 4096

/-- `tcp_connection_send_file`: the returned value, the bytes the socket has taken, and the
state. The first argument says what the environment decides in each iteration of the loop. -/
def tcpConnectionSendFile :
    List (ω × Option Nat) → σ → Except Fault (Bool × List UInt8 × σ)
  | [], _ => .error .unfinished
  | (env, outcome) :: rest, s => do
      let (bytesRead, buffer, s) ← ops.read env sendBufferSize s
      if bytesRead > 0 then
        let (sent, taken) := tcpConnectionSendMessage (buffer.take bytesRead.toNat) outcome
        if sent then
          let (retval, more, s) ← tcpConnectionSendFile rest s
          return (retval, taken ++ more, s)
        else
          return (false, taken, s)
      else
        return (true, [], s)

/-- The part of `thread_routine` that runs with `file_mutex` held: the value of
`handle_message`, the bytes of the reply, and the state. -/
def serveMessage (message : List UInt8) (plan : StdioPlan ω) (env : ω)
    (script : List (ω × Option Nat)) (s : σ) : Except Fault (Int × List UInt8 × σ) := do
  let (retval, s) ← handleMessage ops message plan env s
  if retval ≥ 0 then
    let (_, sent, s) ← tcpConnectionSendFile ops script s
    return (retval, sent, s)
  else
    return (retval, [], s)

/-! ## Chunks and replies, for any file -/

/-- A chunk that is rejected ends the list. -/
theorem writeChunks_of_neg {c : Chunk ω} (rest : List (Chunk ω)) {s s' : σ} {ret : Int}
    (hw : ops.write c.env c.bytes s = .ok (ret, s')) (hret : ret < 0) :
    writeChunks ops (c :: rest) s = .ok (false, s') := by
  simp only [writeChunks, hw, bind, Except.bind, if_pos hret]
  rfl

theorem writeChunks_of_nonneg {c : Chunk ω} (rest : List (Chunk ω)) {s s' : σ} {ret : Int}
    (hw : ops.write c.env c.bytes s = .ok (ret, s')) (hret : 0 ≤ ret) :
    writeChunks ops (c :: rest) s = writeChunks ops rest s' := by
  simp only [writeChunks, hw, bind, Except.bind, if_neg (Int.not_lt.mpr hret)]

/-- Writing two lists of chunks is writing one after the other, if all of the first is accepted. -/
theorem writeChunks_append (chunks chunks' : List (Chunk ω)) (s : σ) :
    writeChunks ops (chunks ++ chunks') s = (do
      let (accepted, s) ← writeChunks ops chunks s
      if accepted then writeChunks ops chunks' s else return (false, s)) := by
  induction chunks generalizing s with
  | nil => rfl
  | cons c rest ih =>
      rw [List.cons_append]
      cases hw : ops.write c.env c.bytes s with
      | error e => simp only [writeChunks, hw, bind, Except.bind]
      | ok rs =>
          obtain ⟨ret, s₁⟩ := rs
          by_cases hret : ret < 0
          · rw [writeChunks_of_neg ops _ hw hret, writeChunks_of_neg ops _ hw hret]
            rfl
          · have hret' := Int.not_lt.mp hret
            rw [writeChunks_of_nonneg ops _ hw hret', writeChunks_of_nonneg ops _ hw hret', ih]

/-- A data message is written chunk by chunk, up to the first chunk that is rejected. -/
theorem handleMessage_chunks {message : List UInt8} {plan : StdioPlan ω} {env : ω} {s s' : σ}
    {retval : Int} (hdata : decodeIoctlCommand (cString message) = none)
    (h : handleMessage ops message plan env s = .ok (retval, s')) :
    ∃ accepted, writeChunks ops plan.chunks s = .ok (accepted, s') := by
  rw [StdioPlan.chunks, writeChunks_append]
  rw [handleMessage, hdata] at h
  obtain ⟨⟨printed, s₁⟩, hdirect, h⟩ := bind_eq_ok.mp h
  rw [hdirect]
  cases printed with
  | false =>
      cases h
      exact ⟨false, rfl⟩
  | true =>
      obtain ⟨⟨flushed, s₂⟩, hbuffered, h⟩ := bind_eq_ok.mp h
      cases h
      exact ⟨flushed, hbuffered⟩

/-- A data message all of whose chunks are accepted is printed. -/
theorem handleMessage_data {message : List UInt8} {plan : StdioPlan ω} {env : ω} {s s' : σ}
    (hdata : decodeIoctlCommand (cString message) = none)
    (hw : writeChunks ops plan.chunks s = .ok (true, s')) :
    handleMessage ops message plan env s
      = .ok ((((cString message).length + 1 : Nat) : Int), s') := by
  rw [StdioPlan.chunks, writeChunks_append] at hw
  obtain ⟨⟨printed, s₁⟩, hdirect, hw⟩ := bind_eq_ok.mp hw
  cases printed with
  | false => cases hw
  | true =>
      have hbuffered : writeChunks ops plan.buffered s₁ = .ok (true, s') := hw
      simp only [handleMessage, hdata, hdirect, hbuffered, bind, Except.bind, if_true]
      rfl

/-- A command is passed on. -/
theorem handleMessage_command {message : List UInt8} {plan : StdioPlan ω} {env : ω} {s : σ}
    {seekto : AesdSeekto} (hcommand : decodeIoctlCommand (cString message) = some seekto) :
    handleMessage ops message plan env s = ops.ioctl env AESDCHAR_IOCSEEKTO seekto s := by
  simp only [handleMessage, hcommand]

/-- More iterations granted to `tcp_connection_send_file` change nothing once it has returned. -/
theorem sendFile_append {script : List (ω × Option Nat)} (extra : List (ω × Option Nat)) {s : σ}
    {r : Bool × List UInt8 × σ} (h : tcpConnectionSendFile ops script s = .ok r) :
    tcpConnectionSendFile ops (script ++ extra) s = .ok r := by
  induction script generalizing s r with
  | nil => cases h
  | cons e rest ih =>
      obtain ⟨env, outcome⟩ := e
      simp only [List.cons_append, tcpConnectionSendFile, bind, Except.bind] at h ⊢
      cases hr : ops.read env sendBufferSize s with
      | error e =>
          rw [hr] at h
          cases h
      | ok rs =>
          obtain ⟨bytesRead, buffer, s₁⟩ := rs
          rw [hr] at h
          simp only at h ⊢
          by_cases hpos : bytesRead > 0
          · simp only [if_pos hpos] at h ⊢
            by_cases hsent :
                (tcpConnectionSendMessage (buffer.take bytesRead.toNat) outcome).1 = true
            · simp only [if_pos hsent] at h ⊢
              cases hrest : tcpConnectionSendFile ops rest s₁ with
              | error e =>
                  rw [hrest] at h
                  cases h
              | ok r' =>
                  rw [hrest] at h
                  rw [ih hrest]
                  exact h
            · simp only [if_neg hsent] at h ⊢
              exact h
          · simp only [if_neg hpos] at h ⊢
            exact h

/-- `tcp_connection_send_file` keeps what every `read` keeps. -/
theorem sendFile_keeps {P : σ → Prop}
    (hread : ∀ {env : ω} {count : Nat} {s s' : σ} {ret : Int} {bytes : List UInt8},
      P s → ops.read env count s = .ok (ret, bytes, s') → P s')
    {script : List (ω × Option Nat)} {s s' : σ} {returned : Bool} {sent : List UInt8} (hs : P s)
    (h : tcpConnectionSendFile ops script s = .ok (returned, sent, s')) : P s' := by
  induction script generalizing s returned sent s' with
  | nil => cases h
  | cons e rest ih =>
      obtain ⟨env, outcome⟩ := e
      obtain ⟨⟨bytesRead, buffer, s₁⟩, hr, h⟩ := bind_eq_ok.mp h
      have hs₁ := hread hs hr
      simp only at h
      split at h
      · split at h
        · obtain ⟨⟨_, more, s₂⟩, hrest, h⟩ := bind_eq_ok.mp h
          cases h
          exact ih hs₁ hrest
        · cases h
          exact hs₁
      · cases h
        exact hs₁

/-- A `send` of at most a buffer takes all of it. -/
def SendsInFull (outcome : Option Nat) : Prop := ∃ n, outcome = some n ∧ sendBufferSize ≤ n

/-- The file has the content `content`, and `stateAt p` is the state in which it stands at
position `p`: a read that the environment lets succeed (`full`) returns some of the bytes from
there on, at least one if there is any, and moves behind them. -/
def ReadsContent (full : ω → Prop) (content : List UInt8) (stateAt : Nat → σ) : Prop :=
  ∀ (env : ω) (p count : Nat), full env → 0 < count →
    ∃ n : Nat, ops.read env count (stateAt p)
        = .ok ((n : Int), (content.drop p).take n, stateAt (p + n))
      ∧ n ≤ count ∧ (content.length ≤ p → n = 0)
      ∧ (p < content.length → 0 < n ∧ p + n ≤ content.length)

variable {ops}

/-- **`tcp_connection_send_file`.** If all reads and sends succeed in full, it sends the content
from the position of the file on, and moves to the end. -/
theorem ReadsContent.sendFile_eq {full : ω → Prop} {content : List UInt8} {stateAt : Nat → σ}
    (h : ReadsContent ops full content stateAt) (script : List (ω × Option Nat))
    (hfull : ∀ e ∈ script, full e.1 ∧ SendsInFull e.2) {p : Nat}
    (hlong : content.length - p < script.length) :
    tcpConnectionSendFile ops script (stateAt p)
      = .ok (true, content.drop p, stateAt (max p content.length)) := by
  induction script generalizing p with
  | nil => exact absurd hlong (by simp)
  | cons e rest ih =>
      obtain ⟨env, outcome⟩ := e
      obtain ⟨henv, n, rfl, hn⟩ := hfull _ (by simp : (env, outcome) ∈ (env, outcome) :: rest)
      obtain ⟨r, hread, hcount, hend, hmore⟩ := h env p sendBufferSize henv (by decide)
      simp only [tcpConnectionSendFile, hread, bind, Except.bind]
      by_cases hle : content.length ≤ p
      · -- at the end the read returns 0, and the loop is left
        rw [hend hle, List.drop_of_length_le hle, Nat.max_eq_left hle]
        rfl
      · -- a piece is sent, and the loop goes on behind it
        obtain ⟨hpos, hin⟩ := hmore (Nat.lt_of_not_le hle)
        have htake : ((content.drop p).take r).take r = (content.drop p).take r := by
          rw [List.take_take, Nat.min_self]
        have hsend : ((content.drop p).take r).take n = (content.drop p).take r := by
          rw [List.take_take, Nat.min_eq_right (by omega)]
        have hrest := ih (fun e he => hfull e (List.mem_cons_of_mem _ he)) (p := p + r)
          (by rw [List.length_cons] at hlong; omega)
        have hmax : max (p + r) content.length = max p content.length := by omega
        simp only [gt_iff_lt, Int.natCast_pos, hpos, if_true, Int.toNat_natCast,
          tcpConnectionSendMessage, htake, hsend, hrest, pure, Except.pure]
        rw [hmax, ← List.drop_drop, List.take_append_drop]

/-- The same for any script it has returned on. -/
theorem ReadsContent.sendFile_of_ok {full : ω → Prop} {content : List UInt8} {stateAt : Nat → σ}
    (h : ReadsContent ops full content stateAt) {script : List (ω × Option Nat)}
    (hfull : ∀ e ∈ script, full e.1 ∧ SendsInFull e.2) {p : Nat} {r : Bool × List UInt8 × σ}
    (hok : tcpConnectionSendFile ops script (stateAt p) = .ok r) :
    r = (true, content.drop p, stateAt (max p content.length)) := by
  cases script with
  | nil => cases hok
  | cons e rest =>
      -- a longer script of the same kind returns by `sendFile_eq`
      have hlong := sendFile_append ops (List.replicate (content.length + 1) e) hok
      have hfull' : ∀ e' ∈ e :: rest ++ List.replicate (content.length + 1) e,
          full e'.1 ∧ SendsInFull e'.2 := by
        intro e' he'
        rcases List.mem_append.mp he' with he' | he'
        · exact hfull e' he'
        · exact List.eq_of_mem_replicate he' ▸ hfull e (by simp)
      have heq := h.sendFile_eq (p := p) _ hfull'
        (by simp only [List.length_append, List.length_replicate]; omega)
      exact Except.ok.inj (hlong.symm.trans heq)

end

end Aesd
