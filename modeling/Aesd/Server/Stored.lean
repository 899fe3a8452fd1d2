import Aesd.Server.Message
import Aesd.Server.Receive

set_option autoImplicit false

/-! # What reaches the file

`handle_message` on a file that records the bytes it has accepted, with every outcome of the
`write` calls that stdio issues. The value of `fprintf` is looked at, the value of `fflush` is not:
a value that is not negative means that the message was stored exactly if no `write` of `fflush`
fails (`handleMessage_stored_iff`). What is stored of a packet is the part before its first `0`
(`handleMessage_packet`): `tcp_connection_receive_message` counts the bytes, but hands over a
string. -/

namespace Aesd

/-! ## The file -/

/-- What one `write` call returns. -/
inductive WriteRet
  /-- `-1`. -/
  | error
  /-- It accepts at most `n` bytes, and at least one. -/
  | accepts (n : Nat)
  deriving DecidableEq, Repr

/-- The calls stdio issues to write out `bytes`: each one continues behind the bytes accepted so
far, until all are accepted or a call fails. What is not listed accepts all that is left. The result
says whether all were accepted, and which. -/
def writeLoop : List WriteRet → List UInt8 → Bool × List UInt8
  | [], bytes => (true, bytes)
  | .error :: _, bytes => (bytes.isEmpty, [])
  | .accepts n :: rest, bytes =>
      let (accepted, more) := writeLoop rest (bytes.drop (max n 1))
      (accepted, bytes.take (max n 1) ++ more)

/-- What the environment decides during one call on the file. -/
structure FileEnv where
  writes : List WriteRet
  readBytes : List UInt8
  ioctlRet : Int
  deriving DecidableEq, Repr

/-- A file whose state is the bytes it has accepted. -/
def loggedFile : FileOps (List UInt8) FileEnv where
  write env buf log :=
    let (accepted, bytes) := writeLoop env.writes buf
    .ok (if accepted then buf.length else -1, log ++ bytes)
  read env count log := .ok ((env.readBytes.take count).length, env.readBytes.take count, log)
  ioctl env _ _ log := .ok (env.ioctlRet, log)

/-- No `write` issued for the chunk fails. -/
def Chunk.Accepted (c : Chunk FileEnv) : Prop := (writeLoop c.env.writes c.bytes).1 = true

instance (c : Chunk FileEnv) : Decidable c.Accepted := inferInstanceAs (Decidable (_ = true))

/-! ## Writing chunks -/

section

variable {outcomes : List WriteRet} {bytes : List UInt8}

/-- If no call fails, all bytes have been accepted. -/
theorem writeLoop_accepted (h : (writeLoop outcomes bytes).1 = true) :
    (writeLoop outcomes bytes).2 = bytes := by
  induction outcomes generalizing bytes with
  | nil => rfl
  | cons ret rest ih =>
      cases ret with
      | error => exact (List.isEmpty_iff.mp h).symm
      | accepts n =>
          show bytes.take (max n 1) ++ (writeLoop rest (bytes.drop (max n 1))).2 = bytes
          rw [ih h, List.take_append_drop]

/-- If one fails, some byte has not. -/
theorem length_writeLoop_lt (h : (writeLoop outcomes bytes).1 = false) :
    (writeLoop outcomes bytes).2.length < bytes.length := by
  induction outcomes generalizing bytes with
  | nil => cases h
  | cons ret rest ih =>
      cases ret with
      | error =>
          cases bytes with
          | nil => cases h
          | cons x bytes => exact Nat.succ_pos _
      | accepts n =>
          have hrest := ih h
          show (bytes.take (max n 1) ++ (writeLoop rest (bytes.drop (max n 1))).2).length
            < bytes.length
          rw [List.length_drop] at hrest
          rw [List.length_append, List.length_take]
          omega

end

section

variable {chunks : List (Chunk FileEnv)} {c : Chunk FileEnv} {log : List UInt8}

theorem loggedFile_write_accepted (hc : c.Accepted) (log : List UInt8) :
    loggedFile.write c.env c.bytes log = .ok ((c.bytes.length : Int), log ++ c.bytes) := by
  have hbytes := writeLoop_accepted hc
  unfold Chunk.Accepted at hc
  simp only [loggedFile, hc, hbytes, if_true]

theorem loggedFile_write_rejected (hc : ¬ c.Accepted) (log : List UInt8) :
    ∃ bytes, loggedFile.write c.env c.bytes log = .ok (-1, log ++ bytes)
      ∧ bytes.length < c.bytes.length := by
  have hfalse : (writeLoop c.env.writes c.bytes).1 = false := Bool.eq_false_of_not_eq_true hc
  refine ⟨_, ?_, length_writeLoop_lt hfalse⟩
  simp only [loggedFile, hfalse, Bool.false_eq_true, if_false]

/-- Chunks that are all accepted are stored. -/
theorem writeChunks_accepted (haccepted : ∀ c ∈ chunks, c.Accepted) :
    writeChunks loggedFile chunks log
      = .ok (true, log ++ (chunks.map Chunk.bytes).flatten) := by
  induction chunks generalizing log with
  | nil =>
      rw [List.map_nil, List.flatten_nil, List.append_nil]
      rfl
  | cons c rest ih =>
      have hwrite := loggedFile_write_accepted (haccepted c List.mem_cons_self) log
      rw [writeChunks_of_nonneg _ rest hwrite (Int.natCast_nonneg _),
        ih fun c hc => haccepted c (List.mem_cons_of_mem _ hc), List.append_assoc]
      rfl

/-- If one of them is rejected, something is missing. -/
theorem writeChunks_rejected (hrejected : ∃ c ∈ chunks, ¬ c.Accepted) :
    ∃ log', writeChunks loggedFile chunks log = .ok (false, log')
      ∧ log'.length < log.length + (chunks.map Chunk.bytes).flatten.length := by
  induction chunks generalizing log with
  | nil => exact absurd hrejected (by simp)
  | cons c rest ih =>
      rw [List.map_cons, List.flatten_cons, List.length_append]
      by_cases hc : c.Accepted
      · -- the rejected one comes later
        rw [List.exists_mem_cons_iff] at hrejected
        have hwrite := loggedFile_write_accepted hc log
        obtain ⟨log', hrest, hlt⟩ := @ih (log ++ c.bytes) (hrejected.resolve_left (· hc))
        refine ⟨log', ?_, ?_⟩
        · rw [writeChunks_of_nonneg _ rest hwrite (Int.natCast_nonneg _), hrest]
        · rw [List.length_append] at hlt
          omega
      · obtain ⟨bytes, hwrite, hlt⟩ := loggedFile_write_rejected hc log
        refine ⟨_, writeChunks_of_neg _ rest hwrite (by decide), ?_⟩
        rw [List.length_append]
        omega

/-- Reading does not change what has been accepted. -/
theorem sendFile_log {script : List (FileEnv × Option Nat)} {returned : Bool}
    {sent log' : List UInt8}
    (h : tcpConnectionSendFile loggedFile script log = .ok (returned, sent, log')) :
    log' = log := by
  refine sendFile_keeps loggedFile (P := (· = log)) ?_ rfl h
  intro env count s s' ret bytes hs hread
  cases hread
  exact hs

end

/-! ## Messages that are stored -/

section

variable {message : List UInt8} {plan : StdioPlan FileEnv} {env : FileEnv} {log : List UInt8}

/-- **A message that is reported handled is stored**: if the value of `handle_message` is not
negative, the file has accepted the message and a newline, and so it has if bytes of a reply are
sent. -/
structure StoredIfHandled (message : List UInt8) (plan : StdioPlan FileEnv) (env : FileEnv)
    (log : List UInt8) : Prop where
  handled : ∀ retval log', handleMessage loggedFile message plan env log = .ok (retval, log') →
    0 ≤ retval → log' = log ++ (cString message ++ [newline])
  replied : ∀ script retval reply log',
    serveMessage loggedFile message plan env script log = .ok (retval, reply, log') →
      reply ≠ [] → log' = log ++ (cString message ++ [newline])

/-- The clause about the reply follows. -/
theorem storedIfHandled_iff :
    StoredIfHandled message plan env log
      ↔ ∀ retval log', handleMessage loggedFile message plan env log = .ok (retval, log') →
        0 ≤ retval → log' = log ++ (cString message ++ [newline]) := by
  constructor
  · exact fun h => h.handled
  · intro hhandled
    refine ⟨hhandled, ?_⟩
    intro script retval reply log' hserve hreply
    obtain ⟨⟨ret, log₁⟩, hhandle, hserve⟩ := bind_eq_ok.mp hserve
    simp only at hserve
    split at hserve
    · next hret =>
        obtain ⟨⟨returned, sent, log₂⟩, hsend, hserve⟩ := bind_eq_ok.mp hserve
        cases hserve
        rw [sendFile_log hsend]
        exact hhandled _ _ hhandle hret
    · -- no reply was sent
      cases hserve
      exact absurd rfl hreply

/-- What `handle_message` does with a data message. -/
theorem handleMessage_direct_accepted (hdata : decodeIoctlCommand (cString message) = none)
    (hdirect : ∀ c ∈ plan.direct, c.Accepted) {flushed : Bool} {log' : List UInt8}
    (hflush : writeChunks loggedFile plan.buffered
      (log ++ (plan.direct.map Chunk.bytes).flatten) = .ok (flushed, log')) :
    handleMessage loggedFile message plan env log
      = .ok ((((cString message).length + 1 : Nat) : Int), log') := by
  simp only [handleMessage, hdata, writeChunks_accepted hdirect, bind, Except.bind, if_true, hflush]
  rfl

theorem handleMessage_direct_rejected (hdata : decodeIoctlCommand (cString message) = none)
    (hdirect : ∃ c ∈ plan.direct, ¬ c.Accepted) :
    ∃ log', handleMessage loggedFile message plan env log = .ok (-1, log') := by
  obtain ⟨log', hwrite, -⟩ := @writeChunks_rejected _ log hdirect
  refine ⟨log', ?_⟩
  simp only [handleMessage, hdata, hwrite, bind, Except.bind, Bool.false_eq_true, if_false]
  rfl

end

/-- **Success means stored.** For every data message, every way in which stdio cuts the text into
writes, and every outcome of these: a value of `handle_message` that is not negative means that the
message was stored, if and only if no `write` of `fflush` fails, or one of `fprintf` fails
before. -/
theorem handleMessage_stored_iff (message : List UInt8) (plan : StdioPlan FileEnv) (env : FileEnv)
    (log : List UInt8) (hdata : decodeIoctlCommand (cString message) = none)
    (hprints : plan.Prints (cString message ++ [newline])) :
    StoredIfHandled message plan env log
      ↔ (∃ c ∈ plan.direct, ¬ c.Accepted) ∨ ∀ c ∈ plan.buffered, c.Accepted := by
  have hflatten : (plan.direct.map Chunk.bytes).flatten ++ (plan.buffered.map Chunk.bytes).flatten
      = cString message ++ [newline] := by
    rw [← hprints.flatten, StdioPlan.chunks, List.map_append, List.flatten_append]
  rw [storedIfHandled_iff]
  by_cases hdirect : ∃ c ∈ plan.direct, ¬ c.Accepted
  · -- `fprintf` reports it
    refine iff_of_true ?_ (Or.inl hdirect)
    intro retval log' hhandle hret
    obtain ⟨_, hneg⟩ := @handleMessage_direct_rejected _ _ env log hdata hdirect
    rw [hneg] at hhandle
    cases hhandle
    exact absurd hret (by decide)
  · rw [or_iff_right hdirect]
    simp only [not_exists, not_and, not_not] at hdirect
    constructor
    · intro hstored
      by_contra hbuffered
      simp only [not_forall, exists_prop] at hbuffered
      obtain ⟨log', hflush, hlt⟩ :=
        @writeChunks_rejected _ (log ++ (plan.direct.map Chunk.bytes).flatten) hbuffered
      -- `fflush` fails, and nobody looks
      have hlog := hstored _ log' (handleMessage_direct_accepted hdata hdirect hflush)
        (Int.natCast_nonneg _)
      have hlength := congrArg List.length hflatten
      rw [hlog] at hlt
      simp only [List.length_append] at hlt hlength
      omega
    · intro hbuffered retval log' hhandle _
      rw [handleMessage_direct_accepted hdata hdirect (writeChunks_accepted hbuffered)] at hhandle
      cases hhandle
      rw [List.append_assoc, hflatten]

/-- `"A\n"`, cut into a write of `fprintf` and one of `fflush`. -/
theorem handleMessage_stored_iff_twoWrites :
    StoredIfHandled [65] ⟨[⟨[65], ⟨[.accepts 1], [], 0⟩⟩], [⟨[10], ⟨[.accepts 1], [], 0⟩⟩]⟩
        ⟨[], [], 0⟩ []
      ↔ (∃ c ∈ [(⟨[65], ⟨[.accepts 1], [], 0⟩⟩ : Chunk FileEnv)], ¬ c.Accepted)
        ∨ ∀ c ∈ [(⟨[10], ⟨[.accepts 1], [], 0⟩⟩ : Chunk FileEnv)], c.Accepted :=
  handleMessage_stored_iff [65] ⟨[⟨[65], ⟨[.accepts 1], [], 0⟩⟩], [⟨[10], ⟨[.accepts 1], [], 0⟩⟩]⟩
    ⟨[], [], 0⟩ [] (by decide) ⟨by simp [StdioPlan.chunks], by decide⟩

/-- `"A\n"` in one write of `fflush`, which fails: nothing is stored, and the value is 2. -/
theorem not_storedIfHandled_flush :
    ∃ plan : StdioPlan FileEnv, decodeIoctlCommand (cString [65]) = none
      ∧ plan.Prints (cString [65] ++ [newline])
      ∧ ¬ StoredIfHandled [65] plan ⟨[], [], 0⟩ [] := by
  refine ⟨⟨[], [⟨[65, 10], ⟨[.error], [], 0⟩⟩]⟩, by decide,
    ⟨by simp [StdioPlan.chunks], by decide⟩, fun h => ?_⟩
  exact absurd (h.handled 2 [] rfl (by decide)) (by decide)

/-! ## Packets -/

/-- **A packet is stored whole**: `handle_message` puts its bytes and a newline into the file. -/
def StoresPacket (packet message : List UInt8) (plan : StdioPlan FileEnv) (env : FileEnv)
    (log : List UInt8) : Prop :=
  ∃ retval, handleMessage loggedFile message plan env log
    = .ok (retval, log ++ (packet ++ [newline]))

/-- **From the socket to the file.** For every packet that is received and is a data message, with
all writes succeeding: the bytes before the first `0` of the packet and a newline reach the file,
which is the packet and a newline if and only if no byte of it is `0`. -/
theorem handleMessage_packet (packet : List UInt8) (rest : List RecvRet)
    (connection connection' : TcpConnection) (junk : Nat → UInt8) (message : List UInt8)
    (plan : StdioPlan FileEnv) (env : FileEnv) (log : List UInt8) (hpacket : newline ∉ packet)
    (hin : connection.incoming = packet.map .byte ++ .byte newline :: rest)
    (hreceived : tcpConnectionReceiveMessage connection newline junk
      = .ok (some message, connection'))
    (hdata : decodeIoctlCommand (cString message) = none)
    (hprints : plan.Prints (cString message ++ [newline]))
    (haccepted : ∀ c ∈ plan.chunks, c.Accepted) :
    StoresPacket (packet.takeWhile (· ≠ 0)) message plan env log
      ∧ (StoresPacket packet message plan env log ↔ 0 ∉ packet) := by
  obtain ⟨block, hblock, htake⟩ := receive_packet hpacket hin hreceived
  obtain rfl := Option.some.inj hblock
  have hstring : cString message = cString packet := cString_of_take htake
  have hwrite : writeChunks loggedFile plan.chunks log
      = .ok (true, log ++ (cString packet ++ [newline])) := by
    rw [writeChunks_accepted haccepted, hprints.flatten, hstring]
  have hhandle := @handleMessage_data _ _ loggedFile _ _ env _ _ hdata hwrite
  refine ⟨⟨_, hhandle⟩, ?_⟩
  rw [← cString_eq_self_iff]
  constructor
  · rintro ⟨retval, h⟩
    rw [hhandle] at h
    have hlog := congrArg Prod.snd (Except.ok.inj h)
    exact List.append_cancel_right (List.append_cancel_left hlog)
  · intro hall
    rw [hall] at hhandle
    exact ⟨_, hhandle⟩

/-- The packet `"A"`. -/
theorem handleMessage_packet_oneByte :
    ∃ message connection',
      tcpConnectionReceiveMessage (.sending [65, newline]) newline (fun _ => 0)
        = .ok (some message, connection')
      ∧ StoresPacket ([65].takeWhile (· ≠ 0)) message
          ⟨[], [⟨[65, newline], ⟨[.accepts 1, .accepts 1], [], 0⟩⟩]⟩ ⟨[], [], 0⟩ []
      ∧ (StoresPacket [65] message
          ⟨[], [⟨[65, newline], ⟨[.accepts 1, .accepts 1], [], 0⟩⟩]⟩ ⟨[], [], 0⟩ []
        ↔ 0 ∉ [(65 : UInt8)]) := by
  have hpacket : newline ∉ [(65 : UInt8)] := by decide
  obtain ⟨message, hcall, htake⟩ :=
    receiveMessage_delimiter newline (fun _ => 0) true hpacket (by decide) []
  have hstring : cString message = [65] := cString_of_take htake
  exact ⟨message, _, hcall, handleMessage_packet [65] [] _ _ _ message _ _ _ hpacket rfl hcall
    (by rw [hstring]; decide) ⟨by simp [StdioPlan.chunks], by rw [hstring]; decide⟩ (by decide)⟩

/-- The packet of `"A"`, `0` and `"B"`: only the `"A"` is stored. -/
theorem not_storesPacket_zero :
    ∃ message connection' plan,
      tcpConnectionReceiveMessage (.sending [65, 0, 66, newline]) newline (fun _ => 0)
        = .ok (some message, connection')
      ∧ decodeIoctlCommand (cString message) = none
      ∧ plan.Prints (cString message ++ [newline]) ∧ (∀ c ∈ plan.chunks, c.Accepted)
      ∧ ¬ StoresPacket [65, 0, 66] message plan ⟨[], [], 0⟩ [] := by
  have hpacket : newline ∉ [(65 : UInt8), 0, 66] := by decide
  obtain ⟨message, hcall, htake⟩ :=
    receiveMessage_delimiter newline (fun _ => 0) true hpacket (by decide) []
  have hstring : cString message = [65] := cString_of_take htake
  have hdata : decodeIoctlCommand (cString message) = none := by
    rw [hstring]
    decide
  let plan : StdioPlan FileEnv := ⟨[], [⟨[65, newline], ⟨[], [], 0⟩⟩]⟩
  have hwrite : writeChunks loggedFile plan.chunks [] = .ok (true, [65, newline]) := rfl
  refine ⟨message, _, plan, hcall, hdata, ⟨by simp [plan, StdioPlan.chunks], ?_⟩, by decide, ?_⟩
  · rw [hstring]
    rfl
  rintro ⟨retval, h⟩
  rw [handleMessage_data loggedFile hdata hwrite] at h
  have hlog : [65, newline] = [65, 0, 66, newline] := congrArg Prod.snd (Except.ok.inj h)
  exact absurd hlog (by decide)

end Aesd
