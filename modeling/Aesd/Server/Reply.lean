import Aesd.Server.Message

set_option autoImplicit false

/-! # Replies over reads and sends that fall short

`tcp_connection_send_file` with everything its system calls can do: `read` returns fewer bytes than
asked for or fails, `send` takes fewer bytes than it is given or fails. What the socket takes is
recorded with the positions in the file it comes from (`takenPositions`). The loop never sends the
rest of a piece again, and takes a failing `read` for the end of the file; the reply is whole
exactly if neither happens before the function returns (`sendFile_transfersWhole_iff`). -/

namespace Aesd

/-! ## The file -/

/-- What one `read` does. -/
inductive ReadRet
  /-- It returns `-1`. -/
  | error
  /-- It returns at most `n` bytes, and at least one before the end of the file. -/
  | upTo (n : Nat)
  deriving DecidableEq, Repr

/-- How many of the bytes that are left it returns. -/
def ReadRet.amount (count left : Nat) : ReadRet → Nat
  | .error => 0
  | .upTo n => min (min (max n 1) count) left

/-- A file with the content `content`, at a position. It is only read from. -/
def scriptedFile (content : List UInt8) : FileOps Nat ReadRet where
  write _ _ p := .ok (-1, p)
  read ret count p :=
    match ret with
    | .error => .ok (-1, [], p)
    | .upTo n =>
        let amount := (ReadRet.upTo n).amount count (content.length - p)
        .ok (amount, (content.drop p).take amount, p + amount)
  ioctl _ _ _ p := .ok (-1, p)

/-- Where in a file of `length` bytes the bytes come from that the socket takes, from the position
`p` on. -/
def takenPositions (length : Nat) : List (ReadRet × Option Nat) → Nat → List Nat
  | (.upTo n, some k) :: rest, p =>
      if p < length then
        let amount := (ReadRet.upTo n).amount sendBufferSize (length - p)
        List.range' p (min k amount) ++ takenPositions length rest (p + amount)
      else []
  | _, _ => []

/-! ## What is wanted -/

/-- **The reply is whole**: the socket takes bytes of the file from the position `p` on without a
gap, and if the function returns `true`, it has taken all of them. -/
structure TransfersWhole (content : List UInt8) (script : List (ReadRet × Option Nat)) (p : Nat)
    (returned : Bool) (sent : List UInt8) : Prop where
  no_gap : ∃ n, takenPositions content.length script p = List.range' p n
  is_prefix : sent <+: content.drop p
  complete : returned = true → sent = content.drop p

/-- Until the loop is left, no `read` fails before the end of the file, and every `send` takes all
it is given; only the last `send` before one that fails may be short. -/
inductive Unbroken (length : Nat) : List (ReadRet × Option Nat) → Nat → Prop
  | at_end {script : List (ReadRet × Option Nat)} {p : Nat} (end_le : length ≤ p) :
      Unbroken length script p
  | send_fails {n p : Nat} {rest : List (ReadRet × Option Nat)} :
      Unbroken length ((.upTo n, none) :: rest) p
  | whole {n k p : Nat} {rest : List (ReadRet × Option Nat)}
      (takes_all : (ReadRet.upTo n).amount sendBufferSize (length - p) ≤ k)
      (goes_on : Unbroken length rest (p + (ReadRet.upTo n).amount sendBufferSize (length - p))) :
      Unbroken length ((.upTo n, some k) :: rest) p
  | cut {n k n' p : Nat} {rest : List (ReadRet × Option Nat)}
      (more : p + (ReadRet.upTo n).amount sendBufferSize (length - p) < length) :
      Unbroken length ((.upTo n, some k) :: (.upTo n', none) :: rest) p

section

variable {content : List UInt8} {script rest : List (ReadRet × Option Nat)}
  {length p n k : Nat} {outcome : Option Nat} {returned : Bool} {sent : List UInt8}

/-! ## One iteration -/

/-- What an iteration of the loop comes to. -/
inductive Turn (length p : Nat) : ReadRet × Option Nat → Prop
  | at_end {e : ReadRet × Option Nat} (end_le : length ≤ p) : Turn length p e
  | read_fails {outcome : Option Nat} (before : p < length) : Turn length p (.error, outcome)
  | send_fails {n : Nat} (before : p < length) : Turn length p (.upTo n, none)
  | piece {n k : Nat} (before : p < length) : Turn length p (.upTo n, some k)

theorem Turn.of (length p : Nat) (e : ReadRet × Option Nat) : Turn length p e := by
  rcases Nat.lt_or_ge p length with hp | hend
  · match e with
    | (.error, _) => exact .read_fails hp
    | (.upTo _, none) => exact .send_fails hp
    | (.upTo _, some _) => exact .piece hp
  · exact .at_end hend

/-- Before the end of the file something is read. -/
theorem ReadRet.amount_pos (hp : p < length) :
    0 < (ReadRet.upTo n).amount sendBufferSize (length - p) := by
  show 0 < min (min (max n 1) 4096) (length - p)
  omega

theorem ReadRet.amount_le (ret : ReadRet) (count left : Nat) : ret.amount count left ≤ left := by
  cases ret with
  | error => exact Nat.zero_le _
  | upTo n => exact Nat.min_le_right _ _

theorem scriptedFile_read (content : List UInt8) (n count p : Nat) :
    (scriptedFile content).read (.upTo n) count p
      = .ok ((ReadRet.upTo n).amount count (content.length - p),
        (content.drop p).take ((ReadRet.upTo n).amount count (content.length - p)),
        p + (ReadRet.upTo n).amount count (content.length - p)) := rfl

theorem sendFile_read_fails (content : List UInt8) (outcome : Option Nat)
    (rest : List (ReadRet × Option Nat)) (p : Nat) :
    tcpConnectionSendFile (scriptedFile content) ((.error, outcome) :: rest) p
      = .ok (true, [], p) := rfl

/-- At the end of the file nothing is read, and the loop is left. -/
theorem sendFile_at_end (hend : content.length ≤ p) (e : ReadRet × Option Nat)
    (rest : List (ReadRet × Option Nat)) :
    tcpConnectionSendFile (scriptedFile content) (e :: rest) p = .ok (true, [], p) := by
  obtain ⟨ret, outcome⟩ := e
  cases ret with
  | error => rfl
  | upTo n =>
      have hleft : content.length - p = 0 := by omega
      have hnone : (ReadRet.upTo n).amount sendBufferSize 0 = 0 := Nat.min_zero _
      simp only [tcpConnectionSendFile, scriptedFile_read, bind, Except.bind, hleft, hnone]
      rfl

/-- Before it, a piece is read, of which the socket takes what it wants. -/
theorem sendFile_piece (hp : p < content.length) (n : Nat) (outcome : Option Nat)
    (rest : List (ReadRet × Option Nat)) :
    tcpConnectionSendFile (scriptedFile content) ((.upTo n, outcome) :: rest) p
      = (let amount := (ReadRet.upTo n).amount sendBufferSize (content.length - p)
        match outcome with
        | none => .ok (false, [], p + amount)
        | some k => do
            let (returned, more, p') ←
              tcpConnectionSendFile (scriptedFile content) rest (p + amount)
            return (returned, (content.drop p).take (min k amount) ++ more, p')) := by
  have hpos := ReadRet.amount_pos (n := n) hp
  simp only [tcpConnectionSendFile, scriptedFile_read, bind, Except.bind]
  generalize (ReadRet.upTo n).amount sendBufferSize (content.length - p) = amount at hpos ⊢
  rw [if_pos (Int.natCast_pos.mpr hpos)]
  cases outcome with
  | none => rfl
  | some k =>
      simp only [tcpConnectionSendMessage, Int.toNat_natCast, List.take_take, if_true]
      rw [Nat.min_comm k amount, Nat.min_self, Nat.min_comm]

/-! ## What the socket takes -/

theorem takenPositions_at_end (hend : length ≤ p) (script : List (ReadRet × Option Nat)) :
    takenPositions length script p = [] := by
  unfold takenPositions
  split
  · rw [if_neg (Nat.not_lt.mpr hend)]
  · rfl

theorem takenPositions_piece (hp : p < length) (n k : Nat) (rest : List (ReadRet × Option Nat)) :
    takenPositions length ((.upTo n, some k) :: rest) p
      = List.range' p (min k ((ReadRet.upTo n).amount sendBufferSize (length - p)))
        ++ takenPositions length rest (p + (ReadRet.upTo n).amount sendBufferSize (length - p)) :=
  if_pos hp

/-- The bytes at consecutive positions. -/
theorem filterMap_range' (content : List UInt8) (p n : Nat) :
    (List.range' p n).filterMap (content[·]?) = (content.drop p).take n := by
  induction n generalizing p with
  | zero => rfl
  | succ n ih =>
      rw [List.range'_succ]
      rcases Nat.lt_or_ge p content.length with hlt | hge
      · rw [List.filterMap_cons_some (List.getElem?_eq_getElem hlt), ih,
          List.drop_eq_getElem_cons hlt, List.take_succ_cons]
      · rw [List.filterMap_cons_none (List.getElem?_eq_none hge), ih,
          List.drop_of_length_le hge, List.drop_of_length_le (Nat.le_succ_of_le hge),
          List.take_nil, List.take_nil]

/-- **The socket takes the bytes at the positions recorded.** -/
theorem sendFile_sent {p' : Nat}
    (h : tcpConnectionSendFile (scriptedFile content) script p = .ok (returned, sent, p')) :
    sent = (takenPositions content.length script p).filterMap (content[·]?) := by
  induction script generalizing p returned sent p' with
  | nil => cases h
  | cons e rest ih =>
      cases Turn.of content.length p e with
      | at_end hend =>
          rw [sendFile_at_end hend] at h
          cases h
          rw [takenPositions_at_end hend]
          rfl
      | read_fails hp =>
          cases h
          rfl
      | send_fails hp =>
          rw [sendFile_piece hp] at h
          cases h
          rfl
      | piece hp =>
          rw [sendFile_piece hp] at h
          obtain ⟨⟨_, more, _⟩, hrest, h⟩ := bind_eq_ok.mp h
          cases h
          rw [takenPositions_piece hp, List.filterMap_append, filterMap_range', ← ih hrest]

/-- **The function returns**: every iteration but the last moves the position on. -/
theorem sendFile_returns (hlong : content.length - p < script.length) :
    ∃ r, tcpConnectionSendFile (scriptedFile content) script p = .ok r := by
  induction script generalizing p with
  | nil => exact absurd hlong (by simp)
  | cons e rest ih =>
      cases Turn.of content.length p e with
      | at_end hend => exact ⟨_, sendFile_at_end hend e rest⟩
      | read_fails hp => exact ⟨_, sendFile_read_fails ..⟩
      | send_fails hp => exact ⟨_, sendFile_piece hp ..⟩
      | piece hp =>
          rename_i n k
          have hpos := ReadRet.amount_pos (n := n) hp
          rw [List.length_cons] at hlong
          obtain ⟨r, hr⟩ := @ih (p + (ReadRet.upTo n).amount sendBufferSize (content.length - p))
            (by omega)
          rw [sendFile_piece hp]
          simp only [hr, bind, Except.bind]
          exact ⟨_, rfl⟩

/-! ## Gaps -/

/-- There is no gap behind the first positions if there is none in the rest. -/
theorem range'_append_iff {m : Nat} {positions : List Nat} :
    (∃ n, List.range' p m ++ positions = List.range' p n)
      ↔ ∃ n, positions = List.range' (p + m) n := by
  have hsplit : ∀ n, List.range' p (m + n) = List.range' p m ++ List.range' (p + m) n := by
    intro n
    rw [← List.range'_append, Nat.one_mul]
  constructor
  · rintro ⟨n, h⟩
    have hle : m ≤ n := by
      have hlength := congrArg List.length h
      simp only [List.length_append, List.length_range'] at hlength
      omega
    obtain ⟨n', rfl⟩ := Nat.exists_eq_add_of_le hle
    rw [hsplit] at h
    exact ⟨n', List.append_cancel_left h⟩
  · rintro ⟨n, rfl⟩
    exact ⟨m + n, (hsplit n).symm⟩

/-- The first byte taken from `p` on is the one at `p`. -/
theorem takenPositions_head? (hsends : ∀ e ∈ script, ∀ k, e.2 = some k → 0 < k) :
    ∀ x ∈ (takenPositions length script p).head?, x = p := by
  intro x hx
  cases script with
  | nil => cases hx
  | cons e rest =>
      cases Turn.of length p e with
      | at_end hend =>
          rw [takenPositions_at_end hend] at hx
          cases hx
      | read_fails hp | send_fails hp => cases hx
      | piece hp =>
          rename_i n k
          have hk : 0 < k := hsends _ List.mem_cons_self k rfl
          have hpos := ReadRet.amount_pos (n := n) hp
          have hmin : min k ((ReadRet.upTo n).amount sendBufferSize (length - p)) ≠ 0 := by omega
          obtain ⟨m, hm⟩ := Nat.exists_eq_succ_of_ne_zero hmin
          rw [takenPositions_piece hp, hm, List.range'_succ, List.cons_append,
            List.head?_cons] at hx
          exact (Option.some.inj hx).symm

/-- **Behind a short send nothing more may be taken.** -/
theorem no_gap_short_iff {m q : Nat} {positions : List Nat} (hshort : m < q)
    (hhead : ∀ x ∈ positions.head?, x = p + q) :
    (∃ n, List.range' p m ++ positions = List.range' p n) ↔ positions = [] := by
  rw [range'_append_iff]
  constructor
  · rintro ⟨n, rfl⟩
    cases n with
    | zero => rfl
    | succ n =>
        rw [List.range'_succ] at hhead
        have hfirst := hhead _ rfl
        omega
  · rintro rfl
    exact ⟨0, rfl⟩

/-- What is recorded decides which bytes are taken. -/
theorem transfersWhole_iff {p' : Nat}
    (h : tcpConnectionSendFile (scriptedFile content) script p = .ok (returned, sent, p')) :
    TransfersWhole content script p returned sent
      ↔ (∃ n, takenPositions content.length script p = List.range' p n)
        ∧ (returned = true → sent = content.drop p) := by
  constructor
  · intro hwhole
    exact ⟨hwhole.no_gap, hwhole.complete⟩
  · rintro ⟨⟨n, hn⟩, hcomplete⟩
    refine ⟨⟨n, hn⟩, ?_, hcomplete⟩
    rw [sendFile_sent h, hn, filterMap_range']
    exact List.take_prefix ..

/-- Nothing is taken and `false` returned, exactly if the first `send` fails. -/
theorem nothing_taken_iff {p' : Nat} (hsends : ∀ e ∈ script, ∀ k, e.2 = some k → 0 < k)
    (h : tcpConnectionSendFile (scriptedFile content) script p = .ok (returned, sent, p')) :
    (takenPositions content.length script p = [] ∧ returned = false)
      ↔ p < content.length ∧ ∃ n rest, script = (.upTo n, none) :: rest := by
  cases script with
  | nil => cases h
  | cons e rest =>
      cases Turn.of content.length p e with
      | at_end hend =>
          rw [sendFile_at_end hend] at h
          cases h
          exact iff_of_false (by simp) (fun h => Nat.not_lt.mpr hend h.1)
      | read_fails hp =>
          cases h
          exact iff_of_false (by simp) (by simp)
      | send_fails hp =>
          rw [sendFile_piece hp] at h
          cases h
          exact iff_of_true ⟨rfl, rfl⟩ ⟨hp, _, rest, rfl⟩
      | piece hp =>
          rename_i n k
          have hk : 0 < k := hsends _ List.mem_cons_self k rfl
          have hpos := ReadRet.amount_pos (n := n) hp
          refine iff_of_false (fun hnone => ?_) (by simp)
          rw [takenPositions_piece hp] at hnone
          have hlength := congrArg List.length hnone.1
          simp only [List.length_append, List.length_range', List.length_nil] at hlength
          omega

/-! ## When the reply is whole -/

theorem not_unbroken_error (hp : p < length) (outcome : Option Nat)
    (rest : List (ReadRet × Option Nat)) :
    ¬ Unbroken length ((.error, outcome) :: rest) p := by
  intro h
  cases h with
  | at_end end_le => omega

theorem unbroken_piece_iff (hp : p < length) :
    Unbroken length ((.upTo n, some k) :: rest) p
      ↔ ((ReadRet.upTo n).amount sendBufferSize (length - p) ≤ k
          ∧ Unbroken length rest (p + (ReadRet.upTo n).amount sendBufferSize (length - p)))
        ∨ (p + (ReadRet.upTo n).amount sendBufferSize (length - p) < length
          ∧ ∃ n' rest', rest = (.upTo n', none) :: rest') := by
  constructor
  · intro h
    cases h with
    | at_end end_le => omega
    | whole takes_all goes_on => exact Or.inl ⟨takes_all, goes_on⟩
    | cut more => exact Or.inr ⟨more, _, _, rfl⟩
  · rintro (⟨takes_all, goes_on⟩ | ⟨more, n', rest', rfl⟩)
    · exact .whole takes_all goes_on
    · exact .cut more

/-- A piece, and what the rest of the loop does. -/
theorem sendFile_piece_rest (k : Nat) {more : List UInt8} {amount p' : Nat}
    (hp : p < content.length)
    (hamount : (ReadRet.upTo n).amount sendBufferSize (content.length - p) = amount)
    (hrest : tcpConnectionSendFile (scriptedFile content) rest (p + amount)
      = .ok (returned, more, p')) :
    tcpConnectionSendFile (scriptedFile content) ((.upTo n, some k) :: rest) p
      = .ok (returned, (content.drop p).take (min k amount) ++ more, p') := by
  rw [sendFile_piece hp]
  simp only [hamount, hrest, bind, Except.bind]
  rfl

/-- A piece of which all is taken leaves it to the rest. -/
theorem transfersWhole_whole_iff {more : List UInt8} {amount p' : Nat} (hp : p < content.length)
    (hamount : (ReadRet.upTo n).amount sendBufferSize (content.length - p) = amount)
    (hk : amount ≤ k)
    (hrest : tcpConnectionSendFile (scriptedFile content) rest (p + amount)
      = .ok (returned, more, p')) :
    TransfersWhole content ((.upTo n, some k) :: rest) p returned
        ((content.drop p).take (min k amount) ++ more)
      ↔ TransfersWhole content rest (p + amount) returned more := by
  have h := sendFile_piece_rest k hp hamount hrest
  rw [transfersWhole_iff h, transfersWhole_iff hrest, takenPositions_piece hp, hamount,
    Nat.min_eq_right hk, range'_append_iff]
  have hsplit : content.drop p = (content.drop p).take amount ++ content.drop (p + amount) :=
    calc content.drop p
        = (content.drop p).take amount ++ (content.drop p).drop amount :=
          (List.take_append_drop ..).symm
      _ = (content.drop p).take amount ++ content.drop (p + amount) := by rw [List.drop_drop]
  refine and_congr_right fun _ => imp_congr_right fun _ => ?_
  constructor
  · intro hall
    exact List.append_cancel_left (hall.trans hsplit)
  · rintro rfl
    exact hsplit.symm

/-- A short send is the last one. -/
theorem transfersWhole_short_iff {more : List UInt8} {amount p' : Nat} (hp : p < content.length)
    (hsends : ∀ e ∈ rest, ∀ k, e.2 = some k → 0 < k)
    (hamount : (ReadRet.upTo n).amount sendBufferSize (content.length - p) = amount)
    (hk : k < amount)
    (hrest : tcpConnectionSendFile (scriptedFile content) rest (p + amount)
      = .ok (returned, more, p')) :
    TransfersWhole content ((.upTo n, some k) :: rest) p returned
        ((content.drop p).take (min k amount) ++ more)
      ↔ p + amount < content.length ∧ ∃ n' rest', rest = (.upTo n', none) :: rest' := by
  have h := sendFile_piece_rest k hp hamount hrest
  rw [transfersWhole_iff h, takenPositions_piece hp, hamount, Nat.min_eq_left (Nat.le_of_lt hk),
    no_gap_short_iff hk (takenPositions_head? hsends), ← nothing_taken_iff hsends hrest]
  refine and_congr_right fun hnone => ?_
  have hmore : more = [] := by
    rw [sendFile_sent hrest, hnone]
    rfl
  constructor
  · intro hcomplete
    by_contra hreturned
    have hall := congrArg List.length (hcomplete (by simpa using hreturned))
    have hle := (ReadRet.upTo n).amount_le sendBufferSize (content.length - p)
    simp only [hmore, List.append_nil, List.length_take, List.length_drop] at hall
    omega
  · intro hreturned htrue
    rw [hreturned] at htrue
    cases htrue

/-- **When the reply is whole**, for a call that has returned. -/
theorem sendFile_whole_iff {p' : Nat} (hsends : ∀ e ∈ script, ∀ k, e.2 = some k → 0 < k)
    (h : tcpConnectionSendFile (scriptedFile content) script p = .ok (returned, sent, p')) :
    TransfersWhole content script p returned sent ↔ Unbroken content.length script p := by
  induction script generalizing p returned sent p' with
  | nil => cases h
  | cons e rest ih =>
      have hsends' : ∀ e ∈ rest, ∀ k, e.2 = some k → 0 < k :=
        fun e he => hsends e (List.mem_cons_of_mem _ he)
      cases Turn.of content.length p e with
      | at_end hend =>
          refine iff_of_true ?_ (.at_end hend)
          rw [transfersWhole_iff h, takenPositions_at_end hend]
          rw [sendFile_at_end hend] at h
          cases h
          exact ⟨⟨0, rfl⟩, fun _ => (List.drop_of_length_le hend).symm⟩
      | read_fails hp =>
          -- a failing read is taken for the end
          refine iff_of_false (fun hwhole => ?_) (not_unbroken_error hp _ _)
          cases h
          have hnil := hwhole.complete rfl
          rw [eq_comm, List.drop_eq_nil_iff] at hnil
          omega
      | send_fails hp =>
          refine iff_of_true ?_ .send_fails
          rw [transfersWhole_iff h]
          rw [sendFile_piece hp] at h
          cases h
          exact ⟨⟨0, rfl⟩, nofun⟩
      | piece hp =>
          rename_i n k
          rw [sendFile_piece hp] at h
          obtain ⟨⟨_, more, _⟩, hrest, h⟩ := bind_eq_ok.mp h
          cases h
          rw [unbroken_piece_iff hp]
          by_cases hk : (ReadRet.upTo n).amount sendBufferSize (content.length - p) ≤ k
          · rw [transfersWhole_whole_iff hp rfl hk hrest, ih hsends' hrest]
            constructor
            · exact fun hrest => Or.inl ⟨hk, hrest⟩
            · rintro (⟨-, hrest⟩ | ⟨-, n', rest', rfl⟩)
              · exact hrest
              · exact .send_fails
          · rw [transfersWhole_short_iff hp hsends' rfl (Nat.lt_of_not_le hk) hrest]
            constructor
            · exact Or.inr
            · rintro (⟨hle, -⟩ | hcut)
              · exact absurd hle hk
              · exact hcut

end

/-- **Complete transfers.** For every file, every position, every outcome of the reads and every
outcome of the sends, `tcp_connection_send_file` returns, and the reply is whole if and only if no
`read` fails before the end of the file and every `send` takes all it is given, the last one before
a failing one excepted. -/
theorem sendFile_transfersWhole_iff (content : List UInt8) (script : List (ReadRet × Option Nat))
    (p : Nat) (hsends : ∀ e ∈ script, ∀ k, e.2 = some k → 0 < k)
    (hlong : content.length - p < script.length) :
    ∃ (returned : Bool) (sent : List UInt8) (p' : Nat),
      tcpConnectionSendFile (scriptedFile content) script p = .ok (returned, sent, p')
      ∧ (TransfersWhole content script p returned sent
        ↔ Unbroken content.length script p) := by
  obtain ⟨⟨returned, sent, p'⟩, h⟩ := sendFile_returns hlong
  exact ⟨returned, sent, p', h, sendFile_whole_iff hsends h⟩

/-- Three bytes in two reads, from the second byte on. -/
theorem sendFile_transfersWhole_iff_twoReads :
    ∃ (returned : Bool) (sent : List UInt8) (p' : Nat),
      tcpConnectionSendFile (scriptedFile [65, 66, 67, 10])
          [(.upTo 2, some 2), (.upTo 4096, some 1), (.upTo 1, some 1), (.error, none)] 1
        = .ok (returned, sent, p')
      ∧ (TransfersWhole [65, 66, 67, 10]
          [(.upTo 2, some 2), (.upTo 4096, some 1), (.upTo 1, some 1), (.error, none)] 1 returned
          sent
        ↔ Unbroken [65, 66, 67, 10].length
          [(.upTo 2, some 2), (.upTo 4096, some 1), (.upTo 1, some 1), (.error, none)] 1) :=
  sendFile_transfersWhole_iff _ _ _ (by simp) (by decide)

/-- The socket takes one byte of the two that are read: the other one is never sent, and the
function returns `true`. -/
theorem not_transfersWhole_short :
    ∃ (returned : Bool) (sent : List UInt8) (p' : Nat),
      tcpConnectionSendFile (scriptedFile [65, 66]) [(.upTo 2, some 1), (.upTo 2, some 1)] 0
        = .ok (returned, sent, p')
      ∧ ¬ TransfersWhole [65, 66] [(.upTo 2, some 1), (.upTo 2, some 1)] 0 returned sent := by
  refine ⟨true, [65], 2, rfl, fun hwhole => ?_⟩
  exact absurd (hwhole.complete rfl) (by decide)

end Aesd
