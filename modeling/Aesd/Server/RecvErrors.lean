import Aesd.Basic.Lts
import Aesd.Server.Receive

set_option autoImplicit false

/-! # Errors in the middle of a message

`thread_routine` calls `tcp_connection_receive_message` as long as `is_open` holds. A call in which
`recv` fails frees the bytes it has taken in, but the connection stays open, so the next call starts
in the middle of a message. A message is complete, and no byte of one is dropped while the
connection is read on, exactly if `recv` never fails directly behind a byte other than the delimiter
(`run_wholeSegments_iff`). -/

namespace Aesd

open Lts

/-! ## Calls -/

/-- One call: what `recv` has reported to it, and what it has returned. -/
structure ReceiveCall where
  reported : List RecvRet
  message : Option (List UInt8)

/-- What `recv` has reported to some calls. -/
def reported (calls : List ReceiveCall) : List RecvRet := calls.flatMap ReceiveCall.reported

/-- The bytes among it. -/
def arrived (rs : List RecvRet) : List UInt8 :=
  rs.filterMap fun r => match r with
    | .byte x => some x
    | .error => none

/-- The calls of `thread_routine` on its connection. -/
inductive ReceiveStep (d : UInt8) : TcpConnection → ReceiveCall → TcpConnection → Prop
  | call {connection connection' : TcpConnection} {rs : List RecvRet}
      {message : Option (List UInt8)} {junk : Nat → UInt8} (is_open : connection.isOpen = true)
      (reports : connection.incoming = rs ++ connection'.incoming)
      (returned : tcpConnectionReceiveMessage connection d junk = .ok (message, connection')) :
      ReceiveStep d connection ⟨rs, message⟩ connection'

/-! ## What is wanted -/

/-- The bytes end where a segment starts: at the beginning of the stream, or behind a delimiter. -/
def AtStart (d : UInt8) (bytes : List UInt8) : Prop := bytes = [] ∨ bytes.getLast? = some d

/-- A call behind the bytes `before`: a message it returns is the segment from the previous
delimiter to the one it has come to. At an error the call frees its buffer, so nothing is kept: it
must have received no bytes before the error, unless the connection is closed with it. -/
structure ReceiveCall.Whole (d : UInt8) (before : List UInt8) (call : ReceiveCall)
    (connection : TcpConnection) : Prop where
  message : ∀ block, call.message = some block → ∃ front seg,
    before ++ arrived call.reported = front ++ (seg ++ [d]) ∧ AtStart d front ∧ d ∉ seg
      ∧ block.take (seg.length + 1) = seg ++ [0]
  error : call.reported.getLast? = some .error →
    arrived call.reported = [] ∨ connection.isOpen = false

/-- **All messages of a run are whole segments** of the stream, and no bytes are dropped while the
connection is read on. -/
def WholeSegments (d : UInt8) (t : List (ReceiveCall × TcpConnection)) : Prop :=
  ∀ t₁ call connection, StepAt t t₁ call connection →
    call.Whole d (arrived (reported (labels t₁))) connection

/-- What `recv` can report next without cutting a segment off. -/
def RecvRet.Before (d : UInt8) : RecvRet → RecvRet → Prop
  | .byte x, .error => x = d
  | .byte _, .byte _ | .error, _ => True

/-- `recv` never fails directly behind a byte other than the delimiter. -/
def NoErrorInside (d : UInt8) (rs : List RecvRet) : Prop := rs.IsChain (RecvRet.Before d)

section

variable {d : UInt8} {connection connection' : TcpConnection} {call : ReceiveCall}
  {seg : List UInt8} {rs : List RecvRet}

@[simp] theorem arrived_append (rs rs' : List RecvRet) :
    arrived (rs ++ rs') = arrived rs ++ arrived rs' :=
  List.filterMap_append ..

@[simp] theorem arrived_map (bytes : List UInt8) : arrived (bytes.map .byte) = bytes := by
  induction bytes with
  | nil => rfl
  | cons x rest ih => exact congrArg _ ih

@[simp] theorem arrived_byte (x : UInt8) : arrived [.byte x] = [x] := rfl

@[simp] theorem arrived_error : arrived [.error] = [] := rfl

theorem reported_concat (calls : List ReceiveCall) (call : ReceiveCall) :
    reported (calls ++ [call]) = reported calls ++ call.reported := by
  simp [reported]

/-- **What a call is**, by what it has come to. -/
theorem ReceiveStep.call_cases (hstep : ReceiveStep d connection call connection') :
    ∃ seg, d ∉ seg ∧ ((call = ⟨seg.map .byte, none⟩ ∧ connection'.isOpen = false)
      ∨ (call = ⟨seg.map .byte ++ [.error], none⟩ ∧ connection'.isOpen = true)
      ∨ ∃ block, call = ⟨seg.map .byte ++ [.byte d], some block⟩ ∧ connection'.isOpen = true
        ∧ block.take (seg.length + 1) = seg ++ [0]) := by
  cases hstep with
  | call is_open reports returned =>
      rename_i rs message junk
      have hcases := @tcpConnectionReceiveMessage_cases d junk connection (segment_lt returned)
      have hd := delimiter_notMem_segment d connection.incoming
      generalize segment d connection.incoming = seg at hcases hd
      refine ⟨seg, hd, ?_⟩
      -- what is left over is the same on both sides
      rcases hcases with ⟨hin, heq⟩ | ⟨rest, hin, heq⟩ | ⟨rest, block, hin, heq, htake⟩
      · rw [heq] at returned
        cases returned
        rw [reports, List.append_nil] at hin
        exact Or.inl ⟨by rw [hin], rfl⟩
      · rw [heq] at returned
        cases returned
        rw [reports, List.append_cons] at hin
        exact Or.inr (Or.inl ⟨by rw [List.append_cancel_right hin], is_open⟩)
      · rw [heq] at returned
        cases returned
        rw [reports, List.append_cons] at hin
        exact Or.inr (Or.inr ⟨block, by rw [List.append_cancel_right hin], is_open, htake⟩)

/-! ## Chains of reports -/

theorem noErrorInside_map (d : UInt8) (bytes : List UInt8) :
    NoErrorInside d (bytes.map .byte) := by
  unfold NoErrorInside
  rw [List.isChain_map]
  exact (List.pairwise_of_forall fun _ _ => trivial).isChain

/-- What can come behind the bytes of a segment. -/
theorem noErrorInside_concat_iff {r : RecvRet} :
    NoErrorInside d (seg.map .byte ++ [r]) ↔ ∀ x ∈ seg.getLast?, RecvRet.Before d (.byte x) r := by
  have hmap : (seg.map RecvRet.byte).IsChain (RecvRet.Before d) := noErrorInside_map d seg
  unfold NoErrorInside
  rw [List.isChain_append, and_iff_right hmap, and_iff_right (List.isChain_singleton r),
    List.getLast?_map]
  simp

/-- An error comes only behind an empty segment. -/
theorem noErrorInside_error_iff (hd : d ∉ seg) :
    NoErrorInside d (seg.map .byte ++ [.error]) ↔ seg = [] := by
  rw [noErrorInside_concat_iff]
  constructor
  · intro h
    rw [← List.getLast?_eq_none_iff, Option.eq_none_iff_forall_not_mem]
    intro x hx
    obtain rfl : x = d := h x hx
    exact hd (List.mem_of_getLast? hx)
  · rintro rfl
    exact nofun

/-- Nothing has been reported that the next report could cut off. -/
def AtBoundary (d : UInt8) (rs : List RecvRet) : Prop := ∀ x, rs.getLast? = some (.byte x) → x = d

/-- There, what is reported next is looked at on its own. -/
theorem noErrorInside_append_iff {rs' : List RecvRet} (h : AtBoundary d rs) :
    NoErrorInside d (rs ++ rs') ↔ NoErrorInside d rs ∧ NoErrorInside d rs' := by
  unfold NoErrorInside
  rw [List.isChain_append]
  refine and_congr_right fun _ => and_iff_left ?_
  intro r hr r' _
  cases r with
  | error => cases r' <;> trivial
  | byte x =>
      cases r' with
      | byte y => trivial
      | error => exact h x hr

/-! ## One call -/

/-- Where a run is as long as the connection is open: a call starts at a boundary, and, if no error
has cut a segment off, at the start of a segment. -/
structure CallStart (d : UInt8) (rs : List RecvRet) : Prop where
  boundary : AtBoundary d rs
  start : NoErrorInside d rs → AtStart d (arrived rs)

theorem callStart_nil (d : UInt8) : CallStart d [] := ⟨nofun, fun _ => Or.inl rfl⟩

/-- A call leads to the start of another one, if the connection is still open. -/
theorem ReceiveStep.callStart (hstep : ReceiveStep d connection call connection')
    (h : CallStart d rs) (hopen : connection'.isOpen = true) :
    CallStart d (rs ++ call.reported) := by
  obtain ⟨seg, hd, ⟨rfl, hclosed⟩ | ⟨rfl, -⟩ | ⟨block, rfl, -, -⟩⟩ := hstep.call_cases
  · rw [hclosed] at hopen
    cases hopen
  · -- the error has cut nothing off, so nothing is new
    refine ⟨fun x hx => ?_, fun hno => ?_⟩
    · rw [← List.append_assoc, List.getLast?_concat] at hx
      cases hx
    · obtain ⟨hbefore, hcall⟩ := (noErrorInside_append_iff h.boundary).mp hno
      rw [(noErrorInside_error_iff hd).mp hcall]
      simpa using h.start hbefore
  · refine ⟨fun x hx => ?_, fun _ => Or.inr ?_⟩
    · rw [← List.append_assoc, List.getLast?_concat] at hx
      exact (RecvRet.byte.inj (Option.some.inj hx)).symm
    · simp

/-- **A call does what is wanted** if and only if no error falls inside of what is reported
to it. -/
theorem ReceiveStep.whole_iff (hstep : ReceiveStep d connection call connection')
    (hstart : AtStart d (arrived rs)) :
    call.Whole d (arrived rs) connection' ↔ NoErrorInside d call.reported := by
  obtain ⟨seg, hd, ⟨rfl, hclosed⟩ | ⟨rfl, hopen⟩ | ⟨block, rfl, -, htake⟩⟩ := hstep.call_cases
  · exact iff_of_true ⟨nofun, fun _ => Or.inr hclosed⟩ (noErrorInside_map d seg)
  · rw [noErrorInside_error_iff hd]
    constructor
    · intro h
      rcases h.error (List.getLast?_concat ..) with hnil | hclosed
      · simpa using hnil
      · rw [hclosed] at hopen
        cases hopen
    · rintro rfl
      exact ⟨nofun, fun _ => Or.inl rfl⟩
  · refine iff_of_true ⟨?_, fun herror => ?_⟩ ?_
    · rintro _ ⟨⟩
      exact ⟨arrived rs, seg, by simp, hstart, hd, htake⟩
    · rw [List.getLast?_concat] at herror
      cases herror
    · rw [noErrorInside_concat_iff]
      exact fun _ _ => trivial

/-! ## Runs -/

/-- **Along a run**, the messages are whole segments exactly as long as no error falls inside of
one. -/
theorem run_receives {stream : List RecvRet} {t : List (ReceiveCall × TcpConnection)}
    (hsteps : Run (ReceiveStep d) ⟨stream, true⟩ t) :
    (WholeSegments d t ↔ NoErrorInside d (reported (labels t)))
      ∧ ((last ⟨stream, true⟩ t).isOpen = true → CallStart d (reported (labels t))) := by
  induction hsteps with
  | nil =>
      refine ⟨iff_of_true ?_ List.isChain_nil, fun _ => callStart_nil d⟩
      exact fun _ _ _ hat => absurd hat not_stepAt_nil
  | snoc hrun hstep ih =>
      rename_i t call connection'
      obtain ⟨hiff, hopen⟩ := ih
      have hstart : CallStart d (reported (labels t)) := by
        cases id hstep with
        | call is_open => exact hopen is_open
      rw [labels_concat, reported_concat, last_concat]
      refine ⟨?_, hstep.callStart hstart⟩
      rw [noErrorInside_append_iff hstart.boundary, ← hiff]
      have hconcat : WholeSegments d (t ++ [(call, connection')]) ↔ WholeSegments d t
          ∧ call.Whole d (arrived (reported (labels t))) connection' := forall_stepAt_concat
      rw [hconcat]
      exact and_congr_right fun hwhole => hstep.whole_iff (hstart.start (hiff.mp hwhole))

end

/-- **Receive errors.** For everything `recv` can report, with errors anywhere, and any number of
calls made while `is_open` holds: every message that is returned is a whole segment of the bytes
received since the connection was opened, and no bytes are dropped at an error while the connection
stays open, if and only if `recv` does not fail directly behind a byte other than the delimiter. -/
theorem run_wholeSegments_iff (d : UInt8) (stream : List RecvRet)
    (t : List (ReceiveCall × TcpConnection))
    (hsteps : Run (ReceiveStep d) ⟨stream, true⟩ t) :
    WholeSegments d t ↔ NoErrorInside d (reported (labels t)) :=
  (run_receives hsteps).1

/-- `"A\n"`, an error between two messages, and `"B\n"`. -/
theorem run_wholeSegments_iff_between :
    ∃ t : List (ReceiveCall × TcpConnection),
      Run (ReceiveStep 10) ⟨[.byte 65, .byte 10, .error, .byte 66, .byte 10], true⟩ t
      ∧ reported (labels t) = [.byte 65, .byte 10, .error, .byte 66, .byte 10]
      ∧ (WholeSegments 10 t ↔ NoErrorInside 10 (reported (labels t))) := by
  have h65 : (10 : UInt8) ∉ [(65 : UInt8)] := by decide
  have h66 : (10 : UInt8) ∉ [(66 : UInt8)] := by decide
  obtain ⟨_, hA, -⟩ := receiveMessage_delimiter 10 (fun _ => 0) true h65 (by decide)
    [.error, .byte 66, .byte 10]
  obtain ⟨_, hB, -⟩ := receiveMessage_delimiter 10 (fun _ => 0) true h66 (by decide) []
  have herror := receiveMessage_error 10 (fun _ => 0) true List.not_mem_nil (by decide)
    [.byte 66, .byte 10]
  have h₁ : Run (ReceiveStep 10) ⟨[.byte 65, .byte 10, .error, .byte 66, .byte 10], true⟩ _ :=
    Run.nil.snoc (@ReceiveStep.call _ _ _ [.byte 65, .byte 10] _ _ rfl rfl hA)
  have h₂ := h₁.snoc (@ReceiveStep.call _ _ _ [.error] _ _ rfl rfl herror)
  have h₃ := h₂.snoc (@ReceiveStep.call _ _ _ [.byte 66, .byte 10] _ _ rfl rfl hB)
  exact ⟨_, h₃, rfl, run_wholeSegments_iff 10 _ _ h₃⟩

/-- `"A"`, an error, and `"B\n"`: the `A` is dropped, and the next call returns `"B"`, which is the
rest of the line `"AB"`. -/
theorem not_wholeSegments_inside :
    ∃ t : List (ReceiveCall × TcpConnection),
      Run (ReceiveStep 10) ⟨[.byte 65, .error, .byte 66, .byte 10], true⟩ t
      ∧ ¬ WholeSegments 10 t := by
  have h65 : (10 : UInt8) ∉ [(65 : UInt8)] := by decide
  have h66 : (10 : UInt8) ∉ [(66 : UInt8)] := by decide
  have herror := receiveMessage_error 10 (fun _ => 0) true h65 (by decide) [.byte 66, .byte 10]
  obtain ⟨block, hB, -⟩ := receiveMessage_delimiter 10 (fun _ => 0) true h66 (by decide) []
  have h₁ : Run (ReceiveStep 10) ⟨[.byte 65, .error, .byte 66, .byte 10], true⟩ _ :=
    Run.nil.snoc (@ReceiveStep.call _ _ _ [.byte 65, .error] _ _ rfl rfl herror)
  have h₂ := h₁.snoc (@ReceiveStep.call _ _ _ [.byte 66, .byte 10] _ _ rfl rfl hB)
  refine ⟨_, h₂, fun hwhole => ?_⟩
  -- the error is reported behind the `A`
  have hno : [.byte 65, .error, .byte 66, .byte 10].IsChain (RecvRet.Before 10) :=
    (run_receives h₂).1.mp hwhole
  have hbefore : (65 : UInt8) = 10 := (List.isChain_cons_cons.mp hno).1
  exact absurd hbefore (by decide)

end Aesd
