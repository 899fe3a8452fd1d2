import Aesd.Server.Threads

set_option autoImplicit false

/-! # The order of the messages

Two orders that hold in every run of the server, whatever file it works on. The lines of the
data messages are handled, and then answered, in the order in which `file_mutex` was taken for
them (`DataOrder`); and the messages for which a connection thread takes it are those that the
client has sent, one after the other (`ThreadOrder`). -/

namespace Aesd

open Lts Delimited

section

variable {σ ω : Type} {b : Build σ ω} {s s' : Server σ} {e : Event ω} {es : List (Event ω)}

/-! ## The line in hand -/

/-- The phase of the connection thread that holds `file_mutex`. -/
def Server.heldPhase (s : Server σ) : Option Phase :=
  match s.fileMutex with
  | some (.connection i) => some (s.threads i).phase
  | _ => none

/-- The line that is to be handled. -/
def Phase.toHandle : Option Phase → List (List UInt8)
  | some (.handle m) => dataLine m
  | _ => []

/-- The line that is to be answered. -/
def Phase.toReply : Option Phase → List (List UInt8)
  | some (.send m) => dataLine m
  | _ => []

theorem Server.Exclusive.heldPhase_eq (hex : s.Exclusive) {i : ConnId}
    (hi : (s.threads i).phase.Critical) : s.heldPhase = some (s.threads i).phase := by
  have hmutex : s.fileMutex = some (.connection i) := hex.holder_eq (a := .connection i) hi
  rw [Server.heldPhase, hmutex]

theorem Server.heldPhase_of_free (hfree : s.fileMutex = none) : s.heldPhase = none := by
  rw [Server.heldPhase, hfree]

/-- A step of a thread that does not hold the mutex leaves the holder where it is. -/
theorem Step.heldPhase_eq (hstep : Step b s e s') (hex : s.Exclusive)
    (hmutex : s'.fileMutex = s.fileMutex) (hout : ∀ a, e.agent = some a → ¬ s.Critical a) :
    s'.heldPhase = s.heldPhase := by
  unfold Server.heldPhase
  rw [hmutex]
  cases hholder : s.fileMutex with
  | none => rfl
  | some a =>
      cases a with
      | timer j => rfl
      | connection i =>
          have hin : s.Critical (.connection i) := (hex (.connection i)).mpr hholder
          have hne : e.agent ≠ some (.connection i) := fun ha => hout _ ha hin
          simp only [hstep.threads_ne hne]

/-! ## Data messages -/

theorem lockedData_concat (es : List (Event ω)) (e : Event ω) :
    lockedData (es ++ [e]) = lockedData es ++ lockedData [e] :=
  List.flatMap_append ..

theorem handledData_concat (es : List (Event ω)) (e : Event ω) :
    handledData (es ++ [e]) = handledData es ++ handledData [e] :=
  List.flatMap_append ..

theorem repliedData_concat (es : List (Event ω)) (e : Event ω) :
    repliedData (es ++ [e]) = repliedData es ++ repliedData [e] :=
  List.flatMap_append ..

theorem lockedBy_concat (i : ConnId) (es : List (Event ω)) (e : Event ω) :
    lockedBy i (es ++ [e]) = lockedBy i es ++ lockedBy i [e] :=
  List.flatMap_append ..

/-- The lines are handled and answered in the order of the lock, with at most one in hand. -/
structure DataOrder (es : List (Event ω)) (s : Server σ) : Prop where
  locked : lockedData es = handledData es ++ Phase.toHandle s.heldPhase
  handled : handledData es = repliedData es ++ Phase.toReply s.heldPhase

/-- One more event: the line in hand and the line that arrives are the line that leaves and the
line in hand afterwards. -/
theorem DataOrder.move (h : DataOrder es s) {before after : Option Phase}
    (hbefore : s.heldPhase = before) (hafter : s'.heldPhase = after)
    (hlocked : Phase.toHandle before ++ lockedData [e] = handledData [e] ++ Phase.toHandle after)
    (hhandled : Phase.toReply before ++ handledData [e]
      = repliedData [e] ++ Phase.toReply after) : DataOrder (es ++ [e]) s' := by
  subst hbefore hafter
  constructor
  · calc lockedData (es ++ [e])
        = handledData es ++ (Phase.toHandle s.heldPhase ++ lockedData [e]) := by
          rw [lockedData_concat, h.locked, List.append_assoc]
      _ = handledData (es ++ [e]) ++ Phase.toHandle s'.heldPhase := by
          rw [hlocked, handledData_concat, List.append_assoc]
  · calc handledData (es ++ [e])
        = repliedData es ++ (Phase.toReply s.heldPhase ++ handledData [e]) := by
          rw [handledData_concat, h.handled, List.append_assoc]
      _ = repliedData (es ++ [e]) ++ Phase.toReply s'.heldPhase := by
          rw [hhandled, repliedData_concat, List.append_assoc]

/-- An event about no data message, with the same line in hand. -/
theorem DataOrder.stay (h : DataOrder es s) (hheld : s'.heldPhase = s.heldPhase)
    (hl : lockedData [e] = []) (hh : handledData [e] = []) (hr : repliedData [e] = []) :
    DataOrder (es ++ [e]) s' := by
  apply h.move rfl hheld
  · rw [hl, hh, List.append_nil, List.nil_append]
  · rw [hh, hr, List.append_nil, List.nil_append]

/-- A data message that is handled with success is answered next. -/
theorem SuccessStep.handle_retval {i : ConnId} {m : List UInt8} {plan : StdioPlan ω} {env : ω}
    {retval : Int} {files : σ} (hok : (Event.handle i m plan env).Succeeds b s)
    (hdata : decodeIoctlCommand (cString m) = none)
    (hhandled : handleMessage (b.file i) m plan env s.files = .ok (retval, files)) :
    retval ≥ 0 ∧ writeChunks (b.file i) plan.chunks s.files = .ok (true, files) := by
  obtain ⟨files', hw⟩ := hok hdata
  rw [handleMessage_data (b.file i) hdata hw] at hhandled
  obtain ⟨rfl, rfl⟩ := Prod.mk.inj (Except.ok.inj hhandled)
  exact ⟨Int.natCast_nonneg _, hw⟩

/-- **One step keeps the order of the data messages.** -/
theorem SuccessStep.dataOrder (hstep : SuccessStep b s e s') (hex : s.Exclusive)
    (h : DataOrder es s) : DataOrder (es ++ [e]) s' := by
  obtain ⟨hstep, hok⟩ := hstep
  have hex' := hstep.exclusive hex
  -- a step outside the critical section: the holder stays in its phase
  have hstay := hstep.heldPhase_eq hex
  cases hstep with
  | receive at_loop | finish at_loop | fopen at_fopen | fclose at_fclose =>
      refine h.stay (hstay rfl fun a ha => ?_) rfl rfl rfl
      obtain rfl := Option.some.inj ha
      simp [Server.Critical, Phase.Critical, *]
  | fopenFails => exact absurd hok id
  | lock at_lock is_free =>
      rename_i i m
      have hbefore := Server.heldPhase_of_free is_free
      have hafter := hex'.heldPhase_eq (i := i) (by simp [Phase.Critical])
      simp only [Server.setPhase_self] at hafter
      apply h.move hbefore hafter
      · simp [lockedData, handledData, Phase.toHandle]
      · simp [handledData, repliedData, Phase.toReply]
  | handle at_handle prints handled =>
      rename_i i m plan env retval files
      have hbefore := hex.heldPhase_eq (i := i) (by rw [at_handle]; trivial)
      rw [at_handle] at hbefore
      have hafter := hex'.heldPhase_eq (i := i) (by
        simp only [Server.setPhase_self]
        split <;> trivial)
      simp only [Server.setPhase_self] at hafter
      -- a command has no line, and a data message goes on to be answered
      have hreply : Phase.toReply (some (if retval ≥ 0 then .send m else .unlock m))
          = dataLine m := by
        by_cases hdata : decodeIoctlCommand (cString m) = none
        · rw [if_pos (SuccessStep.handle_retval hok hdata handled).1]
          rfl
        · have hnil : dataLine m = [] := if_neg hdata
          split <;> simp [Phase.toReply, hnil]
      have hhandle : Phase.toHandle (some (if retval ≥ 0 then .send m else .unlock m)) = [] := by
        split <;> rfl
      apply h.move hbefore hafter
      · rw [hhandle]
        simp [lockedData, handledData, Phase.toHandle]
      · rw [hreply]
        simp [handledData, repliedData, Phase.toReply]
  | send at_send sent =>
      rename_i i m script retval reply files
      have hbefore := hex.heldPhase_eq (i := i) (by rw [at_send]; trivial)
      rw [at_send] at hbefore
      have hafter := hex'.heldPhase_eq (i := i) (by simp [Phase.Critical])
      simp only [Server.setPhase_self] at hafter
      apply h.move hbefore hafter
      · simp [lockedData, handledData, Phase.toHandle]
      · simp [handledData, repliedData, Phase.toReply]
  | unlock at_unlock =>
      rename_i i m
      have hbefore := hex.heldPhase_eq (i := i) (by rw [at_unlock]; trivial)
      rw [at_unlock] at hbefore
      apply h.move hbefore (Server.heldPhase_of_free rfl)
      · simp [lockedData, handledData, Phase.toHandle]
      · simp [handledData, repliedData, Phase.toReply]
  | closeConnections => exact h.stay rfl rfl rfl rfl
  | timerLock has_timer at_lock is_free =>
      refine h.stay ?_ rfl rfl rfl
      rw [Server.heldPhase_of_free is_free]
      rfl
  | timerWrite => exact h.stay rfl rfl rfl rfl
  | timerUnlock at_unlock =>
      -- a timer held the mutex, so no line was in hand
      rename_i j
      have hmutex : s.fileMutex = some (.timer j) :=
        hex.holder_eq (a := .timer j) (by rw [Server.Critical, at_unlock]; trivial)
      refine h.stay ?_ rfl rfl rfl
      simp [Server.heldPhase, hmutex]

/-! ## The messages of one connection -/

/-- What a client sends: lines without a newline or a `0` in them, each shorter than 1 GiB, and
possibly an incomplete one. -/
structure WellSent (sent : List (List UInt8)) (tail : List UInt8) : Prop where
  lines : ∀ l ∈ sent, newline ∉ l ∧ 0 ∉ l ∧ l.length < 2 ^ 30
  tail_open : newline ∉ tail
  tail_size : tail.length < 2 ^ 30

/-- The message a thread works on. -/
def Phase.message : Phase → Option (List UInt8)
  | .fopen m | .lock m | .handle m | .send m | .unlock m => some m
  | _ => none

/-- The message it has received but not taken the mutex for. -/
def Phase.inHand : Phase → List (List UInt8)
  | .fopen m | .lock m => [cString m]
  | _ => []

/-- The client's lines are those the mutex was taken for, the one in hand, and those that are
still to come. -/
structure ThreadOrder (sent : List (List UInt8)) (tail : List UInt8) (locked : List (List UInt8))
    (th : Thread) : Prop where
  order : ∃ rest, sent = locked ++ th.phase.inHand ++ rest
    ∧ (th.connection = .sending (framed newline rest tail)
      ∨ rest = [] ∧ th.connection = ⟨[], false⟩)
  message : ∀ m, th.phase.message = some m → cString m ∈ sent

section

variable {sent locked locked' : List (List UInt8)} {tail : List UInt8} {th : Thread}

/-- A step that goes on with the same message, or drops it once it was locked. -/
theorem ThreadOrder.setPhase (h : ThreadOrder sent tail locked th) {p : Phase}
    (hhand : locked' ++ p.inHand = locked ++ th.phase.inHand)
    (hmessage : ∀ m, p.message = some m → th.phase.message = some m) :
    ThreadOrder sent tail locked' ⟨th.connection, p⟩ where
  order := by
    obtain ⟨rest, hsent, hconn⟩ := h.order
    exact ⟨rest, by rw [hsent, ← hhand], hconn⟩
  message := fun m hm => h.message m (hmessage m hm)

/-- A call of `tcp_connection_receive_message`: the next line comes in hand, or the connection is
closed after the last one. -/
theorem ThreadOrder.receive (hsent : WellSent sent tail) (h : ThreadOrder sent tail locked th)
    (at_loop : th.phase = .loop) (is_open : th.connection.isOpen = true) {junk : Nat → UInt8}
    {message : Option (List UInt8)} {connection : TcpConnection}
    (received : tcpConnectionReceiveMessage th.connection newline junk
      = .ok (message, connection)) :
    ThreadOrder sent tail locked ⟨connection, .received message⟩ := by
  obtain ⟨rest, hrest, hconn⟩ := h.order
  rw [at_loop] at hrest
  rcases hconn with hconn | ⟨-, hconn⟩
  · rw [hconn] at received
    cases rest with
    | nil =>
        -- only the incomplete line is left: it is dropped
        rw [framed_nil, receiveMessage_tail junk hsent.tail_open hsent.tail_size] at received
        obtain ⟨rfl, rfl⟩ := Prod.mk.inj (Except.ok.inj received)
        exact ⟨⟨[], hrest, Or.inr ⟨rfl, rfl⟩⟩, by intro m hm; cases hm⟩
    | cons line rest =>
        have hmem : line ∈ sent := by simp [hrest]
        obtain ⟨hnl, hzero, hsize⟩ := hsent.lines line hmem
        obtain ⟨block, hcall, hblock⟩ := receiveMessage_framed junk rest tail hnl hsize
        rw [hcall] at received
        obtain ⟨rfl, rfl⟩ := Prod.mk.inj (Except.ok.inj received)
        have hline := cString_eq_of_take hblock hzero
        refine ⟨⟨rest, ?_, Or.inl rfl⟩, ?_⟩
        · rw [hrest]
          simp [Phase.received, Phase.inHand, hline]
        · intro m hm
          obtain rfl : block = m := Option.some.inj hm
          rwa [hline]
  · rw [hconn] at is_open
    cases is_open

end

/-- **One step keeps the order of the messages of every connection.** -/
theorem SuccessStep.threadOrder (hstep : SuccessStep b s e s') {i : ConnId}
    {sent : List (List UInt8)} {tail : List UInt8} (hsent : WellSent sent tail)
    (h : ThreadOrder sent tail (lockedBy i es) (s.threads i)) :
    ThreadOrder sent tail (lockedBy i (es ++ [e])) (s'.threads i) := by
  obtain ⟨hstep, hok⟩ := hstep
  rw [lockedBy_concat]
  by_cases hagent : e.agent = some (.connection i)
  · cases hstep with
    | receive at_loop is_open goes_on received =>
        obtain rfl : _ = i := by simpa [Event.agent] using hagent
        rename_i i junk message connection
        rw [show lockedBy i [(.receive i : Event ω)] = [] from rfl, List.append_nil]
        simp only [Function.update_self]
        exact h.receive hsent at_loop is_open received
    | lock at_lock =>
        obtain rfl : _ = i := by simpa [Event.agent] using hagent
        simp only [Server.setPhase_self]
        refine h.setPhase ?_ ?_
        · simp [lockedBy, Phase.inHand, at_lock]
        · rw [at_lock]
          exact fun m hm => hm
    | finish at_loop | fclose at_fclose =>
        obtain rfl : _ = i := by simpa [Event.agent] using hagent
        simp only [Server.setPhase_self]
        refine h.setPhase ?_ (by intro m hm; cases hm)
        simp [lockedBy, Phase.inHand, *]
    | fopen at_fopen =>
        obtain rfl : _ = i := by simpa [Event.agent] using hagent
        simp only [Server.setPhase_self]
        refine h.setPhase ?_ ?_
        · simp [lockedBy, Phase.inHand, at_fopen]
        · rw [at_fopen]
          exact fun m hm => hm
    | fopenFails => exact absurd hok id
    | handle at_handle =>
        obtain rfl : _ = i := by simpa [Event.agent] using hagent
        simp only [Server.setPhase_self]
        refine h.setPhase ?_ ?_
        · rw [at_handle]
          split <;> simp [lockedBy, Phase.inHand]
        · rw [at_handle]
          split <;> exact fun m hm => hm
    | send at_send =>
        obtain rfl : _ = i := by simpa [Event.agent] using hagent
        simp only [Server.setPhase_self]
        refine h.setPhase ?_ ?_
        · simp [lockedBy, Phase.inHand, at_send]
        · rw [at_send]
          exact fun m hm => hm
    | unlock at_unlock =>
        obtain rfl : _ = i := by simpa [Event.agent] using hagent
        simp only [Server.setPhase_self]
        refine h.setPhase ?_ (by intro m hm; cases hm)
        simp [lockedBy, Phase.inHand, at_unlock]
    | closeConnections | timerLock | timerWrite | timerUnlock => cases hagent
  · -- another thread's step: this thread stays where it is, and no lock is its own
    have hnone : lockedBy i [e] = [] := by
      cases e with
      | lock i' m =>
          have hne : i' ≠ i := by
            rintro rfl
            exact hagent rfl
          simp [lockedBy, hne]
      | _ => rfl
    rw [hnone, List.append_nil, hstep.threads_ne hagent]
    exact h

/-! ## Every run -/

/-- What holds in every run of the server, on any file. -/
structure Server.Inv (sent : ConnId → List (List UInt8)) (tail : ConnId → List UInt8)
    (es : List (Event ω)) (s : Server σ) : Prop where
  exclusive : s.Exclusive
  data : DataOrder es s
  threads : ∀ i, ThreadOrder (sent i) (tail i) (lockedBy i es) (s.threads i)

variable {sent : ConnId → List (List UInt8)} {tail : ConnId → List UInt8}

/-- Nobody is in the critical section at the start. -/
theorem Server.start_exclusive (files : σ) (outstr : TimerId → List UInt8) :
    (Server.start files sent tail outstr).Exclusive := by
  intro a
  cases a <;> simp [Server.Critical, Server.start, Phase.Critical, TimerPhase.Critical]

theorem Server.start_inv (files : σ) (outstr : TimerId → List UInt8) :
    Server.Inv sent tail ([] : List (Event ω)) (Server.start files sent tail outstr) where
  exclusive := Server.start_exclusive files outstr
  data := ⟨rfl, rfl⟩
  threads := fun i => ⟨⟨sent i, rfl, Or.inl rfl⟩, by intro m hm; cases hm⟩

/-- **One step keeps it.** -/
theorem SuccessStep.inv (hsent : ∀ i, WellSent (sent i) (tail i)) (hstep : SuccessStep b s e s')
    (h : Server.Inv sent tail es s) : Server.Inv sent tail (es ++ [e]) s' where
  exclusive := hstep.1.exclusive h.exclusive
  data := hstep.dataOrder h.exclusive h.data
  threads := fun i => hstep.threadOrder (hsent i) (h.threads i)

/-- The messages for which a connection has taken the mutex are the first it sent. -/
theorem ThreadOrder.locked_le {sent locked : List (List UInt8)} {tail : List UInt8} {th : Thread}
    (h : ThreadOrder sent tail locked th) : locked <+: sent := by
  obtain ⟨rest, hrest, -⟩ := h.order
  exact ⟨th.phase.inHand ++ rest, by rw [hrest, List.append_assoc]⟩

theorem Server.Inv.lockedBy_le (h : Server.Inv sent tail es s) (i : ConnId) :
    lockedBy i es <+: sent i :=
  (h.threads i).locked_le

/-- The order of one connection does not depend on what the other clients send. -/
theorem run_lockedBy_le {files : σ} {outstr : TimerId → List UInt8} {i : ConnId}
    (hsent : WellSent (sent i) (tail i)) {t : List (Event ω × Server σ)}
    (hsteps : Run (SuccessStep b) (Server.start files sent tail outstr) t) :
    lockedBy i (labels t) <+: sent i := by
  have horder := hsteps.invariant
    (fun es s => ThreadOrder (sent i) (tail i) (lockedBy i es) (s.threads i))
    ((Server.start_inv files outstr).threads i)
    fun _ _ _ _ h hstep => hstep.threadOrder hsent h
  exact horder.locked_le

/-! ## A section -/

/-- **A data message is served**: from the lock on, its thread gets through its section while the
others wait, if the calls on the file can be made. -/
theorem can_serve {J : List (Event ω) → Server σ → Prop}
    (hkeeps : ∀ es s e s', J es s → SuccessStep b s e s' → J (es ++ [e]) s')
    (hhandle : ∀ es s i m, J es s → (s.threads i).phase = .handle m →
      ∃ plan env s', SuccessStep b s (.handle i m plan env) s')
    (hsend : ∀ es s i m, J es s → (s.threads i).phase = .send m →
      ∃ script reply s', SuccessStep b s (.send i m script reply) s')
    (hinv : J es s) {i : ConnId} {m : List UInt8} (hphase : (s.threads i).phase = .lock m)
    (hfree : s.fileMutex = none) (hdata : decodeIoctlCommand (cString m) = none) :
    ∃ t plan env script reply, Run (SuccessStep b) s t
      ∧ labels t = [.lock i m, .handle i m plan env, .send i m script reply, .unlock i]
      ∧ J (es ++ labels t) (last s t) ∧ (last s t).fileMutex = none
      ∧ (last s t).threads i = ⟨(s.threads i).connection, .fclose⟩
      ∧ ∀ j, j ≠ i → (last s t).threads j = s.threads j := by
  have hlock : SuccessStep b s (.lock i m)
      { s.setPhase i (.handle m) with fileMutex := some (.connection i) } :=
    ⟨.lock hphase hfree, trivial⟩
  have hinv₁ := hkeeps _ _ _ _ hinv hlock
  obtain ⟨plan, env, s₂, hhandled⟩ := hhandle _ _ i m hinv₁ (by simp)
  have hinv₂ := hkeeps _ _ _ _ hinv₁ hhandled
  have hthread₂ : s₂.threads i = ⟨(s.threads i).connection, .send m⟩ := by
    obtain ⟨hstep, hok⟩ := hhandled
    cases hstep with
    | handle at_handle prints handled =>
        obtain ⟨hret, -⟩ := SuccessStep.handle_retval hok hdata handled
        simp only [Server.setPhase_self, if_pos hret]
  obtain ⟨script, reply, s₃, hsent⟩ := hsend _ _ i m hinv₂ (by rw [hthread₂])
  have hinv₃ := hkeeps _ _ _ _ hinv₂ hsent
  have hthread₃ : s₃.threads i = ⟨(s.threads i).connection, .unlock m⟩ := by
    obtain ⟨hstep, -⟩ := hsent
    cases hstep
    simp only [Server.setPhase_self, hthread₂]
  have hunlock : SuccessStep b s₃ (.unlock i) { s₃.setPhase i .fclose with fileMutex := none } :=
    ⟨.unlock (by rw [hthread₃]), trivial⟩
  refine ⟨_, plan, env, script, reply,
    (((Run.nil.snoc hlock).snoc hhandled).snoc hsent).snoc hunlock, rfl, ?_, rfl, ?_,
    fun j hj => ?_⟩
  · have hinv₄ := hkeeps _ _ _ _ hinv₃ hunlock
    simp only [List.append_assoc] at hinv₄
    exact hinv₄
  · show (s₃.setPhase i .fclose).threads i = _
    rw [Server.setPhase_self, hthread₃]
  · have hne : ∀ {e : Event ω}, e.agent = some (.connection i) →
        e.agent ≠ some (.connection j) := by
      intro e he heq
      exact hj (Holder.connection.inj (Option.some.inj (heq.symm.trans he)))
    calc (s₃.setPhase i .fclose).threads j
        = s₃.threads j := Server.setPhase_ne _ _ hj
      _ = s₂.threads j := hsent.1.threads_ne (hne rfl)
      _ = (s.setPhase i (.handle m)).threads j := hhandled.1.threads_ne (hne rfl)
      _ = s.threads j := Server.setPhase_ne _ _ hj

/-- Two clients: one sends `"x\n"`, the other one `"yz\n"` and `"w\n"`. -/
def twoClients (i : ConnId) : List (List UInt8) :=
  if i = 0 then [[120]] else if i = 1 then [[121, 122], [119]] else []

theorem mem_twoClients {i : ConnId} {l : List UInt8} (hl : l ∈ twoClients i) :
    l = [120] ∨ l = [121, 122] ∨ l = [119] := by
  unfold twoClients at hl
  split_ifs at hl <;> simp at hl <;> tauto

theorem twoClients_length_le {i : ConnId} {l : List UInt8} (hl : l ∈ twoClients i) :
    l.length ≤ 2 := by
  rcases mem_twoClients hl with rfl | rfl | rfl <;> decide

theorem twoClients_wellSent (i : ConnId) : WellSent (twoClients i) [] where
  lines := by
    intro l hl
    rcases mem_twoClients hl with rfl | rfl | rfl <;> decide
  tail_open := by simp
  tail_size := by simp

/-- Both clients have been heard and have their files open before one of them takes the mutex; the
second one is served first. -/
theorem exists_twoClients_run (b : Build σ ω) (files : σ) (outstr : TimerId → List UInt8)
    {J : List (Event ω) → Server σ → Prop}
    (hinit : J [] (Server.start files twoClients (fun _ => []) outstr))
    (hkeeps : ∀ es s e s', J es s → SuccessStep b s e s' → J (es ++ [e]) s')
    (hhandle : ∀ es s i m, J es s → (s.threads i).phase = .handle m →
      ∃ plan env s', SuccessStep b s (.handle i m plan env) s')
    (hsend : ∀ es s i m, J es s → (s.threads i).phase = .send m →
      ∃ script reply s', SuccessStep b s (.send i m script reply) s') :
    ∃ t, Run (SuccessStep b) (Server.start files twoClients (fun _ => []) outstr) t
      ∧ (last (Server.start files twoClients (fun _ => []) outstr) t).fileMutex = none
      ∧ .closeConnections ∉ labels t
      ∧ lockedData (labels t) = [[121, 122, newline], [120, newline]]
      ∧ ∀ j outstr, .timerLock j outstr ∉ labels t := by
  generalize hstart : Server.start files twoClients (fun _ => []) outstr = s at hinit ⊢
  obtain ⟨x, hreceivex, hx⟩ :=
    receiveMessage_framed (fun _ => 0) [] [] (by decide : newline ∉ [120]) (by decide)
  obtain ⟨yz, hreceiveyz, hyz⟩ :=
    receiveMessage_framed (fun _ => 0) [[119]] [] (by decide : newline ∉ [121, 122]) (by decide)
  have hmessagex := cString_eq_of_take hx (by decide)
  have hmessageyz := cString_eq_of_take hyz (by decide)
  have hdatax : decodeIoctlCommand (cString x) = none := by
    rw [hmessagex]
    decide
  have hdatayz : decodeIoctlCommand (cString yz) = none := by
    rw [hmessageyz]
    decide
  obtain ⟨t₀, hrun₀, hlabels₀, hfree₀, hphasex, hphaseyz⟩ :
      ∃ t₀, Run (SuccessStep b) s t₀
        ∧ labels t₀ = [.receive 0, .receive 1, .fopen 0, .fopen 1]
        ∧ (last s t₀).fileMutex = none
        ∧ ((last s t₀).threads 0).phase = .lock x ∧ ((last s t₀).threads 1).phase = .lock yz := by
    subst hstart
    have h₁ : Run (SuccessStep b) (Server.start files twoClients (fun _ => []) outstr) _ :=
      Run.nil.snoc ⟨Step.receive (i := 0) rfl rfl rfl hreceivex, trivial⟩
    have h₂ := h₁.snoc ⟨Step.receive (i := 1) rfl rfl rfl hreceiveyz, trivial⟩
    have h₃ := h₂.snoc ⟨Step.fopen (i := 0) rfl, trivial⟩
    have h₄ := h₃.snoc ⟨Step.fopen (i := 1) rfl, trivial⟩
    exact ⟨_, h₄, rfl, rfl, rfl, rfl⟩
  have hinv₀ := hrun₀.invariant J hinit hkeeps
  obtain ⟨t₁, plan₁, env₁, script₁, reply₁, hrun₁, hlabels₁, hinv₁, hfree₁, -, hothers⟩ :=
    can_serve hkeeps hhandle hsend hinv₀ hphaseyz hfree₀ hdatayz
  rw [← hothers 0 (by decide)] at hphasex
  obtain ⟨t₂, plan₂, env₂, script₂, reply₂, hrun₂, hlabels₂, -, hfree₂, -, -⟩ :=
    can_serve hkeeps hhandle hsend hinv₁ hphasex hfree₁ hdatax
  have hlabels : labels (t₀ ++ t₁ ++ t₂) = [.receive 0, .receive 1, .fopen 0, .fopen 1,
      .lock 1 yz, .handle 1 yz plan₁ env₁, .send 1 yz script₁ reply₁, .unlock 1,
      .lock 0 x, .handle 0 x plan₂ env₂, .send 0 x script₂ reply₂, .unlock 0] := by
    rw [labels_append, labels_append, hlabels₀, hlabels₁, hlabels₂]
    rfl
  refine ⟨t₀ ++ t₁ ++ t₂, (hrun₀.append hrun₁).append (by rwa [last_append]), ?_, ?_, ?_, ?_⟩
  · rw [last_append, last_append]
    exact hfree₂
  · rw [hlabels]
    simp
  · rw [hlabels]
    show dataLine yz ++ (dataLine x ++ []) = _
    unfold dataLine
    rw [if_pos hdatax, if_pos hdatayz, hmessagex, hmessageyz]
    rfl
  · rw [hlabels]
    simp

end

end Aesd
