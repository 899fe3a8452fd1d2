import Aesd.Server.Receive
import Aesd.Server.Serial
import Aesd.Server.RegularFile

set_option autoImplicit false

/-! # Every connection comes to its end

Whatever fails on the way. A connection thread makes at most seven steps for each message, one for
each failed `recv`, and two more (`connection_steps_le`), so it cannot go on for ever. It is never
stuck either, if the calls under `file_mutex` return: the thread that holds the mutex can always go
on to give it back (`Build.Live.can_release`), and then any other thread can make its next step
(`Build.Live.can_finish_all`). `Build.Robust` says what the files of a build have to do for that,
whatever fails, and `Server.Sound` is the invariant behind it. -/

namespace Aesd

open Lts Delimited

/-! ## How many steps are left -/

/-- How many steps the calls of `tcp_connection_receive_message` can still lead to. -/
def TcpConnection.stepsLeft (c : TcpConnection) : Nat :=
  if c.isOpen then 7 * c.incoming.count (.byte newline) + c.incoming.count .error + 2 else 1

/-- How many steps a connection thread can still make. -/
def Thread.stepsLeft (th : Thread) : Nat :=
  match th.phase with
  | .finished => 0
  | .loop => th.connection.stepsLeft
  | .fclose => th.connection.stepsLeft + 1
  | .unlock _ => th.connection.stepsLeft + 2
  | .send _ => th.connection.stepsLeft + 3
  | .handle _ => th.connection.stepsLeft + 4
  | .lock _ => th.connection.stepsLeft + 5
  | .fopen _ => th.connection.stepsLeft + 6

section

variable {σ ω : Type} {b : Build σ ω} {s s' : Server σ} {e : Event ω} {i : ConnId}

theorem TcpConnection.stepsLeft_pos (c : TcpConnection) : 1 ≤ c.stepsLeft := by
  unfold TcpConnection.stepsLeft
  split <;> omega

theorem TcpConnection.stepsLeft_of_open {c : TcpConnection} (is_open : c.isOpen = true) :
    c.stepsLeft = 7 * c.incoming.count (.byte newline) + c.incoming.count .error + 2 :=
  if_pos is_open

theorem count_byte_map {d : UInt8} {bytes : List UInt8} (hd : d ∉ bytes) :
    (bytes.map RecvRet.byte).count (.byte d) = 0 := by
  rw [List.count_eq_zero, List.mem_map]
  rintro ⟨x, hx, heq⟩
  exact hd (RecvRet.byte.inj heq ▸ hx)

theorem count_error_map (bytes : List UInt8) : (bytes.map RecvRet.byte).count .error = 0 := by
  rw [List.count_eq_zero, List.mem_map]
  rintro ⟨x, -, heq⟩
  cases heq

/-- A call takes in a message, drops what has come before an error, or closes the connection. -/
theorem receive_stepsLeft {connection connection' : TcpConnection} {junk : Nat → UInt8}
    {message : Option (List UInt8)} (is_open : connection.isOpen = true)
    (received : tcpConnectionReceiveMessage connection newline junk
      = .ok (message, connection')) :
    (Thread.mk connection' (.received message)).stepsLeft + 1 ≤ connection.stepsLeft := by
  have hnl := delimiter_notMem_segment newline connection.incoming
  have hbefore := TcpConnection.stepsLeft_of_open is_open
  rcases tcpConnectionReceiveMessage_cases (segment_lt received) with
    ⟨-, hcall⟩ | ⟨rest, hin, hcall⟩ | ⟨rest, block, hin, hcall, -⟩
  · -- the client has closed: only the step that leaves the loop is left
    rw [hcall] at received
    obtain ⟨rfl, rfl⟩ := Prod.mk.inj (Except.ok.inj received)
    show 1 + 1 ≤ connection.stepsLeft
    omega
  · -- an error has been taken off the stream
    rw [hcall] at received
    obtain ⟨rfl, rfl⟩ := Prod.mk.inj (Except.ok.inj received)
    rw [hin, List.count_append, List.count_append, count_byte_map hnl, count_error_map,
      List.count_cons_of_ne (by simp), List.count_cons_self] at hbefore
    have hafter : (TcpConnection.mk rest connection.isOpen).stepsLeft
        = 7 * rest.count (.byte newline) + rest.count .error + 2 :=
      TcpConnection.stepsLeft_of_open is_open
    show (TcpConnection.mk rest connection.isOpen).stepsLeft + 1 ≤ connection.stepsLeft
    omega
  · -- a line has, which gives the thread six more steps
    rw [hcall] at received
    obtain ⟨rfl, rfl⟩ := Prod.mk.inj (Except.ok.inj received)
    rw [hin, List.count_append, List.count_append, count_byte_map hnl, count_error_map,
      List.count_cons_self, List.count_cons_of_ne (by simp)] at hbefore
    have hafter : (TcpConnection.mk rest connection.isOpen).stepsLeft
        = 7 * rest.count (.byte newline) + rest.count .error + 2 :=
      TcpConnection.stepsLeft_of_open is_open
    show (TcpConnection.mk rest connection.isOpen).stepsLeft + 6 + 1 ≤ connection.stepsLeft
    omega

/-- **Every step of a thread brings it closer to its end**, and no step takes another one back. -/
theorem Step.stepsLeft (hstep : Step b s e s') (i : ConnId) :
    (s'.threads i).stepsLeft + (if e.agent = some (.connection i) then 1 else 0)
      ≤ (s.threads i).stepsLeft := by
  by_cases hagent : e.agent = some (.connection i)
  · rw [if_pos hagent]
    cases hstep with
    | receive at_loop is_open goes_on received =>
        obtain rfl : _ = i := by simpa [Event.agent] using hagent
        rename_i i junk message connection
        have hless := receive_stepsLeft is_open received
        have hhere : (s.threads i).stepsLeft = (s.threads i).connection.stepsLeft := by
          unfold Thread.stepsLeft
          rw [at_loop]
        simp only [Function.update_self]
        omega
    | finish at_loop =>
        obtain rfl : _ = i := by simpa [Event.agent] using hagent
        rename_i i stops
        have hpos := (s.threads i).connection.stepsLeft_pos
        simp only [Server.setPhase_self, Thread.stepsLeft, at_loop]
        omega
    | handle at_handle =>
        obtain rfl : _ = i := by simpa [Event.agent] using hagent
        simp only [Server.setPhase_self, Thread.stepsLeft, at_handle]
        split_ifs <;> simp only <;> omega
    | fopen at_phase | fopenFails at_phase | lock at_phase | send at_phase | unlock at_phase
    | fclose at_phase =>
        obtain rfl : _ = i := by simpa [Event.agent] using hagent
        simp only [Server.setPhase_self, Thread.stepsLeft, at_phase]
        omega
    | closeConnections | timerLock | timerWrite | timerUnlock => cases hagent
  · rw [if_neg hagent, hstep.threads_ne hagent]
    exact Nat.le_refl _

/-- A thread that has come to its end makes no further step. -/
theorem Step.finished (hstep : Step b s e s') (hphase : (s.threads i).phase = .finished) :
    (s'.threads i).phase = .finished := by
  have hless := hstep.stepsLeft i
  have hzero : (s.threads i).stepsLeft = 0 := by
    unfold Thread.stepsLeft
    rw [hphase]
  have hpos := (s'.threads i).connection.stepsLeft_pos
  have hzero' : (s'.threads i).stepsLeft = 0 := by omega
  unfold Thread.stepsLeft at hzero'
  cases hphase' : (s'.threads i).phase with
  | finished => rfl
  | loop | fopen | lock | handle | send | unlock | fclose =>
      rw [hphase'] at hzero'
      simp only at hzero'
      omega

/-- How many steps a timer callback can still make. -/
def TimerPhase.stepsLeft : TimerPhase → Nat
  | .lock _ => 3
  | .write _ => 2
  | .unlock => 1
  | .finished => 0

/-- **No connection goes on for ever.** From any state, in any run of the server of either build,
whatever fails, a thread whose connection has still to report `incoming` makes at most seven steps
for each newline in it, one for each failed `recv`, and two more. -/
theorem connection_steps_le (b : Build σ ω) (s : Server σ) (i : ConnId) (incoming : List RecvRet)
    (hthread : s.threads i = ⟨⟨incoming, true⟩, .loop⟩) (t : List (Event ω × Server σ))
    (hsteps : Run (Step b) s t) :
    (labels t).countP (fun e => e.agent = some (.connection i))
      ≤ 7 * incoming.count (.byte newline) + incoming.count .error + 2 := by
  have hcount := hsteps.countP_le (fun s => (s.threads i).stepsLeft)
    (fun e => e.agent = some (.connection i)) (by
      intro s₁ e s₂ hstep
      simp only [decide_eq_true_eq]
      exact hstep.stepsLeft i)
  have hstart : (s.threads i).stepsLeft
      = 7 * incoming.count (.byte newline) + incoming.count .error + 2 := by
    rw [hthread]
    rfl
  omega

end

/-- A server whose clients send `"A\n"` after one `recv` has failed. -/
def oneErrorOneLine : Server RegularFile where
  files := .existing []
  fileMutex := none
  closeConnections := false
  threads _ := ⟨⟨[.error, .byte 65, .byte newline], true⟩, .loop⟩
  timers _ := .lock []

/-- The steps of one of them are as many as there can be. -/
theorem connection_steps_le_oneErrorOneLine :
    ∃ t : List (Event FileOutcome × Server RegularFile), Run (Step regularBuild) oneErrorOneLine t
      ∧ (labels t).countP (fun e => e.agent = some (.connection 0)) = 10
      ∧ (labels t).countP (fun e => e.agent = some (.connection 0)) ≤ 7 * 1 + 1 + 2 := by
  obtain ⟨m, hreceive, hm⟩ :=
    receiveMessage_framed (fun _ => 0) [] [] (by decide : newline ∉ [65]) (by decide)
  have hmessage := cString_eq_of_take hm (by decide)
  have hinit : RegularInv [] oneErrorOneLine := by
    refine ⟨?_, ⟨rfl, rfl⟩, fun _ => rfl⟩
    intro a
    cases a <;> simp [Server.Critical, oneErrorOneLine, Phase.Critical, TimerPhase.Critical]
  -- up to the lock, through the section, and to the end
  obtain ⟨t₀, hrun₀, hlabels₀, hfree₀, hthread₀⟩ :
      ∃ t₀, Run (SuccessStep regularBuild) oneErrorOneLine t₀
        ∧ labels t₀ = [.receive 0, .receive 0, .fopen 0]
        ∧ (last oneErrorOneLine t₀).fileMutex = none
        ∧ (last oneErrorOneLine t₀).threads 0
          = ⟨.sending (framed newline [] []), .lock m⟩ := by
    have h₁ : Run (SuccessStep regularBuild) oneErrorOneLine _ := Run.nil.snoc
      ⟨Step.receive (i := 0) rfl rfl rfl
        (show tcpConnectionReceiveMessage ⟨[.error, .byte 65, .byte newline], true⟩ newline
          (fun _ => 0) = .ok (none, .sending (framed newline [[65]] [])) from rfl), trivial⟩
    have h₂ := h₁.snoc ⟨Step.receive (i := 0) rfl rfl rfl hreceive, trivial⟩
    have h₃ := h₂.snoc ⟨Step.fopen (i := 0) rfl, trivial⟩
    exact ⟨_, h₃, rfl, rfl, rfl⟩
  have hkeeps : ∀ es s e s',
      RegularInv es s ∧ (.closeConnections ∉ es → s.closeConnections = false) →
      SuccessStep regularBuild s e s' → RegularInv (es ++ [e]) s'
        ∧ (.closeConnections ∉ es ++ [e] → s'.closeConnections = false) := by
    rintro es s e s' ⟨hinv, hgoes⟩ hstep
    refine ⟨hstep.regularInv hinv, fun hno => ?_⟩
    rw [List.mem_append, not_or, List.mem_singleton] at hno
    exact (hstep.1.closeConnections_eq (Ne.symm hno.2)).trans (hgoes hno.1)
  obtain ⟨t₁, plan, env, script, reply, hrun₁, hlabels₁, ⟨-, hgoes⟩, -, hthread₁, -⟩ :=
    can_serve hkeeps (fun _ _ _ _ h hphase => h.1.can_handle hphase)
      (fun _ _ _ _ h hphase => h.1.can_send hphase)
      (hrun₀.invariant _ ⟨hinit, fun _ => rfl⟩ hkeeps) (by rw [hthread₀]) hfree₀
      (by rw [hmessage]; decide)
  have hrun₀₁ := (hrun₀.append hrun₁).mono fun _ _ _ hstep => hstep.1
  rw [hthread₀] at hthread₁
  rw [← last_append] at hthread₁ hgoes
  have h₁ := hrun₀₁.snoc (Step.fclose (i := 0) (by rw [hthread₁]))
  have h₂ := h₁.snoc (Step.receive (i := 0) (by rw [last_concat, Server.setPhase_self])
    (by rw [last_concat, Server.setPhase_self, hthread₁]; rfl)
    (by rw [last_concat]; exact hgoes (by rw [hlabels₀, hlabels₁]; simp))
    (show tcpConnectionReceiveMessage _ newline (fun _ => 0) = .ok (none, ⟨[], false⟩) by
      rw [last_concat, Server.setPhase_self, hthread₁]; rfl))
  have h₃ := h₂.snoc (Step.finish (i := 0) (by rw [last_concat]; rfl)
    (Or.inl (by rw [last_concat]; rfl)))
  refine ⟨_, h₃, ?_, connection_steps_le regularBuild oneErrorOneLine 0
    [.error, .byte 65, .byte newline] rfl _ h₃⟩
  rw [labels_concat, labels_concat, labels_concat, labels_append, hlabels₀, hlabels₁]
  rfl

/-! ## Live builds -/

/-- The steps among which progress is looked for. -/
def OkStep {σ ω : Type} (b : Build σ ω) (Ok : Server σ → Event ω → Prop) (s : Server σ)
    (e : Event ω) (s' : Server σ) : Prop :=
  Step b s e s' ∧ Ok s e

/-- **What progress needs**: an invariant under which the calls on the connection and on the file
return, in steps of the wanted kind. -/
structure Build.Live {σ ω : Type} (b : Build σ ω) (Ok : Server σ → Event ω → Prop)
    (I : List (Event ω) → Server σ → Prop) : Prop where
  exclusive : ∀ es s, I es s → s.Exclusive
  step : ∀ es s e s', I es s → OkStep b Ok s e s' → I (es ++ [e]) s'
  quiet : ∀ s e, ¬ e.Works → e.agent ≠ none → (∀ i, e ≠ .fopenFails i) → Ok s e
  receive : ∀ es s i, I es s → (s.threads i).phase = .loop → ∃ junk message connection,
    tcpConnectionReceiveMessage (s.threads i).connection newline junk = .ok (message, connection)
  handle : ∀ es s i m, I es s → (s.threads i).phase = .handle m → ∃ plan env s',
    OkStep b Ok s (.handle i m plan env) s'
  send : ∀ es s i m, I es s → (s.threads i).phase = .send m → ∃ script reply s',
    OkStep b Ok s (.send i m script reply) s'
  timerWrite : ∀ es s j outstr, I es s → s.timers j = .write outstr → ∃ plan s',
    OkStep b Ok s (.timerWrite j plan) s'

section

variable {σ ω : Type} {b : Build σ ω} {Ok : Server σ → Event ω → Prop}
  {I : List (Event ω) → Server σ → Prop} {s s' : Server σ} {e : Event ω} {es : List (Event ω)}
  {i : ConnId}

/-- A thread that is not waiting for `file_mutex` can make its next step. -/
theorem Build.Live.can_step (hb : b.Live Ok I) (h : I es s)
    (hrunning : (s.threads i).phase ≠ .finished)
    (hwaits : ∀ m, (s.threads i).phase = .lock m → s.fileMutex = none) :
    ∃ e s', OkStep b Ok s e s' ∧ e.agent = some (.connection i) := by
  have hquiet : ∀ {e s'}, Step b s e s' → ¬ e.Works → e.agent = some (.connection i) →
      (∀ j, e ≠ .fopenFails j) → ∃ e s', OkStep b Ok s e s' ∧ e.agent = some (.connection i) :=
    fun hstep hworks hagent hopened =>
      ⟨_, _, ⟨hstep, hb.quiet _ _ hworks (by simp [hagent]) hopened⟩, hagent⟩
  cases hphase : (s.threads i).phase with
  | loop =>
      by_cases hgo : (s.threads i).connection.isOpen = true ∧ s.closeConnections = false
      · obtain ⟨junk, message, connection, hcall⟩ := hb.receive es s i h hphase
        exact hquiet (.receive hphase hgo.1 hgo.2 hcall) id rfl (by simp)
      · have hstops : (s.threads i).connection.isOpen = false ∨ s.closeConnections = true := by
          rw [not_and_or, Bool.not_eq_true, Bool.not_eq_false] at hgo
          exact hgo
        exact hquiet (.finish hphase hstops) id rfl (by simp)
  | fopen m => exact hquiet (.fopen hphase) id rfl (by simp)
  | lock m => exact hquiet (.lock hphase (hwaits m hphase)) id rfl (by simp)
  | handle m =>
      obtain ⟨plan, env, s', hstep⟩ := hb.handle es s i m h hphase
      exact ⟨_, _, hstep, rfl⟩
  | send m =>
      obtain ⟨script, reply, s', hstep⟩ := hb.send es s i m h hphase
      exact ⟨_, _, hstep, rfl⟩
  | unlock m => exact hquiet (.unlock hphase) id rfl (by simp)
  | fclose => exact hquiet (.fclose hphase) id rfl (by simp)
  | finished => exact absurd hphase hrunning

/-- The thread `j` holds `file_mutex` or has given it back, and all others stand where they stood
in `s₀`. -/
structure Server.OnlyHolder (s₀ : Server σ) (j : ConnId) (s : Server σ) : Prop where
  mutex : s.fileMutex = some (.connection j) ∨ s.fileMutex = none
  others : ∀ i, i ≠ j → s.threads i = s₀.threads i

/-- The holder of `file_mutex` can make a step, and the others stand where they stood. -/
theorem Build.Live.holder_step {s₀ : Server σ} {j : ConnId} (hb : b.Live Ok I) (h : I es s)
    (honly : s₀.OnlyHolder j s) (hheld : s.fileMutex ≠ none) :
    ∃ e s', OkStep b Ok s e s' ∧ s₀.OnlyHolder j s'
      ∧ (s'.threads j).stepsLeft < (s.threads j).stepsLeft := by
  have hholds : s.fileMutex = some (.connection j) := honly.mutex.resolve_right hheld
  have hcrit : (s.threads j).phase.Critical := (hb.exclusive es s h (.connection j)).mpr hholds
  -- who is in the section has not ended and does not wait for the mutex
  obtain ⟨e, s', hstep, hagent⟩ := hb.can_step (i := j) h
    (by intro hphase; rw [hphase] at hcrit; exact hcrit)
    (by intro m hphase; rw [hphase] at hcrit; exact absurd hcrit id)
  have hless := hstep.1.stepsLeft j
  rw [if_pos hagent] at hless
  refine ⟨e, s', hstep, ⟨?_, ?_⟩, hless⟩
  · rcases hstep.1.lock_cases with ⟨hsame, -⟩ | ⟨a, -, hfree, -⟩ | ⟨a, -, -, hfree, -⟩
    · exact Or.inl (hsame.trans hholds)
    · exact absurd hfree hheld
    · exact Or.inr hfree
  · intro i hi
    rw [← honly.others i hi]
    apply hstep.1.threads_ne
    rw [hagent]
    exact fun heq => hi (Holder.connection.inj (Option.some.inj heq)).symm

/-- A timer callback that holds it writes its line and gives it back. -/
theorem Build.Live.timer_releases (hb : b.Live Ok I) (h : I es s) {j : TimerId}
    (hmutex : s.fileMutex = some (.timer j)) :
    ∃ t, Run (OkStep b Ok) s t ∧ I (es ++ labels t) (last s t) ∧ (last s t).fileMutex = none
      ∧ (last s t).threads = s.threads := by
  have hcrit : (s.timers j).Critical := (hb.exclusive es s h (.timer j)).mpr hmutex
  have hunlock : ∀ {es' : List (Event ω)} {s' : Server σ}, I es' s' →
      s'.timers j = .unlock → OkStep b Ok s' (.timerUnlock j)
        { s'.setTimer j .finished with fileMutex := none } :=
    fun _ hphase => ⟨.timerUnlock hphase, hb.quiet _ _ id (by simp [Event.agent]) (by simp)⟩
  cases hphase : s.timers j with
  | lock outstr | finished =>
      rw [hphase] at hcrit
      exact absurd hcrit id
  | unlock =>
      have hstep := hunlock h hphase
      exact ⟨_, Run.nil.snoc hstep, hb.step _ _ _ _ h hstep, rfl, rfl⟩
  | write outstr =>
      obtain ⟨plan, s₁, hstep⟩ := hb.timerWrite es s j outstr h hphase
      have h₁ := hb.step _ _ _ _ h hstep
      obtain ⟨hphase₁, hthreads₁⟩ : s₁.timers j = .unlock ∧ s₁.threads = s.threads := by
        cases hstep.1 with
        | timerWrite => exact ⟨Function.update_self .., rfl⟩
      have hstep₂ := hunlock h₁ hphase₁
      have hrun : Run (OkStep b Ok) s _ := (Run.nil.snoc hstep).snoc hstep₂
      refine ⟨_, hrun, ?_, rfl, hthreads₁⟩
      have h₂ := hb.step _ _ _ _ h₁ hstep₂
      rwa [List.append_assoc] at h₂

/-- **The holder of `file_mutex` can give it back**, by steps of its own. -/
theorem Build.Live.can_release (hb : b.Live Ok I) (h : I es s) :
    ∃ t, Run (OkStep b Ok) s t ∧ I (es ++ labels t) (last s t) ∧ (last s t).fileMutex = none
      ∧ ∀ i, s.fileMutex ≠ some (.connection i) → (last s t).threads i = s.threads i := by
  cases hmutex : s.fileMutex with
  | none =>
      refine ⟨[], Run.nil, ?_, hmutex, fun _ _ => rfl⟩
      rwa [labels_nil, List.append_nil]
  | some a =>
      cases a with
      | connection j =>
          -- the steps that are left to the holder become fewer until the mutex is free
          obtain ⟨t, hrun, ⟨hinv, honly⟩, hfree⟩ := exists_run_to (OkStep b Ok)
            (fun es' s' => I es' s' ∧ s.OnlyHolder j s') (fun s' => s'.fileMutex = none)
            (fun s' => (s'.threads j).stepsLeft) (by
              rintro es' s' ⟨hinv, honly⟩ hheld
              obtain ⟨e, s₂, hstep, honly₂, hless⟩ := hb.holder_step hinv honly hheld
              exact ⟨[(e, s₂)], Run.nil.snoc hstep, ⟨hb.step _ _ _ _ hinv hstep, honly₂⟩, hless⟩)
            es ⟨h, Or.inl hmutex, fun _ _ => rfl⟩
          refine ⟨t, hrun, hinv, hfree, fun i hi => honly.others i ?_⟩
          rintro rfl
          exact hi rfl
      | timer j =>
          obtain ⟨t, hrun, hinv, hfree, hthreads⟩ := hb.timer_releases h hmutex
          exact ⟨t, hrun, hinv, hfree, fun i _ => congrFun hthreads i⟩

/-- **Every connection thread can come to its end.** -/
theorem Build.Live.can_finish (hb : b.Live Ok I) (h : I es s) (i : ConnId) :
    ∃ t, Run (OkStep b Ok) s t ∧ I (es ++ labels t) (last s t)
      ∧ ((last s t).threads i).phase = .finished := by
  -- the measure is how many steps are left to the thread
  apply exists_run_to (OkStep b Ok) I (fun s => (s.threads i).phase = .finished)
    (fun s => (s.threads i).stepsLeft) _ es h
  intro es₁ s₁ h₁ hrunning
  -- first the mutex is given back, unless the thread holds it itself
  obtain ⟨t, hrun, hinv, hwaits, hsame⟩ : ∃ t, Run (OkStep b Ok) s₁ t
      ∧ I (es₁ ++ labels t) (last s₁ t)
      ∧ (∀ m, ((last s₁ t).threads i).phase = .lock m → (last s₁ t).fileMutex = none)
      ∧ (last s₁ t).threads i = s₁.threads i := by
    by_cases hholds : s₁.fileMutex = some (.connection i)
    · refine ⟨[], Run.nil, by rwa [labels_nil, List.append_nil], ?_, rfl⟩
      intro m hphase
      have hcrit : (s₁.threads i).phase.Critical :=
        (hb.exclusive es₁ s₁ h₁ (.connection i)).mpr hholds
      rw [last_nil] at hphase
      rw [hphase] at hcrit
      exact absurd hcrit id
    · obtain ⟨t, hrun, hinv, hfree, hothers⟩ := hb.can_release h₁
      exact ⟨t, hrun, hinv, fun _ _ => hfree, hothers i hholds⟩
  obtain ⟨e, s₂, hstep, hagent⟩ := hb.can_step (i := i) hinv (by rw [hsame]; exact hrunning) hwaits
  have hless := hstep.1.stepsLeft i
  rw [if_pos hagent, hsame] at hless
  refine ⟨t ++ [(e, s₂)], hrun.snoc hstep, ?_, ?_⟩
  · rw [labels_concat, last_concat, ← List.append_assoc]
    exact hb.step _ _ _ _ hinv hstep
  · rw [last_concat]
    exact hless

/-- All of them can. -/
theorem Build.Live.can_finish_all (hb : b.Live Ok I) (es : List (Event ω)) (h : I es s)
    (is : List ConnId) :
    ∃ t, Run (OkStep b Ok) s t ∧ I (es ++ labels t) (last s t)
      ∧ ∀ i ∈ is, ((last s t).threads i).phase = .finished := by
  induction is generalizing es s with
  | nil => exact ⟨[], Run.nil, by rwa [labels_nil, List.append_nil], by simp⟩
  | cons i is ih =>
      obtain ⟨t₁, hrun₁, h₁, hi⟩ := hb.can_finish h i
      obtain ⟨t₂, hrun₂, h₂, his⟩ := ih _ h₁
      have hstays : ((last (last s t₁) t₂).threads i).phase = .finished :=
        hrun₂.invariant (fun _ s => (s.threads i).phase = .finished) hi
          fun _ _ _ _ hphase hstep => hstep.1.finished hphase
      refine ⟨t₁ ++ t₂, hrun₁.append hrun₂, ?_, ?_⟩
      · rwa [labels_append, last_append, ← List.append_assoc]
      · rw [last_append]
        intro j hj
        rcases List.mem_cons.mp hj with rfl | hj
        · exact hstays
        · exact his j hj

end

/-! ## Robust builds -/

/-- Nothing is closed, and the state behind the file name stays as it should be. -/
structure FilesKept {σ : Type} (Good : σ → Prop) (IsOpen : σ → ConnId → Prop) (f f' : σ) :
    Prop where
  good : Good f'
  isOpen : ∀ j, IsOpen f j → IsOpen f' j

/-- A string that can be a message. -/
def IsMessage (m : List UInt8) : Prop := newline ∉ cString m ∧ (cString m).length < 2 ^ 30

/-- **The calls on a file return**, whatever the environment decides during them. -/
structure Build.Robust {σ ω : Type} (b : Build σ ω) (Good : σ → Prop)
    (IsOpen : σ → ConnId → Prop) : Prop where
  fopen : ∀ i f, Good f → FilesKept Good IsOpen f (b.fopen i f) ∧ IsOpen (b.fopen i f) i
  fclose : ∀ i f, Good f → Good (b.fclose i f) ∧ ∀ j, j ≠ i → IsOpen f j → IsOpen (b.fclose i f) j
  handle : ∀ i m plan env f, IsMessage m → plan.Prints (cString m ++ [newline]) → Good f →
    IsOpen f i → ∃ retval f', handleMessage (b.file i) m plan env f = .ok (retval, f')
      ∧ FilesKept Good IsOpen f f'
  /-- What is read is not read again, and there is an end to it. -/
  read : ∀ i, ∃ left : σ → Nat, ∀ env count f, Good f → IsOpen f i → ∃ ret bytes f',
    (b.file i).read env count f = .ok (ret, bytes, f') ∧ FilesKept Good IsOpen f f'
      ∧ (0 < ret → left f' < left f)
  append : ∀ ops chunks f, b.appendFile = some ops → Good f → ∃ accepted f',
    writeChunks ops chunks f = .ok (accepted, f') ∧ FilesKept Good IsOpen f f'

/-- The phases in which a thread has its file open. -/
def Phase.HasFile : Phase → Prop
  | .lock _ | .handle _ | .send _ | .unlock _ | .fclose => True
  | .loop | .fopen _ | .finished => False

/-- No line is as long as 1 GiB; anything else may be sent, and `recv` may fail anywhere. -/
def ShortLines (incoming : List RecvRet) : Prop :=
  ∀ line : List UInt8, newline ∉ line → line.map RecvRet.byte <:+: incoming → line.length < 2 ^ 30

/-- What is still to come on a connection, and the message in hand. -/
structure Thread.Calm (th : Thread) : Prop where
  stream : ShortLines th.connection.incoming
  message : ∀ m, th.phase.message = some m → IsMessage m

/-- A timer callback can only be at work in the build that has a timer. -/
def Server.TimersOk {σ ω : Type} (b : Build σ ω) (s : Server σ) : Prop :=
  ∀ j outstr, s.timers j = .write outstr → ∃ ops, b.appendFile = some ops

/-- What holds in every run of a robust server, whatever fails. -/
structure Server.Sound {σ ω : Type} (b : Build σ ω) (Good : σ → Prop) (IsOpen : σ → ConnId → Prop)
    (s : Server σ) : Prop where
  exclusive : s.Exclusive
  good : Good s.files
  isOpen : ∀ i, (s.threads i).phase.HasFile → IsOpen s.files i
  calm : ∀ i, (s.threads i).Calm
  timers : s.TimersOk b

section

variable {σ ω : Type} {b : Build σ ω} {s s' : Server σ} {e : Event ω} {i : ConnId}
  {Good : σ → Prop} {IsOpen : σ → ConnId → Prop}

theorem FilesKept.trans {f f₁ f₂ : σ} (h₁ : FilesKept Good IsOpen f f₁)
    (h₂ : FilesKept Good IsOpen f₁ f₂) : FilesKept Good IsOpen f f₂ :=
  ⟨h₂.good, fun j hj => h₂.isOpen j (h₁.isOpen j hj)⟩

/-- A thread that goes on in a phase with no other message. -/
theorem Thread.Calm.setPhase {th : Thread} (h : th.Calm) {p : Phase}
    (hp : ∀ m, p.message = some m → th.phase.message = some m) :
    (Thread.mk th.connection p).Calm :=
  ⟨h.stream, fun m hm => h.message m (hp m hm)⟩

theorem ShortLines.suffix {front rest : List RecvRet} (h : ShortLines (front ++ rest)) :
    ShortLines rest :=
  fun line hnl hin => h line hnl (hin.trans (List.suffix_append front rest).isInfix)

/-- A call of `tcp_connection_receive_message` on short lines returns. -/
theorem Thread.Calm.receive {th : Thread} (h : th.Calm) (junk : Nat → UInt8) :
    ∃ message connection, tcpConnectionReceiveMessage th.connection newline junk
        = .ok (message, connection) ∧ (Thread.mk connection (.received message)).Calm := by
  have hnl := delimiter_notMem_segment newline th.connection.incoming
  have hsize : (segment newline th.connection.incoming).length < 2 ^ 30 := by
    apply h.stream _ hnl
    rcases segment_cases newline th.connection.incoming with hin | ⟨rest, hin⟩ | ⟨rest, hin⟩
    · exact ⟨[], [], by rw [List.nil_append, List.append_nil]; exact hin.symm⟩
    · exact ⟨[], .error :: rest, by rw [List.nil_append]; exact hin.symm⟩
    · exact ⟨[], .byte newline :: rest, by rw [List.nil_append]; exact hin.symm⟩
  have hstream := h.stream
  rcases tcpConnectionReceiveMessage_cases hsize with
    ⟨-, hcall⟩ | ⟨rest, hin, hcall⟩ | ⟨rest, block, hin, hcall, hblock⟩
  · refine ⟨none, ⟨[], false⟩, hcall, ?_, by intro m hm; cases hm⟩
    exact @ShortLines.suffix th.connection.incoming [] (by rwa [List.append_nil])
  · rw [hin, List.append_cons] at hstream
    exact ⟨none, _, hcall, hstream.suffix, by intro m hm; cases hm⟩
  · rw [hin, List.append_cons] at hstream
    refine ⟨some block, _, hcall, hstream.suffix, ?_⟩
    intro m hm
    obtain rfl : block = m := Option.some.inj hm
    -- the message ends at the first zero byte of the line
    have hpre : cString (segment newline th.connection.incoming)
        <+: segment newline th.connection.incoming := List.takeWhile_prefix _
    unfold IsMessage
    rw [cString_of_take hblock]
    exact ⟨fun hmem => hnl (hpre.subset hmem), Nat.lt_of_le_of_lt hpre.length_le hsize⟩

theorem Step.timersOk (hstep : Step b s e s') (h : s.TimersOk b) : s'.TimersOk b := by
  intro j outstr hwrite
  by_cases hj : e.agent = some (.timer j)
  · cases hstep with
    | timerLock has_timer => exact ⟨_, has_timer⟩
    | timerWrite has_timer => exact ⟨_, has_timer⟩
    | timerUnlock =>
        obtain rfl : _ = j := by simpa [Event.agent] using hj
        simp [Server.setTimer] at hwrite
    | receive | finish | fopen | fopenFails | lock | handle | send | unlock | fclose
    | closeConnections => cases hj
  · rw [hstep.timers_ne hj] at hwrite
    exact h j outstr hwrite

/-- A step of one thread, seen by all. -/
theorem Server.Sound.move (h : s.Sound b Good IsOpen) (hstep : Step b s e s')
    (hgood : Good s'.files)
    (hothers : ∀ j, e.agent ≠ some (.connection j) → IsOpen s.files j → IsOpen s'.files j)
    (hself : ∀ j, e.agent = some (.connection j) →
      ((s'.threads j).phase.HasFile → IsOpen s'.files j) ∧ (s'.threads j).Calm) :
    s'.Sound b Good IsOpen where
  exclusive := hstep.exclusive h.exclusive
  good := hgood
  isOpen j := by
    by_cases hj : e.agent = some (.connection j)
    · exact (hself j hj).1
    · rw [hstep.threads_ne hj]
      exact fun hfile => hothers j hj (h.isOpen j hfile)
  calm j := by
    by_cases hj : e.agent = some (.connection j)
    · exact (hself j hj).2
    · rw [hstep.threads_ne hj]
      exact h.calm j
  timers := hstep.timersOk h.timers

/-- `tcp_connection_send_file` returns: it comes to the end of the file, or something fails. -/
theorem Build.Robust.sendFile (hb : b.Robust Good IsOpen) (i : ConnId) :
    ∃ left : σ → Nat, ∀ (script : List (ω × Option Nat)) (f : σ), Good f → IsOpen f i →
      (tcpConnectionSendFile (b.file i) script f = .error .unfinished ∧ script.length ≤ left f)
      ∨ ∃ retval reply f', tcpConnectionSendFile (b.file i) script f = .ok (retval, reply, f')
        ∧ FilesKept Good IsOpen f f' := by
  obtain ⟨left, hread⟩ := hb.read i
  -- a script that is used up has had a read that delivered something for each of its entries
  refine ⟨left, fun script => ?_⟩
  induction script with
  | nil => exact fun f _ _ => Or.inl ⟨rfl, Nat.zero_le _⟩
  | cons c rest ih =>
      intro f hf hi
      obtain ⟨env, outcome⟩ := c
      obtain ⟨ret, bytes, f₁, hcall, hkept, hless⟩ := hread env sendBufferSize f hf hi
      simp only [tcpConnectionSendFile, hcall, bind, Except.bind]
      by_cases hpos : ret > 0
      · rw [if_pos hpos]
        cases outcome with
        | none => exact Or.inr ⟨_, _, f₁, rfl, hkept⟩
        | some n =>
            have hlt := hless hpos
            rcases ih f₁ hkept.good (hkept.isOpen i hi) with
              ⟨hrest, hlong⟩ | ⟨retval, more, f₂, hrest, hkept₂⟩
            · left
              simp only [tcpConnectionSendMessage, hrest, if_true, List.length_cons]
              exact ⟨trivial, by omega⟩
            · right
              simp only [tcpConnectionSendMessage, hrest, if_true]
              exact ⟨_, _, f₂, rfl, hkept.trans hkept₂⟩
      · rw [if_neg hpos]
        exact Or.inr ⟨_, _, f₁, rfl, hkept⟩

/-- **One step keeps a robust server sound**, whatever fails in it. -/
theorem Step.sound (hb : b.Robust Good IsOpen) (hstep : Step b s e s')
    (h : s.Sound b Good IsOpen) : s'.Sound b Good IsOpen := by
  -- each case says what the thread that moves has in hand, and what its step does to the file
  have hmove := h.move hstep
  cases hstep with
  | receive at_loop is_open goes_on received =>
      rename_i i junk message connection
      apply hmove h.good (fun _ _ hj => hj)
      rintro j ⟨⟩
      obtain ⟨message', connection', hcall, hcalm⟩ := (h.calm i).receive junk
      rw [received] at hcall
      obtain ⟨rfl, rfl⟩ := Prod.mk.inj (Except.ok.inj hcall)
      simp only [Function.update_self]
      refine ⟨?_, hcalm⟩
      cases message <;> exact fun hfile => absurd hfile id
  | finish at_loop =>
      apply hmove h.good (fun _ _ hj => hj)
      rintro j ⟨⟩
      simp only [Server.setPhase_self]
      exact ⟨fun hfile => absurd hfile id, (h.calm _).setPhase (by intro m hm; cases hm)⟩
  | fopen at_fopen =>
      rename_i i m
      obtain ⟨hkept, hopen⟩ := hb.fopen i s.files h.good
      apply hmove hkept.good (fun j _ hj => hkept.isOpen j hj)
      rintro j ⟨⟩
      simp only [Server.setPhase_self]
      refine ⟨fun _ => hopen, (h.calm i).setPhase ?_⟩
      rw [at_fopen]
      exact fun _ hm => hm
  | fopenFails at_fopen =>
      apply hmove h.good (fun _ _ hj => hj)
      rintro j ⟨⟩
      simp only [Server.setPhase_self]
      exact ⟨fun hfile => absurd hfile id, (h.calm _).setPhase (by intro m hm; cases hm)⟩
  | lock at_lock is_free =>
      rename_i i m
      apply hmove h.good (fun _ _ hj => hj)
      rintro j ⟨⟩
      simp only [Server.setPhase_self]
      refine ⟨fun _ => h.isOpen i (by rw [at_lock]; trivial), (h.calm i).setPhase ?_⟩
      rw [at_lock]
      exact fun _ hm => hm
  | handle at_handle prints handled =>
      rename_i i m plan env retval files
      have hopen := h.isOpen i (by rw [at_handle]; trivial)
      have hmessage := (h.calm i).message m (by rw [at_handle]; rfl)
      obtain ⟨retval', f', hcall, hkept⟩ :=
        hb.handle i m plan env s.files hmessage prints h.good hopen
      rw [handled] at hcall
      obtain ⟨rfl, rfl⟩ := Prod.mk.inj (Except.ok.inj hcall)
      apply hmove hkept.good (fun j _ hj => hkept.isOpen j hj)
      rintro j ⟨⟩
      simp only [Server.setPhase_self]
      refine ⟨fun _ => hkept.isOpen i hopen, (h.calm i).setPhase ?_⟩
      rw [at_handle]
      split <;> exact fun _ hm => hm
  | send at_send sent =>
      rename_i i m script retval reply files
      have hopen := h.isOpen i (by rw [at_send]; trivial)
      obtain ⟨left, hsend⟩ := hb.sendFile i
      rcases hsend script s.files h.good hopen with
        ⟨hcall, -⟩ | ⟨retval', reply', f', hcall, hkept⟩
      · rw [sent] at hcall
        cases hcall
      · rw [sent] at hcall
        cases hcall
        apply hmove hkept.good (fun j _ hj => hkept.isOpen j hj)
        rintro j ⟨⟩
        simp only [Server.setPhase_self]
        refine ⟨fun _ => hkept.isOpen i hopen, (h.calm i).setPhase ?_⟩
        rw [at_send]
        exact fun _ hm => hm
  | unlock at_unlock =>
      rename_i i m
      apply hmove h.good (fun _ _ hj => hj)
      rintro j ⟨⟩
      simp only [Server.setPhase_self]
      exact ⟨fun _ => h.isOpen i (by rw [at_unlock]; trivial),
        (h.calm i).setPhase (by intro m hm; cases hm)⟩
  | fclose at_fclose =>
      rename_i i
      obtain ⟨hgood, hopen⟩ := hb.fclose i s.files h.good
      apply hmove hgood
      · intro j hj
        exact hopen j (by rintro rfl; exact hj rfl)
      · rintro j ⟨⟩
        simp only [Server.setPhase_self]
        exact ⟨fun hfile => absurd hfile id, (h.calm i).setPhase (by intro m hm; cases hm)⟩
  | closeConnections =>
      exact hmove h.good (fun _ _ hj => hj) (by rintro j ⟨⟩)
  | timerLock | timerUnlock =>
      exact hmove h.good (fun _ _ hj => hj) (by rintro j ⟨⟩)
  | timerWrite has_timer at_write prints written =>
      obtain ⟨accepted', f', hcall, hkept⟩ := hb.append _ _ s.files has_timer h.good
      rw [written] at hcall
      obtain ⟨-, rfl⟩ := Prod.mk.inj (Except.ok.inj hcall)
      exact hmove hkept.good (fun j _ hj => hkept.isOpen j hj) (by rintro j ⟨⟩)

/-! ## No thread is stuck -/

/-- **Nothing that can come next fails to return**, whatever stdio, the kernel and the clients
decide: no access of it faults, and `tcp_connection_send_file` comes to an end. -/
structure Server.Safe {σ ω : Type} (b : Build σ ω) (s : Server σ) : Prop where
  receive : ∀ i junk, (s.threads i).phase = .loop →
    ∃ r, tcpConnectionReceiveMessage (s.threads i).connection newline junk = .ok r
  handle : ∀ i m plan env, (s.threads i).phase = .handle m →
    plan.Prints (cString m ++ [newline]) →
      ∃ r, handleMessage (b.file i) m plan env s.files = .ok r
  send : ∀ i m, (s.threads i).phase = .send m → ∃ n, ∀ script : List (ω × Option Nat),
    n < script.length → ∃ r, tcpConnectionSendFile (b.file i) script s.files = .ok r
  timerWrite : ∀ j outstr ops (plan : StdioPlan ω), s.timers j = .write outstr →
    b.appendFile = some ops → ∃ r, writeChunks ops plan.chunks s.files = .ok r

theorem Server.Sound.safe (h : s.Sound b Good IsOpen) (hb : b.Robust Good IsOpen) :
    s.Safe b where
  receive i junk _ := by
    obtain ⟨message, connection, hcall, -⟩ := (h.calm i).receive junk
    exact ⟨_, hcall⟩
  handle i m plan env hphase hprints := by
    obtain ⟨retval, f', hcall, -⟩ := hb.handle i m plan env s.files
      ((h.calm i).message m (by rw [hphase]; rfl)) hprints h.good
      (h.isOpen i (by rw [hphase]; trivial))
    exact ⟨_, hcall⟩
  send i m hphase := by
    obtain ⟨left, hsend⟩ := hb.sendFile i
    refine ⟨left s.files, fun script hlong => ?_⟩
    rcases hsend script s.files h.good (h.isOpen i (by rw [hphase]; trivial)) with
      ⟨-, hshort⟩ | ⟨retval, reply, f', hcall, -⟩
    · exact absurd hlong (Nat.not_lt.mpr hshort)
    · exact ⟨_, hcall⟩
  timerWrite j outstr ops plan _ has_timer := by
    obtain ⟨accepted, f', hcall, -⟩ := hb.append ops plan.chunks s.files has_timer h.good
    exact ⟨_, hcall⟩

/-- **A robust build is live**, and no thread has to be told to end. -/
theorem Build.Robust.live [hω : Nonempty ω] (hb : b.Robust Good IsOpen) :
    b.Live (fun _ e => e ≠ .closeConnections) fun _ s => s.Sound b Good IsOpen where
  exclusive _ _ h := h.exclusive
  step _ _ _ _ h hstep := hstep.1.sound hb h
  quiet _ e _ hagent _ := by
    rintro rfl
    exact hagent rfl
  receive es s i h hphase := by
    obtain ⟨⟨message, connection⟩, hcall⟩ := (h.safe hb).receive i (fun _ => 0) hphase
    exact ⟨_, message, connection, hcall⟩
  handle es s i m h hphase := by
    obtain ⟨env⟩ := hω
    have hprints := StdioPlan.whole_prints (cString m ++ [newline]) (by simp) env
    obtain ⟨⟨retval, f'⟩, hcall⟩ := (h.safe hb).handle i m _ env hphase hprints
    exact ⟨_, env, _, .handle hphase hprints hcall, by simp⟩
  send es s i m h hphase := by
    obtain ⟨env⟩ := hω
    obtain ⟨n, hsend⟩ := (h.safe hb).send i m hphase
    obtain ⟨⟨retval, reply, f'⟩, hcall⟩ := hsend (List.replicate (n + 1) (env, none)) (by simp)
    exact ⟨_, reply, _, .send hphase hcall, by simp⟩
  timerWrite es s j outstr h hphase := by
    obtain ⟨env⟩ := hω
    obtain ⟨ops, has_timer⟩ := h.timers j outstr hphase
    have hprints := StdioPlan.whole_prints (timestampLine outstr)
      (by simp [timestampLine]) env
    obtain ⟨⟨accepted, f'⟩, hcall⟩ := (h.safe hb).timerWrite j outstr ops _ hphase has_timer
    exact ⟨_, _, .timerWrite has_timer hphase hprints hcall, by simp⟩

/-- A server on which nothing has happened yet. On connection `i` the client will send, or `recv`
will report, `incoming i`. -/
def Server.fresh (files : σ) (incoming : ConnId → List RecvRet) (outstr : TimerId → List UInt8) :
    Server σ where
  files := files
  fileMutex := none
  closeConnections := false
  threads i := ⟨⟨incoming i, true⟩, .loop⟩
  timers j := .lock (outstr j)

theorem Server.fresh_sound (b : Build σ ω) (IsOpen : σ → ConnId → Prop) {files : σ}
    (hfiles : Good files) {incoming : ConnId → List RecvRet}
    (hincoming : ∀ i, ShortLines (incoming i)) (outstr : TimerId → List UInt8) :
    (Server.fresh files incoming outstr).Sound b Good IsOpen where
  exclusive := by
    intro a
    cases a <;> exact iff_of_false id (by simp [Server.fresh])
  good := hfiles
  isOpen i hfile := absurd hfile id
  calm i := ⟨hincoming i, by intro m hm; cases hm⟩
  timers j outstr hwrite := by cases hwrite

theorem Build.Robust.run_sound (hb : b.Robust Good IsOpen) {files : σ} (hfiles : Good files)
    {incoming : ConnId → List RecvRet} (hincoming : ∀ i, ShortLines (incoming i))
    (outstr : TimerId → List UInt8) {t : List (Event ω × Server σ)}
    (hsteps : Run (Step b) (Server.fresh files incoming outstr) t) :
    (last (Server.fresh files incoming outstr) t).Sound b Good IsOpen :=
  hsteps.invariant (fun _ s => s.Sound b Good IsOpen)
    (Server.fresh_sound b IsOpen hfiles hincoming outstr)
    fun _ _ _ _ hsound hstep => hstep.sound hb hsound

end

end Aesd
