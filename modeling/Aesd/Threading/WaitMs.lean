import Aesd.Basic.CInt
import Aesd.Driver.Kernel

set_option autoImplicit false

/-! # Waiting for milliseconds

`threading.c` up to the thread: the two wait times go from `start_thread_obtaining_mutex` through
`struct thread_data` into `wait_ms`, which makes a `struct timespec` of nanoseconds of them. The
product is one of 32 bits, and nothing is carried over to the seconds, so the time that is waited
is the one asked for below one second only (`waits_exact_iff`). -/

namespace Aesd

open CInt

/-! ## `wait_ms` -/

/-- `EINTR`. -/
def EINTR : Int := 4

/-- `struct timespec`. -/
structure Timespec where
  tvSec : Int
  tvNsec : Int
  deriving DecidableEq, Repr

/-- The nanoseconds are fewer than a second. -/
def Timespec.Valid (ts : Timespec) : Prop := 0 ≤ ts.tvNsec ∧ ts.tvNsec ≤ 999999999

instance (ts : Timespec) : Decidable ts.Valid :=
  inferInstanceAs (Decidable (0 ≤ ts.tvNsec ∧ ts.tvNsec ≤ 999999999))

/-- `clock_nanosleep(CLOCK_MONOTONIC, 0, &ts, NULL)`: it can be interrupted by a signal. -/
def clockNanosleep (ts : Timespec) (interrupted : Bool) : Int :=
  if ts.Valid then if interrupted then EINTR else 0 else EINVAL

/-- The `ts` of `wait_ms`. -/
def waitTimespec (ms : Nat) : Timespec where
  tvSec := 0
  tvNsec := uint32 (ms * 1000000)

/-- `wait_ms`. -/
def waitMs (ms : Nat) (interrupted : Bool) : Bool :=
  clockNanosleep (waitTimespec ms) interrupted == 0

theorem waitTimespec_valid_iff {ms : Nat} :
    (waitTimespec ms).Valid ↔ uint32 (ms * 1000000) ≤ 999999999 := by
  simp only [Timespec.Valid, waitTimespec]
  omega

/-- **When a wait succeeds**: the nanoseconds are valid, and no signal comes. -/
theorem waitMs_eq_true_iff {ms : Nat} {interrupted : Bool} :
    waitMs ms interrupted = true ↔ (waitTimespec ms).Valid ∧ interrupted = false := by
  rw [waitMs, clockNanosleep]
  by_cases hvalid : (waitTimespec ms).Valid
  · cases interrupted <;> simp [hvalid, EINTR]
  · simp [hvalid, EINVAL]

/-! ## `start_thread_obtaining_mutex` -/

/-- `struct thread_data`, without the pointer to the one mutex. -/
structure ThreadData where
  msToWaitBeforeLock : Nat
  msToWaitBeforeUnlock : Nat
  threadCompleteSuccess : Bool
  deriving DecidableEq, Repr

/-- `start_thread_obtaining_mutex`: the returned value, and the data the thread is started with.
`junk` is what `malloc` leaves in `thread_complete_success`. -/
def startThreadObtainingMutex (waitToObtainMs waitToReleaseMs : Int)
    (allocated created junk : Bool) : Bool × Option ThreadData :=
  if allocated then
    let threadData : ThreadData :=
      ⟨uint32OfInt waitToObtainMs, uint32OfInt waitToReleaseMs, junk⟩
    if created then (true, some threadData) else (false, none)
  else (false, none)

/-- What a thread is started with. -/
theorem startThreadObtainingMutex_eq_true {obtain release : Int} {allocated created junk : Bool}
    {data : ThreadData}
    (h : startThreadObtainingMutex obtain release allocated created junk = (true, some data)) :
    data.msToWaitBeforeLock = uint32OfInt obtain
      ∧ data.msToWaitBeforeUnlock = uint32OfInt release := by
  cases allocated with
  | false => cases h
  | true =>
      cases created with
      | false => cases h
      | true =>
          cases h
          exact ⟨rfl, rfl⟩

/-! ## Exact waits -/

/-- `wait_ms` waits for `wait` milliseconds: its product does not wrap, and what
`clock_nanosleep` is given is valid and amounts to them. -/
structure WaitsExactly (wait : Int) (ms : Nat) : Prop where
  no_wrap : ms * 1000000 < 2 ^ 32
  valid : (waitTimespec ms).Valid
  amount : (waitTimespec ms).tvSec * 10 ^ 9 + (waitTimespec ms).tvNsec = wait * 10 ^ 6

/-- One wait time on its way. -/
theorem waitsExactly_uint32OfInt_iff {wait : Int} (h : 0 ≤ wait) (hmax : wait ≤ INT_MAX) :
    WaitsExactly wait (uint32OfInt wait) ↔ wait ≤ 999 := by
  have hms := uint32OfInt_of_nonneg h hmax
  constructor
  · rintro ⟨hwrap, hvalid, -⟩
    rw [waitTimespec_valid_iff, uint32_of_lt hwrap] at hvalid
    omega
  · intro hle
    have hwrap : uint32OfInt wait * 1000000 < 2 ^ 32 := by omega
    refine ⟨hwrap, ?_, ?_⟩
    · rw [waitTimespec_valid_iff, uint32_of_lt hwrap]
      omega
    · show 0 * 10 ^ 9 + ((uint32 (uint32OfInt wait * 1000000) : Nat) : Int) = wait * 10 ^ 6
      rw [uint32_of_lt hwrap]
      push_cast
      omega

/-- **Exact waits.** For all non-negative `int` wait times that a thread is started with, each is
waited for exactly if and only if it is below one second. -/
theorem waits_exact_iff (waitToObtainMs waitToReleaseMs : Int) (hobtain : 0 ≤ waitToObtainMs)
    (hobtain_max : waitToObtainMs ≤ INT_MAX) (hrelease : 0 ≤ waitToReleaseMs)
    (hrelease_max : waitToReleaseMs ≤ INT_MAX) (allocated created junk : Bool) (data : ThreadData)
    (hstart : startThreadObtainingMutex waitToObtainMs waitToReleaseMs allocated created junk
      = (true, some data)) :
    (WaitsExactly waitToObtainMs data.msToWaitBeforeLock ↔ waitToObtainMs ≤ 999)
      ∧ (WaitsExactly waitToReleaseMs data.msToWaitBeforeUnlock ↔ waitToReleaseMs ≤ 999) := by
  obtain ⟨hlock, hunlock⟩ := startThreadObtainingMutex_eq_true hstart
  rw [hlock, hunlock]
  exact ⟨waitsExactly_uint32OfInt_iff hobtain hobtain_max,
    waitsExactly_uint32OfInt_iff hrelease hrelease_max⟩

theorem waits_exact_iff_twoWaits :
    (WaitsExactly 250 250 ↔ (250 : Int) ≤ 999) ∧ (WaitsExactly 5000 5000 ↔ (5000 : Int) ≤ 999) :=
  waits_exact_iff 250 5000 (by decide) (by decide) (by decide) (by decide) true true false
    ⟨250, 5000, false⟩ rfl

/-- A wait of one second is refused, and one of five seconds ends after `0.705032704` seconds. -/
theorem not_waitsExactly_second :
    startThreadObtainingMutex 1000 5000 true true false = (true, some ⟨1000, 5000, false⟩)
      ∧ clockNanosleep (waitTimespec 1000) false = EINVAL ∧ ¬ WaitsExactly 1000 1000
      ∧ waitTimespec 5000 = ⟨0, 705032704⟩ ∧ ¬ WaitsExactly 5000 5000 := by
  refine ⟨rfl, by decide, fun h => ?_, by decide, fun h => ?_⟩
  · exact absurd h.valid (by decide)
  · exact absurd h.no_wrap (by decide)

end Aesd
