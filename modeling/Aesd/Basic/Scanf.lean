import Aesd.Basic.CInt
import Mathlib.Data.List.TakeWhile

set_option autoImplicit false

/-! # Scanning unsigned numbers

The `%u` conversion of `sscanf` on a string of bytes, as the C standard describes it: white
space is skipped, a sign is optional, the digits are converted as by `strtoul` to a 64-bit
`unsigned long`, and the result is narrowed to 32 bits. Which texts it converts is
`scanUnsigned_eq_some_iff`; `decimal`, the usual way to write a number, is one of them. -/

namespace Scanf

open CInt

/-- `isspace` in the C locale. -/
def isSpace (c : UInt8) : Bool := c == 32 || (9 ≤ c && c ≤ 13)

/-- `isdigit`. -/
def isDigit (c : UInt8) : Bool := 48 ≤ c && c ≤ 57

/-- The number a string of digits denotes. -/
def digitsValue (digits : List UInt8) : Nat :=
  digits.foldl (fun n c => 10 * n + (c.toNat - 48)) 0

/-- `ULONG_MAX`. -/
def ULONG_MAX : Nat := 2 ^ 64 - 1

/-- `strtoul` behind the sign: a number that is too large saturates, and a minus sign negates in
`unsigned long`. -/
def strtoul (negative : Bool) (digits : List UInt8) : Nat :=
  if ULONG_MAX < digitsValue digits then ULONG_MAX
  else if negative then (2 ^ 64 - digitsValue digits) % 2 ^ 64
  else digitsValue digits

/-- Take an optional sign off a string: is it a minus sign, and what is behind it? -/
def takeSign : List UInt8 → Bool × List UInt8
  | [] => (false, [])
  | c :: rest =>
      if c = 45 then (true, rest) else if c = 43 then (false, rest) else (false, c :: rest)

/-- The conversion `%u`: the value, and what is behind it; `none` for a matching failure. -/
def scanUnsigned (s : List UInt8) : Option (Nat × List UInt8) :=
  let (negative, s) := takeSign (s.dropWhile isSpace)
  let digits := s.takeWhile isDigit
  if digits = [] then none
  else some (uint32 (strtoul negative digits), s.dropWhile isDigit)

/-- An ordinary character of the format: it has to come next. -/
def scanChar (c : UInt8) : List UInt8 → Option (List UInt8)
  | [] => none
  | c' :: rest => if c' = c then some rest else none

/-- A number in decimal notation. -/
def decimal (n : Nat) : List UInt8 := (Nat.toDigits 10 n).map fun c => UInt8.ofNat c.toNat

/-- The digits of a decimal notation as bytes. -/
theorem toNat_of_mem_toDigits {n : Nat} {c : Char} (hc : c ∈ Nat.toDigits 10 n) :
    48 ≤ c.toNat ∧ c.toNat ≤ 57 ∧ (UInt8.ofNat c.toNat).toNat = c.toNat := by
  have hdigit := Nat.isDigit_of_mem_toDigits (by decide) (by decide) hc
  rw [Char.isDigit, Bool.and_eq_true, decide_eq_true_eq, decide_eq_true_eq] at hdigit
  have hlo : 48 ≤ c.toNat := hdigit.1
  have hhi : c.toNat ≤ 57 := hdigit.2
  exact ⟨hlo, hhi, UInt8.toNat_ofNat_of_lt' (Nat.lt_of_le_of_lt hhi (by decide))⟩

theorem isDigit_of_mem_decimal {n : Nat} {c : UInt8} (hc : c ∈ decimal n) : isDigit c = true := by
  obtain ⟨ch, hch, rfl⟩ := List.mem_map.mp hc
  obtain ⟨hlo, hhi, hval⟩ := toNat_of_mem_toDigits hch
  simp only [isDigit, Bool.and_eq_true, decide_eq_true_eq, UInt8.le_iff_toNat_le, hval]
  exact ⟨hlo, hhi⟩

theorem decimal_ne_nil (n : Nat) : decimal n ≠ [] := by
  simp [decimal, Nat.toDigits_ne_nil]

/-- The notation denotes its number. -/
theorem digitsValue_decimal (n : Nat) : digitsValue (decimal n) = n := by
  -- the bytes of the characters are folded as the characters are
  have hstep : ∀ (cs : List Char) (init : Nat), (∀ c ∈ cs, c ∈ Nat.toDigits 10 n) →
      (cs.map fun c => UInt8.ofNat c.toNat).foldl (fun n c => 10 * n + (c.toNat - 48)) init
        = Nat.ofDigitChars 10 cs init := by
    intro cs
    induction cs with
    | nil => intro init _; rfl
    | cons c cs ih =>
        intro init hmem
        obtain ⟨-, -, hval⟩ := toNat_of_mem_toDigits (hmem c (by simp))
        rw [List.map_cons, List.foldl_cons, hval, Nat.ofDigitChars_cons,
          ih _ (fun c' hc' => hmem c' (List.mem_cons_of_mem _ hc'))]
        rfl
  rw [digitsValue, decimal, hstep _ 0 (fun c hc => hc), Nat.ofDigitChars_ten_toDigits]

theorem isSpace_of_isDigit {c : UInt8} (h : isDigit c = true) : isSpace c = false := by
  rw [isDigit, Bool.and_eq_true, decide_eq_true_eq, decide_eq_true_eq] at h
  have hlo : 48 ≤ c.toNat := UInt8.le_iff_toNat_le.mp h.1
  have hspace : c ≠ 32 := by
    rintro rfl
    exact absurd hlo (by decide)
  have hctrl : ¬ c ≤ 13 := by
    rw [UInt8.le_iff_toNat_le]
    exact fun hle => absurd (Nat.le_trans hlo hle) (by decide)
  simp [isSpace, hspace, hctrl]

/-- The sign in front of a number, and whether it is a minus sign. -/
inductive SignText : Bool → List UInt8 → Prop
  | none : SignText false []
  | plus : SignText false [43]
  | minus : SignText true [45]

/-- A string of at least one digit. -/
def Digits (s : List UInt8) : Prop := s ≠ [] ∧ ∀ c ∈ s, isDigit c = true

/-- The texts `%u` converts to `value`: white space, a sign, and digits. -/
def UnsignedText (text : List UInt8) (value : Nat) : Prop :=
  ∃ (spaces sign digits : List UInt8) (negative : Bool), text = spaces ++ sign ++ digits
    ∧ (∀ c ∈ spaces, isSpace c = true) ∧ SignText negative sign ∧ Digits digits
    ∧ value = uint32 (strtoul negative digits)

/-- Taking the sign off a string that starts with a digit behind it. -/
theorem SignText.takeSign_append {negative : Bool} {sign : List UInt8} (h : SignText negative sign)
    {c : UInt8} (hc : isDigit c = true) (rest : List UInt8) :
    takeSign (sign ++ c :: rest) = (negative, c :: rest)
      ∧ ∀ c' ∈ (sign ++ c :: rest).head?, isSpace c' = false := by
  cases h with
  | none =>
      have hminus : c ≠ 45 := by
        rintro rfl
        cases hc
      have hplus : c ≠ 43 := by
        rintro rfl
        cases hc
      constructor
      · rw [List.nil_append, takeSign, if_neg hminus, if_neg hplus]
      · intro c' hc'
        obtain rfl : c = c' := Option.some.inj hc'
        exact isSpace_of_isDigit hc
  | plus =>
      refine ⟨rfl, fun c' hc' => ?_⟩
      obtain rfl : 43 = c' := Option.some.inj hc'
      decide
  | minus =>
      refine ⟨rfl, fun c' hc' => ?_⟩
      obtain rfl : 45 = c' := Option.some.inj hc'
      decide

/-- What `takeSign` takes off is a sign. -/
theorem takeSign_cases (s : List UInt8) :
    ∃ sign, SignText (takeSign s).1 sign ∧ s = sign ++ (takeSign s).2 := by
  cases s with
  | nil => exact ⟨[], .none, rfl⟩
  | cons c rest =>
      rw [takeSign]
      by_cases hminus : c = 45
      · rw [if_pos hminus, hminus]
        exact ⟨[45], .minus, rfl⟩
      · by_cases hplus : c = 43
        · rw [if_neg hminus, if_pos hplus, hplus]
          exact ⟨[43], .plus, rfl⟩
        · rw [if_neg hminus, if_neg hplus]
          exact ⟨[], .none, rfl⟩

/-- A run of characters of one class is taken off up to the first of another class. -/
theorem span_append {p : UInt8 → Bool} {xs rest : List UInt8} (hxs : ∀ c ∈ xs, p c = true)
    (hrest : ∀ c ∈ rest.head?, p c = false) :
    (xs ++ rest).takeWhile p = xs ∧ (xs ++ rest).dropWhile p = rest := by
  rw [List.takeWhile_append_of_pos hxs, List.dropWhile_append_of_pos hxs]
  cases rest with
  | nil => exact ⟨List.append_nil xs, rfl⟩
  | cons c rest =>
      have hc : ¬ p c = true := by rw [hrest c rfl]; decide
      rw [List.takeWhile_cons_of_neg hc, List.dropWhile_cons_of_neg hc]
      exact ⟨List.append_nil xs, rfl⟩

/-- What is behind a run of characters of one class starts with another class. -/
theorem head?_dropWhile {p : UInt8 → Bool} {s : List UInt8} :
    ∀ c ∈ (s.dropWhile p).head?, p c = false := by
  intro c hc
  have h := List.head?_dropWhile_not p s
  rwa [Option.mem_def.mp hc] at h

/-- **The language of `%u`**: it converts a text of that form, as long as the digits go on. -/
theorem scanUnsigned_eq_some_iff {s rest : List UInt8} {value : Nat} :
    scanUnsigned s = some (value, rest) ↔
      ∃ text, UnsignedText text value ∧ s = text ++ rest
        ∧ ∀ c ∈ rest.head?, isDigit c = false := by
  constructor
  · intro h
    obtain ⟨sign, hsign, hsplit⟩ := takeSign_cases (s.dropWhile isSpace)
    set behind := takeSign (s.dropWhile isSpace) with hbehind
    have hscan : scanUnsigned s = if behind.2.takeWhile isDigit = [] then none
        else some (uint32 (strtoul behind.1 (behind.2.takeWhile isDigit)),
          behind.2.dropWhile isDigit) := rfl
    by_cases hnone : behind.2.takeWhile isDigit = []
    · rw [hscan, if_pos hnone] at h
      cases h
    · rw [hscan, if_neg hnone] at h
      obtain ⟨rfl, rfl⟩ := Prod.mk.inj (Option.some.inj h)
      refine ⟨s.takeWhile isSpace ++ sign ++ behind.2.takeWhile isDigit,
        ⟨_, _, _, _, rfl, fun c hc => List.mem_takeWhile_imp hc, hsign,
          ⟨hnone, fun c hc => List.mem_takeWhile_imp hc⟩, rfl⟩, ?_, head?_dropWhile⟩
      calc s = s.takeWhile isSpace ++ s.dropWhile isSpace :=
            List.takeWhile_append_dropWhile.symm
        _ = s.takeWhile isSpace ++ (sign ++ behind.2) := by rw [← hsplit]
        _ = s.takeWhile isSpace
              ++ (sign ++ (behind.2.takeWhile isDigit ++ behind.2.dropWhile isDigit)) := by
            rw [List.takeWhile_append_dropWhile]
        _ = _ := by simp only [List.append_assoc]
  · rintro ⟨text, ⟨spaces, sign, digits, negative, rfl, hspaces, hsign, ⟨hne, hdigits⟩, rfl⟩,
      rfl, hrest⟩
    obtain ⟨c, digits, rfl⟩ := List.exists_cons_of_ne_nil hne
    obtain ⟨htake, hhead⟩ := hsign.takeSign_append (hdigits c (by simp)) (digits ++ rest)
    obtain ⟨-, hskip⟩ := span_append hspaces hhead
    obtain ⟨hfield, hbehind⟩ := span_append hdigits hrest
    have hs : spaces ++ sign ++ (c :: digits) ++ rest
        = spaces ++ (sign ++ c :: (digits ++ rest)) := by simp
    rw [List.cons_append] at hfield hbehind
    simp only [scanUnsigned, hs, hskip, htake, hfield, hbehind, if_neg hne]

/-- A plain number is such a text. -/
theorem unsignedText_digits {digits : List UInt8} (h : Digits digits)
    (hvalue : digitsValue digits < 2 ^ 32) : UnsignedText digits (digitsValue digits) := by
  refine ⟨[], [], digits, false, rfl, by simp, .none, h, ?_⟩
  rw [strtoul, if_neg (by unfold ULONG_MAX; omega), if_neg (by decide)]
  exact (uint32_of_lt hvalue).symm

theorem digits_decimal (n : Nat) : Digits (decimal n) :=
  ⟨decimal_ne_nil n, fun _ hc => isDigit_of_mem_decimal hc⟩

/-- **`%u` reads a decimal notation back**, up to the next byte that is not a digit. -/
theorem scanUnsigned_decimal {n : Nat} (hn : n < 2 ^ 32) (rest : List UInt8)
    (hrest : ∀ c ∈ rest.head?, isDigit c = false) :
    scanUnsigned (decimal n ++ rest) = some (n, rest) := by
  have htext := unsignedText_digits (digits_decimal n) (by rwa [digitsValue_decimal])
  rw [digitsValue_decimal] at htext
  exact scanUnsigned_eq_some_iff.mpr ⟨decimal n, htext, rfl, hrest⟩

end Scanf
