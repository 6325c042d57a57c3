import Emend.Text.Basic

/-!
# Decimal numerals

Numbers are written in decimal without leading zeros, a negative one with a
minus sign in front.  `readInt64?` reads a numeral with an optional sign whose
value fits a signed word of 64 bits.  Leading zeros are read, and so is a plus
sign.  A natural number is read back from its numeral (`readNat?_ofNat`).
-/

namespace Emend

namespace Text

/-- A natural number in decimal. -/
def ofNat (n : Nat) : Text :=
  Nat.toDigits 10 n

/-- An integer in decimal. -/
def ofInt : Int → Text
  | .ofNat n => ofNat n
  | .negSucc n => '-' :: ofNat (n + 1)

/-- The value of a digit in a base of at most sixteen.  Letters of both cases
stand for ten and up. -/
def digit? (base : Nat) (c : Char) : Option Nat :=
  let value? : Option Nat :=
    if '0' ≤ c ∧ c ≤ '9' then some (c.toNat - '0'.toNat)
    else if 'a' ≤ c ∧ c ≤ 'f' then some (c.toNat - 'a'.toNat + 10)
    else if 'A' ≤ c ∧ c ≤ 'F' then some (c.toNat - 'A'.toNat + 10)
    else none
  value?.filter (· < base)

/-- The value of a run of digits after digits of value `acc`. -/
def readDigits? (base : Nat) : Nat → Text → Option Nat
  | acc, [] => some acc
  | acc, c :: t => (digit? base c).bind fun d => readDigits? base (acc * base + d) t

/-- The value of a numeral of one digit or more. -/
def readNat? (base : Nat) : Text → Option Nat
  | [] => none
  | t => readDigits? base 0 t

/-- The largest value of a signed word of 64 bits. -/
def maxInt64 : Int := 9223372036854775807

/-- The least value of a signed word of 64 bits. -/
def minInt64 : Int := -9223372036854775808

/-- Whether a value fits a signed word of 64 bits. -/
def fitsInt64 (i : Int) : Bool :=
  minInt64 ≤ i && i ≤ maxInt64

/-- An optional sign and the digits after it, as an integer. -/
def readSigned? : Text → Option Int
  | '+' :: t => (readNat? 10 t).map Int.ofNat
  | '-' :: t => (readNat? 10 t).map fun n => -Int.ofNat n
  | t => (readNat? 10 t).map Int.ofNat

/-- The value of a decimal numeral that fits a signed word of 64 bits. -/
def readInt64? (t : Text) : Option Int :=
  (readSigned? t).filter fitsInt64

/-! ## Reading what was written -/

theorem isDigit_of_mem_ofNat {n : Nat} {c : Char} (h : c ∈ ofNat n) : c.isDigit = true :=
  Nat.isDigit_of_mem_toDigits (by decide) (by decide) h

theorem digit?_of_isDigit {c : Char} (h : c.isDigit = true) :
    digit? 10 c = some (c.toNat - '0'.toNat) := by
  have hc := Char.isDigit_iff_toNat.mp h
  have hzero : '0'.toNat = 48 := rfl
  have hnine : '9'.toNat = 57 := rfl
  have hrange : '0' ≤ c ∧ c ≤ '9' := hc
  rw [digit?, if_pos hrange, Option.filter_some, if_pos]
  exact decide_eq_true (by omega)

theorem isDigit_of_digit? {c : Char} {d : Nat} (h : digit? 10 c = some d) : c.isDigit = true := by
  rw [digit?] at h
  split at h
  next hc => simpa [Char.isDigit, Char.le_def] using hc
  next =>
    -- A letter counts for ten or more.
    split at h
    next =>
      simp only [Option.filter_eq_some_iff, Option.some.injEq, decide_eq_true_eq] at h
      omega
    next =>
      split at h
      next =>
        simp only [Option.filter_eq_some_iff, Option.some.injEq, decide_eq_true_eq] at h
        omega
      next => simp at h

theorem isDigit_of_readDigits? {t : Text} :
    ∀ {acc n : Nat}, readDigits? 10 acc t = some n → ∀ c ∈ t, c.isDigit = true := by
  induction t with
  | nil => exact fun _ c hc => absurd hc List.not_mem_nil
  | cons x t ih =>
      intro acc n h c hc
      obtain ⟨d, hd, ht⟩ := Option.bind_eq_some_iff.mp h
      rcases List.mem_cons.mp hc with rfl | hc'
      · exact isDigit_of_digit? hd
      · exact ih ht c hc'

theorem isDigit_of_readNat? {t : Text} {n : Nat} (h : readNat? 10 t = some n) :
    ∀ c ∈ t, c.isDigit = true := by
  cases t with
  | nil => cases h
  | cons x t => exact isDigit_of_readDigits? h

theorem readDigits?_of_isDigit {t : Text} :
    (∀ c ∈ t, c.isDigit = true) →
      ∀ acc, readDigits? 10 acc t = some (Nat.ofDigitChars 10 t acc) := by
  induction t with
  | nil => exact fun _ acc => rfl
  | cons c t ih =>
      intro h acc
      have ih := ih fun d hd => h d (List.mem_cons_of_mem c hd)
      rw [readDigits?, digit?_of_isDigit (h c List.mem_cons_self), Option.bind_some, ih,
        Nat.ofDigitChars_cons, Nat.mul_comm]

theorem readNat?_of_isDigit {t : Text} (hne : t ≠ []) (h : ∀ c ∈ t, c.isDigit = true) :
    readNat? 10 t = some (Nat.ofDigitChars 10 t 0) := by
  cases t with
  | nil => exact absurd rfl hne
  | cons c t => exact readDigits?_of_isDigit h 0

/-- A natural number is read back from its numeral. -/
theorem readNat?_ofNat (n : Nat) : readNat? 10 (ofNat n) = some n := by
  have hvalue : Nat.ofDigitChars 10 (ofNat n) 0 = n := Nat.ofDigitChars_ten_toDigits
  have hne : ofNat n ≠ [] := Nat.toDigits_ne_nil
  rw [readNat?_of_isDigit hne fun _ hc => isDigit_of_mem_ofNat hc, hvalue]

example : ofInt (-40) = "-40".toList := by decide
example : readInt64? "+007".toList = some 7 := by decide
example : readInt64? "-9223372036854775808".toList = some (-9223372036854775808) := by decide
example : readInt64? "9223372036854775808".toList = none := by decide
example : readInt64? "+".toList = none := by decide
example : readInt64? "+-1".toList = none := by decide

end Text

end Emend
