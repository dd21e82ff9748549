import LibAsdf.Base.Calendar
import Mathlib.Tactic.Ring

/-!
# Scanning dates

`strptime` and `timegm` as POSIX describes them, and the integers of `sscanf`, on
bytes.

* `readDigits`, `paddedDigits`: numbers of a width, and their texts;
* `strptime`: a text by a format;
* `scanInt`: `%d` with a width;
* `timegm`: the seconds since 1970.
-/

/-! ## Numbers -/

def asDigit (b : UInt8) : Option Nat := if 48 ≤ b ∧ b ≤ 57 then some (b.toNat - 48) else none

/-- `isspace`, in the C locale. -/
def isWhiteSpace (b : UInt8) : Bool := b = 32 || (9 ≤ b && b ≤ 13)

/-- At most `width` digits, with what comes behind them. -/
def readDigits : Nat → Nat → List UInt8 → Nat × List UInt8
  | 0, acc, text => (acc, text)
  | _ + 1, acc, [] => (acc, [])
  | width + 1, acc, b :: text =>
    match asDigit b with
    | some d => readDigits width (acc * 10 + d) text
    | none => (acc, b :: text)

/-- One digit at least. -/
def readNumber (width : Nat) : List UInt8 → Option (Nat × List UInt8)
  | [] => none
  | b :: text => if (asDigit b).isSome then some (readDigits width 0 (b :: text)) else none

def digitByte (n : Nat) : UInt8 := UInt8.ofNat (48 + n % 10)

/-- The last `width` digits of a number. -/
def paddedDigits : Nat → Nat → List UInt8
  | 0, _ => []
  | width + 1, n => paddedDigits width (n / 10) ++ [digitByte n]

section Numbers

variable {width n : Nat} {rest : List UInt8}

theorem toNat_digitByte (n : Nat) : (digitByte n).toNat = 48 + n % 10 := by
  rw [digitByte, UInt8.toNat_ofNat']
  omega

@[simp] theorem asDigit_digitByte (n : Nat) : asDigit (digitByte n) = some (n % 10) := by
  have value := toNat_digitByte n
  have digit : 48 ≤ digitByte n ∧ digitByte n ≤ 57 := by
    rw [UInt8.le_iff_toNat_le, UInt8.le_iff_toNat_le, value]
    change 48 ≤ 48 + n % 10 ∧ 48 + n % 10 ≤ 57
    omega
  rw [asDigit, if_pos digit, value, Nat.add_sub_cancel_left]

/-- A text of as many digits as are asked for, or fewer. -/
theorem readDigits_paddedDigits (width more acc n : Nat) (rest : List UInt8) :
    readDigits (width + more) acc (paddedDigits width n ++ rest) =
      readDigits more (acc * 10 ^ width + n % 10 ^ width) rest := by
  induction width generalizing more n rest with
  | zero => rw [paddedDigits, Nat.zero_add, Nat.pow_zero, Nat.mod_one, Nat.mul_one, Nat.add_zero,
      List.nil_append]
  | succ width ih =>
    rw [paddedDigits, List.append_assoc, Nat.add_assoc, Nat.add_comm 1 more, ih,
      List.singleton_append, readDigits, asDigit_digitByte]
    dsimp only
    congr 1
    rw [Nat.pow_succ', Nat.mod_mul]
    ring

theorem paddedDigits_cons (width n : Nat) : ∃ b text, paddedDigits (width + 1) n = b :: text ∧
    (asDigit b).isSome = true := by
  induction width generalizing n with
  | zero => exact ⟨digitByte n, [], rfl, by rw [asDigit_digitByte]; rfl⟩
  | succ width ih =>
    obtain ⟨b, text, eq, digit⟩ := ih (n / 10)
    rw [paddedDigits, eq]
    exact ⟨b, text ++ [digitByte n], rfl, digit⟩

theorem readNumber_paddedDigits (pos : 0 < width) (fits : n < 10 ^ width) (rest : List UInt8) :
    readNumber width (paddedDigits width n ++ rest) = some (n, rest) := by
  have read := readDigits_paddedDigits width 0 0 n rest
  rw [Nat.add_zero, Nat.zero_mul, Nat.zero_add, Nat.mod_eq_of_lt fits, readDigits] at read
  obtain ⟨width, rfl⟩ := Nat.exists_eq_add_of_lt pos
  rw [Nat.zero_add] at read ⊢
  obtain ⟨b, text, eq, digit⟩ := paddedDigits_cons width n
  rw [eq, List.cons_append] at read ⊢
  rw [readNumber, if_pos digit, read]

end Numbers

/-! ## Formats -/

/-- `struct tm`: years since 1900, months from 0 on. -/
structure BrokenTime where
  year : Int
  month : Int
  day : Int
  hour : Int
  minute : Int
  second : Int
  deriving DecidableEq, Repr

/-- `%Y`, `%m`, `%d`, `%H`, `%M`, `%S` -/
inductive Conversion where
  | year
  | month
  | day
  | hour
  | minute
  | second
  deriving DecidableEq, Repr

namespace Conversion

def width : Conversion → Nat
  | year => 4
  | _ => 2

def least : Conversion → Nat
  | month | day => 1
  | _ => 0

def greatest : Conversion → Nat
  | year => 9999
  | month => 12
  | day => 31
  | hour => 23
  | minute => 59
  | second => 60

def store (tm : BrokenTime) (n : Nat) : Conversion → BrokenTime
  | year => { tm with year := n - 1900 }
  | month => { tm with month := n - 1 }
  | day => { tm with day := n }
  | hour => { tm with hour := n }
  | minute => { tm with minute := n }
  | second => { tm with second := n }

theorem width_pos (c : Conversion) : 0 < c.width := by
  cases c <;> decide

theorem greatest_lt (c : Conversion) : c.greatest < 10 ^ c.width := by
  cases c <;> decide

end Conversion

inductive FormatItem where
  | number (c : Conversion)
  | space
  | literal (b : UInt8)
  deriving DecidableEq, Repr

/-- `strptime`: the fields that were read, and what is left of the text. -/
def strptime : List FormatItem → List UInt8 → BrokenTime → Option (BrokenTime × List UInt8)
  | [], text, tm => some (tm, text)
  | .number c :: format, text, tm =>
    match readNumber c.width text with
    | some (n, rest) =>
      if c.least ≤ n ∧ n ≤ c.greatest then strptime format rest (c.store tm n) else none
    | none => none
  | .space :: format, text, tm => strptime format (text.dropWhile isWhiteSpace) tm
  | .literal _ :: _, [], _ => none
  | .literal b :: format, chr :: text, tm => if chr = b then strptime format text tm else none

/-- `%d` with a width. -/
def scanInt (width : Nat) (text : List UInt8) : Option (Int × List UInt8) :=
  match text.dropWhile isWhiteSpace with
  | [] => none
  | b :: text =>
    if b = 43 then (readNumber (width - 1) text).map fun r => (r.1, r.2)
    else if b = 45 then (readNumber (width - 1) text).map fun r => (-r.1, r.2)
    else (readNumber width (b :: text)).map fun r => (r.1, r.2)

/-- `timegm`: the seconds since 1970, of fields that may be out of their ranges. -/
def timegm (tm : BrokenTime) : Int :=
  let year := tm.year + 1900 + tm.month / 12
  let month := (tm.month % 12).toNat + 1
  86400 * (daysBeforeYear year + daysBeforeMonth year month + tm.day - 719163) +
    3600 * tm.hour + 60 * tm.minute + tm.second

section Formats

variable {format : List FormatItem} {tm : BrokenTime} {c : Conversion} {n : Nat}
  {rest : List UInt8}

/-- A number that is written with all its digits and is in its range. -/
theorem strptime_number (least : c.least ≤ n) (greatest : n ≤ c.greatest) :
    strptime (.number c :: format) (paddedDigits c.width n ++ rest) tm =
      strptime format rest (c.store tm n) := by
  rw [strptime, readNumber_paddedDigits c.width_pos (Nat.lt_of_le_of_lt greatest c.greatest_lt)]
  exact if_pos ⟨least, greatest⟩

theorem strptime_literal (b : UInt8) :
    strptime (.literal b :: format) (b :: rest) tm = strptime format rest tm := by
  rw [strptime, if_pos rfl]

theorem not_isWhiteSpace_of_digit {b : UInt8} (digit : (asDigit b).isSome = true) :
    isWhiteSpace b = false ∧ b ≠ 43 ∧ b ≠ 45 := by
  rw [asDigit] at digit
  split at digit
  · rename_i range
    have low : 48 ≤ b.toNat := range.1
    refine ⟨?_, ?_, ?_⟩
    · have other (k : UInt8) (small : k.toNat < 48) : ¬ b ≤ k := fun le => by
        have le : b.toNat ≤ k.toNat := le
        omega
      have noBlank : b ≠ 32 := fun eq => by
        rw [eq] at low
        cases Nat.lt_irrefl _ (Nat.lt_of_lt_of_le (by decide) low)
      rw [isWhiteSpace, decide_eq_false noBlank, decide_eq_false (other 13 (by decide)),
        Bool.and_false]
      rfl
    · rintro rfl
      revert low
      decide
    · rintro rfl
      revert low
      decide
  · cases digit

/-- Without a sign. -/
theorem scanInt_digits {width : Nat} {b : UInt8} (digit : (asDigit b).isSome = true) :
    scanInt width (b :: rest) =
      (readNumber width (b :: rest)).map fun r => ((r.1 : Int), r.2) := by
  obtain ⟨noSpace, noPlus, noMinus⟩ := not_isWhiteSpace_of_digit digit
  have here : (b :: rest).dropWhile isWhiteSpace = b :: rest :=
    List.dropWhile_cons_of_neg (by rw [noSpace]; exact Bool.false_ne_true)
  unfold scanInt
  rw [here]
  dsimp only
  rw [if_neg noPlus, if_neg noMinus]

end Formats
