import LibAsdf.Yaml.Scalar
import Mathlib.Data.List.TakeWhile

/-!
# Texts of integers

What integers are printed as, and what the recognizer makes of it.

* `yamlScalarIsInt_decimalText`: a printed integer is read back;
* `yamlScalarIsInt_le`: what is read as an integer fits 64 bits;
* `not_null_of_int`: an integer is not a null.
-/

namespace LibAsdf

/-- The decimal digits of a number. -/
def decimalDigits (n : Nat) : Bytes :=
  if n < 10 then [UInt8.ofNat (48 + n)] else decimalDigits (n / 10) ++ [UInt8.ofNat (48 + n % 10)]

/-- `printf` of an integer with `%d`, `%u` and their wider forms. -/
def decimalText (v : Int) : Bytes :=
  if v < 0 then minus :: decimalDigits v.natAbs else decimalDigits v.natAbs

theorem digitsValue_append (a b : Bytes) :
    digitsValue (a ++ b) .dec = b.foldl (fun value chr => value * 10 + digitValue chr) (digitsValue a .dec) := by
  unfold digitsValue
  rw [List.foldl_append]
  rfl

theorem digit_toNat {d : Nat} (lt : d < 10) : (UInt8.ofNat (48 + d)).toNat = 48 + d := by
  rw [UInt8.toNat_ofNat']
  omega

theorem isDigit_iff (b : Byte) : isDigit b = true ↔ 48 ≤ b.toNat ∧ b.toNat ≤ 57 := by
  simp [isDigit, UInt8.le_iff_toNat_le]

theorem isDigit_digit {d : Nat} (lt : d < 10) : isDigit (UInt8.ofNat (48 + d)) = true := by
  rw [isDigit_iff, digit_toNat lt]
  omega

theorem digitValue_digit {d : Nat} (lt : d < 10) : digitValue (UInt8.ofNat (48 + d)) = d := by
  rw [digitValue, if_pos (isDigit_digit lt), digit_toNat lt]
  omega

theorem decimalDigits_isDigit (n : Nat) : ∀ b ∈ decimalDigits n, isDigit b = true := by
  induction n using Nat.strongRecOn with
  | ind n ih =>
    rw [decimalDigits]
    split
    · rename_i small
      intro b mem
      cases List.mem_singleton.mp mem
      exact isDigit_digit small
    · intro b mem
      rcases List.mem_append.mp mem with mem | mem
      · exact ih (n / 10) (by omega) b mem
      · cases List.mem_singleton.mp mem
        exact isDigit_digit (Nat.mod_lt n (by decide))

theorem digitsValue_decimalDigits (n : Nat) : digitsValue (decimalDigits n) .dec = n := by
  induction n using Nat.strongRecOn with
  | ind n ih =>
    rw [decimalDigits]
    split
    · rename_i small
      rw [digitsValue, List.foldl_cons, List.foldl_nil, Nat.zero_mul, Nat.zero_add,
        digitValue_digit small]
    · rw [digitsValue_append, ih (n / 10) (by omega), List.foldl_cons, List.foldl_nil,
        digitValue_digit (Nat.mod_lt n (by decide))]
      omega

/-- A leading zero is only in the text of zero itself. -/
theorem decimalDigits_head (n : Nat) : ∃ first rest, decimalDigits n = first :: rest ∧
    (first = zeroDigit → rest = []) := by
  induction n using Nat.strongRecOn with
  | ind n ih =>
    rw [decimalDigits]
    split
    · exact ⟨_, [], rfl, fun _ => rfl⟩
    · obtain ⟨first, rest, eq, zero⟩ := ih (n / 10) (by omega)
      refine ⟨first, rest ++ [UInt8.ofNat (48 + n % 10)], by rw [eq]; rfl, ?_⟩
      intro leading
      exfalso
      have value := digitsValue_decimalDigits (n / 10)
      rw [eq, zero leading, leading] at value
      have : digitsValue [zeroDigit] .dec = 0 := by decide
      omega

theorem spanDigits_all {text : Bytes} (digits : ∀ b ∈ text, isDigit b = true) :
    spanDigits text .dec = text.length := by
  have all : ∀ b ∈ text, (b == underscore || isDigitInBase b .dec) = true := by
    intro b mem
    simp [isDigitInBase, digits b mem]
  rw [spanDigits, List.takeWhile_eq_self_iff.mpr all]

theorem copyDigits_all {text : Bytes} (digits : ∀ b ∈ text, isDigit b = true) :
    copyDigits text none = text := by
  unfold copyDigits
  induction text with
  | nil => rfl
  | cons b text ih =>
    have digit := (isDigit_iff b).mp (digits b List.mem_cons_self)
    have notUnderscore : b ≠ underscore := by
      rintro rfl
      simp [underscore] at digit
    have notDot : b ≠ dot := by
      rintro rfl
      simp [dot] at digit
    rw [List.flatMap_cons, ih fun c mem => digits c (List.mem_cons_of_mem _ mem)]
    simp [notUnderscore, notDot]

theorem parseMagnitude_decimalDigits {n : Nat} (small : n ≤ uint64Max) :
    parseMagnitude (decimalDigits n) = .ok n := by
  obtain ⟨first, rest, eq, zero⟩ := decimalDigits_head n
  have digits := decimalDigits_isDigit n
  have value := digitsValue_decimalDigits n
  rw [eq] at digits value ⊢
  have digit : isDigit first = true := digits first List.mem_cons_self
  unfold parseMagnitude
  have notOctal : ¬ (first = zeroDigit ∧ rest ≠ []) := by
    rintro ⟨leading, more⟩
    exact more (zero leading)
  simp only [digit, Bool.true_eq_false, ↓reduceIte, notOctal, spanDigits_all digits,
    parseUintDigits, copyDigits_all digits, value, reduceCtorEq]
  rw [if_neg (by omega)]

theorem yamlScalarIsInt_decimalText {v : Int} (small : v.natAbs ≤ uint64Max) :
    yamlScalarIsInt (decimalText v) = .ok (decide (v < 0), v.natAbs) := by
  obtain ⟨first, rest, eq, -⟩ := decimalDigits_head v.natAbs
  have digits := decimalDigits_isDigit v.natAbs
  unfold decimalText yamlScalarIsInt
  by_cases negative : v < 0
  · have unsigned : skipSign (minus :: decimalDigits v.natAbs) = decimalDigits v.natAbs := rfl
    rw [if_pos negative, unsigned, parseMagnitude_decimalDigits small, decide_eq_true negative]
    rfl
  · have digit := (isDigit_iff first).mp (digits first (by rw [eq]; exact List.mem_cons_self))
    have noMinus : first ≠ minus := by
      rintro rfl
      simp [minus] at digit
    have noPlus : first ≠ plus := by
      rintro rfl
      simp [plus] at digit
    have unsigned : skipSign (decimalDigits v.natAbs) = decimalDigits v.natAbs := by
      simp [skipSign, hasSign, eq, noMinus, noPlus]
    have head : decide ((decimalDigits v.natAbs).head? = some minus) = false := by
      simp [eq, noMinus]
    rw [if_neg negative, unsigned, parseMagnitude_decimalDigits small, decide_eq_false negative]
    simp only [Except.map, head]

/-- What is read as an integer fits 64 bits. -/
theorem parseUintDigits_le {text : Bytes} {base : Radix} {magnitude : Nat}
    (h : parseUintDigits text base = .ok magnitude) : magnitude ≤ uint64Max := by
  unfold parseUintDigits at h
  simp only at h
  split at h
  · cases h
  · split at h
    · cases h
    · rename_i small
      cases h
      omega

/-- One more component, after the check for an overflow. -/
theorem base60_round_le {magnitude component : Nat} (small : component ≤ uint64Max)
    (fits : ¬ magnitude > (uint64Max - component) / radixSexagesimal) :
    magnitude * radixSexagesimal + component ≤ uint64Max := by
  have bound : magnitude ≤ (uint64Max - component) / radixSexagesimal := Nat.le_of_not_lt fits
  have product := (Nat.le_div_iff_mul_le (by decide)).mp bound
  omega

theorem base60Components_le {text : Bytes} {magnitude result : Nat} (small : magnitude ≤ uint64Max)
    (h : base60Components text magnitude = .ok result) : result ≤ uint64Max := by
  have one (b : Byte) : b.toNat - 48 ≤ 255 := by
    have := b.toNat_lt
    omega
  have limit : 2805 ≤ uint64Max := by decide
  fun_induction base60Components text magnitude with
  | case1 => cases h
  | case2 _ tens ones rest magnitude _ component fits ih =>
    apply ih (base60_round_le _ fits) h
    have := one tens
    have := one ones
    omega
  | case3 => cases h
  | case4 _ tens ones rest magnitude _ component fits ih =>
    apply ih (base60_round_le _ fits) h
    have := one tens
    omega
  | case5 => cases h
  | case6 _ tens magnitude component fits =>
    cases h
    apply base60_round_le _ fits
    have := one tens
    omega
  | case7 magnitude text =>
    cases h
    exact small

theorem parseMagnitude_le {text : Bytes} {magnitude : Nat}
    (h : parseMagnitude text = .ok magnitude) : magnitude ≤ uint64Max := by
  unfold parseMagnitude at h
  cases text with
  | nil => cases h
  | cons first rest =>
    simp only at h
    split at h
    · cases h
    · split at h
      · generalize (if rest.head? = some 98 then Radix.bin
          else if rest.head? = some 120 then Radix.hex else Radix.oct) = base at h
        generalize (if base = Radix.oct then first :: rest else rest.drop 1) = digits at h
        split at h
        · exact parseUintDigits_le h
        · cases h
      · split at h
        · exact parseUintDigits_le h
        · split at h
          · cases h
          · cases leading : parseUintDigits ((first :: rest).take (spanDigits (first :: rest) .dec)) .dec with
            | error e =>
              rw [leading] at h
              cases h
            | ok start =>
              rw [leading] at h
              exact base60Components_le (parseUintDigits_le leading) h

theorem yamlScalarIsInt_le {text : Bytes} {negative : Bool} {magnitude : Nat}
    (h : yamlScalarIsInt text = .ok (negative, magnitude)) : magnitude ≤ uint64Max := by
  unfold yamlScalarIsInt at h
  cases parsed : parseMagnitude (skipSign text) with
  | error e =>
    rw [parsed] at h
    cases h
  | ok m =>
    rw [parsed] at h
    cases h
    exact parseMagnitude_le parsed

/-- What the recognizer of integers reports about a text that is none, or too large. -/
def IntError (err : ValueErr) : Prop := err = .parseFailure ∨ err = .overflow

theorem parseUintDigits_error {text : Bytes} {base : Radix} {err : ValueErr}
    (h : parseUintDigits text base = .error err) : IntError err := by
  unfold parseUintDigits at h
  simp only at h
  split at h
  · cases h
    exact .inl rfl
  · split at h
    · cases h
      exact .inr rfl
    · cases h

theorem base60Components_error {text : Bytes} {magnitude : Nat} {err : ValueErr}
    (h : base60Components text magnitude = .error err) : IntError err := by
  fun_induction base60Components text magnitude with
  | case1 | case3 | case5 =>
    cases h
    exact .inr rfl
  | case2 _ _ _ _ _ _ _ _ ih => exact ih h
  | case4 _ _ _ _ _ _ _ _ ih => exact ih h
  | case6 => cases h
  | case7 => cases h

theorem parseMagnitude_error {text : Bytes} {err : ValueErr}
    (h : parseMagnitude text = .error err) : IntError err := by
  unfold parseMagnitude at h
  cases text with
  | nil =>
    cases h
    exact .inl rfl
  | cons first rest =>
    simp only at h
    split at h
    · cases h
      exact .inl rfl
    · split at h
      · generalize (if rest.head? = some 98 then Radix.bin
          else if rest.head? = some 120 then Radix.hex else Radix.oct) = base at h
        generalize (if base = Radix.oct then first :: rest else rest.drop 1) = digits at h
        split at h
        · exact parseUintDigits_error h
        · cases h
          exact .inl rfl
      · split at h
        · exact parseUintDigits_error h
        · split at h
          · cases h
            exact .inl rfl
          · cases leading : parseUintDigits ((first :: rest).take (spanDigits (first :: rest) .dec)) .dec with
            | error e =>
              rw [leading] at h
              cases h
              exact parseUintDigits_error leading
            | ok start =>
              rw [leading] at h
              exact base60Components_error h

theorem yamlScalarIsInt_error {text : Bytes} {err : ValueErr}
    (h : yamlScalarIsInt text = .error err) : IntError err := by
  unfold yamlScalarIsInt at h
  cases parsed : parseMagnitude (skipSign text) with
  | error e =>
    rw [parsed] at h
    cases h
    exact parseMagnitude_error parsed
  | ok m =>
    rw [parsed] at h
    cases h

/-- An integer is none of the spellings of null. -/
theorem not_null_of_int {text : Bytes} {negative : Bool} {magnitude : Nat}
    (h : yamlScalarIsInt text = .ok (negative, magnitude)) : yamlScalarIsNull text = false := by
  cases isNull : yamlScalarIsNull text with
  | false => rfl
  | true =>
    exfalso
    have spelled : text ∈ [] :: yamlNullStrs := by
      simpa [yamlScalarIsNull, List.isEmpty_iff] using isNull
    revert h
    have noInt : ∀ t ∈ [] :: yamlNullStrs, yamlScalarIsInt t = .error .parseFailure := by decide
    rw [noInt text spelled]
    exact nofun

end LibAsdf
