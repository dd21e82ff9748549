import LibAsdf.Value.Build
import LibAsdf.Yaml.ScalarReads

/-!
# What the filter for ambiguous strings reads

`asdf_yaml_string_is_ambiguous` as it goes through memory. The last branch gives a
span an end that may be behind the string, which is safe as the branches before it
have taken every short string of digits.

* `stringIsAmbiguousAt`: the function, on a pointer and a length;
* `digits_accepted`: a string of digits is a number;
* `isTimestampAt_eq`: so the span stops before the end of any other string;
* `ambiguous_reads`: nothing behind the string is read.
-/

namespace LibAsdf

/-! ## The filter -/

/-- `scalar_equals`. -/
def scalarEqualsAt (mem : Bytes) (len : Nat) (str : Bytes) : Run Bool :=
  if str.length = len then strncmp mem str else .ret false

/-- `scalar_equals` with some strings, up to the first that is equal. -/
def equalsAnyAt (mem : Bytes) (len : Nat) : List Bytes → Run Bool
  | [] => .ret false
  | str :: strs => do
    if ← scalarEqualsAt mem len str then
      return true
    equalsAnyAt mem len strs

/-- `asdf_yaml_scalar_is_null`, behind the check for the null pointer. -/
def scalarIsNullAt (mem : Bytes) (len : Nat) : Run Bool :=
  if len = 0 then .ret true else equalsAnyAt mem len yamlNullStrs

/-- The spellings of `asdf_yaml_scalar_is_bool`. -/
def boolWordsAt (mem : Bytes) (len : Nat) : Run (Option Bool) := do
  if ← equalsAnyAt mem len yamlTrueStrs then
    return some true
  if ← equalsAnyAt mem len yamlFalseStrs then
    return some false
  return none

/-- `asdf_yaml_scalar_is_bool`. -/
def scalarIsBoolAt (mem : Bytes) (len : Nat) : Run (Option Bool) :=
  if len = 1 then do
    let first ← peekByte mem 0
    if first = zeroDigit then
      return some false
    if first = zeroDigit + 1 then
      return some true
    boolWordsAt mem len
  else boolWordsAt mem len

/-- `0o[0-7]+`, behind a sign. -/
def isOctal12At (mem : Bytes) (len : Nat) : Run Bool := do
  let ptr ← skipSignAt mem 0 len
  if len - ptr ≤ 2 then
    return false
  if (← peekByte mem ptr) ≠ zeroDigit then
    return false
  if (← peekByte mem (ptr + 1)) ≠ 111 then
    return false
  let span ← spanDigitsAt mem .oct (ptr + 2) len
  return span = len - ptr - 2

/-- The year of a timestamp. The end of the span is not compared with the length. -/
def isTimestampAt (mem : Bytes) (len : Nat) : Run Bool := do
  let digits ← spanDigitsAt mem .dec 0 4
  if len > 4 ∧ digits = 4 then
    let chr ← peekByte mem 4
    return chr = minus
  return false

/-- Numbers and timestamps. -/
def isNumberLikeAt (fl : Floats) (mem : Bytes) (len : Nat) : Run Bool := do
  let first ← peekByte mem 0
  if !startsNumber first then
    return false
  if (← scalarIsIntAt mem len) ≠ .error .parseFailure then
    return true
  if (← scalarIsFloatAt fl mem len true).1 ≠ .parseFailure then
    return true
  if ← isOctal12At mem len then
    return true
  isTimestampAt mem len

/-- `y`, `Y`, `n`, `N` -/
def isLetterBoolAt (mem : Bytes) (len : Nat) : Run Bool :=
  if len = 1 then do
    let first ← peekByte mem 0
    return letterBools.contains first
  else .ret false

/-- The spellings of booleans, which need two bytes. -/
def isBoolWordAt (mem : Bytes) (len : Nat) : Run Bool :=
  if len > 1 then do
    let b ← scalarIsBoolAt mem len
    return b.isSome
  else .ret false

/-- `asdf_yaml_string_is_ambiguous`. The null pointer is taken for null. -/
def stringIsAmbiguousAt (fl : Floats) (v : Option View) : Run Bool :=
  match v with
  | none => .ret true
  | some v => do
    if ← scalarIsNullAt v.mem v.len then
      return true
    if ← isBoolWordAt v.mem v.len then
      return true
    if ← equalsAnyAt v.mem v.len specialStrs then
      return true
    if ← isLetterBoolAt v.mem v.len then
      return true
    if v.len = 0 then
      return false
    isNumberLikeAt fl v.mem v.len

/-! ## Spellings -/

section Spellings

variable {str : Bytes} {fl : Floats}

theorem equalsAnyAt_eq (str : Bytes) (strs : List Bytes) :
    equalsAnyAt str str.length strs = .ret (strs.contains str) := by
  induction strs with
  | nil => rfl
  | cons word strs ih =>
    rw [equalsAnyAt, scalarEqualsAt, ih, List.contains_cons]
    by_cases same : word.length = str.length
    · rw [if_pos same, strncmp_eq (Nat.le_of_eq same), Outcome.ret_bind]
      by_cases eq : str = word
      · subst eq
        simp
      · have other : ¬ word <+: str := fun h => eq (h.eq_of_length same).symm
        simp [eq, other]
    · have other : str ≠ word := fun eq => same (congrArg List.length eq.symm)
      rw [if_neg same]
      simp [other]

theorem scalarIsNullAt_eq (str : Bytes) :
    scalarIsNullAt str str.length = .ret (yamlScalarIsNull str) := by
  rw [scalarIsNullAt, equalsAnyAt_eq, yamlScalarIsNull]
  cases str with
  | nil => rfl
  | cons first rest => rfl

theorem boolWordsAt_eq (str : Bytes) : boolWordsAt str str.length =
    .ret (if yamlTrueStrs.contains str then some true
      else if yamlFalseStrs.contains str then some false else none) := by
  rw [boolWordsAt, equalsAnyAt_eq, equalsAnyAt_eq, Outcome.ret_bind, Outcome.ret_bind]
  split
  · rfl
  · split <;> rfl

theorem isBoolWordAt_eq (str : Bytes) : isBoolWordAt str str.length =
    .ret (str.length > 1 && (yamlScalarIsBool str).isSome) := by
  rw [isBoolWordAt]
  by_cases long : str.length > 1
  · have noZero : str ≠ [zeroDigit] := by
      rintro rfl
      exact Nat.lt_irrefl 1 long
    have noOne : str ≠ [zeroDigit + 1] := by
      rintro rfl
      exact Nat.lt_irrefl 1 long
    rw [if_pos long, scalarIsBoolAt, if_neg (Nat.ne_of_gt long), boolWordsAt_eq, yamlScalarIsBool,
      if_neg noZero, if_neg noOne]
    simp [long]
  · rw [if_neg long]
    simp [long]

theorem isLetterBoolAt_eq (str : Bytes) : isLetterBoolAt str str.length =
    .ret (str.length = 1 && str.all letterBools.contains) := by
  rw [isLetterBoolAt]
  by_cases one : str.length = 1
  · obtain ⟨first, rfl⟩ := List.length_eq_one_iff.mp one
    have read : peekByte [first] 0 = .ret first := rfl
    rw [if_pos one, read, Outcome.ret_bind]
    simp
  · rw [if_neg one]
    simp [one]

end Spellings

/-! ## Numbers and timestamps -/

section Numbers

variable {str : Bytes} {fl : Floats} {first : Byte} {rest : Bytes}

theorem isOctal12At_eq (str : Bytes) :
    isOctal12At str str.length = .ret (isOctal12 (skipSign str)) := by
  obtain ⟨sign, skipped, text, -⟩ := skipSignAt_eq str 0
  rw [List.drop_zero, Nat.zero_add] at text
  rw [isOctal12At, skipped, Outcome.ret_bind, text, Nat.zero_add]
  cases h : str.drop sign with
  | nil =>
    have le := length_le_of_drop h
    rw [if_pos (by omega)]
    rfl
  | cons zero behind =>
    have length := length_of_drop h
    have second := drop_succ_of_drop h
    cases behind with
    | nil =>
      rw [List.length_nil] at length
      rw [if_pos (by omega)]
      rfl
    | cons o digits =>
      have third := drop_succ_of_drop second
      rw [List.length_cons] at length
      rw [peekByte_of_drop h, peekByte_of_drop second, spanDigitsAt_eq, third, isOctal12]
      by_cases none : digits = []
      · subst none
        rw [List.length_nil] at length
        rw [if_pos (by omega)]
        simp
      · have pos := List.length_pos_of_ne_nil none
        have left : str.length - sign - 2 = digits.length := by omega
        rw [if_neg (by omega), left]
        by_cases zeros : zero = zeroDigit
        · by_cases os : o = 111
          · simp [zeros, os, none]
          · simp [zeros, os]
        · simp [zeros]

/-- A string of digits is a number. -/
theorem digits_accepted (starts : startsNumber first = true)
    (digits : ∀ b ∈ first :: rest, DigitOrSeparator .dec b) :
    (yamlScalarIsFloat fl (first :: rest) true).1 ≠ .parseFailure := by
  have digit : isDigit first = true := by
    rcases digits first List.mem_cons_self with rfl | digit
    · cases starts
    · exact digit
  have int : DecimalText (first :: rest) := ⟨⟨first, rest, rfl, digit⟩, digits⟩
  have span := @spanDecimalInt_append [] _ int (by rintro _ ⟨⟩)
  rw [List.append_nil] at span
  have decimal : isDecimalFloat (first :: rest) true = true := by
    have unsigned := skipSign_of_not_sign (@hasSign_of_digit rest _ digit)
    simp only [isDecimalFloat, unsigned, span, List.drop_length]
    rfl
  rw [yamlScalarIsFloat, if_pos decimal]
  rcases parseFloatDigits_err fl (first :: rest) with ok | overflow
  · rw [ok]
    rintro ⟨⟩
  · rw [overflow]
    rintro ⟨⟩

/-- A short string that is no number has a byte before its end where the span of the
year stops. -/
theorem isTimestampAt_eq (starts : startsNumber first = true)
    (float : (yamlScalarIsFloat fl (first :: rest) true).1 = .parseFailure) :
    isTimestampAt (first :: rest) (first :: rest).length = .ret
      ((first :: rest).length > 4 && spanDigits ((first :: rest).take 4) .dec = 4 &&
        (first :: rest)[4]? = some minus) := by
  obtain ⟨digits, behind, eq, all, stops⟩ := leading_split (first :: rest)
  cases behind with
  | nil =>
    rw [List.append_nil] at eq
    exact absurd float (digits_accepted starts (eq ▸ all))
  | cons b behind =>
    have stop : (b == underscore || isDigitInBase b .dec) = false :=
      Bool.eq_false_iff.mpr fun digit => stops b rfl (digitOrSeparator_iff.mp digit)
    have span : spanDigitsAt (first :: rest) .dec 0 4 = .ret (min 4 digits.length) :=
      spanAt_stops eq (fun c member => digitOrSeparator_iff.mpr (all c member)) stop
    have year : spanDigits ((first :: rest).take 4) .dec = min 4 digits.length := by
      rw [eq, List.take_append, ← List.length_take]
      refine spanDigits_append (fun c member => all c (List.mem_of_mem_take member)) ?_
      intro c member
      rw [List.head?_take] at member
      split at member
      · cases member
      · exact stops c member
    rw [isTimestampAt, span, year, Outcome.ret_bind]
    by_cases long : (first :: rest).length > 4 ∧ min 4 digits.length = 4
    · have fifth := List.getElem?_eq_getElem long.1
      generalize (first :: rest)[4] = chr at fifth
      have read : peekByte (first :: rest) 4 = .ret chr := by rw [peekByte, fifth]
      rw [if_pos long, read, Outcome.ret_bind, fifth, decide_eq_true long.1, decide_eq_true long.2]
      simp
    · rw [if_neg long, ← Bool.decide_and, decide_eq_false long]
      rfl

theorem isNumberLikeAt_eq : isNumberLikeAt fl (first :: rest) (first :: rest).length = .ret
    (if startsNumber first = false then false
      else if yamlScalarIsInt (first :: rest) ≠ .error .parseFailure then true
      else if (yamlScalarIsFloat fl (first :: rest) true).1 ≠ .parseFailure then true
      else if isOctal12 (skipSign (first :: rest)) then true
      else (first :: rest).length > 4 && spanDigits ((first :: rest).take 4) .dec = 4 &&
        (first :: rest)[4]? = some minus) := by
  have read : peekByte (first :: rest) 0 = .ret first := rfl
  rw [isNumberLikeAt, read, Outcome.ret_bind, scalarIsIntAt_eq, scalarIsFloatAt_eq, isOctal12At_eq]
  cases starts : startsNumber first with
  | false => rfl
  | true =>
    rw [if_neg (by simp), if_neg (by simp), Outcome.ret_bind, Outcome.ret_bind, Outcome.ret_bind]
    split
    · rfl
    · split
      · rfl
      · rename_i float
        rw [isTimestampAt_eq starts (not_not.mp float)]
        split <;> rfl

end Numbers

theorem stringIsAmbiguousAt_eq (fl : Floats) (str : Bytes) :
    stringIsAmbiguousAt fl (some ⟨str, str.length⟩) = .ret (yamlStringIsAmbiguous fl str) := by
  unfold yamlStringIsAmbiguous
  rw [stringIsAmbiguousAt]
  dsimp only
  rw [scalarIsNullAt_eq, isBoolWordAt_eq, equalsAnyAt_eq, isLetterBoolAt_eq, Outcome.ret_bind,
    Outcome.ret_bind, Outcome.ret_bind, Outcome.ret_bind]
  by_cases null : yamlScalarIsNull str = true
  · rw [if_pos null, null]
    rfl
  by_cases bool : (str.length > 1 && (yamlScalarIsBool str).isSome) = true
  · rw [if_neg null, if_pos bool, bool, Bool.or_true]
    rfl
  rw [if_neg null, if_neg bool, Bool.eq_false_iff.mpr null, Bool.eq_false_iff.mpr bool,
    Bool.or_false, if_neg Bool.false_ne_true]
  split
  · rfl
  · split
    · rfl
    · cases str with
      | nil => rfl
      | cons first rest =>
        have some : (first :: rest).length ≠ 0 := Nat.succ_ne_zero _
        rw [if_neg some, isNumberLikeAt_eq]

/-- The filter reads nothing behind a string, and neither do the recognizers. -/
theorem ambiguous_reads (fl : Floats) : stringIsAmbiguousAt fl none = .ret true ∧ ∀ str : Bytes,
    stringIsAmbiguousAt fl (some ⟨str, str.length⟩) = .ret (yamlStringIsAmbiguous fl str) ∧
    scalarIsIntAt str str.length = .ret (yamlScalarIsInt str) ∧
    ∀ allowInt, scalarIsFloatAt fl str str.length allowInt =
      .ret (yamlScalarIsFloat fl str allowInt) :=
  ⟨rfl, fun str => ⟨stringIsAmbiguousAt_eq fl str, scalarIsIntAt_eq str, scalarIsFloatAt_eq fl str⟩⟩

end LibAsdf
