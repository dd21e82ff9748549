import LibAsdf.Yaml.FloatGrammar

/-!
# What the recognizers of scalars read

The recognizers once more, as they go through memory with a pointer and an end:
memory begins at the scalar and is no longer than it, and a read behind it is a
fault.

* `spanDigitsAt`, `isDecimalFloatAt`, …: the functions, on positions;
* `scalarIsIntAt_eq`, `scalarIsFloatAt_eq`: they do what the recognizers do, and
  read nothing behind the scalar.
-/

namespace LibAsdf

/-! ## Spans -/

/-- `*ptr`, which is only asked for when `ptr < end`. -/
def byteBefore (mem : Bytes) (ptr stop : Nat) : Run (Option Byte) :=
  if ptr < stop then do
    let chr ← peekByte mem ptr
    return some chr
  else .ret none

/-- `while (ptr < end && p(*ptr)) ptr++`, for `n` bytes at most. -/
def spanAt (mem : Bytes) (p : Byte → Bool) : Nat → Nat → Run Nat
  | 0, _ => .ret 0
  | n + 1, ptr => do
    let chr ← peekByte mem ptr
    if p chr then
      let more ← spanAt mem p n (ptr + 1)
      return more + 1
    else return 0

/-- `span_digits`. -/
def spanDigitsAt (mem : Bytes) (base : Radix) (ptr stop : Nat) : Run Nat :=
  spanAt mem (fun chr => chr == underscore || isDigitInBase chr base) (stop - ptr) ptr

/-- `span_base60`. -/
def spanBase60At (mem : Bytes) (ptr stop : Nat) : Run Nat :=
  if _more : ptr + 1 < stop then do
    if (← peekByte mem ptr) ≠ colon then
      return 0
    let tens ← peekByte mem (ptr + 1)
    if !isDigit tens then
      return 0
    let ones ← byteBefore mem (ptr + 2) stop
    if ones.any isDigit then
      if tens > 53 then
        return 0
      let rest ← spanBase60At mem (ptr + 3) stop
      return 3 + rest
    else
      let rest ← spanBase60At mem (ptr + 2) stop
      return 2 + rest
  else .ret 0
termination_by stop - ptr

/-- The bytes from one position to another, each read once. -/
def copyAt (mem : Bytes) : Nat → Nat → Run Bytes
  | 0, _ => .ret []
  | n + 1, ptr => do
    let chr ← peekByte mem ptr
    let rest ← copyAt mem n (ptr + 1)
    return chr :: rest

/-- `skip_sign`. -/
def skipSignAt (mem : Bytes) (ptr stop : Nat) : Run Nat := do
  let chr ← byteBefore mem ptr stop
  return if chr = some minus ∨ chr = some plus then ptr + 1 else ptr

/-! ## Integers -/

/-- `parse_uint_digits`. -/
def parseUintDigitsAt (mem : Bytes) (start stop : Nat) (base : Radix) : Run (Except ValueErr Nat) := do
  let text ← copyAt mem (stop - start) start
  return parseUintDigits text base

/-- The loop over the base 60 components. -/
def base60ComponentsAt (mem : Bytes) (ptr stop magnitude : Nat) : Run (Except ValueErr Nat) :=
  if _more : ptr < stop then do
    let tens ← peekByte mem (ptr + 1)
    let next ← byteBefore mem (ptr + 2) stop
    match next.filter fun chr => chr ≠ colon with
    | some ones =>
      let component := (tens.toNat - 48) * 10 + (ones.toNat - 48)
      if magnitude > (uint64Max - component) / radixSexagesimal then
        return .error .overflow
      base60ComponentsAt mem (ptr + 3) stop (magnitude * radixSexagesimal + component)
    | none =>
      let component := tens.toNat - 48
      if magnitude > (uint64Max - component) / radixSexagesimal then
        return .error .overflow
      base60ComponentsAt mem (ptr + 2) stop (magnitude * radixSexagesimal + component)
  else .ret (.ok magnitude)
termination_by stop - ptr

/-- All digits of a base, up to the end. -/
def parseBaseAt (mem : Bytes) (digits stop : Nat) (base : Radix) : Run (Except ValueErr Nat) := do
  let span ← spanDigitsAt mem base digits stop
  if digits + span ≠ stop then
    return .error .parseFailure
  parseUintDigitsAt mem digits stop base

/-- A number with a `0` and more digits. -/
def parseRadixAt (mem : Bytes) (ptr stop : Nat) (second : Byte) : Run (Except ValueErr Nat) :=
  if second = 98 then parseBaseAt mem (ptr + 2) stop .bin
  else if second = 120 then parseBaseAt mem (ptr + 2) stop .hex
  else parseBaseAt mem ptr stop .oct

/-- A decimal number, or one in base 60. -/
def parseDecimalAt (mem : Bytes) (ptr stop : Nat) (first : Byte) : Run (Except ValueErr Nat) := do
  let span ← spanDigitsAt mem .dec ptr stop
  if ptr + span = stop then
    parseUintDigitsAt mem ptr stop .dec
  else if first = zeroDigit then
    return .error .parseFailure
  else
    let components ← spanBase60At mem (ptr + span) stop
    if ptr + span + components ≠ stop then
      return .error .parseFailure
    match ← parseUintDigitsAt mem ptr (ptr + span) .dec with
    | .error err => return .error err
    | .ok magnitude => base60ComponentsAt mem (ptr + span) stop magnitude

/-- `asdf_yaml_scalar_is_int`, behind the sign. -/
def parseMagnitudeAt (mem : Bytes) (ptr stop : Nat) : Run (Except ValueErr Nat) := do
  match ← byteBefore mem ptr stop with
  | none => return .error .parseFailure
  | some first =>
    if !isDigit first then
      return .error .parseFailure
    if first = zeroDigit then
      match ← byteBefore mem (ptr + 1) stop with
      | some second => parseRadixAt mem ptr stop second
      | none => parseDecimalAt mem ptr stop first
    else parseDecimalAt mem ptr stop first

/-- `asdf_yaml_scalar_is_int`. -/
def scalarIsIntAt (mem : Bytes) (len : Nat) : Run (Except ValueErr (Bool × Nat)) := do
  let first ← byteBefore mem 0 len
  let ptr ← skipSignAt mem 0 len
  let magnitude ← parseMagnitudeAt mem ptr len
  return magnitude.map fun magnitude => (first = some minus, magnitude)

/-! ## Floats -/

/-- `span_decimal_int`. -/
def spanDecimalIntAt (mem : Bytes) (ptr stop : Nat) : Run Nat := do
  let first ← byteBefore mem ptr stop
  if first.any isDigit then
    spanDigitsAt mem .dec ptr stop
  else return 0

/-- `span_exponent`. -/
def spanExponentAt (mem : Bytes) (ptr stop : Nat) : Run Nat := do
  let mark ← byteBefore mem ptr stop
  if mark = some 101 ∨ mark = some 69 then
    let digits ← skipSignAt mem (ptr + 1) stop
    let span ← spanAt mem isDigit (stop - digits) digits
    return if span = 0 then 0 else digits + span - ptr
  else return 0

/-- `.5` is a float, but `.` and `._` are not. -/
def barePointAt (mem : Bytes) (intLen ptr stop : Nat) : Run Bool :=
  if intLen = 0 then do
    let span ← spanDecimalIntAt mem ptr stop
    return span = 0
  else .ret false

/-- `is_decimal_float`. -/
def isDecimalFloatAt (mem : Bytes) (len : Nat) (allowInt : Bool) : Run Bool := do
  let ptr ← skipSignAt mem 0 len
  let intLen ← spanDecimalIntAt mem ptr len
  let ptr := ptr + intLen
  if (← byteBefore mem ptr len) = some dot then
    if ← barePointAt mem intLen (ptr + 1) len then
      return false
    let span ← spanDigitsAt mem .dec (ptr + 1) len
    let expLen ← spanExponentAt mem (ptr + 1 + span) len
    return ptr + 1 + span + expLen = len
  else if intLen = 0 then
    return false
  else
    let expLen ← spanExponentAt mem ptr len
    return ptr + expLen = len && (0 < expLen || allowInt)

/-- `strncmp` with some spellings, up to the first that is there. -/
def matchesAt (mem : Bytes) (ptr : Nat) : List Bytes → Run Bool
  | [] => .ret false
  | str :: strs => do
    if ← strncmp (mem.drop ptr) str then
      return true
    matchesAt mem ptr strs

/-- `is_yaml_special_float`, behind the sign if there is one. -/
def specialFloatAt (fl : Floats) (mem : Bytes) (ptr len : Nat) (sign : Option Byte) :
    Run (Option UInt64) := do
  if len ≠ ptr + 4 then
    return none
  if ← matchesAt mem ptr infStrs then
    return some (if sign = some minus then fl.neg fl.infinity else fl.infinity)
  if sign.isSome then
    return none
  if ← matchesAt mem ptr nanStrs then
    return some fl.nan
  return none

/-- `is_yaml_special_float`. -/
def yamlSpecialFloatAt (fl : Floats) (mem : Bytes) (len : Nat) : Run (Option UInt64) :=
  if len = 5 then do
    let first ← peekByte mem 0
    if first = minus ∨ first = plus then
      specialFloatAt fl mem 1 len (some first)
    else specialFloatAt fl mem 0 len none
  else specialFloatAt fl mem 0 len none

/-- `is_base60_float`. -/
def isBase60FloatAt (mem : Bytes) (len : Nat) : Run Bool := do
  let ptr ← skipSignAt mem 0 len
  let intLen ← spanDecimalIntAt mem ptr len
  if intLen = 0 then
    return false
  let base60Len ← spanBase60At mem (ptr + intLen) len
  if base60Len = 0 then
    return false
  let ptr := ptr + intLen + base60Len
  if (← byteBefore mem ptr len) ≠ some dot then
    return false
  let span ← spanDigitsAt mem .dec (ptr + 1) len
  return ptr + 1 + span = len

/-- `parse_float_digits`. -/
def parseFloatDigitsAt (fl : Floats) (mem : Bytes) (start stop : Nat) : Run (ValueErr × UInt64) := do
  let text ← copyAt mem (stop - start) start
  return parseFloatDigits fl text

/-- The loop over the components of a base 60 float, each up to what `memchr` finds. -/
def base60FloatComponentsAt (fl : Floats) (mem : Bytes) (ptr stop : Nat) (value : UInt64) :
    Run (ValueErr × UInt64) :=
  if _more : ptr < stop then do
    let length ← spanAt mem (fun chr => chr != colon) (stop - ptr) ptr
    match ← parseFloatDigitsAt fl mem ptr (ptr + length) with
    | (.ok, component) =>
      base60FloatComponentsAt fl mem (if ptr + length = stop then stop else ptr + length + 1) stop
        (fl.add (fl.mul value (fl.ofInt radixSexagesimal)) component)
    | (err, _) => return (err, value)
  else .ret (.ok, value)
termination_by stop - ptr
decreasing_by split <;> omega

/-- `parse_base60_float`. -/
def parseBase60FloatAt (fl : Floats) (mem : Bytes) (len : Nat) : Run (ValueErr × UInt64) := do
  let ptr ← skipSignAt mem 0 len
  match ← base60FloatComponentsAt fl mem ptr len fl.zero with
  | (.ok, value) =>
    let first ← peekByte mem 0
    let value := if first = minus then fl.neg value else value
    return (if fl.isInf value then .overflow else .ok, value)
  | (err, value) => return (err, value)

/-- `asdf_yaml_scalar_is_float`. -/
def scalarIsFloatAt (fl : Floats) (mem : Bytes) (len : Nat) (allowInt : Bool) :
    Run (ValueErr × UInt64) := do
  if ← isDecimalFloatAt mem len allowInt then
    parseFloatDigitsAt fl mem 0 len
  else
    match ← yamlSpecialFloatAt fl mem len with
    | some value => return (.ok, value)
    | none =>
      if ← isBase60FloatAt mem len then
        parseBase60FloatAt fl mem len
      else return (.parseFailure, fl.zero)

/-! ## Positions -/

section Positions

variable {mem text rest : Bytes} {b c d : Byte} {ptr n : Nat} {p : Byte → Bool} {base : Radix}

theorem peekByte_of_drop (h : mem.drop ptr = b :: rest) : peekByte mem ptr = .ret b := by
  have first : mem[ptr]? = some b := by
    rw [← Nat.add_zero ptr, ← List.getElem?_drop, h]
    rfl
  rw [peekByte, first]

theorem drop_succ_of_drop (h : mem.drop ptr = b :: rest) : mem.drop (ptr + 1) = rest := by
  rw [← List.drop_drop, h]
  rfl

theorem length_of_drop (h : mem.drop ptr = b :: rest) : mem.length = ptr + rest.length + 1 := by
  have length := congrArg List.length h
  rw [List.length_drop, List.length_cons] at length
  omega

theorem length_le_of_drop (h : mem.drop ptr = []) : mem.length ≤ ptr := List.drop_eq_nil_iff.mp h

theorem byteBefore_eq (mem : Bytes) (ptr : Nat) :
    byteBefore mem ptr mem.length = .ret (mem.drop ptr).head? := by
  unfold byteBefore
  cases h : mem.drop ptr with
  | nil =>
    rw [if_neg (Nat.not_lt.mpr (length_le_of_drop h))]
    rfl
  | cons b rest =>
    have length := length_of_drop h
    rw [if_pos (by omega), peekByte_of_drop h]
    rfl

/-- A span that ends with the bytes it may see. -/
theorem spanAt_eq (inside : ptr + n ≤ mem.length) :
    spanAt mem p n ptr = .ret (((mem.drop ptr).take n).takeWhile p).length := by
  induction n generalizing ptr with
  | zero => rfl
  | succ n ih =>
    obtain ⟨b, rest, h⟩ : ∃ b rest, mem.drop ptr = b :: rest :=
      List.exists_cons_of_ne_nil fun none => by
        have le := length_le_of_drop none
        omega
    have more := @ih (ptr + 1) (by omega)
    rw [drop_succ_of_drop h] at more
    rw [spanAt, peekByte_of_drop h, Outcome.ret_bind, more, h, List.take_succ_cons,
      List.takeWhile_cons]
    cases p b <;> rfl

/-- A span that ends before a byte that is there. -/
theorem spanAt_stops (h : mem.drop ptr = text ++ b :: rest) (all : ∀ c ∈ text, p c = true)
    (stop : p b = false) : spanAt mem p n ptr = .ret (min n text.length) := by
  induction n generalizing ptr text with
  | zero => rw [spanAt, Nat.zero_min]
  | succ n ih =>
    cases text with
    | nil =>
      rw [spanAt, peekByte_of_drop h, Outcome.ret_bind, stop]
      rfl
    | cons c text =>
      have more := ih (drop_succ_of_drop h) fun d member => all d (List.mem_cons_of_mem _ member)
      rw [spanAt, peekByte_of_drop h, Outcome.ret_bind, if_pos (all c List.mem_cons_self), more,
        List.length_cons, Nat.add_min_add_right]
      rfl

theorem spanAt_rest (p : Byte → Bool) (ptr : Nat) :
    spanAt mem p (mem.length - ptr) ptr = .ret ((mem.drop ptr).takeWhile p).length := by
  by_cases inside : ptr ≤ mem.length
  · rw [spanAt_eq (by omega), List.take_of_length_le (by rw [List.length_drop])]
  · have none : mem.length - ptr = 0 := by omega
    rw [none, List.drop_of_length_le (by omega)]
    rfl

theorem spanDigitsAt_eq (mem : Bytes) (base : Radix) (ptr : Nat) :
    spanDigitsAt mem base ptr mem.length = .ret (spanDigits (mem.drop ptr) base) :=
  spanAt_rest _ ptr

theorem copyAt_eq (inside : ptr + n ≤ mem.length) :
    copyAt mem n ptr = .ret ((mem.drop ptr).take n) := by
  induction n generalizing ptr with
  | zero => rfl
  | succ n ih =>
    obtain ⟨b, rest, h⟩ : ∃ b rest, mem.drop ptr = b :: rest :=
      List.exists_cons_of_ne_nil fun none => by
        have le := length_le_of_drop none
        omega
    have more := @ih (ptr + 1) (by omega)
    rw [drop_succ_of_drop h] at more
    rw [copyAt, peekByte_of_drop h, Outcome.ret_bind, more, h, List.take_succ_cons]
    rfl

theorem parseUintDigitsAt_eq (inside : ptr + n ≤ mem.length) :
    parseUintDigitsAt mem ptr (ptr + n) base =
      .ret (parseUintDigits ((mem.drop ptr).take n) base) := by
  rw [parseUintDigitsAt, Nat.add_sub_cancel_left, copyAt_eq inside]
  rfl

theorem parseUintDigitsAt_rest (le : ptr ≤ mem.length) :
    parseUintDigitsAt mem ptr mem.length base = .ret (parseUintDigits (mem.drop ptr) base) := by
  obtain ⟨n, eq⟩ := Nat.exists_eq_add_of_le le
  have read := @parseUintDigitsAt_eq mem ptr n base (Nat.le_of_eq eq.symm)
  rw [List.take_of_length_le (by rw [List.length_drop]; omega), ← eq] at read
  exact read

/-- A sign is one byte. -/
theorem skipSignAt_eq (mem : Bytes) (ptr : Nat) : ∃ sign,
    skipSignAt mem ptr mem.length = .ret (ptr + sign) ∧
      skipSign (mem.drop ptr) = mem.drop (ptr + sign) ∧ ptr + sign ≤ max ptr mem.length := by
  rw [skipSignAt, byteBefore_eq, Outcome.ret_bind, Outcome.pure_eq]
  cases h : mem.drop ptr with
  | nil => exact ⟨0, rfl, h.symm, Nat.le_max_left _ _⟩
  | cons b rest =>
    have length := length_of_drop h
    have signs : hasSign (b :: rest) = true ↔ b = minus ∨ b = plus := by simp [hasSign]
    simp only [List.head?_cons, Option.some.injEq]
    by_cases sign : b = minus ∨ b = plus
    · rw [if_pos sign, skipSign, if_pos (signs.mpr sign)]
      exact ⟨1, rfl, (drop_succ_of_drop h).symm, by omega⟩
    · rw [if_neg sign, skipSign, if_neg (mt signs.mp sign)]
      exact ⟨0, rfl, h.symm, by omega⟩

theorem spanBase60At_eq (h : mem.drop ptr = text) :
    spanBase60At mem ptr mem.length = .ret (spanBase60 text) := by
  fun_induction spanBase60 text generalizing ptr with
  | case1 colon' tens start ones rest digit high =>
    have length := length_of_drop h
    have second := drop_succ_of_drop h
    rw [List.length_cons, List.length_cons] at length
    rw [spanBase60At, dif_pos (by omega)]
    simp [peekByte_of_drop h, peekByte_of_drop second, byteBefore_eq, drop_succ_of_drop second, start,
      digit, high]
  | case2 colon' tens start ones rest digit low ih =>
    have length := length_of_drop h
    have second := drop_succ_of_drop h
    have third := drop_succ_of_drop second
    rw [List.length_cons, List.length_cons] at length
    rw [spanBase60At, dif_pos (by omega)]
    simp [peekByte_of_drop h, peekByte_of_drop second, byteBefore_eq, third, start, digit, low,
      ih (drop_succ_of_drop third)]
  | case3 colon' tens start ones rest other ih =>
    have length := length_of_drop h
    have second := drop_succ_of_drop h
    have third := drop_succ_of_drop second
    rw [List.length_cons, List.length_cons] at length
    rw [spanBase60At, dif_pos (by omega)]
    simp [peekByte_of_drop h, peekByte_of_drop second, byteBefore_eq, third, start, other, ih third]
  | case4 colon' tens start =>
    have length := length_of_drop h
    have second := drop_succ_of_drop h
    rw [List.length_cons, List.length_nil] at length
    have last : spanBase60At mem (ptr + 2) mem.length = .ret 0 := by
      rw [spanBase60At, dif_neg (by omega)]
    rw [spanBase60At, dif_pos (by omega)]
    simp [peekByte_of_drop h, peekByte_of_drop second, byteBefore_eq, drop_succ_of_drop second, start,
      last]
  | case5 colon' tens rest other =>
    have length := length_of_drop h
    have second := drop_succ_of_drop h
    rw [List.length_cons] at length
    rw [spanBase60At, dif_pos (by omega)]
    by_cases start : colon' = colon
    · have digit : isDigit tens = false := Bool.eq_false_iff.mpr fun digit => other ⟨start, digit⟩
      simp [peekByte_of_drop h, peekByte_of_drop second, start, digit]
    · simp [peekByte_of_drop h, start]
  | case6 text short =>
    have length := congrArg List.length h
    rw [List.length_drop] at length
    have one : text.length ≤ 1 := by
      rcases text with _ | ⟨b, _ | ⟨c, rest⟩⟩
      · exact Nat.zero_le 1
      · exact Nat.le_refl 1
      · exact absurd rfl (short b c rest)
    rw [spanBase60At, dif_neg (by omega)]

/-- The loop reads as many bytes as the components have. -/
theorem base60ComponentsAt_eq {m k magnitude : Nat} (components : Sexagesimal text m k)
    (h : mem.drop ptr = text) :
    base60ComponentsAt mem ptr mem.length magnitude = .ret (base60Components text magnitude) := by
  induction components generalizing ptr magnitude with
  | nil =>
    rw [base60ComponentsAt, dif_neg (Nat.not_lt.mpr (length_le_of_drop h))]
    rfl
  | one digit more ih =>
    rename_i ones rest m n
    have length := length_of_drop h
    have second := drop_succ_of_drop h
    have third := drop_succ_of_drop second
    have next : (rest.head?).filter (fun chr => chr ≠ colon) = none := by
      rcases colon_or_nil more with rfl | ⟨_, rfl⟩ <;> rfl
    rw [base60ComponentsAt, dif_pos (by omega), peekByte_of_drop second, Outcome.ret_bind,
      byteBefore_eq, third, Outcome.ret_bind, next, base60Components_one (colon_or_nil more)]
    dsimp only
    split
    · rfl
    · exact ih third
  | two low digit more ih =>
    rename_i tens ones rest m n
    have length := length_of_drop h
    have second := drop_succ_of_drop h
    have third := drop_succ_of_drop second
    have other : ones ≠ colon := by
      rintro rfl
      cases digit
    have next : ((ones :: rest).head?).filter (fun chr => chr ≠ colon) = some ones := by
      simp [other]
    rw [base60ComponentsAt, dif_pos (by omega), peekByte_of_drop second, Outcome.ret_bind,
      byteBefore_eq, third, Outcome.ret_bind, next, base60Components, if_pos other]
    dsimp only
    split
    · rfl
    · exact ih (drop_succ_of_drop third)

end Positions

/-! ## Integers read -/

section Integers

variable {mem rest : Bytes} {first : Byte} {ptr : Nat}

theorem parseBaseAt_eq {base : Radix} (le : ptr ≤ mem.length) :
    parseBaseAt mem ptr mem.length base =
      .ret (if spanDigits (mem.drop ptr) base = (mem.drop ptr).length then
        parseUintDigits (mem.drop ptr) base else .error .parseFailure) := by
  rw [parseBaseAt, spanDigitsAt_eq, Outcome.ret_bind, parseUintDigitsAt_rest le, List.length_drop]
  by_cases whole : spanDigits (mem.drop ptr) base = mem.length - ptr
  · rw [if_pos whole, if_neg (by omega)]
  · rw [if_neg whole, if_pos (by omega)]
    rfl

theorem parseRadixAt_eq {second : Byte} (h : mem.drop ptr = zeroDigit :: second :: rest) :
    parseRadixAt mem ptr mem.length second = .ret (parseMagnitude (mem.drop ptr)) := by
  have length := length_of_drop h
  have digits := drop_succ_of_drop (drop_succ_of_drop h)
  rw [List.length_cons] at length
  rw [h, parseMagnitude_zero (List.cons_ne_nil _ _), parseRadixAt, parseBaseAt_eq (by omega),
    parseBaseAt_eq (by omega), parseBaseAt_eq (by omega), digits, h]
  simp only [List.head?_cons, Option.some.injEq, List.drop_succ_cons, List.drop_zero]
  split
  · rfl
  · split <;> rfl

theorem parseDecimalAt_eq (h : mem.drop ptr = first :: rest) :
    parseDecimalAt mem ptr mem.length first =
      .ret (let span := spanDigits (first :: rest) .dec
        if span = (first :: rest).length then parseUintDigits (first :: rest) .dec
        else if first = zeroDigit ∨
            span + spanBase60 ((first :: rest).drop span) ≠ (first :: rest).length then
          .error .parseFailure
        else do
          let magnitude ← parseUintDigits ((first :: rest).take span) .dec
          base60Components ((first :: rest).drop span) magnitude) := by
  have length := length_of_drop h
  have le : spanDigits (first :: rest) .dec ≤ (first :: rest).length :=
    (List.takeWhile_prefix _).length_le
  have behind : mem.drop (ptr + spanDigits (first :: rest) .dec) =
      (first :: rest).drop (spanDigits (first :: rest) .dec) := by
    rw [← List.drop_drop, h]
  rw [parseDecimalAt, spanDigitsAt_eq, h, Outcome.ret_bind, parseUintDigitsAt_rest (by omega), h]
  dsimp only
  generalize spanDigits (first :: rest) .dec = span at le behind ⊢
  rw [List.length_cons] at le ⊢
  by_cases whole : span = rest.length + 1
  · rw [if_pos whole, if_pos (by omega)]
  rw [if_neg whole, if_neg (by omega)]
  by_cases zero : first = zeroDigit
  · rw [if_pos zero, if_pos (.inl zero)]
    rfl
  rw [if_neg zero, spanBase60At_eq behind, Outcome.ret_bind]
  by_cases components : span + spanBase60 ((first :: rest).drop span) = rest.length + 1
  · have spanned : spanBase60 ((first :: rest).drop span) = ((first :: rest).drop span).length := by
      rw [List.length_drop, List.length_cons]
      omega
    rw [if_neg (by omega), if_neg (not_or.mpr ⟨zero, not_not.mpr components⟩),
      parseUintDigitsAt_eq (by omega), h, Outcome.ret_bind]
    cases parseUintDigits ((first :: rest).take span) .dec with
    | error err => rfl
    | ok magnitude =>
      obtain ⟨n, more⟩ := sexagesimal_of_spanBase60 spanned 0
      exact base60ComponentsAt_eq more behind
  · rw [if_pos (by omega), if_pos (.inr components)]
    rfl

theorem parseMagnitudeAt_eq (mem : Bytes) (ptr : Nat) :
    parseMagnitudeAt mem ptr mem.length = .ret (parseMagnitude (mem.drop ptr)) := by
  rw [parseMagnitudeAt, byteBefore_eq, Outcome.ret_bind]
  cases h : mem.drop ptr with
  | nil => rfl
  | cons first rest =>
    simp only [List.head?_cons]
    by_cases digit : isDigit first = true
    · rw [byteBefore_eq, drop_succ_of_drop h, parseDecimalAt_eq h]
      by_cases zero : first = zeroDigit
      · subst zero
        cases rest with
        | nil =>
          simp [digit, parseMagnitude]
        | cons second rest =>
          simp only [digit, Bool.not_true, Bool.false_eq_true, if_false, if_true, Outcome.ret_bind,
            List.head?_cons]
          rw [parseRadixAt_eq h, h]
      · simp [digit, zero, parseMagnitude]
    · simp [digit, parseMagnitude]

/-- `asdf_yaml_scalar_is_int` reads nothing behind the scalar. -/
theorem scalarIsIntAt_eq (scalar : Bytes) :
    scalarIsIntAt scalar scalar.length = .ret (yamlScalarIsInt scalar) := by
  obtain ⟨sign, skipped, text, -⟩ := skipSignAt_eq scalar 0
  rw [scalarIsIntAt, byteBefore_eq, Outcome.ret_bind, skipped, Outcome.ret_bind, parseMagnitudeAt_eq,
    ← text, List.drop_zero]
  rfl

end Integers

/-! ## Floats read -/

section Floats

variable {fl : Floats} {mem text rest : Bytes} {ptr : Nat}

theorem spanDecimalIntAt_eq (mem : Bytes) (ptr : Nat) :
    spanDecimalIntAt mem ptr mem.length = .ret (spanDecimalInt (mem.drop ptr)) := by
  rw [spanDecimalIntAt, byteBefore_eq, Outcome.ret_bind, spanDigitsAt_eq]
  cases mem.drop ptr with
  | nil => rfl
  | cons first rest =>
    rw [List.head?_cons, Option.any_some, spanDecimalInt]
    split <;> rfl

theorem spanDecimalInt_le (text : Bytes) : spanDecimalInt text ≤ text.length := by
  obtain ⟨int, rest, rfl, span, -, -⟩ := spanDecimalInt_split text
  rw [span, List.length_append]
  exact Nat.le_add_right _ _

theorem spanExponentAt_eq (mem : Bytes) (ptr : Nat) :
    spanExponentAt mem ptr mem.length = .ret (spanExponent (mem.drop ptr)) := by
  obtain ⟨sign, skipped, behind, le⟩ := skipSignAt_eq mem (ptr + 1)
  rw [spanExponentAt, byteBefore_eq, Outcome.ret_bind, skipped, Outcome.ret_bind, spanAt_rest,
    ← behind]
  cases h : mem.drop ptr with
  | nil => rfl
  | cons mark rest =>
    have length := length_of_drop h
    have second := drop_succ_of_drop h
    have shorter := congrArg List.length behind
    rw [second, List.length_drop] at shorter
    rw [List.head?_cons, spanExponent, second]
    simp only [Option.some.injEq]
    split
    · dsimp only [Outcome.ret_bind, Outcome.pure_eq]
      congr 1
      split
      · rfl
      · omega
    · rfl

theorem barePointAt_eq (mem : Bytes) (intLen ptr : Nat) : barePointAt mem intLen ptr mem.length =
    .ret (decide (intLen = 0 ∧ spanDecimalInt (mem.drop ptr) = 0)) := by
  rw [barePointAt, spanDecimalIntAt_eq]
  by_cases none : intLen = 0
  · rw [if_pos none]
    simp [none]
  · rw [if_neg none]
    simp [none]

theorem isDecimalFloatAt_eq (mem : Bytes) (allowInt : Bool) :
    isDecimalFloatAt mem mem.length allowInt = .ret (isDecimalFloat mem allowInt) := by
  obtain ⟨sign, skipped, text, le⟩ := skipSignAt_eq mem 0
  rw [List.drop_zero, Nat.zero_add] at text
  rw [Nat.zero_add, Nat.max_eq_right (Nat.zero_le _)] at le
  have intLe := spanDecimalInt_le (mem.drop sign)
  rw [List.length_drop] at intLe
  rw [isDecimalFloatAt, skipped, Outcome.ret_bind, Nat.zero_add, spanDecimalIntAt_eq]
  simp only [Outcome.ret_bind, byteBefore_eq, barePointAt_eq, spanDigitsAt_eq, spanExponentAt_eq,
    isDecimalFloat, text, List.drop_drop]
  generalize spanDecimalInt (mem.drop sign) = intLen at intLe ⊢
  by_cases point : (mem.drop (sign + intLen)).head? = some dot
  · have spanLe : spanDigits (mem.drop (sign + intLen + 1)) .dec ≤
        (mem.drop (sign + intLen + 1)).length := (List.takeWhile_prefix _).length_le
    have inside : sign + intLen < mem.length := by
      by_contra outside
      rw [List.drop_of_length_le (by omega)] at point
      cases point
    rw [List.length_drop] at spanLe
    simp only [point, if_true, decide_true, ← Nat.add_assoc, List.length_drop, decide_eq_true_eq]
    by_cases bare : intLen = 0 ∧ spanDecimalInt (mem.drop (sign + intLen + 1)) = 0
    · rw [if_pos bare, if_pos bare]
      rfl
    · rw [if_neg bare, if_neg bare, Outcome.pure_eq]
      congr 2
      exact propext ⟨fun whole => by omega, fun whole => by omega⟩
  · simp only [point, if_false, decide_false, Bool.false_eq_true, List.length_drop]
    by_cases none : intLen = 0
    · rw [if_pos none, if_pos none]
      rfl
    · rw [if_neg none, if_neg none, Outcome.pure_eq]
      congr 3
      exact propext ⟨fun whole => by omega, fun whole => by omega⟩

theorem matchesAt_eq {strs : List Bytes} (four : ∀ str ∈ strs, str.length = 4)
    (length : (mem.drop ptr).length = 4) :
    matchesAt mem ptr strs = .ret (strs.contains (mem.drop ptr)) := by
  induction strs with
  | nil => rfl
  | cons str strs ih =>
    have same := four str List.mem_cons_self
    rw [matchesAt, strncmp_eq (by omega), Outcome.ret_bind,
      ih fun str member => four str (List.mem_cons_of_mem _ member), List.contains_cons]
    by_cases eq : mem.drop ptr = str
    · rw [eq]
      simp
    · have other : ¬ str <+: mem.drop ptr := fun h => eq (h.eq_of_length (by omega)).symm
      simp [eq, other]

theorem not_mem_of_length {strs : List Bytes} (four : ∀ str ∈ strs, str.length = 4)
    (length : text.length ≠ 4) : strs.contains text = false := by
  rw [Bool.eq_false_iff]
  intro member
  exact length (four text (List.contains_iff_mem.mp member))

theorem infStrs_length : ∀ str ∈ infStrs, str.length = 4 := by decide

theorem nanStrs_length : ∀ str ∈ nanStrs, str.length = 4 := by decide

theorem specialFloatAt_eq (fl : Floats) (sign : Option Byte) (le : ptr ≤ mem.length) :
    specialFloatAt fl mem ptr mem.length sign = .ret
      (if infStrs.contains (mem.drop ptr) then
        some (if sign = some minus then fl.neg fl.infinity else fl.infinity)
      else if sign.isSome then none
      else if nanStrs.contains (mem.drop ptr) then some fl.nan
      else none) := by
  rw [specialFloatAt]
  by_cases four : mem.length = ptr + 4
  · have length : (mem.drop ptr).length = 4 := by
      rw [List.length_drop]
      omega
    rw [if_neg (not_not.mpr four), matchesAt_eq infStrs_length length,
      matchesAt_eq nanStrs_length length, Outcome.ret_bind, Outcome.ret_bind]
    split
    · rfl
    · split
      · rfl
      · split <;> rfl
  · have length : (mem.drop ptr).length ≠ 4 := by
      rw [List.length_drop]
      omega
    rw [if_pos four, not_mem_of_length infStrs_length length, not_mem_of_length nanStrs_length length]
    simp

theorem yamlSpecialFloatAt_eq (fl : Floats) (mem : Bytes) :
    yamlSpecialFloatAt fl mem mem.length = .ret (yamlSpecialFloat fl mem) := by
  rw [yamlSpecialFloatAt, yamlSpecialFloat, specialFloatAt_eq fl none (Nat.zero_le _)]
  by_cases five : mem.length = 5
  · obtain ⟨first, rest, rfl⟩ := List.exists_cons_of_ne_nil (List.ne_nil_of_length_eq_add_one five)
    have signs : hasSign (first :: rest) = true ↔ first = minus ∨ first = plus := by simp [hasSign]
    have read : peekByte (first :: rest) 0 = .ret first := rfl
    rw [if_pos five, read, Outcome.ret_bind, specialFloatAt_eq fl (some first) (by omega)]
    by_cases sign : first = minus ∨ first = plus
    · rw [if_pos sign, signs.mpr sign]
      simp [five]
    · rw [if_neg sign, Bool.eq_false_iff.mpr (mt signs.mp sign)]
      simp
  · rw [if_neg five]
    simp [five]

theorem isBase60FloatAt_eq (mem : Bytes) :
    isBase60FloatAt mem mem.length = .ret (isBase60Float mem) := by
  obtain ⟨sign, skipped, text, le⟩ := skipSignAt_eq mem 0
  rw [List.drop_zero, Nat.zero_add] at text
  rw [isBase60FloatAt, skipped, Outcome.ret_bind, Nat.zero_add, spanDecimalIntAt_eq]
  simp only [Outcome.ret_bind, spanBase60At_eq rfl, byteBefore_eq, spanDigitsAt_eq, isBase60Float,
    text, List.drop_drop]
  generalize spanDecimalInt (mem.drop sign) = intLen
  by_cases int : intLen = 0
  · simp [int]
  generalize spanBase60 (mem.drop (sign + intLen)) = base60Len
  by_cases base60 : base60Len = 0
  · simp [int, base60]
  by_cases point : (mem.drop (sign + intLen + base60Len)).head? = some dot
  · have inside : sign + intLen + base60Len < mem.length := by
      by_contra outside
      rw [List.drop_of_length_le (by omega)] at point
      cases point
    rw [if_neg int, if_neg base60, if_neg (not_not.mpr point), Outcome.pure_eq]
    simp only [ne_eq, int, base60, point, not_false_eq_true, decide_true, Bool.and_self,
      Bool.true_and, List.length_drop]
    congr 2
    exact propext ⟨fun whole => by omega, fun whole => by omega⟩
  · simp only [ne_eq, int, base60, point, not_false_eq_true, if_false, if_true, decide_true,
      decide_false, Bool.and_false, Bool.false_and, Outcome.pure_eq]

theorem parseFloatDigitsAt_eq {n : Nat} (inside : ptr + n ≤ mem.length) :
    parseFloatDigitsAt fl mem ptr (ptr + n) = .ret (parseFloatDigits fl ((mem.drop ptr).take n)) := by
  rw [parseFloatDigitsAt, Nat.add_sub_cancel_left, copyAt_eq inside]
  rfl

/-- A text that does not end with a colon is read component by component. -/
theorem base60FloatComponentsAt_eq (value : UInt64) (h : mem.drop ptr = text) (some : text ≠ [])
    (last : text.getLast? ≠ Option.some colon) :
    base60FloatComponentsAt fl mem ptr mem.length value =
      .ret (base60FloatComponents fl (text.splitOn colon) value) := by
  induction length : text.length using Nat.strong_induction_on generalizing text ptr value with
  | _ n ih =>
  have pos := List.length_pos_of_ne_nil some
  have total : mem.length = ptr + text.length := by
    have same := congrArg List.length h
    rw [List.length_drop] at same
    omega
  have span := @spanAt_rest mem (fun chr => chr != colon) ptr
  have parts := @List.takeWhile_append_dropWhile _ (fun chr => chr != colon) text
  have noColon : ∀ chr ∈ text.takeWhile (fun chr => chr != colon), (chr == colon) = false := by
    intro chr member
    have taken := List.mem_takeWhile_imp member
    simpa using taken
  have stop := List.head?_dropWhile_not (fun chr => chr != colon) text
  rw [base60FloatComponentsAt, dif_pos (by omega), span, h, Outcome.ret_bind]
  generalize text.takeWhile (fun chr => chr != colon) = part at parts noColon ⊢
  generalize text.dropWhile (fun chr => chr != colon) = behind at parts stop
  subst parts
  rw [List.length_append] at total
  rw [parseFloatDigitsAt_eq (by omega), h, List.take_left, Outcome.ret_bind,
    List.splitOn_eq_splitOnP]
  cases behind with
  | nil =>
    rw [List.append_nil, List.splitOnP_eq_singleton noColon, base60FloatComponents,
      if_pos (by rw [total, List.length_nil, Nat.add_zero])]
    have ended (value : UInt64) : base60FloatComponentsAt fl mem mem.length mem.length value =
        .ret (.ok, value) := by
      rw [base60FloatComponentsAt, dif_neg (Nat.lt_irrefl _)]
    simp only [ended, base60FloatComponents]
    rcases parseFloatDigits fl part with ⟨err, component⟩
    cases err <;> rfl
  | cons b more =>
    have isColon : b = colon := by simpa using stop
    subst isColon
    have left : more ≠ [] := by
      rintro rfl
      exact last (by simp)
    have next : mem.drop (ptr + part.length + 1) = more := by
      rw [Nat.add_assoc, ← List.drop_drop, h]
      simp
    have lastMore : more.getLast? ≠ Option.some colon := by
      rwa [List.getLast?_append_of_ne_nil _ (List.cons_ne_nil _ _),
        List.getLast?_cons_of_ne_nil left] at last
    rw [List.length_cons] at total
    have rest (value : UInt64) := ih more.length (by
      rw [← length, List.length_append, List.length_cons]
      omega) value next left lastMore rfl
    rw [List.splitOnP_append_cons_of_forall_mem noColon colon (by simp), base60FloatComponents,
      if_neg (by omega), ← List.splitOn_eq_splitOnP]
    simp only [rest]
    rcases parseFloatDigits fl part with ⟨err, component⟩
    cases err <;> rfl

/-- A base 60 float ends with its fraction. -/
theorem last_of_base60 (h : Base60Text text) : text ≠ [] ∧ text.getLast? ≠ some colon := by
  obtain ⟨ints, -, -, fracs⟩ := h
  rename_i int components frac
  refine ⟨by simp, fun last => ?_⟩
  have member : colon ∈ dot :: frac := by
    have ends : (int ++ (components ++ dot :: frac)).getLast? = (dot :: frac).getLast? := by
      rw [← List.append_assoc, List.getLast?_append_of_ne_nil _ (List.cons_ne_nil _ _)]
    exact List.mem_of_getLast? (ends.symm.trans last)
  rcases List.mem_cons.mp member with eq | member
  · cases eq
  · rcases fracs colon member with h | h <;> cases h

theorem parseBase60FloatAt_eq (base60 : isBase60Float mem = true) :
    parseBase60FloatAt fl mem mem.length = .ret (parseBase60Float fl mem) := by
  obtain ⟨sign, skipped, text, le⟩ := skipSignAt_eq mem 0
  rw [List.drop_zero, Nat.zero_add] at text
  obtain ⟨some, last⟩ := last_of_base60 (text_of_isBase60Float rfl base60)
  have components := @base60FloatComponentsAt_eq fl mem _ sign fl.zero text.symm some last
  rw [parseBase60FloatAt, skipped, Outcome.ret_bind, Nat.zero_add, components, Outcome.ret_bind,
    parseBase60Float]
  obtain ⟨first, rest, rfl⟩ : ∃ first rest, mem = first :: rest := by
    cases mem with
    | nil => cases base60
    | cons first rest => exact ⟨first, rest, rfl⟩
  have read : peekByte (first :: rest) 0 = .ret first := rfl
  simp only [read, List.head?_cons, Option.some.injEq]
  rcases base60FloatComponents fl ((skipSign (first :: rest)).splitOn colon) fl.zero with ⟨err, value⟩
  cases err <;> rfl

/-- `asdf_yaml_scalar_is_float` reads nothing behind the scalar. -/
theorem scalarIsFloatAt_eq (fl : Floats) (scalar : Bytes) (allowInt : Bool) :
    scalarIsFloatAt fl scalar scalar.length allowInt = .ret (yamlScalarIsFloat fl scalar allowInt) := by
  have whole := @parseFloatDigitsAt_eq fl scalar 0 scalar.length (by omega)
  rw [Nat.zero_add, List.drop_zero, List.take_length] at whole
  rw [scalarIsFloatAt, isDecimalFloatAt_eq, Outcome.ret_bind, whole, yamlScalarIsFloat,
    yamlSpecialFloatAt_eq, Outcome.ret_bind, isBase60FloatAt_eq]
  by_cases decimal : isDecimalFloat scalar allowInt = true
  · rw [if_pos decimal, if_pos decimal]
  rw [if_neg decimal, if_neg decimal]
  cases yamlSpecialFloat fl scalar with
  | some value => rfl
  | none =>
    dsimp only [Outcome.ret_bind]
    by_cases base60 : isBase60Float scalar = true
    · rw [if_pos base60, if_pos base60, parseBase60FloatAt_eq base60]
    · rw [if_neg base60, if_neg base60]
      rfl

end Floats

end LibAsdf
