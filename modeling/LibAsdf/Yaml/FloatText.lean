import LibAsdf.Base.FloatScale
import LibAsdf.Base.Scanning
import LibAsdf.Yaml.FloatGrammar
import LibAsdf.Yaml.Path

/-!
# Texts of floats

How a float is written as a YAML scalar.

* `Literal`: decimal numbers as `printf` writes them;
* `readDecimal`, `readDecimal_text`: and as `strtod` reads them;
* `yamlFormatFloat`: the text of a float;
* `delocalize_text`, `insertPoint_text`, `copyDigits_text`: its point.
-/

namespace LibAsdf

/-! ## The C library -/

/-- A decimal number: a sign, digits before and behind the point, and an exponent. -/
structure Literal where
  negative : Bool
  whole : Bytes
  fraction : Bytes
  exponent : Option Int
  deriving DecidableEq

/-- Two digits at least. -/
def twoDigits (n : Nat) : Bytes := if n < 10 then zeroDigit :: decimalDigits n else decimalDigits n

/-- The exponent of `%e`, which is always signed. -/
def exponentText : Option Int → Bytes
  | some e => 101 :: (if e < 0 then minus else plus) :: twoDigits e.natAbs
  | none => []

/-- The digits behind the point, which is only there for them. -/
def fractionText (point fraction : Bytes) : Bytes :=
  if fraction = [] then [] else point ++ fraction

def signText (negative : Bool) : Bytes := if negative then [minus] else []

/-- The text in a locale with a decimal point. -/
def Literal.text (point : Bytes) (l : Literal) : Bytes :=
  signText l.negative ++ (l.whole ++ (fractionText point l.fraction ++ exponentText l.exponent))

/-- `%.*e` with one digit less than `prec`. -/
def printScientific (negative : Bool) (prec : Nat) (x : ℚ) : Literal :=
  let d := scientific prec x
  let digits := paddedDigits prec d.1
  ⟨negative, digits.take 1, digits.drop 1, some d.2⟩

/-- `%.*f` -/
def printFixed (negative : Bool) (frac : Nat) (x : ℚ) : Literal :=
  let n := fixedPoint frac x
  ⟨negative, decimalDigits (n / 10 ^ frac), paddedDigits frac n, none⟩

/-- The exponent that a decimal number ends with. -/
def readExponent : Bytes → Int
  | [] => 0
  | mark :: rest =>
    if mark = 101 ∨ mark = 69 then
      let magnitude := digitsValue ((skipSign rest).takeWhile isDigit) .dec
      if rest.head? = some minus then -magnitude else magnitude
    else 0

/-- What `strtod` reads: the sign and the value of a decimal number at the beginning
of a text. It also reads hexadecimal numbers, infinities, NaNs and whitespace before
a number, which it is not given here. -/
def readDecimal (point text : Bytes) : Bool × ℚ :=
  let body := skipSign text
  let whole := body.takeWhile isDigit
  let rest := body.drop whole.length
  let fraction := if point.isPrefixOf rest then (rest.drop point.length).takeWhile isDigit else []
  let rest := if point.isPrefixOf rest then rest.drop (point.length + fraction.length) else rest
  (decide (text.head? = some minus),
    digitsValue (whole ++ fraction) .dec * 10 ^ (readExponent rest - fraction.length))

/-- `strtod`, or `strtof`, by the format. -/
def strtod (f : FloatFormat) (point text : Bytes) : Nat :=
  let (negative, value) := readDecimal point text
  f.signed negative (f.nearest value)

/-- `atoi`, for numbers that an `int` holds. -/
def atoi (text : Bytes) : Int := (strtoll text).1

/-! ## Formatting -/

/-- The least number from `prec` on with a property, out of `rounds` numbers, or the
one behind them. -/
def firstPrecision (p : Nat → Bool) : Nat → Nat → Nat
  | 0, prec => prec
  | rounds + 1, prec => if p prec then prec else firstPrecision p rounds (prec + 1)

/-- The `snprintf` of a finite double with `%.*e`. -/
def scientificText (point : Bytes) (size : Nat) (val : UInt64) (prec : Nat) : Bytes :=
  let bits := val.toNat
  let x := FloatFormat.binary64.magnitude (FloatFormat.binary64.unsigned bits)
  ((printScientific (FloatFormat.binary64.negative bits) prec x).text point).take (size - 1)

/-- The `snprintf` of a finite double with `%.*f`. -/
def fixedText (point : Bytes) (size : Nat) (val : UInt64) (frac : Nat) : Bytes :=
  let bits := val.toNat
  let x := FloatFormat.binary64.magnitude (FloatFormat.binary64.unsigned bits)
  ((printFixed (FloatFormat.binary64.negative bits) frac x).text point).take (size - 1)

/-- Whether a text is read back as the same value, or the same value as a `float`. -/
def readsBack (point : Bytes) (val : UInt64) (single : Bool) (buf : Bytes) : Bool :=
  if single then
    FloatFormat.binary32.equal (strtod .binary32 point buf)
      (FloatFormat.binary64.convert .binary32 val.toNat)
  else FloatFormat.binary64.equal (strtod .binary64 point buf) val.toNat

/-- `FLT_DECIMAL_DIG` and `DBL_DECIMAL_DIG` -/
def maxPrecision (single : Bool) : Nat := if single then 9 else 17

/-- `REPR_MIN_FIXED_EXPONENT` -/
def reprMinFixedExponent : Int := -4

/-- `REPR_MAX_FIXED_EXPONENT` -/
def reprMaxFixedExponent : Int := 15

/-- The locale's decimal point made a dot. -/
def delocalize (point buf : Bytes) : Bytes :=
  match firstMatch [point] buf with
  | some (pos, _) =>
    if point = [dot] then buf else buf.take pos ++ dot :: buf.drop (pos + point.length)
  | none => buf

/-- `.0` put before the exponent or at the end. -/
def insertPoint (size : Nat) (buf : Bytes) : Bytes :=
  if dot ∈ buf then buf
  else if buf.length + 2 ≥ size then buf
  else
    buf.takeWhile (· ≠ 101) ++ dot :: zeroDigit :: buf.dropWhile (· ≠ 101)

/-- `asdf_yaml_format_float`. -/
def yamlFormatFloat (point : Bytes) (size : Nat) (val : UInt64) (single : Bool) : Bytes :=
  let bits := val.toNat
  if FloatFormat.binary64.isNaN bits then [46, 110, 97, 110].take (size - 1)
  else if FloatFormat.binary64.isInf bits then
    (if FloatFormat.binary64.negative bits then [45, 46, 105, 110, 102]
      else [46, 105, 110, 102]).take (size - 1)
  else
    let prec := firstPrecision
      (fun prec => readsBack point val single (scientificText point size val prec))
      (maxPrecision single - 1) 1
    let buf := scientificText point size val prec
    let exponent := atoi ((buf.dropWhile (· ≠ 101)).drop 1)
    let buf :=
      if reprMinFixedExponent ≤ exponent ∧ exponent ≤ reprMaxFixedExponent then
        fixedText point size val ((prec : Int) - 1 - exponent).toNat
      else buf
    insertPoint size (delocalize point buf)

/-! ## Decimal numbers read -/

/-- What a locale has for a decimal point: no character of a number. -/
structure DecimalPoint (point : Bytes) : Prop where
  some : point ≠ []
  apart : ∀ b ∈ point, isDigit b = false ∧ b ≠ minus ∧ b ≠ plus ∧ b ≠ 101
  short : point.length ≤ 16

theorem dot_decimalPoint : DecimalPoint [dot] where
  some := List.cons_ne_nil _ _
  apart b mem := by
    cases List.mem_singleton.mp mem
    decide
  short := by decide

structure Literal.Clean (l : Literal) : Prop where
  some : l.whole ≠ []
  whole : ∀ b ∈ l.whole, isDigit b = true
  fraction : ∀ b ∈ l.fraction, isDigit b = true

/-- The number that is written. -/
def Literal.value (l : Literal) : ℚ :=
  digitsValue (l.whole ++ l.fraction) .dec * 10 ^ (l.exponent.getD 0 - l.fraction.length)

section Reading

variable {point digits rest : Bytes} {l : Literal}

theorem takeWhile_isDigit_append (all : ∀ b ∈ digits, isDigit b = true)
    (stops : ∀ b ∈ rest.head?, isDigit b = false) :
    (digits ++ rest).takeWhile isDigit = digits := by
  rw [List.takeWhile_append_of_pos all]
  cases rest with
  | nil => exact List.append_nil _
  | cons b rest =>
    rw [List.takeWhile_cons_of_neg (by rw [stops b rfl]; exact Bool.false_ne_true), List.append_nil]

theorem twoDigits_digits (n : Nat) : ∀ b ∈ twoDigits n, isDigit b = true := by
  rw [twoDigits]
  split
  · intro b mem
    rcases List.mem_cons.mp mem with rfl | mem
    · decide
    · exact decimalDigits_isDigit n b mem
  · exact decimalDigits_isDigit n

theorem twoDigits_ne_nil (n : Nat) : twoDigits n ≠ [] := by
  obtain ⟨first, rest, eq, -⟩ := decimalDigits_head n
  rw [twoDigits, eq]
  split <;> exact List.cons_ne_nil _ _

theorem digitsValue_twoDigits (n : Nat) : digitsValue (twoDigits n) .dec = n := by
  rw [twoDigits]
  split
  · exact digitsValue_decimalDigits n
  · exact digitsValue_decimalDigits n

theorem exponentText_head (e : Option Int) : ∀ b ∈ (exponentText e).head?, b = 101 := by
  cases e with
  | none => exact fun b mem => absurd mem (Option.not_mem_none b)
  | some e =>
    rintro _ ⟨⟩
    rfl

theorem readExponent_text (e : Option Int) : readExponent (exponentText e) = e.getD 0 := by
  cases e with
  | none => rfl
  | some e =>
    have digits := twoDigits_digits e.natAbs
    rw [exponentText, readExponent, if_pos (.inl rfl)]
    by_cases negative : e < 0
    · have sign : skipSign (minus :: twoDigits e.natAbs) = twoDigits e.natAbs := rfl
      rw [if_pos negative, sign, takeWhile_all digits, digitsValue_twoDigits]
      simp only [List.head?_cons, if_true, Option.getD_some]
      omega
    · have sign : skipSign (plus :: twoDigits e.natAbs) = twoDigits e.natAbs := rfl
      have other : ¬ some plus = some minus := by decide
      rw [if_neg negative, sign, takeWhile_all digits, digitsValue_twoDigits]
      simp only [List.head?_cons, other, if_false, Option.getD_some]
      omega

theorem not_isDigit_of_mark {b : Byte} (mark : b = 101) : isDigit b = false := by
  rw [mark]
  decide

/-- The point begins only where there is a fraction. -/
theorem fractionText_spec (p : DecimalPoint point) (fraction : ∀ b ∈ l.fraction, isDigit b = true) :
    let rest := fractionText point l.fraction ++ exponentText l.exponent
    (∀ b ∈ rest.head?, isDigit b = false) ∧
      (if point.isPrefixOf rest then (rest.drop point.length).takeWhile isDigit else []) =
        l.fraction ∧
      (if point.isPrefixOf rest then rest.drop (point.length + l.fraction.length) else rest) =
        exponentText l.exponent := by
  have stops : ∀ b ∈ (exponentText l.exponent).head?, isDigit b = false :=
    fun b mem => not_isDigit_of_mark (exponentText_head _ b mem)
  obtain ⟨first, more, eq⟩ := List.exists_cons_of_ne_nil p.some
  have apart := p.apart first (eq ▸ List.mem_cons_self)
  dsimp only
  rw [fractionText]
  split
  · rename_i none
    have away : point.isPrefixOf (exponentText l.exponent) = false := by
      rw [eq]
      cases text : exponentText l.exponent with
      | nil => rfl
      | cons b rest =>
        have mark := exponentText_head l.exponent b (by rw [text]; rfl)
        rw [List.isPrefixOf, mark, beq_eq_false_iff_ne.mpr apart.2.2.2, Bool.false_and]
    rw [List.nil_append, away, none]
    exact ⟨stops, rfl, rfl⟩
  · have found : point.isPrefixOf (point ++ l.fraction ++ exponentText l.exponent) = true := by
      rw [List.isPrefixOf_iff_prefix, List.append_assoc]
      exact List.prefix_append _ _
    rw [found, if_pos rfl, if_pos rfl, List.append_assoc, List.drop_left,
      takeWhile_isDigit_append fraction stops, ← List.append_assoc, ← List.length_append,
      List.drop_left]
    refine ⟨?_, rfl, rfl⟩
    rw [eq]
    rintro _ ⟨⟩
    exact apart.1

theorem skipSign_signText (negative : Bool) (digit : ∀ b ∈ digits.head?, isDigit b = true)
    (full : digits ≠ []) : skipSign (signText negative ++ digits) = digits ∧
      decide ((signText negative ++ digits).head? = some minus) = negative := by
  obtain ⟨b, rest, rfl⟩ := List.exists_cons_of_ne_nil full
  have digit := digit b rfl
  cases negative with
  | true => exact ⟨rfl, rfl⟩
  | false =>
    refine ⟨by rw [signText, if_neg Bool.false_ne_true, List.nil_append, skipSign,
      hasSign_of_isDigit digit]; rfl, decide_eq_false ?_⟩
    rintro ⟨⟩
    exact absurd digit (by decide)

/-- **A decimal number is read as it is written**, in the locale it is written in. -/
theorem readDecimal_text (p : DecimalPoint point) (clean : l.Clean) :
    readDecimal point (l.text point) = (l.negative, l.value) := by
  obtain ⟨stops, fraction, tail⟩ := fractionText_spec p clean.fraction
  have someText : l.whole ++ (fractionText point l.fraction ++ exponentText l.exponent) ≠ [] :=
    fun nil => clean.some (List.append_eq_nil_iff.mp nil).1
  obtain ⟨first, more, eq⟩ := List.exists_cons_of_ne_nil clean.some
  have digit : ∀ b ∈ (l.whole ++ (fractionText point l.fraction ++
      exponentText l.exponent)).head?, isDigit b = true := by
    rw [eq]
    rintro _ ⟨⟩
    exact clean.whole first (eq ▸ List.mem_cons_self)
  obtain ⟨skipped, sign⟩ := skipSign_signText l.negative digit someText
  have whole := takeWhile_isDigit_append clean.whole stops
  rw [readDecimal, Literal.text]
  simp only [skipped, whole, List.drop_left, fraction, tail, readExponent_text]
  rw [sign, Literal.value]

end Reading

/-! ## Printed digits -/

section Printing

variable {negative : Bool} {prec frac width n : Nat} {x : ℚ} {a b : Bytes}

theorem digitsValue_concat (a : Bytes) (chr : Byte) :
    digitsValue (a ++ [chr]) .dec = digitsValue a .dec * 10 + digitValue chr := by
  rw [digitsValue_append]
  rfl

theorem digitsValue_append_mul (a b : Bytes) :
    digitsValue (a ++ b) .dec = digitsValue a .dec * 10 ^ b.length + digitsValue b .dec := by
  induction b using List.reverseRecOn with
  | nil => rw [List.append_nil, List.length_nil, Nat.pow_zero, Nat.mul_one]; rfl
  | append_singleton b chr ih =>
    rw [← List.append_assoc, digitsValue_concat, digitsValue_concat, ih, List.length_append,
      List.length_singleton, Nat.pow_succ]
    ring

theorem isDigit_digitByte (n : Nat) : isDigit (digitByte n) = true := by
  rw [isDigit_iff, toNat_digitByte]
  omega

theorem paddedDigits_isDigit (width n : Nat) : ∀ b ∈ paddedDigits width n, isDigit b = true := by
  induction width generalizing n with
  | zero => exact List.forall_mem_nil _
  | succ width ih =>
    intro b mem
    rcases List.mem_append.mp mem with mem | mem
    · exact ih (n / 10) b mem
    · rw [List.mem_singleton.mp mem]
      exact isDigit_digitByte n

theorem length_paddedDigits (width n : Nat) : (paddedDigits width n).length = width := by
  induction width generalizing n with
  | zero => rfl
  | succ width ih => rw [paddedDigits, List.length_append, ih, List.length_singleton]

theorem digitsValue_paddedDigits (width n : Nat) :
    digitsValue (paddedDigits width n) .dec = n % 10 ^ width := by
  induction width generalizing n with
  | zero => rw [Nat.pow_zero, Nat.mod_one]; rfl
  | succ width ih =>
    have digit : digitValue (digitByte n) = n % 10 := by
      rw [digitValue, if_pos (isDigit_digitByte n), toNat_digitByte, Nat.add_sub_cancel_left]
    rw [paddedDigits, digitsValue_concat, ih, digit, Nat.pow_succ', Nat.mod_mul]
    ring

theorem length_decimalDigits_le (pos : 0 < width) (lt : n < 10 ^ width) :
    (decimalDigits n).length ≤ width := by
  induction width generalizing n with
  | zero => exact absurd pos (Nat.lt_irrefl 0)
  | succ width ih =>
    rw [decimalDigits]
    split
    · exact Nat.succ_le_succ (Nat.zero_le width)
    · rename_i large
      rw [List.length_append, List.length_singleton]
      refine Nat.succ_le_succ (ih ?_ ?_)
      · by_contra zero
        rw [Nat.eq_zero_of_not_pos zero] at lt
        omega
      · rw [Nat.pow_succ] at lt
        omega

theorem printScientific_clean (digits : 0 < prec) : (printScientific negative prec x).Clean := by
  have all := paddedDigits_isDigit prec (scientific prec x).1
  refine ⟨?_, fun b mem => all b (List.mem_of_mem_take mem),
    fun b mem => all b (List.mem_of_mem_drop mem)⟩
  intro none
  have length := congrArg List.length none
  rw [printScientific, List.length_take, length_paddedDigits, List.length_nil] at length
  omega

theorem printScientific_value (negative : Bool) (nonneg : 0 ≤ x) (digits : 0 < prec) :
    (printScientific negative prec x).value = scientificValue prec (scientific prec x) := by
  have small : (scientific prec x).1 < 10 ^ prec := by
    rcases nonneg.eq_or_lt with rfl | pos
    · rw [scientific, if_pos rfl]
      exact Nat.pow_pos (by decide)
    · exact (scientific_digits pos digits).2
  rw [Literal.value, printScientific]
  dsimp only
  rw [List.take_append_drop, digitsValue_paddedDigits, Nat.mod_eq_of_lt small, List.length_drop,
    length_paddedDigits, scientificValue, Option.getD_some]
  congr 2
  omega

theorem printFixed_clean : (printFixed negative frac x).Clean := by
  refine ⟨?_, decimalDigits_isDigit _, paddedDigits_isDigit frac _⟩
  obtain ⟨first, rest, eq, -⟩ := decimalDigits_head (fixedPoint frac x / 10 ^ frac)
  rw [printFixed, eq]
  exact List.cons_ne_nil _ _

theorem printFixed_value :
    (printFixed negative frac x).value = fixedPoint frac x * (10 ^ frac)⁻¹ := by
  rw [Literal.value, printFixed]
  dsimp only
  rw [digitsValue_append_mul, digitsValue_decimalDigits, digitsValue_paddedDigits,
    length_paddedDigits, Nat.mul_comm, Nat.div_add_mod, Option.getD_none, zero_sub, zpow_neg,
    zpow_natCast]

end Printing

/-! ## Lengths -/

section Lengths

variable {negative : Bool} {prec frac : Nat} {x : ℚ} {point : Bytes}

/-- Numbers whose digits are counted with three digits. -/
structure Moderate (x : ℚ) : Prop where
  nonneg : 0 ≤ x
  small : x < 10 ^ 400
  large : 0 < x → 1 ≤ x * 10 ^ 400

theorem Moderate.exponent (h : Moderate x) (prec : Nat) :
    -400 ≤ (scientific prec x).2 ∧ (scientific prec x).2 ≤ 400 := by
  rcases h.nonneg.eq_or_lt with rfl | pos
  · rw [scientific, if_pos rfl]
    decide
  have upper : Int.log 10 x < 400 := by
    rw [← Int.lt_zpow_iff_log_lt (by decide) pos]
    exact_mod_cast h.small
  have lower : -400 ≤ Int.log 10 x := by
    rw [← Int.zpow_le_iff_le_log (by decide) pos]
    have large := h.large pos
    rw [zpow_neg, inv_le_iff_one_le_mul₀ (by positivity)]
    exact_mod_cast large
  rw [scientific, if_neg pos.ne']
  dsimp only
  split <;> dsimp only <;> omega

theorem length_twoDigits_le {n : Nat} (lt : n < 1000) : (twoDigits n).length ≤ 3 := by
  rw [twoDigits]
  split
  · rename_i small
    rw [decimalDigits, if_pos small]
    exact Nat.le_succ 2
  · exact length_decimalDigits_le (by decide) lt

theorem length_signText_le (negative : Bool) : (signText negative).length ≤ 1 := by
  cases negative <;> decide

theorem length_fractionText_le (point fraction : Bytes) :
    (fractionText point fraction).length ≤ point.length + fraction.length := by
  rw [fractionText]
  split
  · exact Nat.zero_le _
  · rw [List.length_append]

theorem length_printScientific_le (h : Moderate x) (negative : Bool) (prec : Nat)
    (point : Bytes) :
    ((printScientific negative prec x).text point).length ≤ prec + point.length + prec + 6 := by
  have bounds := h.exponent prec
  have sign := length_signText_le negative
  have digits := length_paddedDigits prec (scientific prec x).1
  have exponent : (exponentText (some (scientific prec x).2)).length ≤ 5 := by
    have := length_twoDigits_le (n := (scientific prec x).2.natAbs) (by omega)
    rw [exponentText, List.length_cons, List.length_cons]
    omega
  have fraction := length_fractionText_le point ((paddedDigits prec (scientific prec x).1).drop 1)
  rw [List.length_drop] at fraction
  rw [Literal.text, printScientific]
  dsimp only
  rw [List.length_append, List.length_append, List.length_append, List.length_take]
  omega

theorem fixedPoint_lt {bound : Nat} (nonneg : 0 ≤ x) (small : x < 10 ^ bound) :
    fixedPoint frac x < 10 ^ frac * 10 ^ (bound + 1) := by
  have near := (abs_le.mp (roundEven_near (q := x * 10 ^ frac)
    (mul_nonneg nonneg (by positivity)))).2
  have below : x * 10 ^ frac < 10 ^ bound * 10 ^ frac :=
    mul_lt_mul_of_pos_right small (by positivity)
  have whole : (fixedPoint frac x : ℚ) < 10 ^ bound * 10 ^ frac + 1 := by
    rw [fixedPoint]
    linarith
  have whole : fixedPoint frac x < 10 ^ bound * 10 ^ frac + 1 := by exact_mod_cast whole
  have pos : 0 < 10 ^ bound * 10 ^ frac := by positivity
  rw [Nat.pow_succ, ← Nat.mul_assoc, Nat.mul_comm (10 ^ frac)]
  omega

theorem length_printFixed_le (h : Moderate x) (negative : Bool) (frac : Nat) (point : Bytes) :
    ((printFixed negative frac x).text point).length ≤ 402 + point.length + frac := by
  have sign := length_signText_le negative
  have whole : (decimalDigits (fixedPoint frac x / 10 ^ frac)).length ≤ 400 + 1 :=
    length_decimalDigits_le (by decide) (Nat.div_lt_of_lt_mul (fixedPoint_lt h.nonneg h.small))
  have fraction := length_fractionText_le point (paddedDigits frac (fixedPoint frac x))
  rw [length_paddedDigits] at fraction
  rw [Literal.text, printFixed]
  dsimp only
  rw [List.length_append, List.length_append, List.length_append, exponentText, List.length_nil]
  omega

end Lengths

/-! ## The point -/

section Point

variable {point front rest text : Bytes} {l : Literal} {size : Nat}

theorem firstMatch_away (p : point ≠ []) (away : ∀ b ∈ text, b ∉ point) :
    firstMatch [point] text = none := by
  obtain ⟨first, more, eq⟩ := List.exists_cons_of_ne_nil p
  refine firstMatch_eq_none.mpr fun o t occurs => ?_
  obtain ⟨pattern, entry, rest, begins⟩ := occurs.begins
  have same : pattern = point := List.mem_singleton.mp (List.mem_of_getElem? entry)
  rw [same, eq] at begins
  have inside : first ∈ text.drop o := begins ▸ List.mem_cons_self
  exact away first (List.mem_of_mem_drop inside) (eq ▸ List.mem_cons_self)

theorem firstMatch_behind (p : point ≠ []) (away : ∀ b ∈ front, b ∉ point) (rest : Bytes) :
    firstMatch [point] (front ++ (point ++ rest)) = some (front.length, 0) := by
  obtain ⟨first, more, eq⟩ := List.exists_cons_of_ne_nil p
  refine firstMatch_eq_some.mpr ⟨⟨?_, point, rfl, ?_⟩, fun o t occurs => ?_⟩
  · rw [eq, List.length_append, List.cons_append, List.length_cons]
    omega
  · rw [List.drop_left]
    exact List.prefix_append _ _
  · obtain ⟨pattern, entry, rest', begins⟩ := occurs.begins
    have same : pattern = point := List.mem_singleton.mp (List.mem_of_getElem? entry)
    have zero : t = 0 := by
      by_contra other
      rw [List.getElem?_eq_none (by rw [List.length_singleton]; omega)] at entry
      cases entry
    by_cases before : o < front.length
    · exfalso
      rw [same, eq, List.drop_append_of_le_length before.le,
        List.drop_eq_getElem_cons before] at begins
      have head : first = front[o] := by
        simp only [List.cons_append, List.cons.injEq] at begins
        exact begins.1
      exact away front[o] (List.getElem_mem before) (head ▸ eq ▸ List.mem_cons_self)
    · rcases Nat.lt_or_eq_of_le (Nat.le_of_not_lt before) with later | here
      · exact .inl later
      · exact .inr ⟨here, Nat.zero_le t⟩

/-- A character of a number. -/
def NumberChar (b : Byte) : Prop := isDigit b = true ∨ b = minus ∨ b = plus ∨ b = 101

theorem DecimalPoint.away (p : DecimalPoint point) {b : Byte} (char : NumberChar b) :
    b ∉ point := by
  intro mem
  obtain ⟨noDigit, noMinus, noPlus, noMark⟩ := p.apart b mem
  rcases char with digit | sign | sign | mark
  · exact absurd digit (by rw [noDigit]; exact Bool.false_ne_true)
  · exact noMinus sign
  · exact noPlus sign
  · exact noMark mark

theorem signText_chars (negative : Bool) : ∀ b ∈ signText negative, NumberChar b := by
  cases negative with
  | true =>
    intro b mem
    exact .inr (.inl (List.mem_singleton.mp mem))
  | false => exact List.forall_mem_nil _

theorem exponentText_chars (e : Option Int) : ∀ b ∈ exponentText e, NumberChar b := by
  cases e with
  | none => exact List.forall_mem_nil _
  | some e =>
    intro b mem
    rcases List.mem_cons.mp mem with mark | mem
    · exact .inr (.inr (.inr mark))
    rcases List.mem_cons.mp mem with sign | mem
    · split at sign
      · exact .inr (.inl sign)
      · exact .inr (.inr (.inl sign))
    · exact .inl (twoDigits_digits _ b mem)

theorem Literal.Clean.front_chars (clean : l.Clean) :
    ∀ b ∈ signText l.negative ++ l.whole, NumberChar b := by
  intro b mem
  rcases List.mem_append.mp mem with mem | mem
  · exact signText_chars _ b mem
  · exact .inl (clean.whole b mem)

/-- A text without a point is a text of the characters of numbers. -/
theorem Literal.Clean.chars (clean : l.Clean) (none : l.fraction = []) (point : Bytes) :
    ∀ b ∈ l.text point, NumberChar b := by
  rw [Literal.text, fractionText, if_pos none, List.nil_append, ← List.append_assoc]
  intro b mem
  rcases List.mem_append.mp mem with mem | mem
  · exact clean.front_chars b mem
  · exact exponentText_chars _ b mem

theorem delocalize_text (p : DecimalPoint point) (clean : l.Clean) :
    delocalize point (l.text point) = l.text [dot] := by
  by_cases none : l.fraction = []
  · have away : ∀ b ∈ l.text point, b ∉ point := fun b mem => p.away (clean.chars none point b mem)
    rw [delocalize, firstMatch_away p.some away]
    dsimp only
    rw [Literal.text, Literal.text, fractionText, fractionText, if_pos none, if_pos none]
  · have text (q : Bytes) : l.text q = (signText l.negative ++ l.whole) ++
        (q ++ (l.fraction ++ exponentText l.exponent)) := by
      rw [Literal.text, fractionText, if_neg none]
      simp only [List.append_assoc]
    rw [delocalize, text point, firstMatch_behind p.some
      (fun b mem => p.away (clean.front_chars b mem))]
    dsimp only
    split
    · rename_i same
      rw [text, same]
    · rw [List.take_left, ← List.append_assoc, ← List.length_append, List.drop_left, text]
      rfl

/-- The literal with a digit behind the point. -/
def Literal.pointed (l : Literal) : Literal :=
  { l with fraction := if l.fraction = [] then [zeroDigit] else l.fraction }

theorem insertPoint_text (clean : l.Clean) (room : (l.text [dot]).length + 2 < size) :
    insertPoint size (l.text [dot]) = l.pointed.text [dot] := by
  by_cases none : l.fraction = []
  · have away : dot ∉ l.text [dot] := fun mem =>
      dot_decimalPoint.away (clean.chars none [dot] dot mem) (List.mem_singleton_self dot)
    have front : ∀ b ∈ signText l.negative ++ l.whole, decide (b ≠ 101) = true := by
      intro b mem
      refine decide_eq_true fun mark => ?_
      rcases List.mem_append.mp mem with mem | mem
      · cases negative : l.negative with
        | true =>
          rw [negative] at mem
          rw [List.mem_singleton.mp mem] at mark
          exact absurd mark (by decide)
        | false =>
          rw [negative] at mem
          cases mem
      · have digit := clean.whole b mem
        rw [not_isDigit_of_mark mark] at digit
        cases digit
    have stops : (exponentText l.exponent).takeWhile (fun b => decide (b ≠ 101)) = [] ∧
        (exponentText l.exponent).dropWhile (fun b => decide (b ≠ 101)) =
          exponentText l.exponent := by
      cases l.exponent with
      | none => exact ⟨rfl, rfl⟩
      | some e => exact ⟨rfl, rfl⟩
    have text : l.text [dot] = (signText l.negative ++ l.whole) ++ exponentText l.exponent := by
      rw [Literal.text, fractionText, if_pos none, List.nil_append, List.append_assoc]
    rw [insertPoint, if_neg away, if_neg (Nat.not_le.mpr room), text,
      List.takeWhile_append_of_pos front, List.dropWhile_append_of_pos front, stops.1, stops.2,
      List.append_nil, Literal.pointed, if_pos none, Literal.text, fractionText,
      if_neg (List.cons_ne_nil _ _)]
    simp only [List.append_assoc, List.cons_append, List.nil_append]
  · have inside : dot ∈ l.text [dot] := by
      rw [Literal.text, fractionText, if_neg none]
      simp
    have same : l.pointed = l := by rw [Literal.pointed, if_neg none]
    rw [insertPoint, if_pos inside, same]

theorem Literal.Clean.pointed (clean : l.Clean) : l.pointed.Clean := by
  refine ⟨clean.some, clean.whole, ?_⟩
  rw [Literal.pointed]
  dsimp only
  split
  · intro b mem
    rw [List.mem_singleton.mp mem]
    decide
  · exact clean.fraction

theorem Literal.pointed_value (l : Literal) : l.pointed.value = l.value := by
  by_cases none : l.fraction = []
  · have zero : digitsValue [zeroDigit] .dec = 0 := by decide
    rw [Literal.value, Literal.value, Literal.pointed]
    dsimp only
    rw [if_pos none, none, List.append_nil, digitsValue_append_mul, zero, Nat.add_zero,
      List.length_singleton, List.length_nil, Nat.pow_one]
    push_cast
    rw [sub_zero, zpow_sub_one₀ (by norm_num)]
    ring
  · rw [Literal.pointed, if_neg none]

/-- With a point the text is a float of YAML. -/
theorem Literal.Clean.decimal (clean : l.Clean) (full : l.fraction ≠ []) :
    isDecimalFloat (l.text [dot]) false = true := by
  obtain ⟨first, more, eq⟩ := List.exists_cons_of_ne_nil clean.some
  have digit : ∀ b ∈ (l.whole ++ (fractionText [dot] l.fraction ++
      exponentText l.exponent)).head?, isDigit b = true := by
    rw [eq]
    rintro _ ⟨⟩
    exact clean.whole first (eq ▸ List.mem_cons_self)
  have skipped : skipSign (l.text [dot]) = _ := (skipSign_signText l.negative digit
    fun nil => clean.some (List.append_eq_nil_iff.mp nil).1).1
  have shape : l.whole ++ (fractionText [dot] l.fraction ++ exponentText l.exponent) =
      l.whole ++ dot :: (l.fraction ++ exponentText l.exponent) := by
    rw [fractionText, if_neg full]
    rfl
  have digits {text : Bytes} (all : ∀ b ∈ text, isDigit b = true) :
      ∀ b ∈ text, DigitOrSeparator .dec b := fun b mem => .inr (all b mem)
  refine isDecimalFloat_of_text (skipped.trans shape)
    (.point ⟨⟨first, more, eq, ?_⟩, digits clean.whole⟩ (digits clean.fraction) ?_)
  · exact clean.whole first (eq ▸ List.mem_cons_self)
  · cases l.exponent with
    | none => exact .inl rfl
    | some e =>
      refine .inr (.intro 101 [if e < 0 then minus else plus] _ (.inl rfl) ?_
        (twoDigits_ne_nil _) (twoDigits_digits e.natAbs))
      split
      · exact .inr (.inl rfl)
      · exact .inr (.inr rfl)

theorem copyDigits_chars (chars : ∀ b ∈ text, NumberChar b) (point : Bytes) :
    copyDigits text (some point) = text := by
  have plain {b : Byte} (char : NumberChar b) : b ≠ underscore ∧ b ≠ dot := by
    rcases char with digit | rfl | rfl | rfl
    · refine ⟨?_, ?_⟩
      · rintro rfl
        exact absurd digit (by decide)
      · rintro rfl
        exact absurd digit (by decide)
    all_goals decide
  unfold copyDigits
  induction text with
  | nil => rfl
  | cons b text ih =>
    obtain ⟨noUnderscore, noDot⟩ := plain (chars b List.mem_cons_self)
    rw [List.flatMap_cons, ih fun c mem => chars c (List.mem_cons_of_mem _ mem),
      if_neg noUnderscore, if_neg noDot, List.singleton_append]

theorem copyDigits_append (a b : Bytes) (point : Option Bytes) :
    copyDigits (a ++ b) point = copyDigits a point ++ copyDigits b point := List.flatMap_append

/-- The dot is translated to the locale's decimal point. -/
theorem copyDigits_text (clean : l.Clean) (point : Bytes) :
    copyDigits (l.text [dot]) (some point) = l.text point := by
  by_cases none : l.fraction = []
  · have same : l.text point = l.text [dot] := by
      rw [Literal.text, Literal.text, fractionText, fractionText, if_pos none, if_pos none]
    rw [same]
    exact copyDigits_chars (clean.chars none [dot]) point
  · have front := copyDigits_chars clean.front_chars point
    have fraction := copyDigits_chars (fun b mem => .inl (clean.fraction b mem)) point
    have exponent := copyDigits_chars (exponentText_chars l.exponent) point
    have text (q : Bytes) : l.text q = (signText l.negative ++ l.whole) ++
        (q ++ (l.fraction ++ exponentText l.exponent)) := by
      rw [Literal.text, fractionText, if_neg none]
      simp only [List.append_assoc]
    have point' : copyDigits [dot] (some point) = point := List.append_nil point
    rw [text, text, copyDigits_append (_ ++ _), front, copyDigits_append [dot], point',
      copyDigits_append l.fraction, fraction, exponent]

end Point

end LibAsdf
