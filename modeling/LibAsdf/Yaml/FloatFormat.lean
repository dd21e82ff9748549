import LibAsdf.Yaml.FloatText

/-!
# Shortest texts of floats

What is written for a float, and what it is read back as.

* `chosenLiteral`: the digits in the notation that their exponent chooses;
* `FiniteValue`, `FiniteValue.written`: what is written for a finite value;
* `read_double`, `read_inf`, `read_nan`: what the recognizer of floats makes of it.
-/

namespace LibAsdf

/-! ## The shortest text -/

/-- The number that the code writes with so many digits: fixed where the exponent
is small, else scientific. -/
def chosenLiteral (negative : Bool) (prec : Nat) (x : ℚ) : Literal :=
  let exponent := (scientific prec x).2
  if reprMinFixedExponent ≤ exponent ∧ exponent ≤ reprMaxFixedExponent then
    printFixed negative ((prec : Int) - 1 - exponent).toNat x
  else printScientific negative prec x

section Chosen

variable {negative : Bool} {prec m : Nat} {x : ℚ} {f : FloatFormat}

theorem chosenLiteral_clean (digits : 0 < prec) : (chosenLiteral negative prec x).Clean := by
  rw [chosenLiteral]
  split
  · exact printFixed_clean
  · exact printScientific_clean digits

/-- Digits that are enough are enough in both notations. -/
theorem chosenLiteral_nearest (h : f.Standard) (digits : 0 < prec) (lt : m < f.infinity)
    (found : f.nearest (scientificValue prec (scientific prec (f.magnitude m))) = m) :
    f.nearest (chosenLiteral negative prec (f.magnitude m)).value = m := by
  have nonneg : 0 ≤ f.magnitude m := by
    rw [← f.magnitude_zero]
    exact f.scale.strictMono.monotone (Nat.zero_le m)
  rw [chosenLiteral]
  split
  · rw [printFixed_value]
    by_cases before : (prec : Int) - 1 ≤ (scientific prec (f.magnitude m)).2
    · -- No digit is left for behind the point: the value is an integer
      have none : ((prec : Int) - 1 - (scientific prec (f.magnitude m)).2).toNat = 0 := by omega
      obtain ⟨n, integer⟩ := h.natCast_of_digits digits lt found before
      rw [none, fixedPoint, pow_zero, mul_one, inv_one, mul_one, integer, roundEven_natCast,
        ← integer]
      exact FloatFormat.nearest_magnitude lt.le
    · have place : (prec : Int) - 1 - (scientific prec (f.magnitude m)).2 =
          ((prec : Int) - 1 - (scientific prec (f.magnitude m)).2).toNat := by omega
      have same := fixedPoint_eq nonneg digits place
      have value : ((scientific prec (f.magnitude m)).1 : ℚ) *
          (10 ^ ((prec : Int) - 1 - (scientific prec (f.magnitude m)).2).toNat)⁻¹ =
            scientificValue prec (scientific prec (f.magnitude m)) := by
        rw [scientificValue, ← zpow_natCast, ← place, ← zpow_neg]
        congr 2
        omega
      rw [same, value]
      exact found
  · rw [printScientific_value _ nonneg digits]
    exact found

theorem length_chosenLiteral_le {point : Bytes} (negative : Bool) (h : Moderate x)
    (least : 0 < prec) (most : prec ≤ 17) (short : point.length ≤ 16) :
    ((chosenLiteral negative prec x).text point).length ≤ 440 := by
  rw [chosenLiteral]
  split
  · rename_i fixed
    have lower : -4 ≤ (scientific prec x).2 := fixed.1
    have text := length_printFixed_le h negative
      ((prec : Int) - 1 - (scientific prec x).2).toNat point
    omega
  · have text := length_printScientific_le h negative prec point
    omega

end Chosen

section Search

variable {p : Nat → Bool} {rounds prec : Nat}

/-- The search stops at the first number with the property, or at the end. -/
theorem firstPrecision_spec (p : Nat → Bool) (rounds prec : Nat) :
    prec ≤ firstPrecision p rounds prec ∧ firstPrecision p rounds prec ≤ prec + rounds ∧
      (p (firstPrecision p rounds prec) = true ∨ firstPrecision p rounds prec = prec + rounds) ∧
      ∀ n, prec ≤ n → n < firstPrecision p rounds prec → p n = false := by
  induction rounds generalizing prec with
  | zero =>
    rw [firstPrecision]
    exact ⟨le_rfl, le_rfl, .inr rfl, fun n le lt => absurd lt (Nat.not_lt.mpr le)⟩
  | succ rounds ih =>
    rw [firstPrecision]
    split
    · rename_i yes
      exact ⟨le_rfl, by omega, .inl yes, fun n le lt => absurd lt (Nat.not_lt.mpr le)⟩
    · rename_i no
      obtain ⟨least, most, stop, before⟩ := ih (prec + 1)
      refine ⟨by omega, by omega, stop.imp_right fun eq => by omega, fun n le lt => ?_⟩
      rcases Nat.lt_or_eq_of_le le with later | here
      · exact before n later lt
      · rw [← here]
        exact Bool.eq_false_iff.mpr no

/-- A search only asks for the property where it comes to. -/
theorem firstPrecision_congr {q : Nat → Bool}
    (same : ∀ n, prec ≤ n → n ≤ prec + rounds → p n = q n) :
    firstPrecision p rounds prec = firstPrecision q rounds prec := by
  induction rounds generalizing prec with
  | zero => rfl
  | succ rounds ih =>
    rw [firstPrecision, firstPrecision, same prec le_rfl (by omega),
      ih fun n le le' => same n (by omega) (by omega)]

end Search

/-! ## Doubles and floats -/

theorem binary64_standard : FloatFormat.binary64.Standard := ⟨by decide, by decide⟩

theorem binary32_standard : FloatFormat.binary32.Standard := ⟨by decide, by decide⟩

/-- `ASDF_YAML_FLOAT_BUFSIZE` -/
def floatBufsize : Nat := 512

/-- The format that the text is to be read back in. -/
def textFormat (single : Bool) : FloatFormat := if single then .binary32 else .binary64

/-- A finite double: its sign, its magnitude, and the place of the magnitude in the
format that the text is to be read back in. -/
structure FiniteValue (val : UInt64) (single : Bool) (x : ℚ) (place : Nat) : Prop where
  finite : FloatFormat.binary64.unsigned val.toNat < FloatFormat.binary64.infinity
  magnitude : FloatFormat.binary64.magnitude (FloatFormat.binary64.unsigned val.toNat) = x
  value : (textFormat single).magnitude place = x
  lt : place < (textFormat single).infinity

section Finite

open FloatFormat

variable {val : UInt64} {single : Bool} {x : ℚ} {place : Nat} {point : Bytes}

theorem magnitude_one : binary64.magnitude 1 * 2 ^ 1074 = 1 := by
  have place : binary64.lastPlace 1 = -1074 := by decide
  have digits : binary64.significand 1 = 1 := by decide
  rw [FloatFormat.magnitude, place, digits, Nat.cast_one, one_mul, zpow_neg]
  exact inv_mul_cancel₀ (by positivity)

theorem magnitude_infinity : binary64.magnitude binary64.infinity = 2 ^ 1024 := by
  have place : binary64.lastPlace binary64.infinity = 972 := by decide
  have digits : binary64.significand binary64.infinity = 2 ^ 52 := by decide
  rw [FloatFormat.magnitude, place, digits, Nat.cast_pow, ← zpow_natCast, ← zpow_natCast,
    Nat.cast_ofNat, ← zpow_add₀ (by norm_num)]
  rfl

theorem two_pow_le : (2 : ℚ) ^ 1074 ≤ 10 ^ 400 := by
  have small : (2 : ℚ) ^ 3 ≤ 10 := by norm_num
  calc
    (2 : ℚ) ^ 1074 ≤ 2 ^ (3 * 400) := pow_le_pow_right₀ (by norm_num) (by norm_num)
    _ = (2 ^ 3) ^ 400 := pow_mul 2 3 400
    _ ≤ 10 ^ 400 := pow_le_pow_left₀ (by norm_num) small 400

theorem FiniteValue.moderate (h : FiniteValue val single x place) : Moderate x := by
  have mono := binary64.scale.strictMono
  have zero := binary64.magnitude_zero
  rw [← h.magnitude]
  have finite := h.finite
  generalize binary64.unsigned val.toNat = m at finite ⊢
  have nonneg : binary64.magnitude 0 ≤ binary64.magnitude m := mono.monotone (Nat.zero_le m)
  refine ⟨zero ▸ nonneg, ?_, fun pos => ?_⟩
  · have below : binary64.magnitude m < binary64.magnitude binary64.infinity := mono finite
    rw [magnitude_infinity] at below
    exact below.trans_le ((pow_le_pow_right₀ (by norm_num) (by norm_num)).trans two_pow_le)
  · have least : binary64.magnitude 1 ≤ binary64.magnitude m := by
      refine mono.monotone (Nat.one_le_iff_ne_zero.mpr ?_)
      rintro rfl
      rw [zero] at pos
      exact absurd pos (lt_irrefl 0)
    calc
      (1 : ℚ) = binary64.magnitude 1 * 2 ^ 1074 := magnitude_one.symm
      _ ≤ binary64.magnitude m * 10 ^ 400 :=
        mul_le_mul least two_pow_le (by positivity) (zero ▸ nonneg)

/-- What the text is compared with. -/
theorem FiniteValue.target (h : FiniteValue val single x place) :
    (if single then binary64.convert .binary32 val.toNat else val.toNat) =
      (textFormat single).signed (binary64.negative val.toNat) place := by
  cases single with
  | true =>
    have noNaN : binary64.isNaN val.toNat = false := decide_eq_false (Nat.lt_asymm h.finite)
    have noInf : binary64.isInf val.toNat = false := decide_eq_false h.finite.ne
    have nearest : binary32.nearest x = place := by
      rw [← h.value]
      exact nearest_magnitude h.lt.le
    rw [if_pos rfl, convert, noNaN, noInf, h.magnitude, nearest]
    rfl
  | false =>
    have same : binary64.unsigned val.toNat = place := by
      apply binary64.scale.strictMono.injective
      exact h.magnitude.trans h.value.symm
    rw [if_neg Bool.false_ne_true, ← same]
    refine (signed_split ?_).symm
    exact val.toNat_lt

theorem strtod_text (p : DecimalPoint point) {l : Literal} (clean : l.Clean) (f : FloatFormat) :
    strtod f point (l.text point) = f.signed l.negative (f.nearest l.value) := by
  rw [strtod, readDecimal_text p clean]

theorem Literal.value_nonneg (l : Literal) : 0 ≤ l.value :=
  mul_nonneg (Nat.cast_nonneg _) (by positivity)

theorem FiniteValue.readsBack_eq (h : FiniteValue val single x place) (p : DecimalPoint point)
    {l : Literal} (clean : l.Clean) (sign : l.negative = binary64.negative val.toNat) :
    readsBack point val single (l.text point) =
      decide ((textFormat single).nearest l.value = place) := by
  have target := h.target
  have same := equal_signed (f := textFormat single) (s := l.negative)
    (nearest_le _ l.value_nonneg) h.lt.le
  rw [readsBack, strtod_text p clean, strtod_text p clean, ← same, sign, ← target]
  cases single <;> rfl

theorem FiniteValue.scientificText_eq (h : FiniteValue val single x place) (p : DecimalPoint point)
    {prec : Nat} (most : prec ≤ 17) :
    scientificText point floatBufsize val prec =
      (printScientific (binary64.negative val.toNat) prec x).text point := by
  have length := length_printScientific_le h.moderate (binary64.negative val.toNat) prec point
  have short := p.short
  rw [scientificText, h.magnitude]
  refine List.take_of_length_le ?_
  change _ ≤ 511
  omega

theorem FiniteValue.fixedText_eq (h : FiniteValue val single x place) (p : DecimalPoint point)
    {frac : Nat} (most : frac ≤ 20) :
    fixedText point floatBufsize val frac =
      (printFixed (binary64.negative val.toNat) frac x).text point := by
  have length := length_printFixed_le h.moderate (binary64.negative val.toNat) frac point
  have short := p.short
  rw [fixedText, h.magnitude]
  refine List.take_of_length_le ?_
  change _ ≤ 511
  omega

/-- The exponent is found behind the first `e`. -/
theorem atoi_exponent (p : DecimalPoint point) {l : Literal} (clean : l.Clean) {e : Int}
    (exponent : l.exponent = some e) (small : InInt64 e) :
    atoi (((l.text point).dropWhile (· ≠ 101)).drop 1) = e := by
  have before : ∀ b ∈ signText l.negative ++ (l.whole ++ fractionText point l.fraction),
      decide (b ≠ 101) = true := by
    intro b mem
    refine decide_eq_true fun mark => ?_
    have noDigit := not_isDigit_of_mark mark
    rcases List.mem_append.mp mem with mem | mem
    · cases negative : l.negative with
      | true =>
        rw [negative] at mem
        rw [List.mem_singleton.mp mem] at mark
        exact absurd mark (by decide)
      | false =>
        rw [negative] at mem
        cases mem
    rcases List.mem_append.mp mem with mem | mem
    · rw [clean.whole b mem] at noDigit
      cases noDigit
    · rw [fractionText] at mem
      split at mem
      · cases mem
      rcases List.mem_append.mp mem with mem | mem
      · exact (p.apart b mem).2.2.2 mark
      · rw [clean.fraction b mem] at noDigit
        cases noDigit
  have shape : l.text point = (signText l.negative ++ (l.whole ++ fractionText point l.fraction)) ++
      101 :: (if e < 0 then minus else plus) :: twoDigits e.natAbs := by
    rw [Literal.text, exponent, exponentText]
    simp only [List.append_assoc]
  have integer : IntegerText ((if e < 0 then minus else plus) :: twoDigits e.natAbs) e := by
    have digits := twoDigits_digits e.natAbs
    have value := digitsValue_twoDigits e.natAbs
    split
    · have text := IntegerText.negative (twoDigits_ne_nil e.natAbs) digits
      rw [value] at text
      rwa [show -(e.natAbs : Int) = e by omega] at text
    · have text := IntegerText.positive (twoDigits_ne_nil e.natAbs) digits
      rw [value] at text
      rwa [show (e.natAbs : Int) = e by omega] at text
  rw [shape, List.dropWhile_append_of_pos before,
    List.dropWhile_cons_of_neg (p := fun b : Byte => decide (b ≠ 101)) (by decide),
    List.drop_succ_cons, List.drop_zero, atoi, strtoll_integer integer]
  exact clampInt64_eq_iff.mpr small

/-- The digits that are enough: the fewest, of as many as are allowed. -/
structure Shortest (f : FloatFormat) (x : ℚ) (place prec : Nat) : Prop where
  pos : 0 < prec
  enough : f.nearest (scientificValue prec (scientific prec x)) = place
  least : ∀ fewer, 0 < fewer → fewer < prec →
    f.nearest (scientificValue fewer (scientific fewer x)) ≠ place

theorem FiniteValue.nonneg (h : FiniteValue val single x place) : 0 ≤ x := h.moderate.nonneg

theorem maxPrecision_enough (single : Bool) : 0 < maxPrecision single ∧
    maxPrecision single ≤ 17 ∧
    2 * 2 ^ (textFormat single).fractionBits < 10 ^ (maxPrecision single - 1) := by
  cases single <;> decide

theorem textFormat_standard (single : Bool) : (textFormat single).Standard := by
  cases single
  · exact binary64_standard
  · exact binary32_standard

/-- The search for the precision, which no locale changes. -/
theorem FiniteValue.precision (h : FiniteValue val single x place) :
    ∃ prec, prec ≤ maxPrecision single ∧ Shortest (textFormat single) x place prec ∧
      ∀ point, DecimalPoint point →
        firstPrecision (fun prec => readsBack point val single
          (scientificText point floatBufsize val prec)) (maxPrecision single - 1) 1 =
            prec := by
  obtain ⟨some, most, enough⟩ := maxPrecision_enough single
  let reads (prec : Nat) : Bool :=
    decide ((textFormat single).nearest (scientificValue prec (scientific prec x)) = place)
  obtain ⟨lower, upper, stop, before⟩ :=
    firstPrecision_spec reads (maxPrecision single - 1) 1
  refine ⟨_, by omega, ⟨lower, ?_, fun fewer pos less => ?_⟩, fun point p => ?_⟩
  · rcases stop with found | last
    · exact of_decide_eq_true found
    · rw [last, Nat.add_sub_cancel' some, ← h.value]
      exact nearest_scientific some enough h.lt
  · exact of_decide_eq_false (before fewer pos less)
  · refine firstPrecision_congr fun prec pos le => ?_
    have sign : (printScientific (binary64.negative val.toNat) prec x).negative =
      binary64.negative val.toNat := rfl
    rw [h.scientificText_eq p (by omega), h.readsBack_eq p (printScientific_clean pos) sign,
      printScientific_value _ h.nonneg pos]

/-- What is written for a finite value: its shortest digits, with a point, in the
notation that its exponent chooses; and it is what is read back. -/
theorem FiniteValue.written (h : FiniteValue val single x place) :
    ∃ prec, prec ≤ maxPrecision single ∧ Shortest (textFormat single) x place prec ∧
      ∀ point, DecimalPoint point → yamlFormatFloat point floatBufsize val single =
        (chosenLiteral (binary64.negative val.toNat) prec x).pointed.text [dot] := by
  obtain ⟨prec, most, shortest, found⟩ := h.precision
  refine ⟨prec, most, shortest, fun point p => ?_⟩
  have limit := (maxPrecision_enough single).2.1
  have noNaN : binary64.isNaN val.toNat = false := decide_eq_false (Nat.lt_asymm h.finite)
  have noInf : binary64.isInf val.toNat = false := decide_eq_false h.finite.ne
  have bounds := h.moderate.exponent prec
  have exponent : atoi (((scientificText point floatBufsize val prec).dropWhile
      (· ≠ 101)).drop 1) = (scientific prec x).2 := by
    rw [h.scientificText_eq p (by omega)]
    refine atoi_exponent p (printScientific_clean shortest.pos) rfl ?_
    constructor <;> omega
  have text : (if reprMinFixedExponent ≤ (scientific prec x).2 ∧
        (scientific prec x).2 ≤ reprMaxFixedExponent then
      fixedText point floatBufsize val ((prec : Int) - 1 - (scientific prec x).2).toNat
      else scientificText point floatBufsize val prec) =
        (chosenLiteral (binary64.negative val.toNat) prec x).text point := by
    rw [chosenLiteral]
    split
    · rename_i fixed
      have lower : -4 ≤ (scientific prec x).2 := fixed.1
      exact h.fixedText_eq p (by omega)
    · exact h.scientificText_eq p (by omega)
  have clean : (chosenLiteral (binary64.negative val.toNat) prec x).Clean :=
    chosenLiteral_clean shortest.pos
  have length := length_chosenLiteral_le (binary64.negative val.toNat) h.moderate shortest.pos
    (most.trans limit) dot_decimalPoint.short
  rw [yamlFormatFloat]
  simp only [noNaN, noInf, Bool.false_eq_true, if_false, found point p, exponent, text]
  rw [delocalize_text p clean, insertPoint_text clean]
  exact Nat.lt_of_le_of_lt (Nat.add_le_add_right length 2) (by decide)

/-- A decimal number that is read back as the value, and is written with a point. -/
structure Literal.Readable (l : Literal) (f : FloatFormat) (negative : Bool) (place : Nat) :
    Prop where
  clean : l.Clean
  full : l.fraction ≠ []
  sign : l.negative = negative
  nearest : f.nearest l.value = place

theorem chosenLiteral_readable {f : FloatFormat} {prec : Nat} (negative : Bool) (h : f.Standard)
    (lt : place < f.infinity) (shortest : Shortest f (f.magnitude place) place prec) :
    (chosenLiteral negative prec (f.magnitude place)).pointed.Readable f negative place where
  clean := (chosenLiteral_clean shortest.pos).pointed
  full := by
    rw [Literal.pointed]
    dsimp only
    split
    · exact List.cons_ne_nil _ _
    · assumption
  sign := by
    rw [Literal.pointed, chosenLiteral]
    dsimp only
    split <;> rfl
  nearest := by
    rw [Literal.pointed_value]
    exact chosenLiteral_nearest h shortest.pos lt shortest.enough

theorem FiniteValue.readable (h : FiniteValue val single x place) : ∃ l : Literal,
    l.Readable (textFormat single) (binary64.negative val.toNat) place ∧
      ∀ point, DecimalPoint point →
        yamlFormatFloat point floatBufsize val single = l.text [dot] := by
  obtain ⟨prec, -, shortest, written⟩ := h.written
  have value := h.value
  subst value
  exact ⟨_, chosenLiteral_readable _ (textFormat_standard single) h.lt shortest, written⟩

/-- A finite double in its own format. -/
theorem finiteValue_double (finite : binary64.unsigned val.toNat < binary64.infinity) :
    FiniteValue val false (binary64.magnitude (binary64.unsigned val.toNat))
      (binary64.unsigned val.toNat) :=
  ⟨finite, rfl, rfl, finite⟩

/-- A `float` that is passed as a double. -/
def widen (val : UInt32) : UInt64 := UInt64.ofNat (binary32.convert .binary64 val.toNat)

theorem toNat_widen {val : UInt32} (finite : binary32.unsigned val.toNat < binary32.infinity) :
    ∃ m < binary64.infinity, (widen val).toNat = binary64.signed (binary32.negative val.toNat) m ∧
      binary64.magnitude m = binary32.magnitude (binary32.unsigned val.toNat) := by
  have noNaN : binary32.isNaN val.toNat = false := decide_eq_false (Nat.lt_asymm finite)
  have noInf : binary32.isInf val.toNat = false := decide_eq_false finite.ne
  obtain ⟨m, lt, eq⟩ := binary32_standard.exists_wider binary64_standard (by decide) (by decide)
    finite
  have nearest : binary64.nearest (binary32.magnitude (binary32.unsigned val.toNat)) = m := by
    rw [← eq]
    exact nearest_magnitude lt.le
  refine ⟨m, lt, ?_, eq⟩
  have inside := lt.trans binary64.infinity_lt
  rw [widen, UInt64.toNat_ofNat', convert, noNaN, noInf, nearest]
  refine Nat.mod_eq_of_lt ?_
  change binary64.signed _ _ < 2 ^ 63 * 2
  rw [Nat.mul_two, signed]
  change m < 2 ^ 63 at inside
  split
  · exact Nat.add_lt_add_left inside _
  · exact Nat.lt_add_left _ inside

/-- A finite `float`: it is written with its own sign and read back as itself. -/
theorem finiteValue_float {val : UInt32}
    (finite : binary32.unsigned val.toNat < binary32.infinity) :
    FiniteValue (widen val) true (binary32.magnitude (binary32.unsigned val.toNat))
        (binary32.unsigned val.toNat) ∧
      binary64.negative (widen val).toNat = binary32.negative val.toNat := by
  obtain ⟨m, lt, bits, eq⟩ := toNat_widen finite
  have inside := lt.trans binary64.infinity_lt
  have unsigned : binary64.unsigned (widen val).toNat = m := by
    rw [bits, unsigned_signed inside]
  exact ⟨⟨unsigned.symm ▸ lt, unsigned.symm ▸ eq, rfl, finite⟩,
    by rw [bits, negative_signed inside]⟩

end Finite

/-! ## What is read back -/

/-- What the code has from the C library: correct rounding, in the locale's decimal
point. -/
structure Floats.Ieee (fl : Floats) : Prop where
  strtod : ∀ l : Literal, l.Clean → (fl.strtod (l.text fl.decimalPoint)).1 =
    UInt64.ofNat (LibAsdf.strtod .binary64 fl.decimalPoint (l.text fl.decimalPoint))
  isInf : ∀ bits, fl.isInf bits = FloatFormat.binary64.isInf bits.toNat
  neg : ∀ bits, fl.neg bits = bits ^^^ 9223372036854775808
  infinity : fl.infinity = 9218868437227405312

section ReadBack

open FloatFormat

variable {fl : Floats} {val : UInt64} {point : Bytes}

theorem isNaN_or_isInf_or_finite (bits : Nat) :
    binary64.isNaN bits = true ∨ binary64.isNaN bits = false ∧ binary64.isInf bits = true ∨
      binary64.unsigned bits < binary64.infinity := by
  rw [isNaN, isInf]
  simp only [decide_eq_true_eq, decide_eq_false_iff_not]
  omega

theorem yamlFormatFloat_nan (point : Bytes) (single : Bool)
    (nan : binary64.isNaN val.toNat = true) :
    yamlFormatFloat point floatBufsize val single = [46, 110, 97, 110] := by
  rw [yamlFormatFloat]
  simp only [nan, if_true]
  rfl

theorem yamlFormatFloat_inf (point : Bytes) (single : Bool)
    (noNaN : binary64.isNaN val.toNat = false) (inf : binary64.isInf val.toNat = true) :
    yamlFormatFloat point floatBufsize val single =
      if binary64.negative val.toNat then [45, 46, 105, 110, 102] else [46, 105, 110, 102] := by
  rw [yamlFormatFloat]
  simp only [noNaN, inf, Bool.false_eq_true, if_false, if_true]
  split <;> rfl

/-- The text of a finite double, as the recognizer of floats reads it. -/
theorem read_double (ieee : fl.Ieee) (p : DecimalPoint fl.decimalPoint)
    (finite : binary64.unsigned val.toNat < binary64.infinity) :
    yamlScalarIsFloat fl (yamlFormatFloat fl.decimalPoint floatBufsize val false) false =
      (.ok, val) := by
  obtain ⟨l, readable, written⟩ := (finiteValue_double finite).readable
  have value : LibAsdf.strtod .binary64 fl.decimalPoint (l.text fl.decimalPoint) = val.toNat := by
    rw [strtod_text p readable.clean, readable.sign]
    rw [show binary64.nearest l.value = _ from readable.nearest]
    exact signed_split val.toNat_lt
  have noInf : fl.isInf val = false := by
    rw [ieee.isInf]
    exact decide_eq_false finite.ne
  have read : (fl.strtod (l.text fl.decimalPoint)).1 = val := by
    rw [ieee.strtod l readable.clean, value, UInt64.ofNat_toNat]
  rw [written _ p, yamlScalarIsFloat, if_pos (readable.clean.decimal readable.full),
    parseFloatDigits, copyDigits_text readable.clean]
  simp only [read, noInf, Bool.and_false, Bool.false_eq_true, if_false]

theorem read_nan (fl : Floats) (nan : binary64.isNaN val.toNat = true) :
    yamlScalarIsFloat fl (yamlFormatFloat fl.decimalPoint floatBufsize val false) false =
      (.ok, fl.nan) := by
  rw [yamlFormatFloat_nan _ _ nan]
  rfl

theorem read_inf (ieee : fl.Ieee) (noNaN : binary64.isNaN val.toNat = false)
    (inf : binary64.isInf val.toNat = true) :
    yamlScalarIsFloat fl (yamlFormatFloat fl.decimalPoint floatBufsize val false) false =
      (.ok, val) := by
  have bits := signed_split (f := binary64) val.toNat_lt
  rw [of_decide_eq_true inf] at bits
  rw [yamlFormatFloat_inf _ _ noNaN inf]
  cases negative : binary64.negative val.toNat with
  | true =>
    rw [negative] at bits
    have value : fl.neg fl.infinity = val := by
      rw [ieee.neg, ieee.infinity, ← UInt64.toNat_inj, ← bits]
      rfl
    rw [if_pos rfl, ← value]
    rfl
  | false =>
    rw [negative] at bits
    have value : fl.infinity = val := by
      rw [ieee.infinity, ← UInt64.toNat_inj, ← bits]
      rfl
    rw [if_neg Bool.false_ne_true, ← value]
    rfl

end ReadBack

end LibAsdf
