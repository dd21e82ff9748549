import LibAsdf.Value.Classes
import LibAsdf.Yaml.FloatFormat

/-!
# Floats written and read

The nodes that floats are set as, and what the accessors read from them.

* `nodeOfDouble`, `nodeOfFloat`: the nodes;
* `inferPlain_of_float`: what the recognizer of floats takes is inferred as a float;
* `double_round_trip`: a double is read back;
* `float_text_shortest`: the text of a `float`, which `strtof` reads back.
-/

namespace LibAsdf

open FloatFormat

/-- `asdf_node_of_double`. -/
def nodeOfDouble (lib : ScalarBuilder) (point : Bytes) (val : UInt64) : Node :=
  let buf := yamlFormatFloat point floatBufsize val false
  .scalar none (lib.style buf) buf

/-- `asdf_node_of_float`. -/
def nodeOfFloat (lib : ScalarBuilder) (point : Bytes) (val : UInt32) : Node :=
  let buf := yamlFormatFloat point floatBufsize (widen val) true
  .scalar none (lib.style buf) buf

section RoundTrip

variable {env : ScalarEnv} {lib : ScalarBuilder} {val : UInt64} {text : Bytes}

/-- A float is of no other class. -/
theorem inferPlain_of_float (accepted : ScalarClass.float.Accepts env.floats text)
    (value : AsdfValue) : inferPlain env value text = inferFloat env value text false := by
  have alone (other : ScalarClass) (h : other.Accepts env.floats text) : other = .float := by
    by_contra different
    rcases (ScalarClass.unique different h accepted).2 with ⟨-, eq⟩ | ⟨-, eq⟩ <;> cases eq
  rw [← ScalarClass.inferInOrder_order,
    ScalarClass.inferInOrder_of_accepts (by decide) accepted alone]
  rfl

/-- What the recognizer reads from the text of a double. -/
theorem read_format (ieee : env.floats.Ieee) (p : DecimalPoint env.floats.decimalPoint)
    (val : UInt64) :
    yamlScalarIsFloat env.floats
        (yamlFormatFloat env.floats.decimalPoint floatBufsize val false) false =
      (.ok, if binary64.isNaN val.toNat then env.floats.nan else val) := by
  rcases isNaN_or_isInf_or_finite val.toNat with nan | ⟨noNaN, inf⟩ | finite
  · rw [read_nan _ nan, nan]
    rfl
  · rw [read_inf ieee noNaN inf, noNaN]
    rfl
  · have noNaN : binary64.isNaN val.toNat = false := decide_eq_false (Nat.lt_asymm finite)
    rw [read_double ieee p finite, noNaN]
    rfl

/-- **A double that is set is read back.** In every locale, the text that a double is
written as is taken for a float and not for a scalar of another class, and the accessor
gives the double of the same bits: zeros with their sign, subnormals and infinities
too; a NaN is read as the NaN of the library. -/
theorem double_round_trip (ieee : env.floats.Ieee) (p : DecimalPoint env.floats.decimalPoint)
    (unquoted : ∀ text, (yamlScalarIsFloat env.floats text false).1 = .ok →
      (lib.style text).quoted = false) (val : UInt64) :
    (valueAsType env (AsdfValue.create (nodeOfDouble lib env.floats.decimalPoint val)) .double).2 =
      (.ok, some (.double (if binary64.isNaN val.toNat then env.floats.nan else val))) := by
  have read := read_format ieee p val
  have plain := unquoted _ (congrArg (·.1) read)
  have accepted : ScalarClass.float.Accepts env.floats
      (yamlFormatFloat env.floats.decimalPoint floatBufsize val false) := by
    rw [ScalarClass.Accepts, read]
    exact fun eq => by cases eq
  have inferred : inferScalarType env
      (AsdfValue.create (nodeOfDouble lib env.floats.decimalPoint val)) =
        inferFloat env (AsdfValue.create (nodeOfDouble lib env.floats.decimalPoint val))
          (yamlFormatFloat env.floats.decimalPoint floatBufsize val false) false := by
    rw [inferScalarType_fresh rfl rfl, ← inferPlain_of_float accepted]
    exact if_neg (Bool.eq_false_iff.mp plain)
  rw [inferFloat, read] at inferred
  rw [valueAsType, inferredAs_eq inferred]
  rfl

/-- The C library in the locale of a decimal point. -/
def libraryFloats (point : Bytes) : Floats :=
  { noFloats with
    strtod text :=
      let bits := strtod .binary64 point text
      (UInt64.ofNat bits, binary64.isInf bits)
    decimalPoint := point
    toFloat bits := UInt32.ofNat (binary64.convert .binary32 bits.toNat)
    isInf bits := binary64.isInf bits.toNat
    neg bits := bits ^^^ 9223372036854775808
    infinity := 9218868437227405312
    nan := 9221120237041090560 }

theorem libraryFloats_ieee (point : Bytes) : (libraryFloats point).Ieee :=
  ⟨fun _ _ => rfl, fun _ => rfl, fun _ => rfl, rfl⟩

theorem comma_decimalPoint : DecimalPoint [44] where
  some := List.cons_ne_nil _ _
  apart b mem := by
    cases List.mem_singleton.mp mem
    decide
  short := by decide

/-- 0.1, with a comma for the decimal point. -/
theorem double_round_trip_tenth :
    (valueAsType ⟨libraryFloats [44], true, fun _ => none⟩
        (AsdfValue.create (nodeOfDouble plainBuilder [44] 4591870180066957722)) .double).2 =
      (.ok, some (.double 4591870180066957722)) :=
  double_round_trip (libraryFloats_ieee [44]) comma_decimalPoint (fun _ _ => rfl)
    4591870180066957722

/-- **A `float` is written with the fewest digits that `strtof` reads back**, and the
same in every locale: a float of YAML with a point, which is read as the same bits,
while no number that `printf` makes of it with fewer digits is. -/
theorem float_text_shortest (val : UInt32)
    (finite : binary32.unsigned val.toNat < binary32.infinity) :
    ∃ prec, 0 < prec ∧ prec ≤ 9 ∧ ∃ l : Literal,
      l = (chosenLiteral (binary32.negative val.toNat) prec
        (binary32.magnitude (binary32.unsigned val.toNat))).pointed ∧
      (∀ point, DecimalPoint point →
        yamlFormatFloat point floatBufsize (widen val) true = l.text [dot] ∧
          strtod .binary32 point (l.text point) = val.toNat) ∧
      isDecimalFloat (l.text [dot]) false = true ∧
      ∀ digits, 0 < digits → digits ≤ prec → ∀ point, DecimalPoint point →
        (strtod .binary32 point ((printScientific (binary32.negative val.toNat) digits
          (binary32.magnitude (binary32.unsigned val.toNat))).text point) = val.toNat ↔ digits = prec) := by
  obtain ⟨h, sign⟩ := finiteValue_float finite
  obtain ⟨prec, most, shortest, written⟩ := h.written
  have readable := chosenLiteral_readable (binary32.negative val.toNat) binary32_standard finite
    shortest
  have inside := binary32.infinity_lt
  rw [sign] at written
  refine ⟨prec, shortest.pos, most, _, rfl, fun point p => ⟨written point p, ?_⟩,
    readable.clean.decimal readable.full, fun digits pos upTo point p => ?_⟩
  · rw [strtod_text p readable.clean, readable.sign, readable.nearest]
    exact signed_split val.toNat_lt
  · rw [strtod_text p (printScientific_clean pos), printScientific_value _ h.nonneg pos]
    constructor
    · intro same
      by_contra other
      have place := congrArg binary32.unsigned same
      rw [unsigned_signed ((nearest_le _ ?_).trans_lt inside)] at place
      · exact shortest.least digits pos (Nat.lt_of_le_of_ne upTo other) place
      · rw [← printScientific_value false h.nonneg pos]
        exact Literal.value_nonneg _
    · rintro rfl
      have enough : binary32.nearest (scientificValue digits (scientific digits
          (binary32.magnitude (binary32.unsigned val.toNat)))) = binary32.unsigned val.toNat :=
        shortest.enough
      rw [enough]
      exact signed_split val.toNat_lt

/-- 0.1 as a `float`. -/
theorem float_text_shortest_tenth :
    ∃ prec, 0 < prec ∧ prec ≤ 9 ∧ ∃ l : Literal,
      l = (chosenLiteral (binary32.negative (1036831949 : UInt32).toNat) prec
        (binary32.magnitude (binary32.unsigned (1036831949 : UInt32).toNat))).pointed ∧
      (∀ point, DecimalPoint point →
        yamlFormatFloat point floatBufsize (widen 1036831949) true = l.text [dot] ∧
          strtod .binary32 point (l.text point) = (1036831949 : UInt32).toNat) ∧
      isDecimalFloat (l.text [dot]) false = true ∧
      ∀ digits, 0 < digits → digits ≤ prec → ∀ point, DecimalPoint point →
        (strtod .binary32 point
          ((printScientific (binary32.negative (1036831949 : UInt32).toNat) digits
            (binary32.magnitude (binary32.unsigned (1036831949 : UInt32).toNat))).text point) =
          (1036831949 : UInt32).toNat ↔ digits = prec) :=
  float_text_shortest 1036831949 (by decide)

end RoundTrip

end LibAsdf
