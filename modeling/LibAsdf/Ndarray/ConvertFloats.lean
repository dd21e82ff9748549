import LibAsdf.Base.Floats
import LibAsdf.Ndarray.ConvertIntegers

/-!
# Conversions of floats to integers

What the functions of the table make of a `float` or a `double` where an integer is
to be stored.

* `castFloat`, `convertFloat`: the cast, and one round of the macro's loop;
* `Truncated`: what a conversion is to store, and when it is an overflow;
* `Separable`: the values that the comparisons with the bounds deal with so;
* `float_to_integer`: the conversion is right for these values and no others;
* `ieeeFloats`: the conversions as a part of the platform.
-/

namespace LibAsdf

/-! ## Model -/

def ScalarDatatype.floatFormat : ScalarDatatype → Option FloatFormat
  | .float32 => some .binary32
  | .float64 => some .binary64
  | _ => none

instance (d : IntType) (x : Int) : Decidable (d.Has x) := inferInstanceAs (Decidable (_ ∧ _))

/-- The cast to an integer type. It is undefined for what is not a number, and where
the type does not have the value without its fraction. -/
def castFloat (d : IntType) : FloatValue → Option Int
  | .finite x => if d.Has (truncate x) then some (truncate x) else none
  | .inf _ | .nan => none

/-- One round of a macro's loop on a float, for an integer: the value that is stored,
and whether it counts as an overflow. -/
def convertFloat (macro_ : ConversionMacro) (f : FloatFormat) (d : IntType) (val : FloatValue) :
    Option (Int × Bool) :=
  match macro_ with
  | .clamp =>
    if val.lt (f.ofInt d.minval) then some (d.minval, true)
    else if (f.ofInt d.maxval).lt val then some (d.maxval, true)
    else (castFloat d val).map fun x => (x, false)
  | _ => (castFloat d val).map fun x => (x, false)

/-- The float that is read from the bytes of an element. -/
def sourceFloat (host : Byteorder) (f : FloatFormat) (byteswap : Bool) (bytes : Bytes) :
    FloatValue :=
  let val := if byteswap then bytes.reverse else bytes
  f.decode (if host = .big then Endian.beNat val else Endian.leNat val)

/-! ## What a conversion is to do -/

/-- No cast is undefined, the truncation is stored clamped to the range, and it is
told whether the truncation is outside the range. -/
def Truncated (d : IntType) (val : FloatValue) (result : Option (Int × Bool)) : Prop :=
  ∃ stored overflow, result = some (stored, overflow) ∧
    match val with
    | .nan => True
    | .inf negative => stored = (if negative then d.minval else d.maxval) ∧ overflow = true
    | .finite x =>
      stored = d.clamp (truncate x) ∧ (overflow = true ↔ ¬ d.Has (truncate x))

/-- The value is a number, it is not strictly between a bound and the next integer
outside where the format has the bound, and it is not that integer where the format
has no value between. -/
def Separable (f : FloatFormat) (d : IntType) : FloatValue → Prop
  | .nan => False
  | .inf _ => True
  | .finite x =>
    ¬ (((d.minval - 1 : Int) : Dyadic) < x ∧ x < (d.minval : Dyadic)) ∧
      if f.ofInt d.maxval = .finite (d.maxval : Dyadic) then
        ¬ ((d.maxval : Dyadic) < x ∧ x < ((d.maxval + 1 : Int) : Dyadic))
      else x ≠ ((d.maxval + 1 : Int) : Dyadic)

/-- Where a cast puts the bounds of a type. -/
structure Bounds (f : FloatFormat) (d : IntType) : Prop where
  lower : f.ofInt d.minval = .finite (d.minval : Dyadic)
  upper : f.ofInt d.maxval = .finite (d.maxval : Dyadic) ∨
    f.ofInt d.maxval = .finite ((d.maxval + 1 : Int) : Dyadic)

theorem bounds_of_types {src dst : ScalarDatatype} {f : FloatFormat} {d : IntType}
    (hf : src.floatFormat = some f) (hd : dst.intType = some d) : Bounds f d := by
  cases src <;> cases hf <;> cases dst <;> cases hd
  all_goals
    constructor
    · decide +kernel
    · decide +kernel

theorem floatMacro {src dst : ScalarDatatype} {f : FloatFormat} {d : IntType}
    (hf : src.floatFormat = some f) (hd : dst.intType = some d) :
    conversionMacro src dst = some .clamp := by
  cases src <;> cases hf <;> cases dst <;> cases hd <;> rfl

/-! ## One element -/

section Element

variable {f : FloatFormat} {d : IntType} {x : Dyadic}

theorem has_truncate_iff (range : d.minval ≤ 0 ∧ 0 ≤ d.maxval) :
    d.Has (truncate x) ↔
      ((d.minval - 1 : Int) : Dyadic) < x ∧ x < ((d.maxval + 1 : Int) : Dyadic) := by
  have lower := truncate_lt_iff (x := x) range.1
  have upper := lt_truncate_iff (x := x) range.2
  rw [← Int.not_le] at lower upper
  exact and_congr (not_iff_not.mp lower) (not_iff_not.mp upper)

/-- A value that is clamped to the lower bound. -/
theorem truncated_below (range : d.minval ≤ 0 ∧ 0 ≤ d.maxval) (below : x < (d.minval : Dyadic)) :
    Truncated d (.finite x) (some (d.minval, true)) ↔
      ¬ ((d.minval - 1 : Int) : Dyadic) < x := by
  rw [← truncate_lt_iff range.1]
  constructor
  · rintro ⟨_, _, ⟨⟩, -, outside⟩
    have outside := outside.mp rfl
    rw [has_truncate_iff range] at outside
    rw [truncate_lt_iff range.1]
    intro above
    apply outside
    refine ⟨above, ?_⟩
    rw [dyadic_lt_int_iff] at below ⊢
    have order : (d.minval : Rat) ≤ d.maxval := by exact_mod_cast range.1.trans range.2
    push_cast
    linarith
  · intro less
    refine ⟨_, _, rfl, (d.clamp_of_lt less).symm, fun _ has => ?_, fun _ => rfl⟩
    exact absurd has.1 (Int.not_le.mpr less)

/-- A value that is clamped to the upper bound. -/
theorem truncated_above (range : d.minval ≤ 0 ∧ 0 ≤ d.maxval) (above : (d.maxval : Dyadic) < x) :
    Truncated d (.finite x) (some (d.maxval, true)) ↔
      ¬ x < ((d.maxval + 1 : Int) : Dyadic) := by
  rw [← lt_truncate_iff range.2]
  constructor
  · rintro ⟨_, _, ⟨⟩, -, outside⟩
    have outside := outside.mp rfl
    rw [has_truncate_iff range] at outside
    rw [lt_truncate_iff range.2]
    intro below
    apply outside
    refine ⟨?_, below⟩
    rw [int_lt_dyadic_iff] at above ⊢
    have order : (d.minval : Rat) ≤ d.maxval := by exact_mod_cast range.1.trans range.2
    push_cast
    linarith
  · intro more
    refine ⟨_, _, rfl, (d.clamp_of_gt more (by omega)).symm, fun _ has => ?_, fun _ => rfl⟩
    exact absurd has.2 (Int.not_le.mpr more)

/-- A value that is cast. -/
theorem truncated_cast (range : d.minval ≤ 0 ∧ 0 ≤ d.maxval) (least : ¬ x < (d.minval : Dyadic)) :
    Truncated d (.finite x) ((castFloat d (.finite x)).map fun x => (x, false)) ↔
      x < ((d.maxval + 1 : Int) : Dyadic) := by
  have above : ((d.minval - 1 : Int) : Dyadic) < x := by
    rw [int_lt_dyadic_iff]
    rw [dyadic_lt_int_iff] at least
    push_cast
    linarith
  have cases := has_truncate_iff (x := x) range
  rw [castFloat]
  by_cases has : d.Has (truncate x)
  · rw [if_pos has]
    refine ⟨fun _ => (cases.mp has).2, fun _ => ⟨_, _, rfl, (d.clamp_of_has has).symm, ?_⟩⟩
    exact ⟨nofun, fun outside => (outside has).elim⟩
  · rw [if_neg has]
    constructor
    · rintro ⟨_, _, ⟨⟩, -⟩
    · intro below
      exact (has (cases.mpr ⟨above, below⟩)).elim

/-- The macro deals with a value as it is to if and only if its comparisons tell what
becomes of the truncation. -/
theorem convertFloat_truncated (bounds : Bounds f d) (range : d.minval ≤ 0 ∧ 0 ≤ d.maxval)
    (val : FloatValue) :
    Truncated d val (convertFloat .clamp f d val) ↔ Separable f d val := by
  cases val with
  | nan =>
    constructor
    · rintro ⟨_, _, result, -⟩
      rw [convertFloat, bounds.lower] at result
      rcases bounds.upper with upper | upper <;> rw [upper] at result <;> cases result
    · nofun
  | inf negative =>
    refine ⟨fun _ => trivial, fun _ => ?_⟩
    rw [convertFloat, bounds.lower]
    cases negative with
    | true => exact ⟨_, _, rfl, rfl, rfl⟩
    | false => rcases bounds.upper with upper | upper <;> rw [upper] <;> exact ⟨_, _, rfl, rfl, rfl⟩
  | finite x =>
    have next : (d.maxval : Dyadic) < ((d.maxval + 1 : Int) : Dyadic) :=
      int_lt_int_iff.mpr (by omega)
    have order : (d.minval : Dyadic) < ((d.maxval + 1 : Int) : Dyadic) :=
      int_lt_int_iff.mpr (by omega)
    simp only [convertFloat, bounds.lower, FloatValue.lt, decide_eq_true_eq, Separable]
    by_cases below : x < (d.minval : Dyadic)
    · rw [if_pos below, truncated_below range below]
      have low : ¬ (d.maxval : Dyadic) < x := by
        have wide : ¬ (d.maxval : Dyadic) < (d.minval : Dyadic) := by
          rw [int_lt_int_iff]
          omega
        grind
      split
      case isTrue => grind
      case isFalse => grind
    · rw [if_neg below]
      rcases bounds.upper with upper | upper
      · rw [upper, if_pos rfl]
        simp only [decide_eq_true_eq]
        by_cases above : (d.maxval : Dyadic) < x
        · rw [if_pos above, truncated_above range above]
          grind
        · rw [if_neg above, truncated_cast range below]
          grind
      · have rounded : ¬ FloatValue.finite ((d.maxval + 1 : Int) : Dyadic) =
            .finite (d.maxval : Dyadic) := by
          intro eq
          have eq := FloatValue.finite.inj eq
          grind
        rw [upper, if_neg rounded]
        simp only [decide_eq_true_eq]
        by_cases above : ((d.maxval + 1 : Int) : Dyadic) < x
        · rw [if_pos above, truncated_above range (by grind)]
          grind
        · rw [if_neg above, truncated_cast range below]
          grind

/-- The function of the table for a float and an integer type truncates and clamps the
separable values, and no others. -/
theorem float_to_integer (src dst : ScalarDatatype) (f : FloatFormat) (d : IntType)
    (hf : src.floatFormat = some f) (hd : dst.intType = some d) (host : Byteorder)
    (byteswap : Bool) (bytes : Bytes) :
    ∃ m, conversionMacro src dst = some m ∧
      (Truncated d (sourceFloat host f byteswap bytes)
          (convertFloat m f d (sourceFloat host f byteswap bytes)) ↔
        Separable f d (sourceFloat host f byteswap bytes)) :=
  ⟨.clamp, floatMacro hf hd,
    convertFloat_truncated (bounds_of_types hf hd) (intType_range hd).2 _⟩

/-- A double of 300.25, for a byte. -/
theorem float_to_integer_clamped :
    ∃ m, conversionMacro .float64 .uint8 = some m ∧
      (Truncated ⟨false, 1⟩ (sourceFloat .little .binary64 true [64, 114, 196, 0, 0, 0, 0, 0])
          (convertFloat m .binary64 ⟨false, 1⟩
            (sourceFloat .little .binary64 true [64, 114, 196, 0, 0, 0, 0, 0])) ↔
        Separable .binary64 ⟨false, 1⟩
          (sourceFloat .little .binary64 true [64, 114, 196, 0, 0, 0, 0, 0])) :=
  float_to_integer .float64 .uint8 .binary64 ⟨false, 1⟩ rfl rfl .little true
    [64, 114, 196, 0, 0, 0, 0, 0]

/-- A double of 2 ^ 63 is cast to `int64_t`: the bound that it is compared with is itself. -/
theorem rounded_bound_cast :
    ¬ Truncated ⟨true, 8⟩ (sourceFloat .little .binary64 false [0, 0, 0, 0, 0, 0, 224, 67])
      (convertFloat .clamp .binary64 ⟨true, 8⟩
        (sourceFloat .little .binary64 false [0, 0, 0, 0, 0, 0, 224, 67])) := by
  have undefined : convertFloat .clamp .binary64 ⟨true, 8⟩
      (sourceFloat .little .binary64 false [0, 0, 0, 0, 0, 0, 224, 67]) = none := by
    decide +kernel
  rintro ⟨_, _, result, -⟩
  rw [undefined] at result
  cases result

end Element

/-! ## On a platform -/

/-- Zero and one, and what is stored for them. -/
theorem convertFloat_bits {src dst : ScalarDatatype} {f : FloatFormat} {d : IntType}
    (hf : src.floatFormat = some f) (hd : dst.intType = some d) (host : Byteorder) :
    ∃ a b, a.length = src.size ∧ b.length = src.size ∧
      convertFloat .clamp f d (sourceFloat host f false a) = some (0, false) ∧
      convertFloat .clamp f d (sourceFloat host f false b) = some (1, false) ∧
      storeInt host d 0 ≠ storeInt host d 1 := by
  -- The bits of one are the exponent's bias.
  let one := if src = .float32 then 0x3f800000 else 0x3ff0000000000000
  refine ⟨List.replicate src.size 0,
    if host = .big then Endian.beBytes src.size one else Endian.leBytes src.size one,
    List.length_replicate, ?_, ?_⟩
  · split
    · exact Endian.length_beBytes _ _
    · exact Endian.length_leBytes _ _
  · cases src <;> cases hf <;> cases dst <;> cases hd <;> cases host <;> decide +kernel

/-- The conversions to integers as the macros do them. What an undefined cast gives,
and what becomes of an element where both types are floats, is left to `rest`. -/
def ieeeFloats (host : Byteorder) (rest : FloatConversions) : FloatConversions where
  convert m src dst bytes :=
    match src.floatFormat, dst.intType with
    | some f, some d =>
      match convertFloat m f d (sourceFloat host f false bytes) with
      | some (x, overflow) => (storeInt host d x, overflow)
      | none => rest.convert m src dst bytes
    | _, _ => rest.convert m src dst bytes
  length m src dst bytes := by
    cases hf : src.floatFormat with
    | none => exact rest.length m src dst bytes
    | some f =>
      cases hd : dst.intType with
      | none => exact rest.length m src dst bytes
      | some d =>
        dsimp only
        split
        · rw [length_storeInt, ScalarDatatype.intType_bytes hd]
        · exact rest.length m src dst bytes
  separates m src dst h := by
    cases hf : src.floatFormat with
    | none => exact rest.separates m src dst h
    | some f =>
      cases hd : dst.intType with
      | none => exact rest.separates m src dst h
      | some d =>
        cases h.symm.trans (floatMacro hf hd)
        obtain ⟨a, b, ha, hb, zero, one, differ⟩ := convertFloat_bits hf hd host
        refine ⟨a, b, ha, hb, ?_⟩
        dsimp only
        rw [zero, one]
        exact differ

section Table

variable {pf : Platform} {rest : FloatConversions} {src dst : ScalarDatatype} {f : FloatFormat}
  {d : IntType} {byteswap : Bool}

theorem sourceFloat_swapped (host : Byteorder) (f : FloatFormat) (byteswap : Bool)
    (bytes : Bytes) :
    sourceFloat host f false (if byteswap then bytes.reverse else bytes) =
      sourceFloat host f byteswap bytes := by
  cases byteswap <;> rfl

/-- What is stored for a number is in the range. -/
theorem has_of_truncated {val : FloatValue} {stored : Int} {overflow : Bool}
    (range : d.minval ≤ 0 ∧ 0 ≤ d.maxval) (number : val ≠ .nan)
    (h : Truncated d val (some (stored, overflow))) : d.Has stored := by
  obtain ⟨_, _, ⟨⟩, meets⟩ := h
  cases val with
  | nan => exact (number rfl).elim
  | inf negative =>
    obtain ⟨eq, -⟩ := meets
    rw [eq]
    cases negative with
    | true => exact ⟨Int.le_refl _, range.1.trans range.2⟩
    | false => exact ⟨range.1.trans range.2, Int.le_refl _⟩
  | finite x =>
    obtain ⟨eq, -⟩ := meets
    rw [eq]
    exact d.clamp_has (range.1.trans range.2) _

/-- One element of an array, as the function of the table stores it. -/
theorem convertFn_truncates {fn : ConvertFn} (floats : pf.floats = ieeeFloats pf.host rest)
    (hf : src.floatFormat = some f) (hd : dst.intType = some d)
    (found : getConvertFn pf src dst byteswap = some fn) (bytes : Bytes)
    (separable : Separable f d (sourceFloat pf.host f byteswap bytes)) :
    Truncated d (sourceFloat pf.host f byteswap bytes)
      (some (loadInt pf.host d (fn.elem bytes).1, (fn.elem bytes).2)) := by
  obtain ⟨some_d, range⟩ := intType_range hd
  have truncated := (convertFloat_truncated (bounds_of_types hf hd) range _).mpr separable
  obtain ⟨stored, overflow, result, meets⟩ := truncated
  have number : sourceFloat pf.host f byteswap bytes ≠ .nan := by
    intro eq
    rw [eq] at separable
    exact separable
  have has := has_of_truncated range number ⟨stored, overflow, rfl, meets⟩
  have elem : fn.elem bytes = (storeInt pf.host d stored, overflow) := by
    have differ : src ≠ dst := by
      rintro rfl
      cases src <;> cases hf <;> cases hd
    have floating : src.intType = none := by
      cases src <;> cases hf <;> rfl
    rw [getConvertFn_elem found, convertValue, floatMacro hf hd]
    dsimp only
    rw [convertElem, if_neg differ, floating, floats]
    simp only [ieeeFloats, hf, hd, sourceFloat_swapped, result]
  rw [elem, loadInt_storeInt some_d has]
  exact ⟨stored, overflow, rfl, meets⟩

/-- A call on an array whose elements the comparisons deal with: each is truncated and
clamped, and it is told whether one was outside the range. -/
theorem convertFn_truncates_run (floats : pf.floats = ieeeFloats pf.host rest)
    (hf : src.floatFormat = some f) (hd : dst.intType = some d) {fn : ConvertFn}
    (found : getConvertFn pf src dst byteswap = some fn) {mem out : Bytes} {count : Nat}
    (source : mem.length = count * src.size) (room : count * dst.size ≤ out.length)
    (object : out.length < 2 ^ 64)
    (separable : ∀ i < count,
      Separable f d (sourceFloat pf.host f byteswap (elementAt mem 0 src.size i))) :
    ∃ overflow out', fn.run out 0 mem 0 count = .ret (overflow, out') ∧
      (∀ i < count, Truncated d (sourceFloat pf.host f byteswap (elementAt mem 0 src.size i))
        (some (loadInt pf.host d (elementAt out' 0 dst.size i),
          (fn.elem (elementAt mem 0 src.size i)).2))) ∧
      (overflow = true ↔ ∃ i < count, (fn.elem (elementAt mem 0 src.size i)).2 = true) := by
  obtain ⟨overflow, out', ran, -, elems, told⟩ := getConvertFn_run found source room object
  refine ⟨overflow, out', ran, ?_, told⟩
  intro i lt
  rw [elems i lt]
  exact convertFn_truncates floats hf hd found _ (separable i lt)

end Table

end LibAsdf
