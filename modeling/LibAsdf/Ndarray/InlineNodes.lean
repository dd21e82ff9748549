import LibAsdf.Ndarray.InlineElements
import LibAsdf.Ndarray.MetadataRoundTrip
import LibAsdf.Value.FloatRoundTrip

/-!
# The elements of inline arrays in the tree

What `asdf_node_of_<typ>` makes of an element in memory, and what the conversion
to the array's type makes of it again.

* `nodeOfElement`: the node of an element;
* `ElementKept`: the elements that come back;
* `readAsDouble_kept`: those of `float` arrays, which are read as doubles;
* `convert_nodeOfElement`: what is stored for the node of an element.
-/

namespace LibAsdf

open FloatFormat

/-! ## Nodes -/

/-- What the YAML library does with all texts of elements. -/
structure ElementBuilder (fl : Floats) extends NumberBuilder where
  /-- A float needs no quotes. -/
  style_float : ∀ text, (yamlScalarIsFloat fl text false).1 = .ok → (style text).quoted = false
  /-- A boolean needs no quotes. -/
  style_bool : ∀ text b, yamlScalarIsBool text = some b → (style text).quoted = false

/-- `true` or `false` -/
def boolText (val : Bool) : Bytes :=
  if val then [116, 114, 117, 101] else [102, 97, 108, 115, 101]

/-- `asdf_node_of_bool`. -/
def nodeOfBool (lib : ScalarBuilder) (val : Bool) : Node :=
  .scalar none (lib.style (boolText val)) (boolText val)

/-- The bits of a value in memory. -/
def loadBits (host : Byteorder) (bytes : Bytes) : Nat :=
  (loadInt host ⟨false, bytes.length⟩ bytes).toNat

/-- `asdf_node_of_<typ>` of an element in memory. Those of a `float16` array are read
as `float`. -/
def nodeOfElement (lib : NumberBuilder) (host : Byteorder) (point : Bytes)
    (dtype : ScalarDatatype) (bytes : Bytes) : Node :=
  match dtype with
  | .bool8 => nodeOfBool lib.toScalarBuilder (decide (bytes ≠ [0]))
  | .float16 | .float32 =>
    nodeOfFloat lib.toScalarBuilder point (UInt32.ofNat (loadBits host bytes))
  | .float64 => nodeOfDouble lib.toScalarBuilder point (UInt64.ofNat (loadBits host bytes))
  | dtype => nodeOfInt lib ((dtype.intType.map fun t => loadInt host t bytes).getD 0)

/-! ## What comes back -/

/-- The double that is read from the text of a `float`. -/
def readAsDouble (fl : Floats) (val : UInt32) : UInt64 :=
  if binary32.isNaN val.toNat then fl.nan
  else if binary32.isInf val.toNat then widen val
  else UInt64.ofNat (strtod .binary64 [dot] (yamlFormatFloat [dot] floatBufsize (widen val) true))

/-- A `float` comes back unless it has odd bits and the double that is read from its
text lies halfway to the next `float`; the only NaN that does is the library's. -/
def FloatKept (fl : Floats) (val : UInt32) : Prop :=
  if binary32.isNaN val.toNat then fl.toFloat fl.nan = val
  else val.toNat % 2 = 1 → ¬ binary32.scale.Halfway (binary32.unsigned val.toNat)
    (binary64.magnitude (binary64.unsigned (readAsDouble fl val).toNat))

instance (fl : Floats) (val : UInt32) : Decidable (FloatKept fl val) := by
  unfold FloatKept
  infer_instance

/-- The elements that come back. -/
def ElementKept (fl : Floats) (host : Byteorder) (dtype : ScalarDatatype) (bytes : Bytes) : Prop :=
  match dtype with
  | .bool8 => bytes = [0] ∨ bytes = [1]
  | .float32 => FloatKept fl (UInt32.ofNat (loadBits host bytes))
  | .float64 => binary64.isNaN (loadBits host bytes) = true → fl.nan.toNat = loadBits host bytes
  | _ => True

instance (fl : Floats) (host : Byteorder) (dtype : ScalarDatatype) (bytes : Bytes) :
    Decidable (ElementKept fl host dtype bytes) := by
  cases dtype <;> unfold ElementKept <;> infer_instance

/-- What the code has from the compiler: the conversion of a double to a `float` is
rounded to nearest. -/
def Floats.Narrows (fl : Floats) : Prop :=
  ∀ bits : UInt64, binary64.isNaN bits.toNat = false →
    fl.toFloat bits = UInt32.ofNat (binary64.convert .binary32 bits.toNat)

section Memory

variable {host : Byteorder} {t : IntType} {bytes : Bytes} {x : Int}

/-- What is loaded is stored again. -/
theorem storeInt_loadInt (length : bytes.length = t.bytes) :
    storeInt host t (loadInt host t bytes) = bytes := by
  have whole (n : Nat) (lt : n < 256 ^ t.bytes) :
      (t.cast n % 2 ^ (8 * t.bytes)).toNat = n := by
    have modulus : ((2 ^ (8 * t.bytes) : Nat) : Int) = 2 ^ (8 * t.bytes) := by push_cast; rfl
    have small : n < 2 ^ (8 * t.bytes) := by
      rwa [Nat.pow_mul]
    have same : t.cast n % 2 ^ (8 * t.bytes) = (n : Int) % 2 ^ (8 * t.bytes) := by
      unfold IntType.cast
      split
      · rw [← modulus, Int.bmod_emod]
      · rw [Int.emod_emod_of_dvd _ (Int.dvd_refl _)]
    rw [same, ← modulus, ← Int.natCast_emod, Int.toNat_natCast, Nat.mod_eq_of_lt small]
  unfold loadInt storeInt
  by_cases big : host = .big
  · have lt := Endian.beNat_lt bytes
    rw [length] at lt
    simp only [big, if_true]
    rw [whole _ lt, ← length, Endian.beBytes_beNat]
  · have lt := Endian.leNat_lt bytes
    rw [length] at lt
    simp only [big, if_false]
    rw [whole _ lt, ← length, Endian.leBytes_leNat]

theorem storeInt_eq_iff (some : 0 < t.bytes) (has : t.Has x) (length : bytes.length = t.bytes) :
    storeInt host t x = bytes ↔ x = loadInt host t bytes := by
  constructor
  · rintro rfl
    exact (loadInt_storeInt some has).symm
  · rintro rfl
    exact storeInt_loadInt length

/-- Bits as an unsigned integer. -/
theorem storeBits_eq_iff {bits size : Nat} (some : 0 < size) (lt : bits < 2 ^ (8 * size))
    (length : bytes.length = size) :
    storeInt host ⟨false, size⟩ bits = bytes ↔ bits = loadBits host bytes := by
  have has : (⟨false, size⟩ : IntType).Has bits := by
    have upper : (bits : Int) < 2 ^ (8 * size) := by exact_mod_cast lt
    constructor
    · change (0 : Int) ≤ bits
      exact Int.natCast_nonneg bits
    · change (bits : Int) ≤ 2 ^ (8 * size) - 1
      omega
  have loaded := (@loadInt_has host ⟨false, size⟩ some bytes).1
  change (0 : Int) ≤ _ at loaded
  rw [storeInt_eq_iff some has length, loadBits, length]
  omega

theorem loadBits_lt (some : bytes ≠ []) : loadBits host bytes < 2 ^ (8 * bytes.length) := by
  have pos : 0 < bytes.length := List.length_pos_iff.mpr some
  obtain ⟨lower, upper⟩ := @loadInt_has host ⟨false, bytes.length⟩ pos bytes
  change (0 : Int) ≤ _ at lower
  change _ ≤ (2 : Int) ^ (8 * bytes.length) - 1 at upper
  have : (loadBits host bytes : Int) < 2 ^ (8 * bytes.length) := by
    rw [loadBits, Int.toNat_of_nonneg lower]
    omega
  exact_mod_cast this

end Memory

/-! ## Floats -/

section Floats

variable {env : ScalarEnv} {fl : Floats}

/-- The text of a float is converted to the double that it is read as. -/
theorem elementAsDouble_float {style : ScalarStyle} {text : Bytes} {bits : UInt64}
    (read : yamlScalarIsFloat env.floats text false = (.ok, bits)) (plain : style.quoted = false) :
    elementAsDouble env (.scalar none style text) = (.ok, bits) := by
  have accepted : ScalarClass.float.Accepts env.floats text := by
    rw [ScalarClass.Accepts, read]
    exact fun eq => by cases eq
  have inferred : inferScalarType env (AsdfValue.create (.scalar none style text)) =
      inferFloat env (AsdfValue.create (.scalar none style text)) text false := by
    rw [inferScalarType_fresh rfl rfl, ← inferPlain_of_float accepted]
    exact if_neg (Bool.eq_false_iff.mp plain)
  rw [inferFloat, read] at inferred
  rw [elementAsDouble, inferredAs_eq inferred]
  rfl

theorem convertToFloat_float {env : ElementEnv} {style : ScalarStyle} {text : Bytes}
    {bits : UInt64} (read : yamlScalarIsFloat env.scalars.floats text false = (.ok, bits))
    (plain : style.quoted = false) (dtype : ScalarDatatype) :
    convertToFloat env dtype (.scalar none style text) =
      (.ok, some (storeDouble env dtype bits)) := by
  rw [convertToFloat, elementAsDouble_float read plain]
  exact congrArg (Prod.mk _) (if_pos rfl)

theorem binary32_middles :
    binary32.scale.Middles binary64.scale binary32.infinity binary64.infinity :=
  binary32_standard.middles_wider binary64_standard (by decide) (by decide)

/-- A `float` that is not a NaN, and the double that is read from its text. -/
structure FloatRead (val : UInt32) (bits : UInt64) (l : Literal) : Prop where
  readable : l.Readable .binary32 (binary32.negative val.toNat) (binary32.unsigned val.toNat)
  written : ∀ point, DecimalPoint point →
    yamlFormatFloat point floatBufsize (widen val) true = l.text [dot]
  finite : binary64.nearest l.value < binary64.infinity
  bits : bits.toNat = binary64.signed (binary32.negative val.toNat) (binary64.nearest l.value)

theorem floatRead_of_finite {val : UInt32}
    (finite : binary32.unsigned val.toNat < binary32.infinity) :
    ∃ l, FloatRead val (readAsDouble fl val) l := by
  obtain ⟨h, sign⟩ := finiteValue_float finite
  obtain ⟨l, readable, written⟩ := h.readable
  rw [sign] at readable
  have noNaN : binary32.isNaN val.toNat = false := decide_eq_false (Nat.lt_asymm finite)
  have noInf : binary32.isInf val.toNat = false := decide_eq_false finite.ne
  have inside : binary64.nearest l.value < binary64.infinity := by
    refine binary32_middles.nearest_lt l.value_nonneg ?_
    exact lt_of_eq_of_lt readable.nearest finite
  refine ⟨l, readable, written, inside, ?_⟩
  rw [readAsDouble, noNaN, noInf, if_neg Bool.false_ne_true, if_neg Bool.false_ne_true,
    written _ dot_decimalPoint, strtod_text dot_decimalPoint readable.clean, readable.sign,
    UInt64.toNat_ofNat']
  refine Nat.mod_eq_of_lt ?_
  have below := inside.trans binary64.infinity_lt
  change binary64.signed _ _ < 2 ^ 63 * 2
  rw [Nat.mul_two, signed]
  split
  · exact Nat.add_lt_add_left below _
  · exact Nat.lt_add_left _ below

/-- A NaN is passed as a NaN, and an infinity as one of the same sign. -/
theorem widen_nan {val : UInt32} (nan : binary32.isNaN val.toNat = true) :
    binary64.isNaN (widen val).toNat = true := by
  rw [widen, convert, if_pos nan]
  cases binary32.negative val.toNat <;> decide

theorem widen_inf {val : UInt32} (noNaN : binary32.isNaN val.toNat = false)
    (inf : binary32.isInf val.toNat = true) :
    (widen val).toNat = binary64.signed (binary32.negative val.toNat) binary64.infinity := by
  rw [widen, convert, if_neg (Bool.eq_false_iff.mp noNaN), if_pos inf]
  cases binary32.negative val.toNat <;> decide

theorem signed_infinity (s : Bool) :
    binary64.isNaN (binary64.signed s binary64.infinity) = false ∧
      binary64.isInf (binary64.signed s binary64.infinity) = true := by
  cases s <;> decide

theorem FloatRead.unsigned {val : UInt32} {bits : UInt64} {l : Literal} (h : FloatRead val bits l) :
    binary64.unsigned bits.toNat = binary64.nearest l.value ∧
      binary64.isNaN bits.toNat = false ∧ binary64.isInf bits.toNat = false := by
  have unsigned : binary64.unsigned bits.toNat = binary64.nearest l.value := by
    rw [h.bits, unsigned_signed (h.finite.trans binary64.infinity_lt)]
  refine ⟨unsigned, decide_eq_false ?_, decide_eq_false ?_⟩
  · rw [unsigned]
    exact Nat.lt_asymm h.finite
  · rw [unsigned]
    exact h.finite.ne

/-- What the recognizer reads from the text of a `float`. -/
theorem read_float (ieee : fl.Ieee) (p : DecimalPoint fl.decimalPoint) (val : UInt32) :
    yamlScalarIsFloat fl (yamlFormatFloat fl.decimalPoint floatBufsize (widen val) true) false =
      (.ok, readAsDouble fl val) := by
  rcases Nat.lt_or_ge (binary32.unsigned val.toNat) binary32.infinity with finite | large
  · obtain ⟨l, h⟩ := @floatRead_of_finite fl val finite
    obtain ⟨-, -, noInf⟩ := h.unsigned
    rw [← ieee.isInf] at noInf
    have read : (fl.strtod (l.text fl.decimalPoint)).1 = readAsDouble fl val := by
      rw [ieee.strtod l h.readable.clean, strtod_text p h.readable.clean, h.readable.sign, ← h.bits,
        UInt64.ofNat_toNat]
    rw [h.written _ p, yamlScalarIsFloat, if_pos (h.readable.clean.decimal h.readable.full),
      parseFloatDigits, copyDigits_text h.readable.clean]
    simp only [read, noInf, Bool.and_false, Bool.false_eq_true, if_false]
  rcases large.lt_or_eq with nan | inf
  · have nan : binary32.isNaN val.toNat = true := decide_eq_true nan
    rw [yamlFormatFloat_nan _ _ (widen_nan nan), readAsDouble, if_pos nan]
    rfl
  · have noNaN : binary32.isNaN val.toNat = false := decide_eq_false inf.not_lt
    have inf : binary32.isInf val.toNat = true := decide_eq_true inf.symm
    obtain ⟨noNaN', inf'⟩ := signed_infinity (binary32.negative val.toNat)
    rw [← widen_inf noNaN inf] at noNaN' inf'
    have read := read_inf ieee noNaN' inf'
    rw [yamlFormatFloat_inf _ _ noNaN' inf'] at read ⊢
    rw [read, readAsDouble, if_neg (Bool.eq_false_iff.mp noNaN), if_pos inf]

theorem signed32_lt {m : Nat} (s : Bool) (inside : m ≤ binary32.infinity) :
    binary32.signed s m < 2 ^ 32 := by
  have below := inside.trans_lt binary32.infinity_lt
  change m < 2 ^ 31 at below
  change binary32.signed s m < 2 ^ 31 * 2
  rw [Nat.mul_two, signed]
  split
  · exact Nat.add_lt_add_left below _
  · exact Nat.lt_add_left _ below

/-- A `float` has odd bits where its magnitude has. -/
theorem unsigned_odd (val : UInt32) : binary32.unsigned val.toNat % 2 = val.toNat % 2 := by
  change val.toNat % 2147483648 % 2 = val.toNat % 2
  omega

/-- The `float` that the double is converted to is the one that was written. -/
theorem readAsDouble_kept (narrows : fl.Narrows) (val : UInt32) :
    fl.toFloat (readAsDouble fl val) = val ↔ FloatKept fl val := by
  have parts : binary32.signed (binary32.negative val.toNat) (binary32.unsigned val.toNat) =
      val.toNat := signed_split val.toNat_lt
  rcases Nat.lt_or_ge (binary32.unsigned val.toNat) binary32.infinity with finite | large
  · obtain ⟨l, h⟩ := @floatRead_of_finite fl val finite
    obtain ⟨unsigned, noNaN', noInf'⟩ := h.unsigned
    have noNaN : binary32.isNaN val.toNat = false := decide_eq_false (Nat.lt_asymm finite)
    have sign : binary64.negative (readAsDouble fl val).toNat = binary32.negative val.toNat := by
      rw [h.bits, negative_signed (h.finite.trans binary64.infinity_lt)]
    have nearest : binary32.scale.nearest binary32.infinity l.value =
        binary32.unsigned val.toNat := h.readable.nearest
    have rounded := Scale.nearest_nearest l.value_nonneg binary32_middles (nearest ▸ finite)
    rw [nearest] at rounded
    rw [narrows _ noNaN', convert, if_neg (Bool.eq_false_iff.mp noNaN'),
      if_neg (Bool.eq_false_iff.mp noInf'), sign, FloatKept, if_neg (Bool.eq_false_iff.mp noNaN),
      unsigned, ← unsigned_odd]
    refine Iff.trans ?_ rounded
    have inside := binary32.nearest_le
      (q := binary64.magnitude (binary64.nearest l.value))
      (mul_nonneg (Nat.cast_nonneg _) (by positivity))
    rw [← UInt32.toNat_inj, UInt32.toNat_ofNat', Nat.mod_eq_of_lt (signed32_lt _ inside)]
    refine ⟨fun eq => ?_, fun eq => (congrArg _ eq).trans parts⟩
    have both := congrArg binary32.unsigned eq
    rwa [unsigned_signed (inside.trans_lt binary32.infinity_lt)] at both
  rcases large.lt_or_eq with nan | inf
  · have nan : binary32.isNaN val.toNat = true := decide_eq_true nan
    rw [FloatKept, readAsDouble, if_pos nan, if_pos nan]
  · have noNaN : binary32.isNaN val.toNat = false := decide_eq_false inf.not_lt
    obtain ⟨noNaN', inf'⟩ := signed_infinity (binary32.negative val.toNat)
    have isInf : binary32.isInf val.toNat = true := decide_eq_true inf.symm
    have bits := widen_inf noNaN isInf
    rw [← bits] at noNaN' inf'
    refine iff_of_true ?_ ?_
    · rw [readAsDouble, if_neg (Bool.eq_false_iff.mp noNaN), if_pos isInf,
        narrows _ noNaN', convert, if_neg (Bool.eq_false_iff.mp noNaN'), if_pos inf', bits,
        negative_signed binary64.infinity_lt, inf, parts, UInt32.ofNat_toNat]
    · rw [FloatKept, if_neg (Bool.eq_false_iff.mp noNaN), ← unsigned_odd, ← inf]
      intro odd
      exact absurd odd (by decide)

end Floats

/-! ## Elements -/

section Elements

variable {env : ElementEnv} {lib : ElementBuilder env.scalars.floats} {bytes : Bytes}

theorem signedValue_natAbs (v : Int) : signedValue (decide (v < 0)) v.natAbs = v := by
  unfold signedValue
  split
  · rename_i negative
    rw [Int.ofNat_natAbs_of_nonpos (Int.le_of_lt (of_decide_eq_true negative)), Int.neg_neg]
  · rename_i nonneg
    exact Int.natAbs_of_nonneg (Int.not_lt.mp fun negative => nonneg (decide_eq_true negative))

/-- An integer is stored with the bytes that it was loaded from. -/
theorem convert_nodeOfInt (lib : NumberBuilder) {t : CIntType} {i : IntType}
    (type : t.datatype.intType = some i) (length : bytes.length = t.datatype.size) :
    convertScalarToNative env t.datatype (nodeOfInt lib (loadInt env.pf.host i bytes)) =
      (.ok, some bytes) := by
  obtain ⟨i', type', size, some_bytes, low, high⟩ := datatype_intType t
  cases type.symm.trans type'
  have has := @loadInt_has env.pf.host i some_bytes bytes
  have range : t.InRange (loadInt env.pf.host i bytes) := by
    unfold IntType.Has at has
    rw [low, high] at has
    exact has
  have bounds := range_bounds range
  have limit : uint64Max = 18446744073709551615 := rfl
  have scalar : IntScalar (nodeOfInt lib (loadInt env.pf.host i bytes)) _ _ :=
    intScalar_nodeOfInt (by omega) fun negative => by omega
  obtain ⟨stored, convert, i', type', -, loaded⟩ := @convert_int env _ _ _ scalar t (by
    rwa [signedValue_natAbs])
  cases type.symm.trans type'
  have stored_length := (convertScalarToNative_stores env t.datatype _).length stored
    (congrArg Prod.snd convert)
  rw [signedValue_natAbs] at loaded
  have same : stored = bytes := by
    rw [← @storeInt_loadInt env.pf.host i stored (stored_length.trans size.symm), loaded,
      storeInt_loadInt (length.trans size.symm)]
  rw [convert, same]

theorem convert_nodeOfBool (b : Bool) :
    convertScalarToNative env .bool8 (nodeOfBool lib.toScalarBuilder b) =
      (.ok, some [if b then 1 else 0]) := by
  have text : yamlScalarIsBool (boolText b) = some b := by cases b <;> rfl
  have word : boolText b ≠ [zeroDigit] ∧ boolText b ≠ [zeroDigit + 1] := by
    cases b <;> exact ⟨by decide, by decide⟩
  have plain : PlainScalar (nodeOfBool lib.toScalarBuilder b) .bool :=
    ⟨rfl, lib.style_bool _ b text, fun t tag => by cases tag⟩
  obtain ⟨stored, convert, -, eq⟩ := @convert_bool env _ b (.bool plain text (.inr word))
  rw [convert, eq]

theorem convert_nodeOfFloat (ieee : env.scalars.floats.Ieee)
    (p : DecimalPoint env.scalars.floats.decimalPoint) (narrows : env.scalars.floats.Narrows)
    (length : bytes.length = 4) :
    ∃ stored, convertScalarToNative env .float32 (nodeOfFloat lib.toScalarBuilder
        env.scalars.floats.decimalPoint (UInt32.ofNat (loadBits env.pf.host bytes))) =
          (.ok, some stored) ∧
      (stored = bytes ↔ ElementKept env.scalars.floats env.pf.host .float32 bytes) := by
  have read := read_float ieee p (UInt32.ofNat (loadBits env.pf.host bytes))
  have plain := lib.style_float _ (congrArg Prod.fst read)
  have some_bytes : bytes ≠ [] := List.length_pos_iff.mp (by omega)
  have bound := @loadBits_lt env.pf.host bytes some_bytes
  rw [length] at bound
  refine ⟨_, convertToFloat_float read plain .float32, ?_⟩
  change storeInt env.pf.host ⟨false, 4⟩ (env.scalars.floats.toFloat _).toNat = bytes ↔ _
  rw [storeBits_eq_iff (by decide) (UInt32.toNat_lt _) length]
  refine Iff.trans ?_ (readAsDouble_kept narrows _)
  rw [← UInt32.toNat_inj, UInt32.toNat_ofNat', Nat.mod_eq_of_lt bound]

theorem convert_nodeOfDouble (ieee : env.scalars.floats.Ieee)
    (p : DecimalPoint env.scalars.floats.decimalPoint) (length : bytes.length = 8) :
    ∃ stored, convertScalarToNative env .float64 (nodeOfDouble lib.toScalarBuilder
        env.scalars.floats.decimalPoint (UInt64.ofNat (loadBits env.pf.host bytes))) =
          (.ok, some stored) ∧
      (stored = bytes ↔ ElementKept env.scalars.floats env.pf.host .float64 bytes) := by
  have read := read_format ieee p (UInt64.ofNat (loadBits env.pf.host bytes))
  have plain := lib.style_float _ (congrArg Prod.fst read)
  have some_bytes : bytes ≠ [] := List.length_pos_iff.mp (by omega)
  have bound := @loadBits_lt env.pf.host bytes some_bytes
  rw [length] at bound
  have bits : (UInt64.ofNat (loadBits env.pf.host bytes)).toNat = loadBits env.pf.host bytes := by
    rw [UInt64.toNat_ofNat', Nat.mod_eq_of_lt bound]
  rw [bits] at read
  refine ⟨_, convertToFloat_float read plain .float64, ?_⟩
  change storeInt env.pf.host ⟨false, 8⟩ (UInt64.toNat _) = bytes ↔ _
  rw [storeBits_eq_iff (by decide) (UInt64.toNat_lt _) length, ElementKept]
  by_cases nan : binary64.isNaN (loadBits env.pf.host bytes) = true
  · rw [if_pos nan]
    exact ⟨fun same _ => same, fun same => same nan⟩
  · rw [if_neg nan, bits]
    exact iff_of_true rfl fun nan' => absurd nan' nan

/-- What is stored for the node of an element. -/
theorem convert_nodeOfElement (ieee : env.scalars.floats.Ieee)
    (p : DecimalPoint env.scalars.floats.decimalPoint) (narrows : env.scalars.floats.Narrows)
    {dtype : ScalarDatatype} (supported : leafWidth env.pf dtype = some dtype.size)
    (length : bytes.length = dtype.size) :
    ∃ stored, convertScalarToNative env dtype (nodeOfElement lib.toNumberBuilder env.pf.host
        env.scalars.floats.decimalPoint dtype bytes) = (.ok, some stored) ∧
      (stored = bytes ↔ ElementKept env.scalars.floats env.pf.host dtype bytes) := by
  have ints (t : CIntType) {i : IntType} (type : t.datatype.intType = some i)
      (length : bytes.length = t.datatype.size) :
      ∃ stored, convertScalarToNative env t.datatype
        (nodeOfInt lib.toNumberBuilder (loadInt env.pf.host i bytes)) = (.ok, some stored) ∧
          (stored = bytes ↔ True) :=
    ⟨bytes, convert_nodeOfInt _ type length, iff_of_true rfl trivial⟩
  cases dtype with
  | int8 => exact ints .int8 rfl length
  | int16 => exact ints .int16 rfl length
  | int32 => exact ints .int32 rfl length
  | int64 => exact ints .int64 rfl length
  | uint8 => exact ints .uint8 rfl length
  | uint16 => exact ints .uint16 rfl length
  | uint32 => exact ints .uint32 rfl length
  | uint64 => exact ints .uint64 rfl length
  | float32 => exact convert_nodeOfFloat ieee p narrows length
  | float64 => exact convert_nodeOfDouble ieee p length
  | bool8 =>
    obtain ⟨b, rfl⟩ := List.length_eq_one_iff.mp length
    refine ⟨_, convert_nodeOfBool _, ?_⟩
    change _ ↔ [b] = [0] ∨ [b] = [1]
    by_cases zero : [b] = [0]
    · rw [zero]
      exact iff_of_true rfl (.inl rfl)
    · simp only [zero, ne_eq, not_false_eq_true, decide_true, if_true, false_or]
      exact eq_comm
  | float16 =>
    -- The elements are read as wider ones
    change (if env.pf.float16 then some 4 else none) = some 2 at supported
    split at supported
    · exact absurd (Option.some.inj supported) (by decide)
    · cases supported
  | unknown | complex64 | complex128 | ascii | ucs4 | structured => cases supported

end Elements

end LibAsdf
