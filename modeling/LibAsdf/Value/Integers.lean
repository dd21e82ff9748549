import LibAsdf.Value.Access
import LibAsdf.Yaml.Decimal

/-!
# Integer accessors

Which integer a handle stands for, and what the accessors say about it.

* `StoredInt`: the handles on an integer, inferred or created;
* `Holds`: what the union of such a handle has;
* `asIntArms_eq`, `isIntArms_iff`, `isEquivalentType_iff`: the three tables of arms;
* `int_accessors_agree`: when they agree.
-/

namespace LibAsdf

/-- `asdf_value_of_int8` and its siblings. -/
def valueOfInt (t : CIntType) (v : Int) : AsdfValue :=
  { AsdfValue.create (.scalar none .plain (decimalText v)) with
    type := t.valueType, rawType := t.valueType, scalar := int64Bits v }

def unsignedIntType (magnitude : Nat) : CIntType :=
  if magnitude ≤ 255 then .uint8
  else if magnitude ≤ 65535 then .uint16
  else if magnitude ≤ 4294967295 then .uint32
  else .uint64

def signedIntType (v : Int) : CIntType :=
  if v ≥ -128 then .int8
  else if v ≥ -32768 then .int16
  else if v ≥ -2147483648 then .int32
  else .int64

/-- The type that inference gives to an integer text. -/
def inferredIntType (negative : Bool) (magnitude : Nat) : CIntType :=
  if negative then signedIntType (-magnitude) else unsignedIntType magnitude

def signedValue (negative : Bool) (magnitude : Nat) : Int :=
  if negative then -magnitude else magnitude

/-- A scalar that is read as an integer. -/
structure IntScalar (node : Node) (negative : Bool) (magnitude : Nat) : Prop where
  scalar : valueTypeFromNode node = .scalar
  plain : node.style.quoted = false
  tag : ∀ tag, node.tag = some tag → commonTagGet tag = .unknown ∨ commonTagGet tag = .int
  read : yamlScalarIsInt node.text = .ok (negative, magnitude)
  fits : negative = true → magnitude ≤ 9223372036854775808

/-- A handle on the integer `v`, with the type it is stored with and the type
that is inferred from its text. -/
inductive StoredInt : AsdfValue → CIntType → CIntType → Int → Prop
  | inferred {node negative magnitude} (scalar : IntScalar node negative magnitude) :
      StoredInt (AsdfValue.create node) (inferredIntType negative magnitude)
        (inferredIntType negative magnitude) (signedValue negative magnitude)
  | created (t : CIntType) (v : Int) (range : t.InRange v) :
      StoredInt (valueOfInt t v) t (inferredIntType (v < 0) v.natAbs) v

/-! ## What a handle on an integer has -/

/-- The handle has the type `t`, and its union the bits of `v`. -/
structure Holds (value : AsdfValue) (t : CIntType) (v : Int) : Prop where
  type : value.type = t.valueType
  range : t.InRange v
  bits : (value.scalar.toNat : Int) = v % 18446744073709551616

section Holds

variable {value : AsdfValue} {stored : CIntType} {v : Int}

theorem range_bounds (range : stored.InRange v) :
    -9223372036854775808 ≤ v ∧ v < 18446744073709551616 := by
  obtain ⟨low, high⟩ := range
  cases stored <;> simp [CIntType.min, CIntType.max, CIntType.signed, CIntType.modulus] at low high <;>
    omega

/-- The unsigned member. -/
theorem Holds.u_eq (h : Holds value stored v) :
    (value.u : Int) = if v < 0 then v + 18446744073709551616 else v := by
  have bounds := range_bounds h.range
  have bits := h.bits
  unfold AsdfValue.u
  split <;> omega

/-- The signed member, where the value has one. -/
theorem Holds.i_eq (h : Holds value stored v) (fits : v < 9223372036854775808) : value.i = v := by
  have bounds := range_bounds h.range
  have bits := h.bits
  unfold AsdfValue.i
  split <;> omega

theorem wrap_of_inRange {t : CIntType} {member : Int} (range : t.InRange v)
    (same : (member - v) % 18446744073709551616 = 0) : t.wrap member = v := by
  obtain ⟨low, high⟩ := range
  cases t <;>
    simp only [CIntType.wrap, CIntType.min, CIntType.max, CIntType.signed, CIntType.modulus, ↓reduceIte,
      Bool.false_eq_true, true_and, false_and] at low high ⊢ <;>
    (try split) <;> omega

/-- What an arm gives, where its test for an overflow is right. -/
theorem arm_eq {t : CIntType} {member : Int} {overflow : Bool}
    (same : (member - v) % 18446744073709551616 = 0) (right : overflow = false ↔ t.InRange v) :
    (t.InRange v → arm t member overflow = (.ok, some (.int v))) ∧
      (¬ t.InRange v → (arm t member overflow).1 = .overflow) := by
  constructor
  · intro range
    rw [arm, right.mpr range, wrap_of_inRange range same]
    rfl
  · intro outside
    cases overflow with
    | false => exact absurd (right.mp rfl) outside
    | true => rfl

/-! ## The tables of arms -/

/-- The bounds of each type, as numbers. -/
theorem inRange_iff {t : CIntType} : t.InRange v ↔ match t with
    | .int8 => -128 ≤ v ∧ v ≤ 127
    | .int16 => -32768 ≤ v ∧ v ≤ 32767
    | .int32 => -2147483648 ≤ v ∧ v ≤ 2147483647
    | .int64 => -9223372036854775808 ≤ v ∧ v ≤ 9223372036854775807
    | .uint8 => 0 ≤ v ∧ v ≤ 255
    | .uint16 => 0 ≤ v ∧ v ≤ 65535
    | .uint32 => 0 ≤ v ∧ v ≤ 4294967295
    | .uint64 => 0 ≤ v ∧ v ≤ 18446744073709551615 := by
  cases t <;> exact Iff.rfl

/-- Every accessor gives the integer if it fits, and reports an overflow if not. -/
theorem asIntArms_eq (h : Holds value stored v) (t : CIntType) :
    (t.InRange v → asIntArms value t = (.ok, some (.int v))) ∧
      (¬ t.InRange v → (asIntArms value t).1 = .overflow) := by
  have type := h.type
  have range := inRange_iff.mp h.range
  have u := h.u_eq
  have i := h.i_eq
  -- One arm for each stored type and each target; the test in it is that of the range.
  cases stored <;> cases t <;>
    simp only [asIntArms, asInt8Arms, asInt16Arms, asInt32Arms, asInt64Arms, asUint8Arms,
      asUint16Arms, asUint32Arms, asUint64Arms, type, CIntType.valueType] <;>
    apply arm_eq <;>
    simp only [inRange_iff, Bool.or_eq_false_iff, decide_eq_false_iff_not] at range ⊢ <;>
    grind

theorem asIntArms_ok (h : Holds value stored v) (t : CIntType) :
    (asIntArms value t).1 = .ok ↔ t.InRange v := by
  obtain ⟨inside, outside⟩ := asIntArms_eq h t
  by_cases range : t.InRange v
  · simp [inside range, range]
  · simp [outside range, range]

/-- Where the arms of the test are right: not for a negative value in a wider
signed type, whose unsigned member is compared; not for a large value in a wider
unsigned type, which is said to be a `uint8`; and not for a value between the
bounds of `uint16` and `uint32` in an `int64`. -/
structure TestAgrees (stored t : CIntType) (v : Int) : Prop where
  negative : stored.signed = true → t.signed = true → t.modulus < stored.modulus → v < 0 →
    ¬ t.InRange v
  wide : t = .uint8 → stored.signed = false → v ≤ 255
  middle : t = .uint32 → stored = .int64 → v ≤ 65535 ∨ 4294967295 < v

theorem testAgrees_iff {t : CIntType} : TestAgrees stored t v ↔
    (stored.signed = true → t.signed = true → t.modulus < stored.modulus → v < 0 → ¬ t.InRange v) ∧
      (t = .uint8 → stored.signed = false → v ≤ 255) ∧
      (t = .uint32 → stored = .int64 → v ≤ 65535 ∨ 4294967295 < v) :=
  ⟨fun h => ⟨h.negative, h.wide, h.middle⟩, fun ⟨a, b, c⟩ => ⟨a, b, c⟩⟩

theorem isIntArms_iff (h : Holds value stored v) (t : CIntType) :
    (isIntArms value t = true ↔ t.InRange v) ↔ TestAgrees stored t v := by
  have type := h.type
  have range := inRange_iff.mp h.range
  have u := h.u_eq
  have i := h.i_eq
  rw [testAgrees_iff]
  cases stored <;> cases t <;>
    simp only [isIntArms, isInt8Arms, isInt16Arms, isInt32Arms, isInt64Arms, isUint8Arms,
      isUint16Arms, isUint32Arms, isUint64Arms, type, CIntType.valueType, CIntType.signed,
      CIntType.modulus, inRange_iff, Bool.and_eq_true, decide_eq_true_eq, reduceCtorEq] at range ⊢ <;>
    grind

theorem isBoolArms_iff (h : Holds value stored v) : isBoolArms value = true ↔ v = 0 ∨ v = 1 := by
  have type := h.type
  have range := inRange_iff.mp h.range
  have u := h.u_eq
  have i := h.i_eq
  cases stored <;>
    simp only [isBoolArms, type, CIntType.valueType, Bool.or_eq_true, decide_eq_true_eq] at range ⊢ <;>
    grind

theorem asBoolArms_eq (env : ScalarEnv) (h : Holds value stored v) :
    asBoolArms env value = if stored = .uint8 then (.ok, some (.bool (value.b env))) else mismatch := by
  have type := h.type
  unfold asBoolArms
  cases stored <;> simp [type, CIntType.valueType]

theorem b_eq (env : ScalarEnv) (h : Holds value .uint8 v) (small : v = 0 ∨ v = 1) :
    value.b env = (decide (v = 1) && env.littleEndian) := by
  have bits := h.bits
  unfold AsdfValue.b
  rcases small with rfl | rfl
  · have zero : value.scalar.toNat = 0 := by omega
    simp [zero]
  · have one : value.scalar.toNat = 1 := by omega
    cases env.littleEndian <;> simp [one]

end Holds

/-- Where the lookup of a property takes the type inferred for the integer to be
equivalent: an unsigned type is not equivalent to a signed one with no more
bits, also for a value that fits it, and the signed type inferred for `-0` not to
an unsigned one. -/
structure LookupAgrees (written t : CIntType) (v : Int) : Prop where
  signed : t.signed = true → written.signed = false → t.modulus ≤ written.modulus → ¬ t.InRange v
  zero : t.signed = false → written.signed = true → v ≠ 0

theorem lookupAgrees_iff {written t : CIntType} {v : Int} : LookupAgrees written t v ↔
    (t.signed = true → written.signed = false → t.modulus ≤ written.modulus → ¬ t.InRange v) ∧
      (t.signed = false → written.signed = true → v ≠ 0) :=
  ⟨fun h => ⟨h.signed, h.zero⟩, fun ⟨a, b⟩ => ⟨a, b⟩⟩

/-- The table of equivalent types: those whose values all fit. -/
theorem isEquivalentType_eq (written t : CIntType) :
    isEquivalentType written.valueType t.valueType = true ↔
      if t.signed = written.signed then written.modulus ≤ t.modulus
      else t.signed = true ∧ written.modulus < t.modulus := by
  cases written <;> cases t <;> decide

theorem unsignedIntType_signed (magnitude : Nat) : (unsignedIntType magnitude).signed = false := by
  unfold unsignedIntType
  repeat' split
  all_goals rfl

theorem signedIntType_signed (v : Int) : (signedIntType v).signed = true := by
  unfold signedIntType
  repeat' split
  all_goals rfl

theorem unsignedIntType_least {magnitude : Nat} {t : CIntType} (fits : magnitude < t.modulus) :
    (unsignedIntType magnitude).modulus ≤ t.modulus := by
  unfold unsignedIntType
  repeat' split
  all_goals cases t <;> simp only [CIntType.modulus] at fits ⊢ <;> omega

theorem signedIntType_least {v : Int} {t : CIntType} (fits : -(t.modulus / 2) ≤ v) :
    (signedIntType v).modulus ≤ t.modulus := by
  unfold signedIntType
  repeat' split
  all_goals cases t <;> simp only [CIntType.modulus] at fits ⊢ <;> omega

theorem isEquivalentType_iff (negative : Bool) (magnitude : Nat) (t : CIntType) :
    (t.InRange (signedValue negative magnitude) →
        isEquivalentType (inferredIntType negative magnitude).valueType t.valueType = true) ↔
      LookupAgrees (inferredIntType negative magnitude) t (signedValue negative magnitude) := by
  rw [lookupAgrees_iff, isEquivalentType_eq]
  cases negative with
  | true =>
    have signed := signedIntType_signed (-magnitude)
    have value : signedValue true magnitude = -magnitude := rfl
    have type : inferredIntType true magnitude = signedIntType (-magnitude) := rfl
    rw [value, type, signed]
    cases kind : t.signed with
    | true =>
      simp only [↓reduceIte, Bool.true_eq_false, false_implies, implies_true, and_self, iff_true]
      intro range
      have low := range.1
      rw [CIntType.min, kind, if_pos rfl] at low
      exact signedIntType_least low
    | false =>
      simp only [Bool.false_eq_true, ↓reduceIte, false_and, imp_false, false_implies, true_and,
        forall_const]
      have low : t.min = 0 := by rw [CIntType.min, kind, if_neg (by decide)]
      have high : 0 ≤ t.max := by cases t <;> decide
      rw [CIntType.InRange, low]
      constructor
      · intro outside zero
        exact outside ⟨by omega, by omega⟩
      · intro nonzero range
        omega
  | false =>
    have signed := unsignedIntType_signed magnitude
    have value : signedValue false magnitude = magnitude := rfl
    have type : inferredIntType false magnitude = unsignedIntType magnitude := rfl
    rw [value, type, signed]
    cases kind : t.signed with
    | true =>
      simp only [Bool.true_eq_false, ↓reduceIte, true_and, forall_const, Bool.false_eq_true,
        false_implies, and_true]
      constructor
      · intro equivalent more range
        have := equivalent range
        omega
      · intro outside range
        by_contra more
        exact outside (by omega) range
    | false =>
      simp only [↓reduceIte, Bool.false_eq_true, false_implies, true_and, implies_true, iff_true]
      intro range
      have high := range.2
      rw [CIntType.max, kind, if_neg (by decide)] at high
      exact unsignedIntType_least (by omega)

/-! ## The accessors of a handle -/

section Accessors

variable {env : ScalarEnv} {value : AsdfValue} {stored written t : CIntType} {v : Int}

theorem valueType_ne (t : CIntType) : t.valueType ≠ .sequence ∧ t.valueType ≠ .mapping ∧
    t.valueType ≠ .scalar := by
  cases t <;> decide

theorem unsignedType_eq (magnitude : Nat) :
    unsignedType magnitude = (unsignedIntType magnitude).valueType := by
  unfold unsignedType unsignedIntType
  repeat' split
  all_goals rfl

theorem signedType_eq (v : Int) : signedType v = (signedIntType v).valueType := by
  unfold signedType signedIntType
  repeat' split
  all_goals rfl

theorem int64Bits_toNat (v : Int) : ((int64Bits v).toNat : Int) = v % 18446744073709551616 := by
  rw [int64Bits, UInt64.toNat_ofNat']
  omega

theorem unsignedIntType_range {magnitude : Nat} (small : magnitude ≤ uint64Max) :
    (unsignedIntType magnitude).InRange magnitude := by
  have limit : uint64Max = 18446744073709551615 := rfl
  unfold unsignedIntType
  repeat' split
  all_goals
    rw [inRange_iff]
    omega

theorem signedIntType_range (low : -9223372036854775808 ≤ v) (high : v ≤ 0) :
    (signedIntType v).InRange v := by
  unfold signedIntType
  repeat' split
  all_goals
    rw [inRange_iff]
    omega

theorem inferInt_eq {node : Node} {negative : Bool} {magnitude : Nat}
    (h : IntScalar node negative magnitude) (value : AsdfValue) :
    ∃ inferred, inferInt value node.text = (inferred, .ok) ∧ inferred.node = value.node ∧
      Holds inferred (inferredIntType negative magnitude) (signedValue negative magnitude) := by
  have small := yamlScalarIsInt_le h.read
  have limit : uint64Max = 18446744073709551615 := rfl
  unfold inferInt
  rw [h.read]
  cases negative with
  | false =>
    refine ⟨_, rfl, rfl, unsignedType_eq magnitude, unsignedIntType_range small, ?_⟩
    simp only [signedValue, UInt64.toNat_ofNat', Bool.false_eq_true, ↓reduceIte]
    omega
  | true =>
    have fits := h.fits rfl
    simp only [gt_iff_lt, Nat.not_lt.mpr fits, ↓reduceIte]
    exact ⟨_, rfl, rfl, signedType_eq _, signedIntType_range (by omega) (by omega),
      int64Bits_toNat _⟩

theorem inferScalarType_create (env : ScalarEnv) {node : Node} {negative : Bool} {magnitude : Nat}
    (h : IntScalar node negative magnitude) :
    ∃ inferred, inferScalarType env (AsdfValue.create node) = (inferred, .ok) ∧
      inferred.node = node ∧
      Holds inferred (inferredIntType negative magnitude) (signedValue negative magnitude) := by
  have noNull := not_null_of_int h.read
  have plain : inferPlain env (AsdfValue.create node) node.text =
      inferInt { AsdfValue.create node with type := .unknown, err := .parseFailure } node.text := by
    obtain ⟨inferred, eq, -, -⟩ := inferInt_eq h
      { AsdfValue.create node with type := .unknown, err := .parseFailure }
    simp [inferPlain, inferNull, noNull, eq]
  have tagged : node.tag.bind (fun tag =>
      inferTagged env (AsdfValue.create node) node.text (commonTagGet tag)) = none ∨
      node.tag.bind (fun tag =>
        inferTagged env (AsdfValue.create node) node.text (commonTagGet tag)) =
          some (inferInt (AsdfValue.create node) node.text) := by
    cases tag : node.tag with
    | none => exact .inl rfl
    | some tag' =>
      rcases h.tag tag' tag with unknown | int
      · exact .inl (by simp [unknown, inferTagged])
      · exact .inr (by simp [int, inferTagged])
  have fresh := @inferScalarType_fresh env (AsdfValue.create node) h.scalar rfl
  have unquoted : (AsdfValue.create node).node.style.quoted = false := h.plain
  rw [unquoted, if_neg (by decide)] at fresh
  have node_eq : (AsdfValue.create node).node = node := rfl
  rw [fresh, inferUnquoted, node_eq]
  rcases tagged with eq | eq
  · rw [eq]
    simp only [plain]
    exact inferInt_eq h _
  · rw [eq]
    exact inferInt_eq h _

theorem holds_created (range : t.InRange v) : Holds (valueOfInt t v) t v :=
  ⟨rfl, range, int64Bits_toNat v⟩

/-- A handle on an integer is inferred to hold it. -/
theorem StoredInt.infer (env : ScalarEnv) (h : StoredInt value stored written v) :
    ∃ inferred, inferScalarType env value = (inferred, .ok) ∧ Holds inferred stored v := by
  cases h with
  | inferred scalar =>
    obtain ⟨inferred, eq, -, holds⟩ := inferScalarType_create env scalar
    exact ⟨inferred, eq, holds⟩
  | created _ _ range =>
    have holds := holds_created range
    obtain ⟨sequence, mapping, scalar⟩ := valueType_ne stored
    refine ⟨_, ?_, holds⟩
    simp [inferScalarType, holds.type, sequence, mapping, scalar]

/-- The text of a handle on an integer is one of that integer. -/
theorem StoredInt.intScalar (h : StoredInt value stored written v) :
    ∃ negative magnitude, IntScalar value.node negative magnitude ∧
      written = inferredIntType negative magnitude ∧ v = signedValue negative magnitude := by
  cases h with
  | inferred scalar => exact ⟨_, _, scalar, rfl, rfl⟩
  | created _ _ range =>
    have bounds := range_bounds range
    have limit : uint64Max = 18446744073709551615 := rfl
    refine ⟨decide (v < 0), v.natAbs, ⟨rfl, rfl, nofun, ?_, ?_⟩, rfl, ?_⟩
    · exact yamlScalarIsInt_decimalText (by omega)
    · intro negative
      have := of_decide_eq_true negative
      omega
    · unfold signedValue
      by_cases negative : v < 0
      · simp only [negative, decide_true, ↓reduceIte]
        omega
      · simp only [negative, decide_false, Bool.false_eq_true, ↓reduceIte]
        omega

theorem inferredAs_eq {inferred : AsdfValue} (eq : inferScalarType env value = (inferred, .ok))
    (arms : AsdfValue → Result) : inferredAs env arms value = (inferred, arms inferred) := by
  simp [inferredAs, eq]

theorem inferredIs_eq {inferred : AsdfValue} (eq : inferScalarType env value = (inferred, .ok))
    (test : AsdfValue → Bool) : inferredIs env test value = (inferred, test inferred) := by
  simp [inferredIs, eq]

theorem valueAsType_int (t : CIntType) : valueAsType env value t.valueType = valueAsInt env t value := by
  cases t <;> rfl

theorem inferScalarType_inferred {inferred : AsdfValue} (holds : Holds inferred stored v) :
    inferScalarType env inferred = (inferred, .ok) := by
  obtain ⟨sequence, mapping, scalar⟩ := valueType_ne stored
  simp [inferScalarType, holds.type, sequence, mapping, scalar]

/-- The lookup of a property whose value is written as an integer. -/
theorem getPropertyImpl_int {mapping node : Node} {name : Bytes} {negative : Bool} {magnitude : Nat}
    (found : mapping.lookup name = some node) (h : IntScalar node negative magnitude)
    (t : CIntType) :
    (getPropertyImpl env mapping name t.valueType none).1 = .ok ↔
      isEquivalentType (inferredIntType negative magnitude).valueType t.valueType = true ∧
        t.InRange (signedValue negative magnitude) := by
  obtain ⟨inferred, eq, -, holds⟩ := inferScalarType_create env h
  have type : valueGetType env (AsdfValue.create node) =
      (inferred, (inferredIntType negative magnitude).valueType) := by
    have fresh : (AsdfValue.create node).type = .scalar := h.scalar
    simp [valueGetType, fresh, eq, holds.type]
  have known : t.valueType ≠ .unknown ∧ t.valueType ≠ .extension := by cases t <;> decide
  have again := inferredAs_eq (@inferScalarType_inferred env _ _ _ holds)
    fun value => asIntArms value t
  unfold getPropertyImpl
  simp only [found, type, known, ne_eq, not_false_eq_true, and_self, ↓reduceIte]
  cases isEquivalentType (inferredIntType negative magnitude).valueType t.valueType with
  | false => simp [mismatch]
  | true =>
    simp only [Bool.true_eq_false, ↓reduceIte, valueAsType_int, valueAsInt, again, true_and]
    exact asIntArms_ok holds t

/-- The accessors agree about a handle on `v` and a target type: the accessor of
the type gives exactly `v` where it fits and an overflow where it does not, the
test of the type says which, the test and the accessor for `bool` agree, and the
lookup of a property finds it in the same cases. -/
structure Agree (env : ScalarEnv) (value : AsdfValue) (v : Int) (t : CIntType) : Prop where
  gives : t.InRange v → (valueAsInt env t value).2 = (.ok, some (.int v))
  overflows : ¬ t.InRange v → (valueAsInt env t value).2.1 = .overflow
  test : (valueIsInt env t value).2 = true ↔ (valueAsInt env t value).2.1 = .ok
  bool : (valueIsBool env value).2 = true ↔ (valueAsBool env value).2.1 = .ok
  truth : (valueAsBool env value).2.1 = .ok →
    (valueAsBool env value).2.2 = some (.bool (decide (v = 1)))
  lookup : ∀ mapping name, mapping.lookup name = some value.node →
    ((getPropertyImpl env mapping name t.valueType none).1 = .ok ↔
      (valueAsInt env t value).2.1 = .ok)

/-- When they do: `bool` is only read from a `uint8`, where any value is taken
for one, and from the first byte of the union. -/
structure AgreesWhen (env : ScalarEnv) (stored written : CIntType) (v : Int) (t : CIntType) : Prop where
  test : TestAgrees stored t v
  bool : v = 0 ∨ v = 1 ↔ stored = .uint8
  truth : v = 1 → env.littleEndian = true
  lookup : LookupAgrees written t v

theorem bool_agrees_iff {inferred : AsdfValue} (env : ScalarEnv) (holds : Holds inferred stored v) :
    ((isBoolArms inferred = true ↔ (asBoolArms env inferred).1 = .ok) ∧
        ((asBoolArms env inferred).1 = .ok →
          (asBoolArms env inferred).2 = some (.bool (decide (v = 1))))) ↔
      (v = 0 ∨ v = 1 ↔ stored = .uint8) ∧ (v = 1 → env.littleEndian = true) := by
  rw [isBoolArms_iff holds, asBoolArms_eq env holds]
  by_cases byte : stored = .uint8
  · subst byte
    simp only [↓reduceIte, iff_true, forall_const, Option.some.injEq, Out.bool.injEq]
    apply and_congr_right
    intro small
    rw [b_eq env holds small]
    by_cases one : v = 1 <;> simp [one]
  · simp only [byte, ↓reduceIte, mismatch, reduceCtorEq, iff_false, false_implies, and_true]
    constructor
    · intro neither
      exact ⟨neither, fun one => absurd (.inr one) neither⟩
    · exact And.left

end Accessors

/-- When the accessors agree, for every handle on an integer and every target. -/
theorem int_accessors_agree (env : ScalarEnv) {value : AsdfValue} {stored written : CIntType}
    {v : Int} (h : StoredInt value stored written v) (t : CIntType) :
    Agree env value v t ↔ AgreesWhen env stored written v t := by
  obtain ⟨inferred, eq, holds⟩ := h.infer env
  obtain ⟨negative, magnitude, scalar, rfl, same⟩ := h.intScalar
  have as : valueAsInt env t value = (inferred, asIntArms inferred t) := inferredAs_eq eq _
  have is : valueIsInt env t value = (inferred, isIntArms inferred t) := inferredIs_eq eq _
  have asBool : valueAsBool env value = (inferred, asBoolArms env inferred) := inferredAs_eq eq _
  have isBool : valueIsBool env value = (inferred, isBoolArms inferred) := inferredIs_eq eq _
  have bools := bool_agrees_iff env holds
  have equivalent := isEquivalentType_iff negative magnitude t
  rw [← same] at equivalent
  constructor
  · rintro ⟨-, -, test, bool, truth, lookup⟩
    rw [is, as, asIntArms_ok holds] at test
    rw [isBool, asBool] at bool
    rw [asBool] at truth
    obtain ⟨one, little⟩ := bools.mp ⟨bool, truth⟩
    refine ⟨(isIntArms_iff holds t).mp test, one, little, equivalent.mp ?_⟩
    intro range
    let mapping := Node.mapping none [(.scalar none .plain [], value.node)]
    have found : mapping.lookup [] = some value.node := rfl
    have both := lookup mapping [] found
    rw [getPropertyImpl_int found scalar, as, asIntArms_ok holds, ← same] at both
    exact (both.mpr range).1
  · rintro ⟨test, one, little, lookup⟩
    obtain ⟨bool, truth⟩ := bools.mpr ⟨one, little⟩
    obtain ⟨inside, outside⟩ := asIntArms_eq holds t
    constructor
    · intro range
      rw [as]
      exact inside range
    · intro range
      rw [as]
      exact outside range
    · rw [is, as, asIntArms_ok holds]
      exact (isIntArms_iff holds t).mpr test
    · rw [isBool, asBool]
      exact bool
    · rw [asBool]
      exact truth
    · intro mapping name found
      rw [getPropertyImpl_int found scalar, as, asIntArms_ok holds, ← same]
      exact ⟨And.right, fun range => ⟨equivalent.mpr lookup range, range⟩⟩

/-- A floating-point unit for runs that never ask it. -/
def noFloats : Floats where
  strtod _ := (0, false)
  decimalPoint := [dot]
  mul _ _ := 0
  add _ _ := 0
  neg _ := 0
  isInf _ := false
  isFinite _ := true
  infinity := 0
  nan := 0
  zero := 0
  ofInt _ := 0
  toFloat _ := 0
  floatIsFinite _ := true

/-- A little-endian machine without extensions. -/
def plainScalars : ScalarEnv := ⟨noFloats, true, fun _ => none⟩

theorem int_accessors_agree_one :
    Agree plainScalars (valueOfInt .uint8 1) 1 .uint16 ↔ AgreesWhen plainScalars .uint8 .uint8 1 .uint16 :=
  int_accessors_agree plainScalars (.created .uint8 1 (by decide)) .uint16

/-- -5, created as an `int16`, is read as an `int8` but said not to be one: its
unsigned member is compared with the upper bound. -/
theorem negative_int16_not_int8 :
    (valueAsInt plainScalars .int8 (valueOfInt .int16 (-5))).2.1 = .ok ∧
      (valueIsInt plainScalars .int8 (valueOfInt .int16 (-5))).2 = false ∧
      ¬ Agree plainScalars (valueOfInt .int16 (-5)) (-5) .int8 := by
  have read : (valueAsInt plainScalars .int8 (valueOfInt .int16 (-5))).2.1 = .ok := by decide
  have tested : (valueIsInt plainScalars .int8 (valueOfInt .int16 (-5))).2 = false := by decide
  refine ⟨read, tested, ?_⟩
  intro agree
  have wrong := agree.test.mpr read
  rw [tested] at wrong
  cases wrong

end LibAsdf
