import LibAsdf.Value.Scalar

/-!
# Typed access to a value

The `asdf_value_is_*` and `asdf_value_as_*` functions, and the lookup of a
property of a mapping. An accessor answers with an error code and with what it
has written to `*out`.

* `CIntType`: the eight integer types;
* `valueIsType`, `valueAsType`: the two functions that select by type;
* `isEquivalentType`, `getPropertyImpl`: the property lookup.
-/

namespace LibAsdf

/-- The integer types of C that values are read as. -/
inductive CIntType where
  | int8
  | int16
  | int32
  | int64
  | uint8
  | uint16
  | uint32
  | uint64
  deriving DecidableEq, Repr

namespace CIntType

def valueType : CIntType → ValueType
  | int8 => .int8
  | int16 => .int16
  | int32 => .int32
  | int64 => .int64
  | uint8 => .uint8
  | uint16 => .uint16
  | uint32 => .uint32
  | uint64 => .uint64

def signed : CIntType → Bool
  | int8 | int16 | int32 | int64 => true
  | uint8 | uint16 | uint32 | uint64 => false

/-- Two to the number of bits. -/
def modulus : CIntType → Int
  | int8 | uint8 => 256
  | int16 | uint16 => 65536
  | int32 | uint32 => 4294967296
  | int64 | uint64 => 18446744073709551616

def min (t : CIntType) : Int := if t.signed then -(t.modulus / 2) else 0

def max (t : CIntType) : Int := if t.signed then t.modulus / 2 - 1 else t.modulus - 1

def InRange (t : CIntType) (v : Int) : Prop := t.min ≤ v ∧ v ≤ t.max

instance (t : CIntType) (v : Int) : Decidable (t.InRange v) := inferInstanceAs (Decidable (_ ∧ _))

/-- A conversion to the type. -/
def wrap (t : CIntType) (v : Int) : Int :=
  let rest := v % t.modulus
  if t.signed ∧ t.modulus / 2 ≤ rest then rest - t.modulus else rest

end CIntType

/-- What is written to `*out`. -/
inductive Out where
  | text (text : Bytes)
  | bool (b : Bool)
  | int (v : Int)
  | float (bits : UInt32)
  | double (bits : UInt64)
  | value (node : Node)
  | object (object : Nat)

abbrev Result := ValueErr × Option Out

section Arms

variable (env : ScalarEnv)

/-- An arm of an integer accessor: the union member is converted, and written
also when it does not fit. -/
def arm (t : CIntType) (member : Int) (overflow : Bool) : Result :=
  (if overflow then .overflow else .ok, some (.int (t.wrap member)))

def mismatch : Result := (.typeMismatch, none)

variable (value : AsdfValue)

def asInt8Arms : Result :=
  match value.type with
  | .int64 | .int32 | .int16 | .int8 => arm .int8 value.i (value.i > 127 || value.i < -128)
  | .uint64 | .uint32 | .uint16 | .uint8 => arm .int8 value.u (value.u > 127)
  | _ => mismatch

def asInt16Arms : Result :=
  match value.type with
  | .int64 | .int32 | .int16 | .int8 => arm .int16 value.i (value.i > 32767 || value.i < -32768)
  | .uint64 | .uint32 | .uint16 | .uint8 => arm .int16 value.u (value.u > 32767)
  | _ => mismatch

def asInt32Arms : Result :=
  match value.type with
  | .int64 | .int32 | .int16 | .int8 =>
    arm .int32 value.i (value.i > 2147483647 || value.i < -2147483648)
  | .uint64 | .uint32 | .uint16 | .uint8 => arm .int32 value.u (value.u > 2147483647)
  | _ => mismatch

def asInt64Arms : Result :=
  match value.type with
  | .int64 | .int32 | .int16 | .int8 => arm .int64 value.i false
  | .uint64 | .uint32 | .uint16 | .uint8 => arm .int64 value.u (value.u > 9223372036854775807)
  | _ => mismatch

def asUint8Arms : Result :=
  match value.type with
  | .uint8 => arm .uint8 value.u false
  | .uint64 | .uint32 | .uint16 => arm .uint8 value.u (value.u > 255)
  | .int8 => arm .uint8 value.i (value.i < 0)
  | .int64 | .int32 | .int16 => arm .uint8 value.i (value.i < 0 || value.i > 255)
  | _ => mismatch

def asUint16Arms : Result :=
  match value.type with
  | .uint16 | .uint8 => arm .uint16 value.u false
  | .uint64 | .uint32 => arm .uint16 value.u (value.u > 65535)
  | .int16 | .int8 => arm .uint16 value.i (value.i < 0)
  | .int64 | .int32 => arm .uint16 value.i (value.i < 0 || value.i > 65535)
  | _ => mismatch

def asUint32Arms : Result :=
  match value.type with
  | .uint32 | .uint16 | .uint8 => arm .uint32 value.u false
  | .int32 | .int16 | .int8 => arm .uint32 value.i (value.i < 0)
  | .uint64 | .int64 => arm .uint32 value.u (value.u > 4294967295)
  | _ => mismatch

def asUint64Arms : Result :=
  match value.type with
  | .uint64 | .uint32 | .uint16 | .uint8 => arm .uint64 value.u false
  | .int64 | .int32 | .int16 | .int8 => arm .uint64 value.i (value.i < 0)
  | _ => mismatch

def isInt8Arms : Bool :=
  match value.type with
  | .int8 => true
  | .int16 | .int32 | .int64 => value.i ≥ -128 && value.u ≤ 127
  | .uint8 | .uint16 | .uint32 | .uint64 => value.u ≤ 127
  | _ => false

def isInt16Arms : Bool :=
  match value.type with
  | .int16 | .int8 | .uint8 => true
  | .int32 | .int64 => value.i ≥ -32768 && value.u ≤ 32767
  | .uint16 | .uint32 | .uint64 => value.u ≤ 32767
  | _ => false

def isInt32Arms : Bool :=
  match value.type with
  | .int32 | .int16 | .int8 | .uint8 | .uint16 => true
  | .int64 => value.i ≥ -2147483648 && value.u ≤ 2147483647
  | .uint32 | .uint64 => value.u ≤ 2147483647
  | _ => false

def isInt64Arms : Bool :=
  match value.type with
  | .int64 | .int32 | .int16 | .int8 | .uint32 | .uint16 | .uint8 => true
  | .uint64 => value.u ≤ 9223372036854775807
  | _ => false

def isUint8Arms : Bool :=
  match value.type with
  | .uint8 | .uint16 | .uint32 | .uint64 => true
  | .int8 => value.i ≥ 0
  | .int16 | .int32 | .int64 => value.i ≥ 0 && value.i ≤ 255
  | _ => false

def isUint16Arms : Bool :=
  match value.type with
  | .uint16 | .uint8 => true
  | .uint32 | .uint64 => value.u ≤ 65535
  | .int16 | .int8 => value.i ≥ 0
  | .int32 | .int64 => value.i ≥ 0 && value.i ≤ 65535
  | _ => false

def isUint32Arms : Bool :=
  match value.type with
  | .uint32 | .uint16 | .uint8 => true
  | .uint64 => value.u ≤ 4294967295
  | .int32 | .int16 | .int8 => value.i ≥ 0
  | .int64 => value.i ≥ 0 && value.i ≤ 65535
  | _ => false

def isUint64Arms : Bool :=
  match value.type with
  | .uint64 | .uint32 | .uint16 | .uint8 => true
  | .int64 | .int32 | .int16 | .int8 => value.i ≥ 0
  | _ => false

def asIntArms : CIntType → Result
  | .int8 => asInt8Arms value
  | .int16 => asInt16Arms value
  | .int32 => asInt32Arms value
  | .int64 => asInt64Arms value
  | .uint8 => asUint8Arms value
  | .uint16 => asUint16Arms value
  | .uint32 => asUint32Arms value
  | .uint64 => asUint64Arms value

def isIntArms : CIntType → Bool
  | .int8 => isInt8Arms value
  | .int16 => isInt16Arms value
  | .int32 => isInt32Arms value
  | .int64 => isInt64Arms value
  | .uint8 => isUint8Arms value
  | .uint16 => isUint16Arms value
  | .uint32 => isUint32Arms value
  | .uint64 => isUint64Arms value

def isBoolArms : Bool :=
  match value.type with
  | .bool => true
  | .uint8 | .uint16 | .uint32 | .uint64 => value.u = 0 || value.u = 1
  | .int8 | .int16 | .int32 | .int64 => value.i = 0 || value.i = 1
  | _ => false

/-- A `uint8` that is neither 0 nor 1 falls through to the end. -/
def asBoolArms : Result :=
  if value.type = .uint8 ∧ (value.u = 0 ∨ value.u = 1) then (.ok, some (.bool (value.b env)))
  else if value.type ≠ .uint8 ∧ value.type ≠ .bool then mismatch
  else (.ok, some (.bool (value.b env)))

def isAnyIntArms : Bool :=
  match value.type with
  | .int64 | .uint64 | .int32 | .uint32 | .int16 | .uint16 | .int8 | .uint8 => true
  | _ => false

def asStringArms : Result :=
  if value.type ≠ .string then mismatch else (.ok, some (.text value.node.text))

def asFloatArms : Result :=
  match value.type with
  | .float => (.ok, some (.float (env.floats.toFloat value.scalar)))
  | .double =>
    let flt := env.floats.toFloat value.scalar
    (if !env.floats.floatIsFinite flt && env.floats.isFinite value.scalar then .overflow else .ok,
      some (.float flt))
  | _ => mismatch

def asDoubleArms : Result :=
  match value.type with
  | .double | .float => (.ok, some (.double value.scalar))
  | .int64 | .int32 | .int16 | .int8 => (.ok, some (.double (env.floats.ofInt value.i)))
  | .uint64 | .uint32 | .uint16 | .uint8 => (.ok, some (.double (env.floats.ofInt value.u)))
  | _ => mismatch

def isFloatArms : Bool := value.type = .double || value.type = .float

end Arms

section Accessors

variable (env : ScalarEnv)

/-- An `asdf_value_is_*` function: inference, then the test of the type. -/
def inferredIs (test : AsdfValue → Bool) (value : AsdfValue) : AsdfValue × Bool :=
  let (value, err) := inferScalarType env value
  (value, decide (err = .ok) && test value)

/-- An `asdf_value_as_*` function: inference, then the arms. -/
def inferredAs (arms : AsdfValue → Result) (value : AsdfValue) : AsdfValue × Result :=
  let (value, err) := inferScalarType env value
  if err = .ok then (value, arms value) else (value, err, none)

/-- `asdf_value_get_type`. -/
def valueGetType (value : AsdfValue) : AsdfValue × ValueType :=
  if value.type ≠ .scalar then (value, value.type)
  else
    let (value, _) := inferScalarType env value
    (value, value.type)

/-- `asdf_value_is_bool`. -/
def valueIsBool : AsdfValue → AsdfValue × Bool := inferredIs env isBoolArms

/-- `asdf_value_as_bool`. -/
def valueAsBool : AsdfValue → AsdfValue × Result := inferredAs env (asBoolArms env)

/-- `asdf_value_is_int8` and its siblings. -/
def valueIsInt (t : CIntType) : AsdfValue → AsdfValue × Bool :=
  inferredIs env fun value => isIntArms value t

/-- `asdf_value_as_int8` and its siblings. -/
def valueAsInt (t : CIntType) : AsdfValue → AsdfValue × Result :=
  inferredAs env fun value => asIntArms value t

/-- `asdf_value_as_scalar0`, which does not infer anything. -/
def valueAsScalar (value : AsdfValue) : Result :=
  if value.type = .mapping ∨ value.type = .sequence then mismatch
  else (.ok, some (.text value.node.text))

/-- `asdf_value_is_type`. -/
def valueIsType (value : AsdfValue) (type : ValueType) : AsdfValue × Bool :=
  match type with
  | .unknown => (value, false)
  | .sequence => (value, value.rawType = .sequence)
  | .mapping => (value, value.rawType = .mapping)
  | .scalar => inferredIs env (fun _ => true) value
  | .string => inferredIs env (fun value => value.type = .string) value
  | .bool => valueIsBool env value
  | .null => inferredIs env (fun value => value.type = .null) value
  | .int8 => valueIsInt env .int8 value
  | .int16 => valueIsInt env .int16 value
  | .int32 => valueIsInt env .int32 value
  | .int64 => valueIsInt env .int64 value
  | .uint8 => valueIsInt env .uint8 value
  | .uint16 => valueIsInt env .uint16 value
  | .uint32 => valueIsInt env .uint32 value
  | .uint64 => valueIsInt env .uint64 value
  | .float => inferredIs env isFloatArms value
  | .double => inferredIs env (fun value => value.type = .double) value
  | .extension =>
    let (value, err) := inferExtensionType env value
    (value, err = .ok)

/-- `asdf_value_as_type`. The copy that it makes of a value is one of its node. -/
def valueAsType (value : AsdfValue) (type : ValueType) : AsdfValue × Result :=
  match type with
  | .unknown => (value, .ok, some (.value value.node))
  | .sequence =>
    (value, if value.rawType = .sequence then (.ok, some (.value value.node)) else mismatch)
  | .mapping =>
    (value, if value.rawType = .mapping then (.ok, some (.value value.node)) else mismatch)
  | .scalar => (value, valueAsScalar value)
  | .string => inferredAs env asStringArms value
  | .bool => valueAsBool env value
  | .null =>
    let (value, is) := inferredIs env (fun value => value.type = .null) value
    (value, if is then (.ok, none) else mismatch)
  | .int8 => valueAsInt env .int8 value
  | .int16 => valueAsInt env .int16 value
  | .int32 => valueAsInt env .int32 value
  | .int64 => valueAsInt env .int64 value
  | .uint8 => valueAsInt env .uint8 value
  | .uint16 => valueAsInt env .uint16 value
  | .uint32 => valueAsInt env .uint32 value
  | .uint64 => valueAsInt env .uint64 value
  | .float => inferredAs env (asFloatArms env) value
  | .double => inferredAs env (asDoubleArms env) value
  | .extension => (value, mismatch)

/-- `asdf_value_is_extension_type`. -/
def valueIsExtensionType (value : AsdfValue) (address : Nat) : AsdfValue × Bool :=
  let (value, err) := inferExtensionType env value
  (value, decide (err = .ok) && value.ext.any fun e => e.1.address = address)

/-- `asdf_value_as_extension_type`. -/
def valueAsExtensionType (value : AsdfValue) (address : Nat) : AsdfValue × Result :=
  match valueIsExtensionType env value address with
  | (value, false) => (value, mismatch)
  | (value, true) =>
    match value.ext with
    | none => (value, mismatch)
    | some (_, some object) => (value, .ok, some (.object object))
    | some (ext, none) =>
      let (err, object) := ext.deserialize value.node
      ({ value with
          err := err, ext := some (ext, if err = .ok ∧ object ≠ 0 then some object else none) },
        err, some (.object object))

end Accessors

/-! ## Property lookup -/

/-- `is_equivalent_type`. -/
def isEquivalentType (type expected : ValueType) : Bool :=
  match expected with
  | .uint64 => [.uint64, .uint32, .uint16, .uint8].contains type
  | .int64 => [.int64, .uint32, .int32, .uint16, .int16, .uint8, .int8].contains type
  | .uint32 => [.uint32, .uint16, .uint8].contains type
  | .int32 => [.int32, .uint16, .int16, .uint8, .int8].contains type
  | .uint16 => [.uint16, .uint8].contains type
  | .int16 => [.int16, .uint8, .int8].contains type
  | .uint8 => [.uint8].contains type
  | .int8 => [.int8].contains type
  | .double =>
    [.double, .float, .int64, .int32, .int16, .int8, .uint64, .uint32, .uint16, .uint8].contains type
  | _ => type = expected

/-- `fy_node_mapping_lookup_value_by_simple_key`. -/
def Node.lookup (key : Bytes) : Node → Option Node
  | mapping _ pairs =>
    (pairs.find? fun pair =>
      match pair.1 with
      | scalar _ _ text => text = key
      | _ => false).map Prod.snd
  | _ => none

/-- `asdf_get_property_impl`; both the required and the optional lookup are this one. -/
def getPropertyImpl (env : ScalarEnv) (mapping : Node) (name : Bytes) (type : ValueType)
    (tag : Option Bytes) : Result :=
  match mapping.lookup name with
  | none => (.notFound, none)
  | some node =>
    let (prop, propType) := valueGetType env (AsdfValue.create node)
    if type ≠ .unknown ∧ type ≠ .extension then
      if isEquivalentType propType type = false then mismatch else (valueAsType env prop type).2
    else
      match type, tag with
      | .extension, some tag =>
        match env.extensionGet tag with
        | none => mismatch
        | some ext =>
          match valueIsExtensionType env prop ext.address with
          | (_, false) => mismatch
          | (prop, true) => (valueAsExtensionType env prop ext.address).2
      | type, _ => (valueAsType env prop type).2

end LibAsdf
