import LibAsdf.Yaml.Scalar
import LibAsdf.Yaml.Node
import LibAsdf.Yaml.Tag

/-!
# Value handles

A handle on a node, with what type inference leaves on it. The tag that a
handle caches is the one of its node, and is not kept apart.

* `AsdfValue`: the handle; `AsdfValue.create`: a fresh one;
* `inferScalarType`: type inference, which runs once;
* `inferExtensionType`: the check for a registered extension;
* `inferScalarType_infers`: what it may change; `inferScalarType_inferable`: a
  second time it changes nothing and reports no error.
-/

namespace LibAsdf

/-- `asdf_value_type_t`. -/
inductive ValueType where
  | unknown
  | sequence
  | mapping
  | scalar
  | string
  | bool
  | null
  | int8
  | int16
  | int32
  | int64
  | uint8
  | uint16
  | uint32
  | uint64
  | float
  | double
  | extension
  deriving DecidableEq, Repr

/-- `asdf_yaml_common_tag_t`. -/
inductive CommonTag where
  | unknown
  | null
  | bool
  | int
  | float
  | str
  deriving DecidableEq, Repr

/-- `tag:yaml.org,2002:` -/
def yamlOrgPrefix : Bytes :=
  [116, 97, 103, 58, 121, 97, 109, 108, 46, 111, 114, 103, 44, 50, 48, 48, 50, 58]

/-- `asdf_common_tag_get`. -/
def commonTagGet (tag : Bytes) : CommonTag :=
  if tag = yamlOrgPrefix ++ [110, 117, 108, 108] then .null
  else if tag = yamlOrgPrefix ++ [98, 111, 111, 108] then .bool
  else if tag = yamlOrgPrefix ++ [105, 110, 116] then .int
  else if tag = yamlOrgPrefix ++ [102, 108, 111, 97, 116] then .float
  else if tag = yamlOrgPrefix ++ [115, 116, 114] then .str
  else .unknown

/-- A registered extension, told from others by its address. What it makes of a
node is an error code and an object. -/
structure Extension where
  address : Nat
  deserialize : Node → ValueErr × Nat

/-- What the inference runs in: the floating-point unit, the byte order of the
machine, and the extensions by their canonical tags. -/
structure ScalarEnv where
  floats : Floats
  littleEndian : Bool
  extensions : Bytes → Option Extension

/-- `asdf_extension_get`. -/
def ScalarEnv.extensionGet (env : ScalarEnv) (tag : Bytes) : Option Extension :=
  env.extensions (yamlTagCanonicalize tag)

namespace Node

def tag : Node → Option Bytes
  | scalar tag _ _ => tag
  | sequence tag _ => tag
  | mapping tag _ => tag

/-- `fy_node_get_style`, which is of no interest for containers. -/
def style : Node → ScalarStyle
  | scalar _ style _ => style
  | sequence _ _ => .any
  | mapping _ _ => .any

/-- `fy_node_get_scalar`. -/
def text : Node → Bytes
  | scalar _ _ text => text
  | sequence _ _ => []
  | mapping _ _ => []

end Node

/-- `asdf_value_t`. The union is kept as the 64 bits of its members; the
extension, which overlays them, has a field of its own. -/
structure AsdfValue where
  type : ValueType
  rawType : ValueType
  err : ValueErr
  node : Node
  extensionChecked : Bool
  scalar : UInt64
  ext : Option (Extension × Option Nat)

/-- `asdf_value_type_from_node`. -/
def valueTypeFromNode : Node → ValueType
  | .scalar _ _ _ => .scalar
  | .sequence _ _ => .sequence
  | .mapping _ _ => .mapping

namespace AsdfValue

/-- `asdf_value_create`. -/
def create (node : Node) : AsdfValue where
  type := valueTypeFromNode node
  rawType := valueTypeFromNode node
  err := .unknown
  node := node
  extensionChecked := false
  scalar := 0
  ext := none

/-- `scalar.u` -/
def u (value : AsdfValue) : Nat := value.scalar.toNat

/-- `scalar.i` -/
def i (value : AsdfValue) : Int :=
  if value.scalar.toNat < 9223372036854775808 then value.scalar.toNat
  else value.scalar.toNat - 18446744073709551616

/-- `scalar.b`: the first byte of the union in memory. -/
def b (env : ScalarEnv) (value : AsdfValue) : Bool :=
  if env.littleEndian then value.scalar.toNat % 256 ≠ 0
  else value.scalar.toNat / 72057594037927936 ≠ 0

/-- An assignment to `scalar.b`, which leaves the other bytes. -/
def withB (env : ScalarEnv) (value : AsdfValue) (b : Bool) : AsdfValue :=
  { value with
    scalar :=
      if env.littleEndian then
        UInt64.ofNat (value.scalar.toNat / 256 * 256 + b.toNat)
      else
        UInt64.ofNat (value.scalar.toNat % 72057594037927936 + b.toNat * 72057594037927936) }

end AsdfValue

/-- The bits of an `int64_t`. -/
def int64Bits (value : Int) : UInt64 := UInt64.ofNat (value % 18446744073709551616).toNat

/-! ## Inference -/

/-- `asdf_value_infer_null`. -/
def inferNull (value : AsdfValue) (text : Bytes) : AsdfValue × ValueErr :=
  if yamlScalarIsNull text then ({ value with type := .null, err := .ok }, .ok)
  else ({ value with type := .unknown, err := .parseFailure }, .parseFailure)

/-- `asdf_value_infer_bool`. -/
def inferBool (env : ScalarEnv) (value : AsdfValue) (text : Bytes) : AsdfValue × ValueErr :=
  match yamlScalarIsBool text with
  | some b => ({ value.withB env b with type := .bool, err := .ok }, .ok)
  | none => ({ value with type := .unknown, err := .parseFailure }, .parseFailure)

/-- The smallest unsigned type for a magnitude. -/
def unsignedType (magnitude : Nat) : ValueType :=
  if magnitude ≤ 255 then .uint8
  else if magnitude ≤ 65535 then .uint16
  else if magnitude ≤ 4294967295 then .uint32
  else .uint64

/-- The smallest signed type for a value that is not positive. -/
def signedType (value : Int) : ValueType :=
  if value ≥ -128 then .int8
  else if value ≥ -32768 then .int16
  else if value ≥ -2147483648 then .int32
  else .int64

/-- `asdf_value_infer_int`. -/
def inferInt (value : AsdfValue) (text : Bytes) : AsdfValue × ValueErr :=
  match yamlScalarIsInt text with
  | .ok (false, magnitude) =>
    ({ value with
        type := unsignedType magnitude, scalar := UInt64.ofNat magnitude, err := .ok }, .ok)
  | .ok (true, magnitude) =>
    if magnitude > 9223372036854775808 then
      ({ value with type := .unknown, err := .overflow }, .overflow)
    else
      ({ value with
          type := signedType (-magnitude), scalar := int64Bits (-magnitude), err := .ok }, .ok)
  | .error err => ({ value with type := .unknown, err := err }, err)

/-- `asdf_value_infer_float`. -/
def inferFloat (env : ScalarEnv) (value : AsdfValue) (text : Bytes) (allowInt : Bool) :
    AsdfValue × ValueErr :=
  let (err, d) := yamlScalarIsFloat env.floats text allowInt
  if err = .ok ∨ err = .overflow then
    ({ value with type := .double, scalar := d, err := err }, err)
  else ({ value with type := .unknown, err := err }, err)

/-- What an explicit tag of the common schema says, if there is one. -/
def inferTagged (env : ScalarEnv) (value : AsdfValue) (text : Bytes) :
    CommonTag → Option (AsdfValue × ValueErr)
  | .unknown => none
  | .null => some (inferNull value text)
  | .bool => some (inferBool env value text)
  | .int => some (inferInt value text)
  | .float => some (inferFloat env value text true)
  | .str => some ({ value with type := .string }, .ok)

/-- The heuristics for a plain scalar: null, int, bool, float, in that order. -/
def inferPlain (env : ScalarEnv) (value : AsdfValue) (text : Bytes) : AsdfValue × ValueErr :=
  let null := inferNull value text
  if null.2 = .ok then null
  else
    let int := inferInt null.1 text
    if int.2 = .ok ∨ int.2 = .overflow then int
    else
      let bool := inferBool env int.1 text
      if bool.2 = .ok then bool
      else
        let float := inferFloat env bool.1 text false
        if float.2 = .ok ∨ float.2 = .overflow then float
        else ({ float.1 with type := .string, err := .ok }, .ok)

def ScalarStyle.quoted : ScalarStyle → Bool
  | .singleQuoted | .doubleQuoted | .literal | .folded => true
  | .any | .plain => false

/-- `asdf_value_infer_scalar_type`. -/
def inferScalarType (env : ScalarEnv) (value : AsdfValue) : AsdfValue × ValueErr :=
  if value.type = .sequence ∨ value.type = .mapping then (value, .typeMismatch)
  -- Has already been inferred.
  else if value.type ≠ .scalar then (value, .ok)
  else if ¬ (value.err = .unknown ∨ value.err = .ok) then (value, value.err)
  else if value.node.style.quoted then ({ value with type := .string, err := .ok }, .ok)
  else
    match value.node.tag.bind fun tag => inferTagged env value value.node.text (commonTagGet tag) with
    | some inferred => inferred
    | none => inferPlain env value value.node.text

/-- `asdf_value_infer_extension_type`. -/
def inferExtensionType (env : ScalarEnv) (value : AsdfValue) : AsdfValue × ValueErr :=
  if value.extensionChecked then
    (value, if value.type ≠ .extension then .typeMismatch else .ok)
  else
    let value := { value with extensionChecked := true }
    match value.node.tag.bind env.extensionGet with
    | none => (value, .typeMismatch)
    | some ext => ({ value with type := .extension, ext := some (ext, none) }, .ok)

/-- The types that inference gives to a scalar. -/
def ValueType.inferable : ValueType → Bool
  | .scalar | .sequence | .mapping | .extension | .float => false
  | _ => true

section Inference

variable {env : ScalarEnv} {value : AsdfValue} {text : Bytes}

/-- What inference does to a handle: it gives it a type, a payload and an error
code, and leaves the rest. -/
structure Infers (value inferred : AsdfValue) : Prop where
  type : inferred.type.inferable = true
  rawType : inferred.rawType = value.rawType
  node : inferred.node = value.node
  extensionChecked : inferred.extensionChecked = value.extensionChecked
  ext : inferred.ext = value.ext

theorem Infers.trans {a b c : AsdfValue} (h : Infers a b) (h' : Infers b c) : Infers a c :=
  ⟨h'.type, h'.rawType.trans h.rawType, h'.node.trans h.node,
    h'.extensionChecked.trans h.extensionChecked, h'.ext.trans h.ext⟩

theorem inferNull_infers (value : AsdfValue) (text : Bytes) : Infers value (inferNull value text).1 := by
  unfold inferNull
  split <;> constructor <;> rfl

theorem inferBool_infers (env : ScalarEnv) (value : AsdfValue) (text : Bytes) :
    Infers value (inferBool env value text).1 := by
  unfold inferBool
  split <;> constructor <;> rfl

theorem unsignedType_inferable (magnitude : Nat) : (unsignedType magnitude).inferable = true := by
  unfold unsignedType
  repeat' split
  all_goals rfl

theorem signedType_inferable (v : Int) : (signedType v).inferable = true := by
  unfold signedType
  repeat' split
  all_goals rfl

theorem inferInt_infers (value : AsdfValue) (text : Bytes) : Infers value (inferInt value text).1 := by
  unfold inferInt
  split
  · exact ⟨unsignedType_inferable _, rfl, rfl, rfl, rfl⟩
  · split
    · exact ⟨rfl, rfl, rfl, rfl, rfl⟩
    · exact ⟨signedType_inferable _, rfl, rfl, rfl, rfl⟩
  · exact ⟨rfl, rfl, rfl, rfl, rfl⟩

theorem inferFloat_infers (env : ScalarEnv) (value : AsdfValue) (text : Bytes) (allowInt : Bool) :
    Infers value (inferFloat env value text allowInt).1 := by
  unfold inferFloat
  simp only
  split <;> constructor <;> rfl

theorem inferPlain_infers : Infers value (inferPlain env value text).1 := by
  unfold inferPlain
  simp only
  have null := inferNull_infers value text
  split
  · exact null
  have int := null.trans (inferInt_infers _ text)
  split
  · exact int
  have bool := int.trans (inferBool_infers env _ text)
  split
  · exact bool
  have float := bool.trans (inferFloat_infers env _ text false)
  split
  · exact float
  · exact ⟨rfl, float.rawType, float.node, float.extensionChecked, float.ext⟩

theorem inferTagged_infers {tag : CommonTag} {inferred : AsdfValue × ValueErr}
    (h : inferTagged env value text tag = some inferred) : Infers value inferred.1 := by
  cases tag with
  | unknown => cases h
  | null =>
    cases h
    exact inferNull_infers _ _
  | bool =>
    cases h
    exact inferBool_infers _ _ _
  | int =>
    cases h
    exact inferInt_infers _ _
  | float =>
    cases h
    exact inferFloat_infers _ _ _ _
  | str =>
    cases h
    exact ⟨rfl, rfl, rfl, rfl, rfl⟩

/-- What an explicit tag and the heuristics make of a plain scalar. -/
def inferUnquoted (env : ScalarEnv) (value : AsdfValue) : AsdfValue × ValueErr :=
  match value.node.tag.bind fun tag => inferTagged env value value.node.text (commonTagGet tag) with
  | some inferred => inferred
  | none => inferPlain env value value.node.text

theorem inferUnquoted_infers : Infers value (inferUnquoted env value).1 := by
  unfold inferUnquoted
  split
  · rename_i inferred eq
    obtain ⟨tag, -, eq⟩ := Option.bind_eq_some_iff.mp eq
    exact inferTagged_infers eq
  · exact inferPlain_infers

/-- Inference on a handle that has not been asked. -/
theorem inferScalarType_fresh (open_type : value.type = .scalar) (fresh : value.err = .unknown) :
    inferScalarType env value =
      if value.node.style.quoted then ({ value with type := .string, err := .ok }, .ok)
      else inferUnquoted env value := by
  unfold inferScalarType
  rw [if_neg (by simp [open_type]), if_neg (by simp [open_type]), if_neg (by simp [fresh])]
  rfl

theorem inferScalarType_infers (open_type : value.type = .scalar) (fresh : value.err = .unknown) :
    Infers value (inferScalarType env value).1 := by
  rw [inferScalarType_fresh open_type fresh]
  split
  · exact ⟨rfl, rfl, rfl, rfl, rfl⟩
  · exact inferUnquoted_infers

/-- Inference on a handle that has been asked: it says that all is well. -/
theorem inferScalarType_inferable (known : value.type.inferable = true) :
    inferScalarType env value = (value, .ok) := by
  unfold inferScalarType
  rw [if_neg, if_pos]
  · rintro type
    rw [type] at known
    cases known
  · rintro (type | type) <;>
    · rw [type] at known
      cases known

end Inference

end LibAsdf
