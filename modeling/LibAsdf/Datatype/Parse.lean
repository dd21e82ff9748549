import LibAsdf.Value.Build
import LibAsdf.Ndarray.Convert

/-!
# Datatypes

Datatypes of array elements and how they are read from a tree: the name of a
scalar type, a string type with its length, or a list of fields.

* `Datatype`: a datatype with its fields;
* `datatypeParse`: `asdf_datatype_parse`;
* `fieldParse`, `fieldsParse`: the fields of a structured datatype.
-/

namespace LibAsdf

/-- `asdf_datatype_t`. -/
structure Datatype where
  type : ScalarDatatype
  size : UInt64
  name : Option Bytes
  byteorder : Byteorder
  shape : List UInt64
  fields : List Datatype

/-! ## Names -/

/-- `name` -/
def nameKey : Bytes := [110, 97, 109, 101]

/-- `datatype` -/
def datatypeKey : Bytes := [100, 97, 116, 97, 116, 121, 112, 101]

/-- `byteorder` -/
def byteorderKey : Bytes := [98, 121, 116, 101, 111, 114, 100, 101, 114]

/-- `shape` -/
def shapeKey : Bytes := [115, 104, 97, 112, 101]

/-- `ascii` -/
def asciiStr : Bytes := [97, 115, 99, 105, 105]

/-- `ucs4` -/
def ucs4Str : Bytes := [117, 99, 115, 52]

/-- `asdf_scalar_datatype_to_string`. -/
def scalarDatatypeToString : ScalarDatatype → Bytes
  | .unknown => [60, 117, 110, 107, 110, 111, 119, 110, 62]
  | .int8 => [105, 110, 116, 56]
  | .uint8 => [117, 105, 110, 116, 56]
  | .int16 => [105, 110, 116, 49, 54]
  | .uint16 => [117, 105, 110, 116, 49, 54]
  | .int32 => [105, 110, 116, 51, 50]
  | .uint32 => [117, 105, 110, 116, 51, 50]
  | .int64 => [105, 110, 116, 54, 52]
  | .uint64 => [117, 105, 110, 116, 54, 52]
  | .float16 => [102, 108, 111, 97, 116, 49, 54]
  | .float32 => [102, 108, 111, 97, 116, 51, 50]
  | .float64 => [102, 108, 111, 97, 116, 54, 52]
  | .complex64 => [99, 111, 109, 112, 108, 101, 120, 54, 52]
  | .complex128 => [99, 111, 109, 112, 108, 101, 120, 49, 50, 56]
  | .bool8 => [98, 111, 111, 108, 56]
  | .ascii => asciiStr
  | .ucs4 => ucs4Str
  | .structured => [60, 115, 116, 114, 117, 99, 116, 117, 114, 101, 100, 62]

/-- The type of a family with the size `p`, which is made of `digits`. -/
def sizedDatatype (digits : Bytes) (sizes : List (Bytes × ScalarDatatype)) (p : Bytes) : ScalarDatatype :=
  if p ≠ [] ∧ p.all digits.contains = true then (sizes.lookup p).getD .unknown else .unknown

/-- `asdf_scalar_datatype_from_string`. -/
def scalarDatatypeFromString (dtype : Bytes) : ScalarDatatype :=
  if [105, 110, 116].isPrefixOf dtype then
    sizedDatatype [49, 50, 51, 52, 54, 56]
      [([56], .int8), ([49, 54], .int16), ([51, 50], .int32), ([54, 52], .int64)] (dtype.drop 3)
  else if [117, 105, 110, 116].isPrefixOf dtype then
    sizedDatatype [49, 50, 51, 52, 54, 56]
      [([56], .uint8), ([49, 54], .uint16), ([51, 50], .uint32), ([54, 52], .uint64)] (dtype.drop 4)
  else if [102, 108, 111, 97, 116].isPrefixOf dtype then
    sizedDatatype [49, 50, 51, 52, 54]
      [([49, 54], .float16), ([51, 50], .float32), ([54, 52], .float64)] (dtype.drop 5)
  else if [99, 111, 109, 112, 108, 101, 120].isPrefixOf dtype then
    sizedDatatype [49, 50, 52, 54, 56]
      [([54, 52], .complex64), ([49, 50, 56], .complex128)] (dtype.drop 7)
  else if dtype = scalarDatatypeToString .bool8 then .bool8
  else .unknown

/-- `asdf_byteorder_to_string`, as characters. -/
def Byteorder.text : Byteorder → Option Bytes
  | .little => some [108, 105, 116, 116, 108, 101]
  | .big => some [98, 105, 103]
  | .default => none

/-- `asdf_byteorder_from_string`, on characters. -/
def byteorderOfText (str : Bytes) : Option Byteorder :=
  if str = [108, 105, 116, 116, 108, 101] then some .little
  else if str = [98, 105, 103] then some .big
  else none

theorem Node.mem_children_of_lookup {node value : Node} {key : Bytes}
    (found : node.lookup key = some value) : value ∈ node.children := by
  cases node with
  | scalar tag style text => cases found
  | sequence tag items => cases found
  | mapping tag pairs =>
    obtain ⟨pair, find, rfl⟩ := Option.map_eq_some_iff.mp found
    exact List.mem_map_of_mem (List.mem_of_find?_eq_some find)

/-! ## Reading -/

section Parse

variable (env : ScalarEnv)

/-- `asdf_string_datatype_parse`. A type that it does not know is not an error. -/
def stringDatatypeParse (byteorder : Byteorder) (typeVal sizeVal : Node) : Except ValueErr Datatype := do
  let type ← asString0 env typeVal
  let size ← asUint64 env sizeVal
  if type = asciiStr then .ok ⟨.ascii, size, none, byteorder, [], []⟩
  else if type = ucs4Str then .ok ⟨.ucs4, size * 4, none, byteorder, [], []⟩
  else .ok ⟨.unknown, size, none, byteorder, [], []⟩

/-- `asdf_datatype_byteorder_parse`: the error code, and what is in `*out`. -/
def datatypeByteorderParse (parent : Node) (path : Bytes) (out : Byteorder) : ValueErr × Byteorder :=
  match getPropertyImpl env parent path .string none with
  | (.ok, some (.text str)) =>
    match byteorderOfText (cString str) with
    | some byteorder => (.ok, byteorder)
    | none => (.parseFailure, .little)
  | (err, _) => (err, out)

/-- `asdf_datatype_shape_parse`, on the items of the sequence. -/
def datatypeShapeParse : List Node → Except ValueErr (List UInt64)
  | [] => .ok []
  | item :: rest =>
    match asUint64 env item with
    | .ok dim => (datatypeShapeParse rest).map (dim :: ·)
    | .error _ => .error .parseFailure

/-- The items of a sequence. -/
def Node.items : Node → List Node
  | sequence _ items => items
  | _ => []

/-- The name of a field; one that is not a string is left out. -/
def fieldName (value : Node) : Option Bytes :=
  match getPropertyImpl env value nameKey .string none with
  | (.ok, some (.text str)) => some (cString str)
  | _ => none

/-- The shape of a field, by which its size is multiplied. -/
def fieldShapeParse (value : Node) (field : Datatype) : Except ValueErr Datatype :=
  match getPropertyImpl env value shapeKey .sequence none with
  | (.ok, some (.value shapeSeq)) =>
    (datatypeShapeParse env shapeSeq.items).map fun shape =>
      { field with shape := shape, size := shape.foldl (· * ·) field.size }
  | (.notFound, _) => .ok field
  | (err, _) => .error err

/-- `asdf_structured_datatype_field_parse`, behind the datatype of the field. -/
def fieldAttributesParse (value : Node) (field : Datatype) : Except ValueErr Datatype :=
  let (err, byteorder) := datatypeByteorderParse env value byteorderKey field.byteorder
  if err = .ok ∨ err = .notFound then
    fieldShapeParse env value { field with name := fieldName env value, byteorder := byteorder }
  else .error err

/-- The end of `asdf_datatype_parse`: the name of a scalar type. -/
def scalarDatatypeParse (byteorder : Byteorder) (value : Node) : Except ValueErr Datatype :=
  match asString0 env value with
  | .ok dtype =>
    let type := scalarDatatypeFromString dtype
    .ok ⟨type, UInt64.ofNat type.size, none, byteorder, [], []⟩
  | .error _ => .error .parseFailure

/-- A structured datatype with its fields. -/
def structuredDatatype (byteorder : Byteorder) (fields : List Datatype) : Datatype :=
  ⟨.structured, fields.foldl (fun size field => size + field.size) 0, none, byteorder, [], fields⟩

/-- A sequence of two whose second item is an integer is a string datatype. -/
def stringItems : List Node → Option (Node × Node)
  | [typeVal, stringlen] => if isUint64 env stringlen then some (typeVal, stringlen) else none
  | _ => none

mutual

/-- `asdf_datatype_parse`. -/
def datatypeParse (byteorder : Byteorder) (value : Node) : Except ValueErr Datatype :=
  match value with
  | .sequence _ items =>
    match stringItems env items with
    | some (typeVal, sizeVal) => stringDatatypeParse env byteorder typeVal sizeVal
    | none => (fieldsParse byteorder items).map (structuredDatatype byteorder)
  | value => scalarDatatypeParse env byteorder value
termination_by (sizeOf value, 0)

/-- The loop of `asdf_structured_datatype_parse`. -/
def fieldsParse (byteorder : Byteorder) (items : List Node) : Except ValueErr (List Datatype) :=
  match items with
  | [] => .ok []
  | item :: rest => do
    let field ← fieldParse byteorder item
    let fields ← fieldsParse byteorder rest
    .ok (field :: fields)
termination_by (sizeOf items, 0)

/-- An item of a structured datatype. -/
def fieldParse (byteorder : Byteorder) (item : Node) : Except ValueErr Datatype :=
  match item with
  | .mapping tag pairs =>
    match _found : (Node.mapping tag pairs).lookup datatypeKey with
    | none => .error .parseFailure
    | some datatypeVal => do
      let field ← datatypeParse byteorder datatypeVal
      fieldAttributesParse env (.mapping tag pairs) field
  | item => datatypeParse byteorder item
termination_by (sizeOf item, 1)
decreasing_by
  · apply Prod.Lex.left
    exact Node.sizeOf_lt_of_mem_children (Node.mem_children_of_lookup ‹_›)
  · apply Prod.Lex.right
    decide

end

end Parse

end LibAsdf
