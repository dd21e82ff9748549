import LibAsdf.Datatype.Serialize
import LibAsdf.Ndarray.InlineParse

/-!
# Arrays as mappings

`asdf_ndarray_deserialize` and `asdf_ndarray_serialize`.

* `ndarrayParseBlockData`, `ndarrayDeserialize`: an array from its mapping;
* `ndarraySerializeBlockData`, `ndarraySerialize`: the mapping of an array.
-/

namespace LibAsdf

/-! ## Reading -/

/-- `asdf_ndarray_t`, with the sequence of an array whose data is inline. -/
structure NdarrayValue where
  source : UInt64
  shape : List UInt64
  datatype : Datatype
  byteorder : Byteorder
  offset : UInt64
  strides : Option (List Int)
  inlineData : Option Node

/-- `source` -/
def sourceKey : Bytes := [115, 111, 117, 114, 99, 101]

/-- `offset` -/
def offsetKey : Bytes := [111, 102, 102, 115, 101, 116]

/-- `strides` -/
def stridesKey : Bytes := [115, 116, 114, 105, 100, 101, 115]

/-- `asdf_value_as_int64` on a fresh handle. -/
def asInt64 (env : ScalarEnv) (node : Node) : Except ValueErr Int :=
  match (valueAsInt env .int64 (AsdfValue.create node)).2 with
  | (.ok, some (.int v)) => .ok v
  | (err, _) => .error err

/-- The loop of `asdf_ndarray_strides_parse`; `none` is the jump to `failure`. -/
def strideItems (env : ScalarEnv) : List Node → Option (List Int)
  | [] => some []
  | item :: rest =>
    match asInt64 env item with
    | .ok stride => if stride = 0 then none else (strideItems env rest).map (stride :: ·)
    | .error _ => none

/-- `asdf_ndarray_strides_parse`. At `failure` the error code is still that of
success, and `*out` is left as it was. -/
def ndarrayStridesParse (env : ScalarEnv) (items : List Node) (ndim : Nat) :
    ValueErr × Option (List Int) :=
  if items.length ≠ ndim then (.ok, none) else (.ok, strideItems env items)

/-- The offset, which is zero where there is none. -/
def ndarrayOffset (env : ScalarEnv) (ndarrayMap : Node) : Except ValueErr UInt64 :=
  match getPropertyImpl env ndarrayMap offsetKey .uint64 none with
  | (.ok, some (.int offset)) => .ok (UInt64.ofNat offset.toNat)
  | (.notFound, _) => .ok 0
  | (err, _) => .error err

/-- The strides, if there are any. -/
def ndarrayStrides (env : ScalarEnv) (ndarrayMap : Node) (ndim : Nat) :
    Except ValueErr (Option (List Int)) :=
  match getPropertyImpl env ndarrayMap stridesKey .sequence none with
  | (.ok, some (.value stridesSeq)) =>
    match ndarrayStridesParse env stridesSeq.items ndim with
    | (.ok, strides) => .ok strides
    | (err, _) => .error err
  | (.notFound, _) => .ok none
  | (err, _) => .error err

/-- The shape, which is required. -/
def ndarrayShape (env : ScalarEnv) (ndarrayMap : Node) : Except ValueErr (List UInt64) :=
  match getPropertyImpl env ndarrayMap shapeKey .sequence none with
  | (.ok, some (.value shapeSeq)) => datatypeShapeParse env shapeSeq.items
  | (err, _) => .error err

/-- The byte order; that there is none is an error. -/
def ndarrayByteorder (env : ScalarEnv) (ndarrayMap : Node) : Except ValueErr Byteorder :=
  match datatypeByteorderParse env ndarrayMap byteorderKey .little with
  | (.ok, byteorder) => .ok byteorder
  | (err, _) => .error err

/-- What `asdf_ndarray_parse_block_data` finds. -/
structure BlockData where
  shape : List UInt64
  byteorder : Byteorder
  offset : UInt64
  strides : Option (List Int)

/-- `asdf_ndarray_parse_block_data`. -/
def ndarrayParseBlockData (env : ScalarEnv) (ndarrayMap : Node) : Except ValueErr BlockData := do
  let shape ← ndarrayShape env ndarrayMap
  let byteorder ← ndarrayByteorder env ndarrayMap
  let offset ← ndarrayOffset env ndarrayMap
  let strides ← ndarrayStrides env ndarrayMap shape.length
  .ok ⟨shape, byteorder, offset, strides⟩

/-- The array of inline data; the other members are zero. -/
def InlineNdarray.toValue (a : InlineNdarray) : NdarrayValue :=
  ⟨0, a.shape, a.datatype, a.byteorder, 0, none, some a.inlineData⟩

/-- An array in a block. -/
def deserializeBlock (env : ScalarEnv) (ndarrayMap : Node) (source : UInt64) :
    Except ValueErr NdarrayValue := do
  let data ← ndarrayParseBlockData env ndarrayMap
  match getPropertyImpl env ndarrayMap datatypeKey .unknown none with
  | (.ok, some (.value datatypeVal)) =>
    let datatype ← datatypeParse env data.byteorder datatypeVal
    .ok ⟨source, data.shape, datatype, data.byteorder, data.offset, data.strides, none⟩
  | (err, _) => .error err

/-- An array without a source. -/
def deserializeData (env : ScalarEnv) (host : Byteorder) (ndarrayMap : Node) :
    Except ValueErr NdarrayValue :=
  match getPropertyImpl env ndarrayMap dataKey .sequence none with
  | (.ok, some (.value ndarraySeq)) =>
    (deserializeInline env host (some ndarrayMap) ndarraySeq).map InlineNdarray.toValue
  | (.notFound, _) => .error .parseFailure
  | (err, _) => .error err

/-- `asdf_ndarray_deserialize`. -/
def ndarrayDeserialize (env : ScalarEnv) (host : Byteorder) (value : Node) :
    Except ValueErr NdarrayValue :=
  match value with
  | .sequence tag items =>
    (deserializeInline env host none (.sequence tag items)).map InlineNdarray.toValue
  | .mapping tag pairs =>
    match getPropertyImpl env (.mapping tag pairs) sourceKey .uint64 none with
    | (.ok, some (.int source)) => deserializeBlock env (.mapping tag pairs) (UInt64.ofNat source.toNat)
    | (.notFound, _) => deserializeData env host (.mapping tag pairs)
    | (err, _) => .error err
  | .scalar _ _ _ => .error .typeMismatch

/-! ## Writing -/

/-- What the YAML library does with negative numbers as well. -/
structure NumberBuilder extends ScalarBuilder where
  /-- A number needs no quotes. -/
  style_number : ∀ v, (style (decimalText v)).quoted = false

section Serialize

variable (lib : NumberBuilder) (env : ScalarEnv)

/-- `asdf_node_of_int64`. -/
def nodeOfInt (v : Int) : Node := .scalar none (lib.style (decimalText v)) (decimalText v)

/-- `asdf_ndarray_serialize_strides`. -/
def ndarraySerializeStrides (strides : List Int) (pairs : List (Node × Node)) :
    Option (List (Node × Node)) :=
  if strides.all fun stride => stride = 1 then some pairs
  else mappingSetNode lib.toScalarBuilder env.floats pairs stridesKey
    (.sequence none (strides.map (nodeOfInt lib))) false

/-- The offset, unless it is zero. -/
def setOffset (offset : UInt64) (pairs : List (Node × Node)) : Option (List (Node × Node)) :=
  if offset > 0 then
    mappingSetNode lib.toScalarBuilder env.floats pairs offsetKey
      (nodeOfUint lib.toScalarBuilder offset.toNat) false
  else some pairs

/-- The strides, if the array has any. -/
def setStrides (strides : Option (List Int)) (pairs : List (Node × Node)) :
    Option (List (Node × Node)) :=
  match strides with
  | some strides => ndarraySerializeStrides lib env strides pairs
  | none => some pairs

/-- `asdf_ndarray_serialize_block_data`. -/
def ndarraySerializeBlockData (a : NdarrayValue) (pairs : List (Node × Node)) :
    Option (List (Node × Node)) := do
  let shapeSeq := a.shape.map fun dim => nodeOfUint lib.toScalarBuilder dim.toNat
  let pairs ← mappingSetNode lib.toScalarBuilder env.floats pairs shapeKey (.sequence none shapeSeq) false
  let byteorder ← (if a.byteorder = .default then Byteorder.little else a.byteorder).text
  let pairs ← mappingSetString lib.toScalarBuilder env.floats pairs byteorderKey byteorder
  let pairs ← setOffset lib env a.offset pairs
  setStrides lib env a.strides pairs

/-- The index of a block in a file, which has its blocks in memory. -/
abbrev BlockIndex := { index : UInt64 // index.toNat < 9223372036854775808 }

/-- Where an array is when it is written: the block that its handle has open, or
that was made for it, by the index under which it is in the file; whether it is
to be stored inline; and the sequence that is then made of it. -/
structure Storage where
  block : Option BlockIndex
  inline : Bool
  inlineSeq : Option Node

/-- The data of an array: inline, or the index of its block; without any data the
sequence is empty. -/
def setData (a : NdarrayValue) (storage : Storage) : Option (List (Node × Node)) :=
  let set (key : Bytes) (value : Node) (pairs : List (Node × Node)) :=
    mappingSetNode lib.toScalarBuilder env.floats pairs key value false
  if storage.block.isNone ∧ a.inlineData.isNone then set dataKey (.sequence none []) []
  else if storage.inline then do
    let inlineSeq ← storage.inlineSeq
    let pairs ← set dataKey inlineSeq []
    if a.shape = [] then set shapeKey (.sequence none []) pairs else some pairs
  else do
    let block ← storage.block
    set sourceKey (nodeOfInt lib block.1.toNat) []

/-- The array is written inline. -/
def Storage.isInline (storage : Storage) (a : NdarrayValue) : Bool :=
  (storage.block.isNone && a.inlineData.isNone) || storage.inline

/-- `asdf_ndarray_serialize`. -/
def ndarraySerialize (a : NdarrayValue) (storage : Storage) : Option Node := do
  let pairs ← setData lib env a storage
  let datatypeVal ← datatypeSerialize lib.toScalarBuilder env a.datatype
  let pairs ← mappingSetNode lib.toScalarBuilder env.floats pairs datatypeKey datatypeVal false
  let pairs ← if storage.isInline a then some pairs else ndarraySerializeBlockData lib env a pairs
  some (.mapping none pairs)

end Serialize

end LibAsdf
