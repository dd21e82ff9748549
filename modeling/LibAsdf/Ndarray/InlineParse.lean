import LibAsdf.Datatype.Sizes
import LibAsdf.Ndarray.Read

/-!
# Inline arrays

`asdf_ndarray_deserialize_inline` and the parse of its data.

* `inferInlineArrayDatatype`: the walk that finds the shape and the type;
* `deserializeInline`: the array that is made of a sequence;
* `parseInlineArrayLevel`: the walk that fills the buffer;
* `inlineData`: what `asdf_ndarray_data` returns for it.
-/

namespace LibAsdf

/-! ## Shape and type -/

/-- `ndarray_type_inf_t`, without the string length, which nothing reads. -/
structure TypeInf where
  hasString : Bool
  hasFloat : Bool
  hasSigned : Bool
  hasUint : Bool
  intMin : Int
  uintMax : Nat

def TypeInf.start : TypeInf where
  hasString := false
  hasFloat := false
  hasSigned := false
  hasUint := false
  intMin := 9223372036854775807
  uintMax := 0

/-- `update_type_inference`. -/
def updateTypeInference (env : ScalarEnv) (elem : Node) (inf : TypeInf) : TypeInf :=
  let (elem, vtype) := valueGetType env (AsdfValue.create elem)
  match vtype with
  | .string => { inf with hasString := true }
  | .float | .double => { inf with hasFloat := true }
  | .int8 | .int16 | .int32 | .int64 =>
    match (valueAsInt env .int64 elem).2 with
    | (.ok, some (.int ival)) =>
      { inf with
        hasSigned := true
        intMin := if ival < inf.intMin then ival else inf.intMin
        uintMax := if ival ≥ 0 ∧ ival.toNat > inf.uintMax then ival.toNat else inf.uintMax }
    | _ => inf
  | .uint8 | .uint16 | .uint32 | .uint64 =>
    match (valueAsInt env .uint64 elem).2 with
    | (.ok, some (.int uval)) =>
      { inf with
        hasUint := true
        uintMax := if uval.toNat > inf.uintMax then uval.toNat else inf.uintMax }
    | _ => inf
  | _ => inf

/-- `infer_scalar_datatype`. -/
def inferScalarDatatype (inf : TypeInf) : ScalarDatatype :=
  if inf.hasString then .unknown
  else if inf.hasFloat then .float64
  else if inf.hasSigned then
    if inf.intMin ≥ -128 ∧ inf.uintMax ≤ 127 then .int8
    else if inf.intMin ≥ -32768 ∧ inf.uintMax ≤ 32767 then .int16
    else if inf.intMin ≥ -2147483648 ∧ inf.uintMax ≤ 2147483647 then .int32
    else .int64
  else if inf.hasUint then
    if inf.uintMax ≤ 255 then .uint8
    else if inf.uintMax ≤ 65535 then .uint16
    else if inf.uintMax ≤ 4294967295 then .uint32
    else .uint64
  else .bool8

/-- What the walk has recorded: the shape, one entry for each depth that it has
been to, and the types. -/
structure InlineShape where
  shape : List UInt64
  inf : TypeInf

/-- `asdf_sequence_size`: a count that is an `int`. -/
def sequenceSize (items : List Node) : Int := Int.bmod items.length 4294967296

def Node.isSequence : Node → Bool
  | sequence _ _ => true
  | _ => false

/-- The shape at a depth, which is recorded at the first visit and checked at the
others. No visit goes more than one level deeper than those before it. -/
def recordSize (depth : Nat) (size : UInt64) (st : InlineShape) : Except ValueErr InlineShape :=
  if st.shape.length ≤ depth then .ok { st with shape := st.shape ++ [size] }
  else if size ≠ st.shape.getD depth 0 then .error .parseFailure
  else .ok st

mutual

/-- `infer_inline_array_datatype`. -/
def inferInlineArrayDatatype (env : ScalarEnv) (depth : Nat) :
    Node → InlineShape → Except ValueErr InlineShape
  | .sequence _ items, st =>
    let size := sequenceSize items
    if size < 0 then .error .parseFailure
    else if size = 0 then .ok st
    else do
      let st ← recordSize depth (UInt64.ofNat size.toNat) st
      match items.head? with
      | none => .error .parseFailure
      | some first => inferElements env depth first.isSequence items st
  | _, _ => .error .parseFailure

/-- The loop over the elements, which must all be of the kind of the first. -/
def inferElements (env : ScalarEnv) (depth : Nat) (firstIsSeq : Bool) :
    List Node → InlineShape → Except ValueErr InlineShape
  | [], st => .ok st
  | elem :: rest, st =>
    if elem.isSequence ≠ firstIsSeq then .error .parseFailure
    else if elem.isSequence then do
      let st ← inferInlineArrayDatatype env (depth + 1) elem st
      inferElements env depth firstIsSeq rest st
    else
      inferElements env depth firstIsSeq rest { st with inf := updateTypeInference env elem st.inf }

end

/-! ## Deserialization -/

/-- The members of `asdf_ndarray_t` that inline data sets, and the sequence that
is kept for them. -/
structure InlineNdarray where
  shape : List UInt64
  datatype : Datatype
  byteorder : Byteorder
  inlineData : Node

/-- `data` -/
def dataKey : Bytes := [100, 97, 116, 97]

/-- The explicit datatype, if the mapping has one. -/
def inlineDatatype (env : ScalarEnv) (ndarrayMap : Node) : Except ValueErr (Option Datatype) :=
  match getPropertyImpl env ndarrayMap datatypeKey .unknown none with
  | (.ok, some (.value datatypeVal)) => (datatypeParse env .default datatypeVal).map some
  | (.notFound, _) => .ok none
  | (err, _) => .error err

/-- The shape that the mapping documents: a mismatch is only logged, so that
nothing but its errors counts. -/
def inlineShapeHint (env : ScalarEnv) (ndarrayMap : Node) : Except ValueErr Unit :=
  match getPropertyImpl env ndarrayMap shapeKey .sequence none with
  | (.ok, some (.value shapeSeq)) => (datatypeShapeParse env shapeSeq.items).map fun _ => ()
  | (.notFound, _) => .ok ()
  | (err, _) => .error err

/-- What the mapping around the data says, if there is one. -/
def inlineProperties (env : ScalarEnv) : Option Node → Except ValueErr (Option Datatype)
  | none => .ok none
  | some ndarrayMap => do
    let datatype ← inlineDatatype env ndarrayMap
    inlineShapeHint env ndarrayMap
    .ok datatype

/-- The datatype of an array that does not say it. -/
def implicitDatatype (inf : TypeInf) : Except ValueErr Datatype :=
  let inferred := inferScalarDatatype inf
  if inferred = .unknown then .error .parseFailure
  else .ok ⟨inferred, UInt64.ofNat inferred.size, none, .default, [], []⟩

/-- `asdf_ndarray_deserialize_inline`. -/
def deserializeInline (env : ScalarEnv) (host : Byteorder) (ndarrayMap : Option Node)
    (ndarraySeq : Node) : Except ValueErr InlineNdarray := do
  let explicit ← inlineProperties env ndarrayMap
  let st ← inferInlineArrayDatatype env 0 ndarraySeq ⟨[], .start⟩
  let datatype ← explicit.elim (implicitDatatype st.inf) .ok
  .ok ⟨st.shape, datatype, host, ndarraySeq⟩

/-! ## The data -/

/-- What the conversion of elements runs in: the accessors, the platform, and the
cast of a double to a `_Float16`. -/
structure ElementEnv where
  scalars : ScalarEnv
  pf : Platform
  toHalf : UInt64 → UInt16

/-- An accessor's value as it is stored: an integer of `size` bytes, a truth value. -/
def storeOut (host : Byteorder) (size : Nat) : Out → Option Bytes
  | .int v => some (storeInt host ⟨false, size⟩ v)
  | .bool b => some [if b then 1 else 0]
  | _ => none

def storeResult (host : Byteorder) (size : Nat) (result : Result) : ValueErr × Option Bytes :=
  (result.1, result.2.bind (storeOut host size))

/-- `asdf_value_as_double`, then the integers. -/
def elementAsDouble (env : ScalarEnv) (elem : Node) : ValueErr × UInt64 :=
  match inferredAs env (asDoubleArms env) (AsdfValue.create elem) with
  | (value, .typeMismatch, _) =>
    match valueAsInt env .int64 value with
    | (_, .ok, some (.int ival)) => (.ok, env.floats.ofInt ival)
    | (value, _, _) =>
      match (valueAsInt env .uint64 value).2 with
      | (.ok, some (.int uval)) => (.ok, env.floats.ofInt uval)
      | (err, _) => (err, env.floats.zero)
  | (_, err, some (.double dval)) => (err, dval)
  | (_, err, _) => (err, env.floats.zero)

/-- A double as an element of a floating-point type. -/
def storeDouble (env : ElementEnv) (dtype : ScalarDatatype) (dval : UInt64) : Bytes :=
  let bits := match dtype with
    | .float16 => (env.toHalf dval).toNat
    | .float32 => (env.scalars.floats.toFloat dval).toNat
    | _ => dval.toNat
  storeInt env.pf.host ⟨false, dtype.size⟩ bits

/-- The floating-point arms of `convert_scalar_to_native`. -/
def convertToFloat (env : ElementEnv) (dtype : ScalarDatatype) (elem : Node) :
    ValueErr × Option Bytes :=
  let (err, dval) := elementAsDouble env.scalars elem
  (err, if err = .ok then some (storeDouble env dtype dval) else none)

/-- `convert_scalar_to_native`: the error code, and what is written to `dst`. -/
def convertScalarToNative (env : ElementEnv) (dtype : ScalarDatatype) (elem : Node) :
    ValueErr × Option Bytes :=
  let value := AsdfValue.create elem
  let asInt (t : CIntType) := storeResult env.pf.host dtype.size (valueAsInt env.scalars t value).2
  match dtype with
  | .bool8 => storeResult env.pf.host dtype.size (valueAsBool env.scalars value).2
  | .int8 => asInt .int8
  | .int16 => asInt .int16
  | .int32 => asInt .int32
  | .int64 => asInt .int64
  | .uint8 => asInt .uint8
  | .uint16 => asInt .uint16
  | .uint32 => asInt .uint32
  | .uint64 => asInt .uint64
  | .float16 => if env.pf.float16 then convertToFloat env dtype elem else (.parseFailure, none)
  | .float32 | .float64 => convertToFloat env dtype elem
  | _ => (.parseFailure, none)

/-- The buffer and the number of elements in it, while the data is parsed. -/
structure InlineBuffer where
  buf : Bytes
  offset : UInt64

/-- An element at the leaf level. -/
def parseElement (env : ElementEnv) (dtype : ScalarDatatype) (elem : Node) (st : InlineBuffer) :
    Run (ValueErr × InlineBuffer) :=
  let (err, native) := convertScalarToNative env dtype elem
  let at_ := (st.offset * UInt64.ofNat dtype.size).toNat
  let write : Run Bytes := match native with
    | some bytes => store st.buf at_ bytes
    | none => .ret st.buf
  write.bind fun buf =>
    if err = .ok then .ret (.ok, { buf := buf, offset := st.offset + 1 })
    else .ret (err, { st with buf := buf })

mutual

/-- `parse_inline_array_level`. What is not a sequence has nothing to iterate over. -/
def parseInlineArrayLevel (env : ElementEnv) (a : InlineNdarray) (depth : Nat) :
    Node → InlineBuffer → Run (ValueErr × InlineBuffer)
  | .sequence _ items, st => parseElements env a depth items st
  | _, st => .ret (.ok, st)

/-- Its loop over the elements. -/
def parseElements (env : ElementEnv) (a : InlineNdarray) (depth : Nat) :
    List Node → InlineBuffer → Run (ValueErr × InlineBuffer)
  | [], st => .ret (.ok, st)
  | elem :: rest, st =>
    (if depth + 1 = a.shape.length then parseElement env a.datatype.type elem st
      else parseInlineArrayLevel env a (depth + 1) elem st).bind fun (err, st) =>
        if err = .ok then parseElements env a depth rest st else .ret (err, st)

end

/-- `asdf_ndarray_parse_inline_data`. -/
def parseInlineData (env : ElementEnv) (a : InlineNdarray) (buf : Bytes) :
    Run (ValueErr × InlineBuffer) :=
  parseInlineArrayLevel env a 0 a.inlineData ⟨buf, 0⟩

/-- What `asdf_datatype_size` returns, without the datatype that it is stored in. -/
def datatypeSize (datatype : Datatype) : UInt64 := (asdfDatatypeSize datatype).1

theorem datatypeSize_stored {datatype : Datatype} (stored : datatype.size ≠ 0) :
    datatypeSize datatype = datatype.size := by
  rw [datatypeSize, asdfDatatypeSize_stored (.inl stored)]

/-- `asdf_ndarray_size`, of a list of extents. -/
def inlineSize (a : InlineNdarray) : UInt64 :=
  if a.shape = [] then 0 else a.shape.foldl (· * ·) 1

/-- `asdf_ndarray_nbytes`. -/
def inlineNbytes (a : InlineNdarray) : UInt64 :=
  if inlineSize a = 0 then 0 else inlineSize a * datatypeSize a.datatype

/-- `asdf_ndarray_data` of an array with inline data that it has not parsed yet:
nothing, if there is no memory or an element cannot be converted. -/
def inlineData (env : ElementEnv) (a : InlineNdarray) : Run (Option Bytes) :=
  if inlineNbytes a = 0 then .ret (some [])
  else
    match malloc (inlineNbytes a).toNat with
    | none => .ret none
    | some buf => (parseInlineData env a buf).bind fun (err, st) =>
      .ret (if err = .ok then some st.buf else none)

end LibAsdf
