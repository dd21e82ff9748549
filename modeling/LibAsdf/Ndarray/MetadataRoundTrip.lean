import LibAsdf.Ndarray.Deserialize
import LibAsdf.Ndarray.InlineArrays

/-!
# The metadata of an array comes back

What the mapping that is made of an array in a block is read back as.

* `getPropertyImpl_intValue`, `strideItems_written`: numbers that were written;
* `BlockNode.deserialize`: the mapping of an array whose block is known;
* `ndarray_metadata`: when shape, offset, strides and byte order come back, and
  strides that are no strides are not accepted.
-/

namespace LibAsdf

variable {env : ScalarEnv} {lib : NumberBuilder}

/-! ## Numbers -/

/-- The value of an integer property. -/
theorem getPropertyImpl_intValue {mapping node : Node} {name : Bytes} {negative : Bool}
    {magnitude : Nat} (found : mapping.lookup name = some node)
    (h : IntScalar node negative magnitude) (t : CIntType)
    (equivalent : isEquivalentType (inferredIntType negative magnitude).valueType t.valueType = true)
    (range : t.InRange (signedValue negative magnitude)) :
    getPropertyImpl env mapping name t.valueType none =
      (.ok, some (.int (signedValue negative magnitude))) := by
  obtain ⟨inferred, eq, -, holds⟩ := inferScalarType_create env h
  have type : valueGetType env (AsdfValue.create node) =
      (inferred, (inferredIntType negative magnitude).valueType) := by
    have fresh : (AsdfValue.create node).type = .scalar := h.scalar
    simp [valueGetType, fresh, eq, holds.type]
  have known : t.valueType ≠ .unknown ∧ t.valueType ≠ .extension := by cases t <;> decide
  have again := inferredAs_eq (@inferScalarType_inferred env _ _ _ holds)
    fun value => asIntArms value t
  unfold getPropertyImpl
  simp only [found, type, known, ne_eq, not_false_eq_true, and_self, ↓reduceIte]
  rw [if_neg (by simp [equivalent]), valueAsType_int, valueAsInt, again]
  exact (asIntArms_eq holds t).1 range

theorem getPropertyImpl_uint64 {mapping : Node} {name : Bytes} {sb : ScalarBuilder} {v : UInt64}
    (found : mapping.lookup name = some (nodeOfUint sb v.toNat)) :
    getPropertyImpl env mapping name .uint64 none = (.ok, some (.int v.toNat)) := by
  have lt := v.toNat_lt
  have small : v.toNat ≤ uint64Max := by
    have limit : uint64Max = 18446744073709551615 := rfl
    omega
  have scalar : IntScalar (nodeOfUint sb v.toNat) false v.toNat := intScalar_nodeOfUint small
  apply getPropertyImpl_intValue found scalar .uint64
  · have unsigned (t : CIntType) (h : t.signed = false) : isEquivalentType t.valueType .uint64 = true := by
      cases t <;> first | rfl | cases h
    exact unsigned _ (unsignedIntType_signed v.toNat)
  · rw [inRange_iff]
    simp only [signedValue, Bool.false_eq_true, ↓reduceIte]
    omega

/-- A negative or positive number that was put into the tree is an integer. -/
theorem intScalar_nodeOfInt {v : Int} (small : v.natAbs ≤ uint64Max)
    (fits : v < 0 → v.natAbs ≤ 9223372036854775808) :
    IntScalar (nodeOfInt lib v) (decide (v < 0)) v.natAbs where
  scalar := rfl
  plain := lib.style_number v
  tag := nofun
  read := yamlScalarIsInt_decimalText small
  fits := fun negative => fits (of_decide_eq_true negative)

theorem int64_bounds {v : Int} (range : CIntType.int64.InRange v) :
    v.natAbs ≤ uint64Max ∧ (v < 0 → v.natAbs ≤ 9223372036854775808) := by
  have limit : uint64Max = 18446744073709551615 := rfl
  rw [inRange_iff] at range
  simp only at range
  obtain ⟨n, rfl | rfl⟩ := Int.eq_nat_or_neg v
  · rw [Int.natAbs_natCast]
    omega
  · rw [Int.natAbs_neg, Int.natAbs_natCast]
    omega

theorem asInt64_nodeOfInt {v : Int} (range : CIntType.int64.InRange v) :
    asInt64 env (nodeOfInt lib v) = .ok v := by
  obtain ⟨small, fits⟩ := int64_bounds range
  obtain ⟨inferred, infer, -, holds⟩ :=
    inferScalarType_create env (@intScalar_nodeOfInt lib v small fits)
  have value : signedValue (decide (v < 0)) v.natAbs = v := by
    unfold signedValue
    split
    · rename_i negative
      rw [Int.ofNat_natAbs_of_nonpos (Int.le_of_lt (of_decide_eq_true negative)), Int.neg_neg]
    · rename_i nonneg
      apply Int.natAbs_of_nonneg
      exact Int.not_lt.mp fun negative => nonneg (decide_eq_true negative)
  rw [value] at holds
  have as : valueAsInt env .int64 (AsdfValue.create (nodeOfInt lib v)) =
      (inferred, asIntArms inferred .int64) := inferredAs_eq infer _
  unfold asInt64
  rw [as, (asIntArms_eq holds .int64).1 range]

/-- What the accessor gives is an `int64_t`. -/
theorem asInt64_range {node : Node} {v : Int} (h : asInt64 env node = .ok v) :
    CIntType.int64.InRange v := by
  have out : (valueAsInt env .int64 (AsdfValue.create node)).2 = (.ok, some (.int v)) := by
    unfold asInt64 at h
    split at h
    · rename_i eq
      cases h
      exact eq
    · cases h
  unfold valueAsInt inferredAs at out
  dsimp only at out
  split at out
  · rcases asIntArms_arm (inferScalarType env (AsdfValue.create node)).1 .int64 with eq | ⟨member, overflow, eq⟩
    · cases eq.symm.trans out
    · have wrapped := congrArg Prod.snd (eq.symm.trans out)
      cases wrapped
      rw [inRange_iff]
      simp only [CIntType.wrap, CIntType.modulus, CIntType.signed, true_and]
      split <;> omega
  · cases congrArg Prod.snd out

/-! ## Strides -/

/-- Strides as they are to be: as many as there are dimensions, and none is zero. -/
def ValidStrides (env : ScalarEnv) (ndim : Nat) (items : List Node) : Prop :=
  items.length = ndim ∧ ∀ item ∈ items, ∃ stride, asInt64 env item = .ok stride ∧ stride ≠ 0

theorem strideItems_written {strides : List Int}
    (valid : ∀ s ∈ strides, s ≠ 0 ∧ CIntType.int64.InRange s) :
    strideItems env (strides.map (nodeOfInt lib)) = some strides := by
  induction strides with
  | nil => rfl
  | cons s rest ih =>
    obtain ⟨nonzero, range⟩ := valid s List.mem_cons_self
    rw [List.map_cons, strideItems, asInt64_nodeOfInt range]
    simp only [nonzero, ↓reduceIte, ih fun s' mem => valid s' (List.mem_cons_of_mem s mem)]
    rfl

theorem strideItems_valid {items : List Node} {strides : List Int}
    (h : strideItems env items = some strides) :
    strides.length = items.length ∧ ∀ s ∈ strides, s ≠ 0 ∧ CIntType.int64.InRange s := by
  induction items generalizing strides with
  | nil =>
    cases h
    exact ⟨rfl, nofun⟩
  | cons item rest ih =>
    unfold strideItems at h
    cases int : asInt64 env item with
    | error err =>
      rw [int] at h
      cases h
    | ok s =>
      rw [int] at h
      by_cases zero : s = 0
      · simp only [zero, ↓reduceIte] at h
        cases h
      · simp only [zero, ↓reduceIte] at h
        obtain ⟨strides', eq, rfl⟩ := Option.map_eq_some_iff.mp h
        obtain ⟨length, valid⟩ := ih eq
        refine ⟨by rw [List.length_cons, List.length_cons, length], fun s' mem => ?_⟩
        rcases List.mem_cons.mp mem with rfl | mem
        · exact ⟨zero, asInt64_range int⟩
        · exact valid s' mem

/-! ## What is written -/

/-- The strides that are written: none, if all are 1. -/
def writtenStrides (strides : Option (List Int)) : Option (List Int) :=
  strides.bind fun strides => if strides.all fun stride => stride = 1 then none else some strides

/-- What is found in the mapping of an array in a block. -/
structure BlockNode (lib : NumberBuilder) (env : ScalarEnv) (a : NdarrayValue) (index : BlockIndex)
    (datatypeVal node : Node) : Prop where
  mapping : ∃ tag pairs, node = .mapping tag pairs
  source : node.lookup sourceKey = some (nodeOfInt lib index.1.toNat)
  datatype : node.lookup datatypeKey = some datatypeVal
  shape : node.lookup shapeKey =
    some (.sequence none (a.shape.map fun dim => nodeOfUint lib.toScalarBuilder dim.toNat))
  byteorder : node.lookup byteorderKey =
    (if a.byteorder = .default then Byteorder.little else a.byteorder).text.bind
      (nodeOfString lib.toScalarBuilder env.floats)
  offset : node.lookup offsetKey =
    if a.offset > 0 then some (nodeOfUint lib.toScalarBuilder a.offset.toNat) else none
  strides : node.lookup stridesKey =
    (writtenStrides a.strides).map fun strides => .sequence none (strides.map (nodeOfInt lib))

theorem setOffset_lookup {offset : UInt64} {pairs pairs' : List (Node × Node)}
    (set : setOffset lib env offset pairs = some pairs') (key : Bytes) :
    (Node.mapping none pairs').lookup key =
      if key = offsetKey ∧ offset > 0 then some (nodeOfUint lib.toScalarBuilder offset.toNat)
      else (Node.mapping none pairs).lookup key := by
  unfold setOffset at set
  by_cases positive : offset > 0
  · rw [if_pos positive] at set
    rw [lookup_mappingSetNode rfl (by decide) set]
    simp [positive]
  · rw [if_neg positive] at set
    cases set
    simp [positive]

theorem setStrides_lookup {strides : Option (List Int)} {pairs pairs' : List (Node × Node)}
    (set : setStrides lib env strides pairs = some pairs') (key : Bytes) :
    (Node.mapping none pairs').lookup key =
      if key = stridesKey ∧ (writtenStrides strides).isSome then
        (writtenStrides strides).map fun strides => .sequence none (strides.map (nodeOfInt lib))
      else (Node.mapping none pairs).lookup key := by
  cases strides with
  | none =>
    cases set
    simp [writtenStrides]
  | some strides =>
    change ndarraySerializeStrides lib env strides pairs = some pairs' at set
    unfold ndarraySerializeStrides at set
    by_cases trivial_ : (strides.all fun stride => stride = 1) = true
    · rw [if_pos trivial_] at set
      cases set
      simp only [writtenStrides, Option.bind_some, trivial_]
      simp
    · rw [if_neg trivial_] at set
      rw [lookup_mappingSetNode rfl (by decide) set]
      simp only [writtenStrides, Option.bind_some, trivial_]
      simp

/-- The mapping of an array whose block has an index. -/
theorem ndarraySerialize_block {a : NdarrayValue} {storage : Storage} {index : BlockIndex} {node : Node}
    (block : storage.block = some index) (stored : storage.inline = false)
    (made : ndarraySerialize lib env a storage = some node) :
    ∃ val, datatypeSerialize lib.toScalarBuilder env a.datatype = some val ∧
      BlockNode lib env a index val node := by
  have isInline : storage.isInline a = false := by simp [Storage.isInline, block, stored]
  simp only [ndarraySerialize, isInline, Option.bind_eq_bind, Option.bind_eq_some_iff,
    Option.some.injEq, ndarraySerializeBlockData, Bool.false_eq_true, ↓reduceIte] at made
  obtain ⟨opened, setSource, val, typed, named, setType, done, ⟨shaped, setShape, order, text, ordered,
    setOrder, positioned, setOff, setStr⟩, rfl⟩ := made
  unfold setData at setSource
  simp only [block, stored, Option.isNone_some, Bool.false_eq_true, false_and, ↓reduceIte,
    Option.bind_eq_bind, Option.bind_some] at setSource
  obtain ⟨orderNode, built, setOrder⟩ := mappingSetString_some setOrder
  have lookup (key : Bytes) := setStrides_lookup setStr key
  simp only [setOffset_lookup setOff, lookup_mappingSetNode rfl (by decide) setOrder none,
    lookup_mappingSetNode rfl (by decide) setShape none,
    lookup_mappingSetNode rfl (by decide) setType none,
    lookup_mappingSetNode rfl (by decide) setSource none] at lookup
  refine ⟨val, typed, ⟨_, _, rfl⟩, ?_, ?_, ?_, ?_, ?_, ?_⟩
  · rw [lookup]
    rfl
  · rw [lookup]
    rfl
  · rw [lookup]
    rfl
  · rw [lookup, text, Option.bind_some, built]
    rfl
  · have first : offsetKey ≠ stridesKey ∧ offsetKey ≠ byteorderKey ∧ offsetKey ≠ shapeKey ∧
        offsetKey ≠ datatypeKey ∧ offsetKey ≠ sourceKey := by decide
    rw [lookup]
    simp [first, Node.lookup]
  · have first : stridesKey ≠ offsetKey ∧ stridesKey ≠ byteorderKey ∧ stridesKey ≠ shapeKey ∧
        stridesKey ≠ datatypeKey ∧ stridesKey ≠ sourceKey := by decide
    rw [lookup]
    cases writtenStrides a.strides with
    | none => simp [first, Node.lookup]
    | some strides => simp

/-! ## What is read back -/

theorem nodeOfInt_natCast (n : Nat) : nodeOfInt lib n = nodeOfUint lib.toScalarBuilder n := by
  rw [nodeOfInt, nodeOfUint, decimalText_ofNat]

theorem getPropertyImpl_value {mapping node : Node} {name : Bytes}
    (found : mapping.lookup name = some node) :
    getPropertyImpl env mapping name .unknown none = (.ok, some (.value node)) := by
  have keeps : (valueGetType env (AsdfValue.create node)).1.node = node := by
    unfold valueGetType
    split
    · rfl
    · have scalar : (AsdfValue.create node).type = .scalar := not_not.mp ‹_›
      exact (inferScalarType_infers scalar rfl).node
  unfold getPropertyImpl
  rw [found]
  simp only [ne_eq, not_true_eq_false, false_and, ↓reduceIte, valueAsType, keeps]

/-- The strides of an array: as many as there are dimensions, none of them zero. -/
def StridesFit (a : NdarrayValue) : Prop :=
  ∀ strides, a.strides = some strides → strides.length = a.shape.length ∧
    ∀ s ∈ strides, s ≠ 0 ∧ CIntType.int64.InRange s

section Reads

variable {a : NdarrayValue} {index : BlockIndex} {val node : Node}

theorem BlockNode.ndarrayShape (h : BlockNode lib env a index val node) :
    LibAsdf.ndarrayShape env node = .ok a.shape := by
  unfold LibAsdf.ndarrayShape
  rw [getPropertyImpl_sequence h.shape]
  exact datatypeShapeParse_written a.shape

theorem BlockNode.ndarrayByteorder (h : BlockNode lib env a index val node)
    (explicit : a.byteorder ≠ .default) : LibAsdf.ndarrayByteorder env node = .ok a.byteorder := by
  have found := h.byteorder
  rw [if_neg explicit] at found
  unfold LibAsdf.ndarrayByteorder
  rw [datatypeByteorderParse_text found, if_neg explicit]

theorem BlockNode.ndarrayOffset (h : BlockNode lib env a index val node) :
    LibAsdf.ndarrayOffset env node = .ok a.offset := by
  have found := h.offset
  unfold LibAsdf.ndarrayOffset
  by_cases positive : a.offset > 0
  · rw [if_pos positive] at found
    rw [getPropertyImpl_uint64 found]
    simp
  · rw [if_neg positive] at found
    rw [getPropertyImpl_none found]
    have zero : a.offset = 0 := by
      apply UInt64.toNat_inj.mp
      rw [gt_iff_lt, UInt64.lt_iff_toNat_lt] at positive
      exact Nat.eq_zero_of_not_pos positive
    rw [zero]

theorem BlockNode.ndarrayStrides (h : BlockNode lib env a index val node) (fit : StridesFit a) :
    LibAsdf.ndarrayStrides env node a.shape.length = .ok (writtenStrides a.strides) := by
  have found := h.strides
  unfold LibAsdf.ndarrayStrides
  cases written : writtenStrides a.strides with
  | none =>
    rw [written] at found
    rw [getPropertyImpl_none found]
  | some strides =>
    rw [written] at found
    obtain ⟨strides', eq, keeps⟩ := Option.bind_eq_some_iff.mp written
    have same : strides' = strides := by
      split at keeps
      · cases keeps
      · exact Option.some.inj keeps
    subst same
    obtain ⟨length, valid⟩ := fit strides' eq
    rw [getPropertyImpl_sequence found]
    have counted : (strides'.map (nodeOfInt lib)).length = a.shape.length := by
      rw [List.length_map, length]
    have parsed : ndarrayStridesParse env (strides'.map (nodeOfInt lib)) a.shape.length =
        (.ok, some strides') := by
      rw [ndarrayStridesParse, if_neg (not_not.mpr counted), strideItems_written valid]
    dsimp only [Node.items]
    rw [parsed]

/-- An array with an index is read back with its metadata, but for strides that
are all 1. -/
theorem BlockNode.deserialize (h : BlockNode lib env a index val node) (host : Byteorder)
    (explicit : a.byteorder ≠ .default) (fit : StridesFit a) {d : Datatype}
    (parse : datatypeParse env a.byteorder val = .ok d) :
    ndarrayDeserialize env host node =
      .ok ⟨index.1, a.shape, d, a.byteorder, a.offset, writtenStrides a.strides, none⟩ := by
  have source := h.source
  rw [nodeOfInt_natCast] at source
  have data : ndarrayParseBlockData env node =
      .ok ⟨a.shape, a.byteorder, a.offset, writtenStrides a.strides⟩ := by
    unfold ndarrayParseBlockData
    rw [h.ndarrayShape, h.ndarrayByteorder explicit, h.ndarrayOffset]
    simp only [bind, Except.bind]
    rw [h.ndarrayStrides fit]
  obtain ⟨tag, pairs, rfl⟩ := h.mapping
  unfold ndarrayDeserialize
  simp only [getPropertyImpl_uint64 source]
  unfold deserializeBlock
  rw [data]
  simp only [bind, Except.bind, getPropertyImpl_value h.datatype, parse]
  simp

end Reads

/-! ## Accepted arrays -/

/-- What holds of an array that was read from a mapping as one in a block. -/
structure BlockAccepted (env : ScalarEnv) (value : Node) (a : NdarrayValue) : Prop where
  explicit : a.byteorder ≠ .default
  datatype : TopLevel a.byteorder a.datatype
  strides : ndarrayStrides env value a.shape.length = .ok a.strides

theorem blockAccepted_of_deserialize {host : Byteorder} {value : Node} {a : NdarrayValue}
    (h : ndarrayDeserialize env host value = .ok a) (block : a.inlineData = none) :
    BlockAccepted env value a := by
  have inline {r : Except ValueErr InlineNdarray} (h : r.map InlineNdarray.toValue = .ok a) : False := by
    cases r with
    | error err => cases h
    | ok inline =>
      cases h
      cases block
  unfold ndarrayDeserialize at h
  split at h
  · exact (inline h).elim
  · rename_i tag pairs
    split at h
    · unfold deserializeBlock at h
      obtain ⟨data, parsed, h⟩ := except_bind_ok.mp h
      obtain ⟨shape, -, parsed⟩ := except_bind_ok.mp parsed
      obtain ⟨byteorder, order, parsed⟩ := except_bind_ok.mp parsed
      obtain ⟨offset, -, parsed⟩ := except_bind_ok.mp parsed
      obtain ⟨strides, strided, parsed⟩ := except_bind_ok.mp parsed
      cases parsed
      split at h
      · rename_i datatypeVal _
        obtain ⟨datatype, parse, h⟩ := except_bind_ok.mp h
        cases h
        refine ⟨?_, (parsed_of_parse datatypeVal).1 datatype parse, strided⟩
        intro default
        unfold ndarrayByteorder at order
        split at order
        · rename_i eq
          cases order
          have little := datatypeByteorderParse_default (congrArg Prod.snd eq |>.trans default)
          cases little
        · cases order
      · cases h
    · unfold deserializeData at h
      split at h
      · exact (inline h).elim
      · cases h
      · cases h
    · cases h
  · cases h

theorem BlockAccepted.fit {value : Node} {a : NdarrayValue} (h : BlockAccepted env value a) :
    StridesFit a := by
  intro strides eq
  have read := h.strides
  rw [eq] at read
  unfold ndarrayStrides at read
  split at read
  · unfold ndarrayStridesParse at read
    split at read
    · rename_i seq _ _ _ parsed
      cases read
      split at parsed
      · cases parsed
      · obtain ⟨length, valid⟩ := strideItems_valid (congrArg Prod.snd parsed)
        exact ⟨length.trans (not_not.mp ‹_›), valid⟩
    · cases read
  · cases read
  · cases read

/-! ## Arrays without data -/

theorem ndarraySerialize_empty {a : NdarrayValue} {storage : Storage} {node : Node}
    (block : a.inlineData = none) (unopened : storage.block = none)
    (made : ndarraySerialize lib env a storage = some node) :
    ∃ tag pairs val, node = .mapping tag pairs ∧
      datatypeSerialize lib.toScalarBuilder env a.datatype = some val ∧
      ∀ key, node.lookup key = if key = datatypeKey then some val
        else if key = dataKey then some (.sequence none []) else none := by
  have isInline : storage.isInline a = true := by simp [Storage.isInline, block, unopened]
  simp only [ndarraySerialize, isInline, Option.bind_eq_bind, Option.bind_eq_some_iff,
    Option.some.injEq, ↓reduceIte] at made
  obtain ⟨opened, set, val, typed, named, setType, _, rfl, rfl⟩ := made
  unfold setData at set
  simp only [block, unopened, Option.isNone_none, and_self, ↓reduceIte] at set
  refine ⟨_, _, val, rfl, typed, fun key => ?_⟩
  rw [lookup_mappingSetNode rfl (by decide) setType, lookup_mappingSetNode rfl (by decide) set]
  simp [Node.lookup]

/-- It is read back as an array without dimensions. -/
theorem emptyNode_deserialize {tag : Option Bytes} {pairs : List (Node × Node)} {val : Node}
    (lookup : ∀ key, (Node.mapping tag pairs).lookup key = if key = datatypeKey then some val
        else if key = dataKey then some (.sequence none []) else none)
    {d : Datatype} (parse : datatypeParse env .default val = .ok d) (host : Byteorder) :
    ndarrayDeserialize env host (.mapping tag pairs) =
      .ok ⟨0, [], d, host, 0, none, some (.sequence none [])⟩ := by
  have source : (Node.mapping tag pairs).lookup sourceKey = none := lookup sourceKey
  have data : (Node.mapping tag pairs).lookup dataKey = some (.sequence none []) := lookup dataKey
  have shape : (Node.mapping tag pairs).lookup shapeKey = none := lookup shapeKey
  have type : (Node.mapping tag pairs).lookup datatypeKey = some val := lookup datatypeKey
  have datatype : inlineDatatype env (.mapping tag pairs) = .ok (some d) := by
    unfold inlineDatatype
    simp only [getPropertyImpl_value type, parse]
    rfl
  have hint : inlineShapeHint env (.mapping tag pairs) = .ok () := by
    unfold inlineShapeHint
    simp only [getPropertyImpl_none shape]
  have properties : inlineProperties env (some (.mapping tag pairs)) = .ok (some d) := by
    unfold inlineProperties
    simp only [bind, Except.bind, datatype, hint]
  unfold ndarrayDeserialize
  simp only [getPropertyImpl_none source]
  unfold deserializeData
  simp only [getPropertyImpl_sequence data]
  unfold deserializeInline
  simp only [bind, Except.bind, properties]
  rfl

/-! ## The round trip -/

/-- The strides, in bytes, of an array in C order. -/
def defaultStrides (elsize : Nat) : List UInt64 → List Int
  | [] => []
  | _ :: rest => (elsize * extentsVolume rest : Nat) :: defaultStrides elsize rest

/-- The metadata is the same; strides may be left out if they are the default. -/
structure KeepsMetadata (a b : NdarrayValue) : Prop where
  shape : b.shape = a.shape
  offset : b.offset = a.offset
  byteorder : b.byteorder = a.byteorder
  strides : b.strides = a.strides ∨ b.strides = none ∧
    a.strides = some (defaultStrides (datatypeSize a.datatype).toNat a.shape)

/-- If a mapping has strides they are valid. -/
def StridesValid (env : ScalarEnv) (value : Node) (ndim : Nat) : Prop :=
  ∀ node, value.lookup stridesKey = some node →
    ∃ tag items, node = .sequence tag items ∧ ValidStrides env ndim items

/-- What is to hold of an array that was read from `value`: the mapping that is
made of it gives its metadata back, and strides that are not valid are an error. -/
structure MetadataCorrect (lib : NumberBuilder) (env : ScalarEnv) (host : Byteorder) (value : Node)
    (a : NdarrayValue) (storage : Storage) : Prop where
  roundTrip : ∀ node, ndarraySerialize lib env a storage = some node →
    ∃ b, ndarrayDeserialize env host node = .ok b ∧ KeepsMetadata a b
  checked : ¬ StridesValid env value a.shape.length → ∃ err, ndarrayDeserialize env host value = .error err

/-- The arrays of which it does hold, unless their datatype cannot be written:
they have their block open, or nothing that could get lost, and if all strides
are 1 then this is the default. The strides that they were given are valid. -/
structure MetadataHonoured (lib : NumberBuilder) (env : ScalarEnv) (host : Byteorder) (value : Node)
    (a : NdarrayValue) (storage : Storage) : Prop where
  kept : (datatypeSerialize lib.toScalarBuilder env a.datatype).isSome = true →
    (storage.block = none → a.shape = [] ∧ a.offset = 0 ∧ a.byteorder = host) ∧
    ∀ strides, a.strides = some strides → (∀ s ∈ strides, s = 1) →
      strides = defaultStrides (datatypeSize a.datatype).toNat a.shape
  valid : StridesValid env value a.shape.length

section Writes

variable (lib : NumberBuilder) (env : ScalarEnv)

theorem setNode_some (key : Bytes) (pairs : List (Node × Node)) (value : Node)
    (clear : yamlStringIsAmbiguous env.floats key = false) (short : key.length ≤ 2147483647) :
    ∃ pairs', mappingSetNode lib.toScalarBuilder env.floats pairs key value false = some pairs' :=
  mappingSetNode_some clear short pairs value

theorem setOffset_some (offset : UInt64) (pairs : List (Node × Node)) :
    ∃ pairs', setOffset lib env offset pairs = some pairs' := by
  unfold setOffset
  by_cases positive : offset > 0
  · rw [if_pos positive]
    exact setNode_some lib env offsetKey pairs _ rfl (by decide)
  · rw [if_neg positive]
    exact ⟨pairs, rfl⟩

theorem setStrides_some (strides : Option (List Int)) (pairs : List (Node × Node)) :
    ∃ pairs', setStrides lib env strides pairs = some pairs' := by
  cases strides with
  | none => exact ⟨pairs, rfl⟩
  | some strides =>
    change ∃ pairs', ndarraySerializeStrides lib env strides pairs = some pairs'
    unfold ndarraySerializeStrides
    split
    · exact ⟨pairs, rfl⟩
    · exact setNode_some lib env stridesKey pairs _ rfl (by decide)

theorem setByteorder_some {byteorder : Byteorder} {str : Bytes} (text : byteorder.text = some str)
    (pairs : List (Node × Node)) :
    ∃ pairs', mappingSetString lib.toScalarBuilder env.floats pairs byteorderKey str = some pairs' := by
  have built {str : Bytes} (clear : yamlStringIsAmbiguous env.floats str = false)
      (short : str.length ≤ 2147483647) :
      ∃ pairs', mappingSetString lib.toScalarBuilder env.floats pairs byteorderKey str = some pairs' := by
    unfold mappingSetString
    rw [@nodeOfString_clear lib.toScalarBuilder _ _ clear short]
    exact setNode_some lib env byteorderKey pairs _ rfl (by decide)
  cases byteorder with
  | default => cases text
  | big =>
    cases text
    exact built rfl (by decide)
  | little =>
    cases text
    exact built rfl (by decide)

variable {lib env}

theorem ndarraySerializeBlockData_some (a : NdarrayValue) (pairs : List (Node × Node)) :
    ∃ pairs', ndarraySerializeBlockData lib env a pairs = some pairs' := by
  obtain ⟨str, text⟩ : ∃ str,
      (if a.byteorder = .default then Byteorder.little else a.byteorder).text = some str := by
    cases a.byteorder <;> exact ⟨_, rfl⟩
  obtain ⟨shaped, setShape⟩ := setNode_some lib env shapeKey pairs
    (.sequence none (a.shape.map fun dim => nodeOfUint lib.toScalarBuilder dim.toNat)) rfl (by decide)
  obtain ⟨ordered, setOrder⟩ := setByteorder_some lib env text shaped
  obtain ⟨positioned, setOff⟩ := setOffset_some lib env a.offset ordered
  obtain ⟨pairs', setStr⟩ := setStrides_some lib env a.strides positioned
  refine ⟨pairs', ?_⟩
  simp only [ndarraySerializeBlockData, Option.bind_eq_bind, setShape, Option.bind_some, text,
    setOrder, setOff, setStr]

/-- An array is written if its datatype is. -/
theorem ndarraySerialize_some {a : NdarrayValue} {storage : Storage}
    (stored : storage.inline = false) (block : storage.block = none → a.inlineData = none)
    (typed : (datatypeSerialize lib.toScalarBuilder env a.datatype).isSome = true) :
    ∃ node, ndarraySerialize lib env a storage = some node := by
  obtain ⟨val, typed⟩ := Option.isSome_iff_exists.mp typed
  have data : ∃ pairs, setData lib env a storage = some pairs := by
    unfold setData
    dsimp only
    cases index : storage.block with
    | none =>
      simp only [block index, Option.isNone_none, and_self, ↓reduceIte]
      exact setNode_some lib env dataKey _ _ rfl (by decide)
    | some index =>
      simp only [stored, Option.isNone_some, Bool.false_eq_true, false_and, ↓reduceIte]
      exact setNode_some lib env sourceKey _ _ rfl (by decide)
  obtain ⟨opened, setData⟩ := data
  obtain ⟨named, setType⟩ := setNode_some lib env datatypeKey opened val rfl (by decide)
  obtain ⟨pairs, setRest⟩ := @ndarraySerializeBlockData_some lib env a named
  unfold ndarraySerialize
  simp only [setData, typed, setType, setRest, Option.bind_eq_bind, Option.bind_some]
  split <;> exact ⟨_, rfl⟩

end Writes

/-! ## When the metadata comes back -/

/-- Strides come back unless all of them are 1. -/
theorem writtenStrides_kept {strides : Option (List Int)} {default : List Int} :
    (writtenStrides strides = strides ∨ writtenStrides strides = none ∧ strides = some default) ↔
      ∀ s, strides = some s → (∀ stride ∈ s, stride = 1) → s = default := by
  cases strides with
  | none => simp [writtenStrides]
  | some s =>
    simp only [Option.some.injEq, forall_eq', writtenStrides, Option.bind_some]
    by_cases ones : ∀ stride ∈ s, stride = 1
    · have all : (s.all fun stride => stride = 1) = true := by simpa using ones
      simp only [all, ↓reduceIte, reduceCtorEq, false_or, true_and]
      exact ⟨fun same _ => same, fun same => same ones⟩
    · have all : ¬ (s.all fun stride => stride = 1) = true := by simpa using ones
      simp [all, ones]

section Kept

variable {host : Byteorder} {value : Node} {a : NdarrayValue} {storage : Storage}

/-- What an array that was read is read back as, if its block is open. -/
theorem opened_reads (accepted : BlockAccepted env value a) (stored : storage.inline = false)
    {index : BlockIndex} (block : storage.block = some index) {node : Node}
    (made : ndarraySerialize lib env a storage = some node) :
    ∃ d, ndarrayDeserialize env host node =
      .ok ⟨index.1, a.shape, d, a.byteorder, a.offset, writtenStrides a.strides, none⟩ := by
  obtain ⟨val, typed, found⟩ := ndarraySerialize_block block stored made
  rw [datatypeSerialize_eq accepted.datatype] at typed
  obtain ⟨d, parse⟩ := (written_parses accepted.datatype.parsed a.byteorder).1 val typed
  exact ⟨d, found.deserialize host accepted.explicit accepted.fit parse⟩

/-- And if it is not: the data is taken for missing. -/
theorem unopened_reads (accepted : BlockAccepted env value a) (outside : a.inlineData = none)
    (block : storage.block = none) {node : Node}
    (made : ndarraySerialize lib env a storage = some node) :
    ∃ d, ndarrayDeserialize env host node =
      .ok ⟨0, [], d, host, 0, none, some (.sequence none [])⟩ := by
  obtain ⟨tag, pairs, val, rfl, typed, lookup⟩ := ndarraySerialize_empty outside block made
  rw [datatypeSerialize_eq accepted.datatype] at typed
  obtain ⟨d, parse⟩ := (written_parses accepted.datatype.parsed .default).1 val typed
  exact ⟨d, emptyNode_deserialize lookup parse host⟩

theorem keeps_opened {d : Datatype} {index : UInt64} :
    KeepsMetadata a ⟨index, a.shape, d, a.byteorder, a.offset, writtenStrides a.strides, none⟩ ↔
      ∀ strides, a.strides = some strides → (∀ s ∈ strides, s = 1) →
        strides = defaultStrides (datatypeSize a.datatype).toNat a.shape := by
  rw [← writtenStrides_kept]
  constructor
  · exact fun keeps => keeps.strides
  · exact fun strides => ⟨rfl, rfl, rfl, strides⟩

theorem keeps_unopened (fit : StridesFit a) {d : Datatype} {data : Option Node} :
    KeepsMetadata a ⟨0, [], d, host, 0, none, data⟩ ↔
      (a.shape = [] ∧ a.offset = 0 ∧ a.byteorder = host) ∧
      ∀ strides, a.strides = some strides → (∀ s ∈ strides, s = 1) →
        strides = defaultStrides (datatypeSize a.datatype).toNat a.shape := by
  constructor
  · intro keeps
    refine ⟨⟨keeps.shape.symm, keeps.offset.symm, keeps.byteorder.symm⟩, fun strides eq _ => ?_⟩
    rcases keeps.strides with same | ⟨-, same⟩
    · exact nomatch same.trans eq
    · exact Option.some.inj (eq.symm.trans same)
  · rintro ⟨⟨shape, offset, byteorder⟩, -⟩
    refine ⟨shape.symm, offset.symm, byteorder.symm, ?_⟩
    cases eq : a.strides with
    | none => exact .inl rfl
    | some strides =>
      -- No dimensions, no strides.
      obtain ⟨length, -⟩ := fit strides eq
      rw [shape, List.length_nil, List.length_eq_zero_iff] at length
      exact .inr ⟨rfl, by rw [length, shape, defaultStrides]⟩

/-- The round trip of an array that was read. -/
theorem roundTrip_iff (accepted : BlockAccepted env value a) (outside : a.inlineData = none)
    (stored : storage.inline = false) :
    (∀ node, ndarraySerialize lib env a storage = some node →
        ∃ b, ndarrayDeserialize env host node = .ok b ∧ KeepsMetadata a b) ↔
      ((datatypeSerialize lib.toScalarBuilder env a.datatype).isSome = true →
        (storage.block = none → a.shape = [] ∧ a.offset = 0 ∧ a.byteorder = host) ∧
        ∀ strides, a.strides = some strides → (∀ s ∈ strides, s = 1) →
          strides = defaultStrides (datatypeSize a.datatype).toNat a.shape) := by
  constructor
  · intro roundTrip typed
    obtain ⟨node, made⟩ := @ndarraySerialize_some lib env a storage stored (fun _ => outside) typed
    obtain ⟨b, back, keeps⟩ := roundTrip node made
    cases block : storage.block with
    | none =>
      obtain ⟨d, eq⟩ := @unopened_reads env lib host value a storage accepted outside block node made
      cases eq.symm.trans back
      obtain ⟨lost, ones⟩ := (keeps_unopened accepted.fit).mp keeps
      exact ⟨fun _ => lost, ones⟩
    | some index =>
      obtain ⟨d, eq⟩ := @opened_reads env lib host value a storage accepted stored index block node made
      cases eq.symm.trans back
      exact ⟨nofun, keeps_opened.mp keeps⟩
  · intro kept node made
    cases block : storage.block with
    | none =>
      obtain ⟨d, eq⟩ := @unopened_reads env lib host value a storage accepted outside block node made
      obtain ⟨_, _, val, -, typed, -⟩ := ndarraySerialize_empty outside block made
      obtain ⟨lost, ones⟩ := kept (Option.isSome_iff_exists.mpr ⟨val, typed⟩)
      exact ⟨_, eq, (keeps_unopened accepted.fit).mpr ⟨lost block, ones⟩⟩
    | some index =>
      obtain ⟨d, eq⟩ := @opened_reads env lib host value a storage accepted stored index block node made
      obtain ⟨val, typed, -⟩ := ndarraySerialize_block block stored made
      obtain ⟨-, ones⟩ := kept (Option.isSome_iff_exists.mpr ⟨val, typed⟩)
      exact ⟨_, eq, keeps_opened.mpr ones⟩

end Kept

/-- The metadata of an array that was read as one in a block comes back, and its
strides were checked, exactly if it is honoured. -/
theorem ndarray_metadata (lib : NumberBuilder) (env : ScalarEnv) (host : Byteorder) (value : Node)
    (a : NdarrayValue) (storage : Storage) (accepted : ndarrayDeserialize env host value = .ok a)
    (outside : a.inlineData = none) (stored : storage.inline = false) :
    MetadataCorrect lib env host value a storage ↔ MetadataHonoured lib env host value a storage := by
  have kept := @roundTrip_iff env lib host value a storage (blockAccepted_of_deserialize accepted outside)
    outside stored
  constructor
  · intro correct
    constructor
    · exact kept.mp correct.roundTrip
    · by_contra invalid
      obtain ⟨err, refused⟩ := correct.checked invalid
      exact nomatch refused.symm.trans accepted
  · intro honoured
    constructor
    · exact kept.mpr honoured.kept
    · exact fun invalid => absurd honoured.valid invalid

def plainNumbers : NumberBuilder := { plainBuilder with style_number := fun _ => rfl }

def digit (c : UInt8) : Node := .scalar none .plain [c]

/-- Two `int16` with these strides. -/
def int16Pair (strides : List Node) : Node :=
  .mapping none
    [(.scalar none .plain sourceKey, digit 48),
      (.scalar none .plain datatypeKey, .scalar none .plain (scalarDatatypeToString .int16)),
      (.scalar none .plain shapeKey, .sequence none [digit 50]),
      (.scalar none .plain byteorderKey, .scalar none .plain [108, 105, 116, 116, 108, 101]),
      (.scalar none .plain stridesKey, .sequence none strides)]

theorem int16Pair_reads {items : List Node} {strides : Option (List Int)}
    (h : ndarrayStrides plainScalars (int16Pair items) 1 = .ok strides) :
    ndarrayDeserialize plainScalars .little (int16Pair items) =
      .ok ⟨0, [2], ⟨.int16, 2, none, .little, [], []⟩, .little, 0, strides, none⟩ := by
  have type : datatypeParse plainScalars .little (.scalar none .plain (scalarDatatypeToString .int16)) =
      .ok ⟨.int16, 2, none, .little, [], []⟩ := by
    rw [datatypeParse_scalar rfl]
    rfl
  have data : ndarrayParseBlockData plainScalars (int16Pair items) = .ok ⟨[2], .little, 0, strides⟩ := by
    have shape : ndarrayShape plainScalars (int16Pair items) = .ok [2] := rfl
    have byteorder : ndarrayByteorder plainScalars (int16Pair items) = .ok .little := rfl
    have offset : ndarrayOffset plainScalars (int16Pair items) = .ok 0 := rfl
    unfold ndarrayParseBlockData
    rw [shape, byteorder, offset]
    change (ndarrayStrides plainScalars (int16Pair items) 1).bind _ = _
    rw [h]
    rfl
  have found : deserializeBlock plainScalars (int16Pair items) 0 =
      .ok ⟨0, [2], ⟨.int16, 2, none, .little, [], []⟩, .little, 0, strides, none⟩ := by
    unfold deserializeBlock
    rw [data]
    simp only [bind, Except.bind]
    have property : getPropertyImpl plainScalars (int16Pair items) datatypeKey .unknown none =
        (.ok, some (.value (.scalar none .plain (scalarDatatypeToString .int16)))) :=
      getPropertyImpl_value rfl
    simp only [property, type]
  exact found

/-- Strides of 2 bytes are the default of an `int16`. -/
theorem contiguous_pair : MetadataCorrect plainNumbers plainScalars .little
    (int16Pair [digit 50])
    ⟨0, [2], ⟨.int16, 2, none, .little, [], []⟩, .little, 0, some [2], none⟩
    ⟨some ⟨0, by decide⟩, false, none⟩ := by
  apply (ndarray_metadata plainNumbers plainScalars .little _ _ ⟨some ⟨0, by decide⟩, false, none⟩
    (int16Pair_reads rfl) rfl rfl).mpr
  constructor
  · intro _
    refine ⟨nofun, fun strides eq ones => ?_⟩
    cases eq
    exact absurd (ones 2 List.mem_cons_self) (by decide)
  · intro node found
    cases found
    refine ⟨none, _, rfl, rfl, fun item mem => ?_⟩
    cases List.mem_singleton.mp mem
    exact ⟨2, rfl, by decide⟩

/-- Strides of 0 are accepted and ignored, strides of 1 byte are not written, and
of an array whose block was not opened not even the shape is. -/
theorem pair_metadata_lost :
    ¬ MetadataCorrect plainNumbers plainScalars .little (int16Pair [digit 48])
        ⟨0, [2], ⟨.int16, 2, none, .little, [], []⟩, .little, 0, none, none⟩
        ⟨some ⟨0, by decide⟩, false, none⟩ ∧
      ¬ MetadataCorrect plainNumbers plainScalars .little (int16Pair [digit 49])
        ⟨0, [2], ⟨.int16, 2, none, .little, [], []⟩, .little, 0, some [1], none⟩
        ⟨some ⟨0, by decide⟩, false, none⟩ ∧
      ¬ MetadataCorrect plainNumbers plainScalars .little (int16Pair [digit 50])
        ⟨0, [2], ⟨.int16, 2, none, .little, [], []⟩, .little, 0, some [2], none⟩
        ⟨none, false, none⟩ := by
  have typed : (datatypeSerialize plainNumbers.toScalarBuilder plainScalars
      ⟨.int16, 2, none, .little, [], []⟩).isSome = true := by
    rw [datatypeSerialize, serializeImpl_scalar (by decide) rfl]
    rfl
  refine ⟨fun correct => ?_, fun correct => ?_, fun correct => ?_⟩
  · have reads := @int16Pair_reads [digit 48] none rfl
    have invalid : ¬ StridesValid plainScalars (int16Pair [digit 48]) 1 := by
      intro valid
      obtain ⟨tag, items, eq, -, nonzero⟩ := valid (.sequence none [digit 48]) rfl
      cases eq
      obtain ⟨stride, read, zero⟩ := nonzero (digit 48) List.mem_cons_self
      have same : Except.ok 0 = Except.ok stride := read
      exact zero (Except.ok.inj same).symm
    obtain ⟨err, refused⟩ := correct.checked invalid
    exact nomatch refused.symm.trans reads
  · have read := blockAccepted_of_deserialize (@int16Pair_reads [digit 49] (some [1]) rfl) rfl
    obtain ⟨-, ones⟩ := (roundTrip_iff read rfl rfl).mp correct.roundTrip typed
    have default := ones [1] rfl (by decide)
    rw [datatypeSize_stored (by decide)] at default
    exact absurd default (by decide)
  · have read := blockAccepted_of_deserialize (@int16Pair_reads [digit 50] (some [2]) rfl) rfl
    obtain ⟨lost, -⟩ := (roundTrip_iff read rfl rfl).mp correct.roundTrip typed
    exact nomatch (lost rfl).1

end LibAsdf
