import LibAsdf.Ndarray.InlineNodes
import LibAsdf.Ndarray.InlineTypes
import LibAsdf.Ndarray.InlineValues

/-!
# Inline arrays come back

An array that is written inline, and what is read from the mapping that is made of
it.

* `YamlNode.toNode`, `YamlNode.scalars`: the tree of a nested sequence, and its
  numbers in order;
* `inferInlineArrayDatatype_rect`: the walk over a rectangular tree finds its shape;
* `InlineNode`: what is found in the mapping;
* `inline_round_trip`: the arrays that come back.
-/

namespace LibAsdf

/-! ## Trees of numbers -/

mutual

/-- The tree of a nested sequence, whose numbers are made into nodes. -/
def YamlNode.toNode (leaf : Bytes → Node) : YamlNode → Node
  | .scalar bytes => leaf bytes
  | .seq items => .sequence none (toNodes leaf items)

def toNodes (leaf : Bytes → Node) : List YamlNode → List Node
  | [] => []
  | item :: rest => item.toNode leaf :: toNodes leaf rest

end

mutual

/-- The numbers in order. -/
def YamlNode.scalars : YamlNode → List Bytes
  | .scalar bytes => [bytes]
  | .seq items => scalarsOf items

def scalarsOf : List YamlNode → List Bytes
  | [] => []
  | item :: rest => item.scalars ++ scalarsOf rest

end

theorem toNodes_eq (leaf : Bytes → Node) (items : List YamlNode) :
    toNodes leaf items = items.map (YamlNode.toNode leaf) := by
  induction items with
  | nil => rfl
  | cons item rest ih => rw [toNodes, ih, List.map_cons]

theorem scalarsOf_eq (items : List YamlNode) :
    scalarsOf items = items.flatMap YamlNode.scalars := by
  induction items with
  | nil => rfl
  | cons item rest ih => rw [scalarsOf, ih, List.flatMap_cons]

section Trees

variable {leaf : Bytes → Node} {node : YamlNode}

/-- The tree is nested as the sequence, with the nodes of its numbers. -/
theorem Nested.toNode (scalar : ∀ bytes, (leaf bytes).isSequence = false) :
    ∀ {ds : List UInt64} {node : YamlNode}, Nested ds node → Recorded ds →
      Rect ds (node.toNode leaf) ∧ (node.toNode leaf).leaves = node.scalars.map leaf := by
  intro ds
  induction ds with
  | nil =>
    intro node nested _
    cases node with
    | seq items => exact nested.elim
    | scalar bytes =>
      rw [YamlNode.toNode, YamlNode.scalars]
      exact ⟨scalar bytes, Node.leaves_scalar (scalar bytes)⟩
  | cons dim rest ih =>
    intro node nested recorded
    cases node with
    | scalar bytes => exact nested.elim
    | seq items =>
      obtain ⟨length, inner⟩ := nested
      have later : Recorded rest := fun dim' mem => recorded dim' (List.mem_cons_of_mem dim mem)
      have each (item : YamlNode) (mem : item ∈ items) := ih (inner item mem) later
      rw [YamlNode.toNode, YamlNode.scalars, toNodes_eq, scalarsOf_eq, Node.leaves_sequence,
        List.flatMap_map, List.map_flatMap]
      refine ⟨⟨rfl, ?_, ?_, ?_⟩, ?_⟩
      · exact (List.length_map _).trans length
      · intro zero
        have pos := (recorded dim List.mem_cons_self).1
        rw [zero] at pos
        cases pos
      · intro elem mem
        obtain ⟨item, known, rfl⟩ := List.mem_map.mp mem
        exact (each item known).1
      · exact List.flatMap_congr fun item mem => (each item mem).2

/-- Numbers in rows of one length, one behind the other. -/
theorem flatMap_range_map {α : Type} (f : Nat → α) (rows width : Nat) :
    ((List.range rows).flatMap fun i => (List.range width).map fun j => f (i * width + j)) =
      (List.range (rows * width)).map f := by
  induction rows with
  | zero => rw [Nat.zero_mul]; rfl
  | succ rows ih =>
    rw [List.range_succ, List.flatMap_append, ih, Nat.succ_mul, List.range_add, List.map_append,
      List.map_map]
    simp

theorem flatMap_eq_range {α β : Type} {f : α → List β} {g : Nat → List β} {items : List α}
    (each : ∀ i (lt : i < items.length), f items[i] = g i) :
    items.flatMap f = (List.range items.length).flatMap g := by
  have lists : items.map f = (List.range items.length).map g := by
    refine List.ext_getElem (by simp) fun i lt lt' => ?_
    rw [List.getElem_map, List.getElem_map, List.getElem_range, each]
  rw [List.flatMap_def, List.flatMap_def, lists]

/-- The numbers of a nested sequence that has the values of the data. -/
theorem HasValues.scalars {a : Ndarray} : ∀ {rest : List UInt64} {dim : UInt64} {off : Nat}
    {node : YamlNode}, HasValues a (dim :: rest) off node → Nested (dim :: rest) node →
      Recorded (dim :: rest) →
      node.scalars = (List.range (extentsVolume (dim :: rest))).map fun i =>
        elementAt a.data.bytes 0 a.datatype.size (off + i) := by
  intro rest
  induction rest with
  | nil =>
    intro dim off node values nested recorded
    cases node with
    | scalar bytes => exact nested.elim
    | seq items =>
      obtain ⟨length, inner⟩ := nested
      have counted := intCount_eq (recorded dim List.mem_cons_self).2
      rw [YamlNode.scalars, scalarsOf_eq, extentsVolume, extentsVolume, Nat.mul_one]
      have at_ (i : Nat) (lt : i < dim.toNat) :
          items[i]? = some (.scalar (elementAt a.data.bytes 0 a.datatype.size (off + i))) := by
        have value := values [i] (Nat.lt_of_lt_of_eq lt counted.symm)
        rw [YamlNode.scalarAt_seq, List.getElem?_eq_getElem (length ▸ lt),
          Option.bind_some] at value
        have nested := inner _ (List.getElem_mem (length ▸ lt))
        rw [List.getElem?_eq_getElem (length ▸ lt)]
        cases item : items[i] with
        | seq inner => rw [item] at nested; exact nested.elim
        | scalar bytes =>
          rw [item] at value
          have eq := Option.some.inj value
          change bytes = elementAt _ _ _ (off + (i * 1 + 0)) at eq
          rw [eq, Nat.mul_one, Nat.add_zero]
      have all : items = (List.range dim.toNat).map fun i =>
          .scalar (elementAt a.data.bytes 0 a.datatype.size (off + i)) := by
        refine List.ext_getElem? fun i => ?_
        rw [List.getElem?_map]
        by_cases lt : i < dim.toNat
        · rw [at_ i lt, List.getElem?_range lt]
          rfl
        · rw [List.getElem?_eq_none (by omega),
            List.getElem?_eq_none (by rw [List.length_range]; omega)]
          rfl
      rw [all, List.flatMap_map]
      exact List.map_eq_flatMap.symm
  | cons inner rest ih =>
    intro dim off node values nested recorded
    cases node with
    | scalar bytes => exact nested.elim
    | seq items =>
      obtain ⟨length, nested⟩ := nested
      have later : Recorded (inner :: rest) :=
        fun dim' mem => recorded dim' (List.mem_cons_of_mem dim mem)
      have each (i : Nat) (lt : i < items.length) := @ih inner
        (off + i * extentsVolume (inner :: rest)) items[i] (by
          intro path written
          have value := values (i :: path) ⟨length ▸ lt, written⟩
          rw [YamlNode.scalarAt_seq, List.getElem?_eq_getElem lt, Option.bind_some,
            extentsPosition, ← Nat.add_assoc] at value
          exact value) (nested _ (List.getElem_mem lt)) later
      rw [YamlNode.scalars, scalarsOf_eq, extentsVolume, ← length]
      rw [← flatMap_range_map fun i => elementAt a.data.bytes 0 a.datatype.size (off + i)]
      refine flatMap_eq_range fun i lt => ?_
      rw [each i lt]
      refine List.map_congr_left fun j _ => ?_
      rw [Nat.add_assoc]

end Trees

/-! ## The walk -/

section Walk

variable {env : ScalarEnv} {depth : Nat} {st : InlineShape}

/-- Scalars add nothing to the shape. -/
theorem inferElements_scalars {items : List Node}
    (scalars : ∀ elem ∈ items, elem.isSequence = false) :
    ∃ inf, inferElements env depth false items st = .ok ⟨st.shape, inf⟩ := by
  induction items generalizing st with
  | nil => exact ⟨st.inf, rfl⟩
  | cons elem rest ih =>
    have first := scalars elem List.mem_cons_self
    rw [inferElements, if_neg (by rw [first]; exact not_not.mpr rfl),
      if_neg (Bool.eq_false_iff.mp first)]
    exact ih fun elem' mem => scalars elem' (List.mem_cons_of_mem elem mem)

/-- Sequences whose dimensions are known add nothing either. -/
theorem inferElements_found {items : List Node} {shape : List UInt64}
    (visits : ∀ elem ∈ items, elem.isSequence = true ∧ ∀ st : InlineShape, st.shape = shape →
      ∃ inf, inferInlineArrayDatatype env (depth + 1) elem st = .ok ⟨shape, inf⟩)
    (known : st.shape = shape) :
    ∃ inf, inferElements env depth true items st = .ok ⟨shape, inf⟩ := by
  induction items generalizing st with
  | nil =>
    subst known
    exact ⟨st.inf, rfl⟩
  | cons elem rest ih =>
    obtain ⟨seq, visit⟩ := visits elem List.mem_cons_self
    obtain ⟨inf, visit⟩ := visit st known
    rw [inferElements, if_neg (not_not.mpr seq), if_pos seq, visit]
    exact ih (fun elem' mem => visits elem' (List.mem_cons_of_mem elem mem)) rfl

/-- The visit of a sequence whose size is known. -/
theorem inferInlineArrayDatatype_sequence {dim : UInt64} {tag : Option Bytes} {first : Node}
    {rest : List Node} (length : (first :: rest).length = dim.toNat)
    (small : dim.toNat < 2147483648) {st₁ : InlineShape}
    (record : recordSize depth dim st = .ok st₁) :
    inferInlineArrayDatatype env depth (.sequence tag (first :: rest)) st =
      inferElements env depth first.isSequence (first :: rest) st₁ := by
  have size : sequenceSize (first :: rest) = dim.toNat := by
    rw [sequenceSize_of_lt (by omega), length]
  have pos : 0 < dim.toNat := by rw [← length, List.length_cons]; exact Nat.succ_pos _
  have same : UInt64.ofNat (Int.toNat dim.toNat) = dim := by
    rw [Int.toNat_natCast, UInt64.ofNat_toNat]
  rw [inferInlineArrayDatatype, size, if_neg (by omega), if_neg (by omega), same, record]
  rfl

/-- The walk over a rectangular tree: the first visit at a depth records the
dimensions from there on, the others find them. -/
theorem inferInlineArrayDatatype_rect : ∀ {ds : List UInt64} {depth : Nat} {node : Node},
    Rect ds node → ds ≠ [] → Recorded ds → ∀ st : InlineShape,
      (st.shape.length = depth →
        ∃ inf, inferInlineArrayDatatype env depth node st = .ok ⟨st.shape ++ ds, inf⟩) ∧
      (depth < st.shape.length → st.shape.drop depth = ds →
        ∃ inf, inferInlineArrayDatatype env depth node st = .ok ⟨st.shape, inf⟩) := by
  intro ds
  induction ds with
  | nil => exact fun _ none => absurd rfl none
  | cons dim rest ih =>
    intro depth node rect _ recorded st
    obtain ⟨seq, length, -, items⟩ := rect
    obtain ⟨tag, list, rfl⟩ := isSequence_iff.mp seq
    obtain ⟨pos, small⟩ := recorded dim List.mem_cons_self
    have later : Recorded rest := fun dim' mem => recorded dim' (List.mem_cons_of_mem dim mem)
    change list.length = dim.toNat at length
    change ∀ item ∈ list, Rect rest item at items
    obtain ⟨first, others, rfl⟩ : ∃ first others, list = first :: others :=
      List.exists_cons_of_length_pos (by omega)
    -- The elements, once the size is known
    have found (st₁ : InlineShape) (entered : depth < st₁.shape.length) :
        (st₁.shape.length = depth + 1 → ∃ inf, inferElements env depth first.isSequence
          (first :: others) st₁ = .ok ⟨st₁.shape ++ rest, inf⟩) ∧
        (st₁.shape.drop (depth + 1) = rest → ∃ inf, inferElements env depth first.isSequence
          (first :: others) st₁ = .ok ⟨st₁.shape, inf⟩) := by
      cases rest with
      | nil =>
        have scalar : first.isSequence = false := items first List.mem_cons_self
        rw [scalar, List.append_nil]
        exact ⟨fun _ => inferElements_scalars items, fun _ => inferElements_scalars items⟩
      | cons dim' rest' =>
        have visit (elem : Node) (mem : elem ∈ first :: others) :=
          @ih (depth + 1) elem (items elem mem) (List.cons_ne_nil _ _) later
        have seqs (elem : Node) (mem : elem ∈ first :: others) : elem.isSequence = true :=
          (items elem mem).1
        rw [seqs first List.mem_cons_self]
        constructor
        · intro opening
          obtain ⟨inf, recorded⟩ := (visit first List.mem_cons_self st₁).1 opening
          have known : (st₁.shape ++ dim' :: rest').drop (depth + 1) = dim' :: rest' := by
            rw [← opening, List.drop_left]
          rw [inferElements, if_neg (not_not.mpr (seqs first List.mem_cons_self)),
            if_pos (seqs first List.mem_cons_self), recorded]
          refine inferElements_found (fun elem mem => ?_) rfl
          refine ⟨seqs elem (List.mem_cons_of_mem first mem), fun st same => ?_⟩
          have again := (visit elem (List.mem_cons_of_mem first mem) st).2
          rw [same] at again
          exact again (by rw [List.length_append, List.length_cons]; omega) known
        · intro known
          refine inferElements_found (fun elem mem => ?_) rfl
          refine ⟨seqs elem mem, fun st same => ?_⟩
          have again := (visit elem mem st).2
          rw [same] at again
          refine again ?_ known
          by_contra short
          rw [List.drop_of_length_le (Nat.le_of_not_lt short)] at known
          cases known
    constructor
    · intro opening
      have record : recordSize depth dim st = .ok { st with shape := st.shape ++ [dim] } := by
        rw [recordSize, if_pos (by omega)]
      rw [inferInlineArrayDatatype_sequence length small record]
      obtain ⟨inf, walked⟩ := (found { st with shape := st.shape ++ [dim] } (by
        rw [List.length_append]
        exact Nat.lt_succ_of_le opening.ge)).1 (by
          rw [List.length_append, opening]
          rfl)
      exact ⟨inf, by rw [walked, List.append_assoc]; rfl⟩
    · intro entered known
      rw [List.drop_eq_getElem_cons entered] at known
      obtain ⟨same, known⟩ := List.cons.inj known
      have record : recordSize depth dim st = .ok st := by
        have entry : st.shape.getD depth 0 = st.shape[depth] := by simp [List.getD, entered]
        rw [recordSize, if_neg (by omega), if_neg]
        rw [entry, same]
        exact not_not.mpr rfl
      rw [inferInlineArrayDatatype_sequence length small record]
      exact (found st entered).2 known

end Walk

/-! ## Writing and reading -/

/-- The number of elements, none if there are no dimensions. -/
def elementCount (extents : List UInt64) : Nat := if extents = [] then 0 else extentsVolume extents

/-- `asdf_ndarray_serialize` of an array that is stored inline, whose data is `a`'s. -/
def writeInline (env : ElementEnv) (lib : NumberBuilder) (v : NdarrayValue) (a : Ndarray)
    (block : Option BlockIndex) : Run (Option Node) := do
  let node ← serializeInlineData env.pf a
  let leaf := nodeOfElement lib env.pf.host env.scalars.floats.decimalPoint a.datatype
  return node.bind fun node =>
    ndarraySerialize lib env.scalars v ⟨block, true, some (node.toNode leaf)⟩

/-- An array of a scalar type with its data in memory. -/
structure HoldsArray (v : NdarrayValue) (a : Ndarray) (block : Option BlockIndex) : Prop where
  shape : v.shape = a.extents
  datatype : ∃ byteorder, v.datatype =
    ⟨a.datatype, UInt64.ofNat a.datatype.size, none, byteorder, [], []⟩
  held : block.isSome ∨ v.inlineData.isSome
  data : elementCount a.extents * a.datatype.size ≤ a.data.bytes.length

/-- The mapping that is made of the array is read as one of the same shape and type,
in the host's byte order, with the same bytes. -/
def ComesBackInline (env : ElementEnv) (lib : NumberBuilder) (v : NdarrayValue) (a : Ndarray)
    (block : Option BlockIndex) : Prop :=
  ∃ node b, writeInline env lib v a block = .ret (some node) ∧
    ndarrayDeserialize env.scalars env.pf.host node = .ok b.toValue ∧
    b.shape = a.extents ∧ b.datatype = { v.datatype with byteorder := .default } ∧
    b.byteorder = env.pf.host ∧
    inlineData env b = .ret (some (a.data.bytes.take (elementCount a.extents * a.datatype.size)))

section Write

variable {env : ElementEnv} {lib : NumberBuilder} {v : NdarrayValue} {a : Ndarray}
  {block : Option BlockIndex}

theorem position_lt : ∀ {extents : List UInt64} {path : List Nat}, Written extents path →
    extentsPosition extents path < extentsVolume extents := by
  intro extents
  induction extents with
  | nil =>
    intro path written
    cases path <;> exact written.elim
  | cons dim rest ih =>
    intro path written
    cases rest with
    | nil =>
      cases path with
      | nil => exact written.elim
      | cons idx path =>
        cases path with
        | cons next path => exact written.elim
        | nil =>
          have lt : idx < dim.toNat := Nat.lt_of_lt_of_le written (intCount_le dim)
          change idx * 1 + 0 < dim.toNat * 1
          omega
    | cons inner rest =>
      cases path with
      | nil => exact written.elim
      | cons idx path =>
        obtain ⟨lt, written⟩ := written
        have inside := ih written
        have le := Nat.mul_le_mul_right (extentsVolume (inner :: rest)) (Nat.succ_le_of_lt lt)
        rw [Nat.succ_mul] at le
        rw [extentsPosition, extentsVolume]
        exact Nat.lt_of_lt_of_le (Nat.add_lt_add_left inside _) le

/-- The numbers of the array are written, in their order. -/
theorem HoldsArray.serialize (h : HoldsArray v a block)
    (supported : leafWidth env.pf a.datatype = some a.datatype.size) :
    ∃ node, serializeInlineData env.pf a = .ret (some node) ∧
      (Recorded a.extents → (a.extents = [] ∧ node = .seq []) ∨ a.extents ≠ [] ∧
        Nested a.extents node ∧ node.scalars = (List.range (elementCount a.extents)).map fun i =>
          elementAt a.data.bytes 0 a.datatype.size i) := by
  have room := h.data
  unfold elementCount at room ⊢
  cases extents : a.extents with
  | nil =>
    refine ⟨.seq [], ?_, fun _ => .inl ⟨rfl, rfl⟩⟩
    exact serializeInlineData_of_level (by rw [extents]; rfl)
  | cons dim rest =>
    rw [extents, if_neg (List.cons_ne_nil _ _)] at room
    have data : HasData env.pf a (dim :: rest) 0 := by
      intro path written
      refine ⟨supported, Nat.le_trans (Nat.mul_le_mul_right _ ?_) room⟩
      rw [Nat.zero_add]
      exact position_lt written
    obtain ⟨node, level, values⟩ := serializeSeqLevel_ret supported rest dim 0 data
    refine ⟨node, serializeInlineData_of_level (by rw [extents]; exact level), fun recorded => ?_⟩
    have counted : RowsCounted (dim :: rest) := by
      refine rowsCounted_of_last fun _ => ?_
      have last : (dim :: rest).length - 1 < (dim :: rest).length :=
        Nat.sub_lt (Nat.succ_pos _) Nat.one_pos
      have entry := recorded ((dim :: rest)[(dim :: rest).length - 1]) (List.getElem_mem last)
      simpa [List.getD, last] using entry.2
    have nested := serializeSeqLevel_nested counted level
    have scalars := values.scalars nested recorded
    simp only [Nat.zero_add] at scalars
    exact .inr ⟨List.cons_ne_nil _ _, nested, by rw [if_neg (List.cons_ne_nil _ _), scalars]⟩

end Write

/-! ## The mapping -/

section Mapping

variable {env : ScalarEnv} {lib : NumberBuilder} {v : NdarrayValue} {block : Option BlockIndex}

theorem datatypeSerialize_back {t : ScalarDatatype} (string : t ≠ .ascii ∧ t ≠ .ucs4)
    (scalar : t ≠ .structured) (byteorder : Byteorder) :
    ∃ val, datatypeSerialize lib.toScalarBuilder env
        ⟨t, UInt64.ofNat t.size, none, byteorder, [], []⟩ = some val ∧
      ∀ order, datatypeParse env order val =
        .ok ⟨t, UInt64.ofNat t.size, none, order, [], []⟩ := by
  obtain ⟨val, inferred, built, reads, name⟩ := typeName_node lib.toScalarBuilder env t
  refine ⟨val, ?_, fun order => ?_⟩
  · rw [datatypeSerialize, serializeImpl_scalar scalar rfl, typeNode, if_pos (by
      simp [Datatype.isScalar, scalar]), serializeScalar, if_neg (by
      simp [Datatype.isString, string]), built]
  · rw [datatypeParse_scalar reads.scalar, scalarDatatypeParse, name]
    simp only [fromString_toString string scalar]

/-- What is found in the mapping of an array that is stored inline. -/
structure InlineNode (env : ScalarEnv) (datatype : Datatype) (seq node : Node) : Prop where
  mapping : ∃ tag pairs, node = .mapping tag pairs
  source : node.lookup sourceKey = none
  data : node.lookup dataKey = some seq
  datatype : inlineDatatype env node = .ok (some datatype)
  shape : inlineShapeHint env node = .ok ()

theorem ndarraySerialize_inline {t : ScalarDatatype} (string : t ≠ .ascii ∧ t ≠ .ucs4)
    (scalar : t ≠ .structured) {byteorder : Byteorder}
    (datatype : v.datatype = ⟨t, UInt64.ofNat t.size, none, byteorder, [], []⟩)
    (held : block.isSome ∨ v.inlineData.isSome) (seq : Node) :
    ∃ node, ndarraySerialize lib env v ⟨block, true, some seq⟩ = some node ∧
      InlineNode env ⟨t, UInt64.ofNat t.size, none, .default, [], []⟩ seq node := by
  obtain ⟨val, typed, parsed⟩ := @datatypeSerialize_back env lib t string scalar byteorder
  have has : ¬ (block.isNone ∧ v.inlineData.isNone) := by
    rcases held with held | held <;>
      simp [Option.isNone_iff_eq_none, Option.isSome_iff_ne_none.mp held]
  have isInline : (Storage.mk block true (some seq)).isInline v = true := by
    simp [Storage.isInline]
  obtain ⟨opened, setSeq⟩ : ∃ pairs, mappingSetNode lib.toScalarBuilder env.floats [] dataKey seq
      false = some pairs := mappingSetNode_some rfl (by decide) [] seq
  obtain ⟨shaped, setShape⟩ : ∃ pairs, mappingSetNode lib.toScalarBuilder env.floats opened shapeKey
      (.sequence none []) false = some pairs := mappingSetNode_some rfl (by decide) opened _
  obtain ⟨pairs, written, found⟩ : ∃ pairs, setData lib env v ⟨block, true, some seq⟩ =
      some pairs ∧ ∀ key, (Node.mapping none pairs).lookup key =
        if key = shapeKey ∧ v.shape = [] then some (.sequence none [])
        else if key = dataKey then some seq else none := by
    have first := lookup_mappingSetNode rfl (by decide) setSeq none
    have second := lookup_mappingSetNode rfl (by decide) setShape none
    unfold setData
    simp only [has, if_false, if_true, Option.bind_eq_bind, Option.bind_some, setSeq]
    by_cases empty : v.shape = []
    · refine ⟨shaped, by rw [if_pos empty, setShape], fun key => ?_⟩
      rw [second, first]
      simp [empty, Node.lookup]
    · refine ⟨opened, if_neg empty, fun key => ?_⟩
      rw [first]
      simp [empty, Node.lookup]
  obtain ⟨final, setType⟩ : ∃ pairs', mappingSetNode lib.toScalarBuilder env.floats pairs
      datatypeKey val false = some pairs' := mappingSetNode_some rfl (by decide) pairs val
  have lookup := lookup_mappingSetNode rfl (by decide) setType none
  simp only [found] at lookup
  refine ⟨.mapping none final, ?_, ⟨_, _, rfl⟩, ?_, ?_, ?_, ?_⟩
  · rw [ndarraySerialize, written, datatype, typed]
    simp only [Option.bind_eq_bind, Option.bind_some, setType, isInline, if_true]
  · rw [lookup]
    rfl
  · rw [lookup]
    rfl
  · have type : (Node.mapping none final).lookup datatypeKey = some val := by
      rw [lookup]
      rfl
    rw [inlineDatatype, getPropertyImpl_value type]
    simp only [parsed .default]
    rfl
  · have hint : (Node.mapping none final).lookup shapeKey =
        if v.shape = [] then some (.sequence none []) else none := by
      have other : shapeKey ≠ datatypeKey ∧ shapeKey ≠ dataKey := by decide
      rw [lookup]
      simp [other]
    rw [inlineShapeHint]
    by_cases empty : v.shape = []
    · rw [if_pos empty] at hint
      rw [getPropertyImpl_sequence hint]
      rfl
    · rw [if_neg empty] at hint
      rw [getPropertyImpl_none hint]

/-- Where an array is read from such a mapping, its shape is what the walk finds. -/
theorem InlineNode.deserialize {d : Datatype} {tag : Option Bytes} {items : List Node}
    {node : Node} (h : InlineNode env d (.sequence tag items) node) (host : Byteorder) :
    ndarrayDeserialize env host node =
      (inferInlineArrayDatatype env 0 (.sequence tag items) ⟨[], .start⟩).map fun st =>
        InlineNdarray.toValue ⟨st.shape, d, host, .sequence tag items⟩ := by
  obtain ⟨tag', pairs, rfl⟩ := h.mapping
  have properties : inlineProperties env (some (.mapping tag' pairs)) = .ok (some d) := by
    simp only [inlineProperties, h.datatype, h.shape, bind, Except.bind]
  have inline : deserializeInline env host (some (.mapping tag' pairs)) (.sequence tag items) =
      (inferInlineArrayDatatype env 0 (.sequence tag items) ⟨[], .start⟩).map fun st =>
        ⟨st.shape, d, host, .sequence tag items⟩ := by
    rw [deserializeInline, properties]
    generalize inferInlineArrayDatatype env 0 (.sequence tag items) ⟨[], .start⟩ = walk
    cases walk <;> rfl
  rw [ndarrayDeserialize]
  simp only [getPropertyImpl_none h.source]
  rw [deserializeData]
  simp only [getPropertyImpl_sequence h.data]
  rw [inline]
  generalize inferInlineArrayDatatype env 0 (.sequence tag items) ⟨[], .start⟩ = walk
  cases walk <;> rfl

end Mapping

/-! ## The bytes -/

/-- Arrays of elements are equal where their elements are. -/
theorem eq_iff_elements {x y : Bytes} {count size : Nat} (some : 0 < size)
    (left : x.length = count * size) (right : y.length = count * size) :
    x = y ↔ ∀ i < count, elementAt x 0 size i = elementAt y 0 size i := by
  constructor
  · rintro rfl i _
    rfl
  · intro same
    refine List.ext_getElem? fun j => ?_
    by_cases inside : j < count * size
    · have split := Nat.div_add_mod' j size
      have rest := Nat.mod_lt j some
      have row : j / size < count := (Nat.div_lt_iff_lt_mul some).mpr inside
      have at_ (z : Bytes) : z[j]? = (elementAt z 0 size (j / size))[j % size]? := by
        rw [elementAt, Nat.zero_add, List.getElem?_take_of_lt rest, List.getElem?_drop, split]
      rw [at_ x, at_ y, same _ row]
    · rw [List.getElem?_eq_none (by omega), List.getElem?_eq_none (by omega)]

/-- The first elements of an array. -/
theorem eq_take_iff_elements {buf mem : Bytes} {count size : Nat} (some : 0 < size)
    (length : buf.length = count * size) (room : count * size ≤ mem.length) :
    buf = mem.take (count * size) ↔
      ∀ i < count, elementAt buf 0 size i = elementAt mem 0 size i := by
  have whole : (mem.take (count * size)).length = count * size := by
    rw [List.length_take, Nat.min_eq_left room]
  rw [eq_iff_elements some length whole]
  refine forall_congr' fun i => imp_congr_right fun lt => ?_
  rw [elementAt_take]
  have := Nat.mul_le_mul_right size (show i + 1 ≤ count from lt)
  omega

section Read

variable {env : ElementEnv} {b : InlineNdarray}

/-- The data of a rectangular tree whose scalars are all converted. -/
theorem inlineData_rect (rect : Rect b.shape b.inlineData) (dims : b.shape ≠ [])
    (recorded : Recorded b.shape) (convertible : Convertible b.datatype.type)
    (size : datatypeSize b.datatype = UInt64.ofNat b.datatype.type.size)
    (memory : InMemory b.inlineData) (room : extentsVolume b.shape * b.datatype.type.size ≤ offMax)
    (converts : ∀ elem ∈ b.inlineData.leaves,
      (convertScalarToNative env b.datatype.type elem).1 = .ok) :
    ∃ buf, inlineData env b = .ret (some buf) ∧
      buf.length = extentsVolume b.shape * b.datatype.type.size ∧
      ∀ (i : Nat) elem, b.inlineData.leaves[i]? = some elem → ∃ bytes,
        convertScalarToNative env b.datatype.type elem = (.ok, some bytes) ∧
          elementAt buf 0 b.datatype.type.size i = bytes := by
  have count := rect.length_leaves
  have volume := extentsVolume_pos fun dim mem => (recorded dim mem).1
  unfold InMemory at memory
  rw [count] at memory
  have nbytes := inlineNbytes_toNat dims memory convertible size
  have nonzero : inlineNbytes b ≠ 0 := by
    intro zero
    have := Nat.mul_pos volume convertible.size.1
    rw [zero] at nbytes
    change 0 = _ at nbytes
    omega
  have length : (List.replicate (inlineNbytes b).toNat (0 : UInt8)).length =
      extentsVolume b.shape * b.datatype.type.size := by
    rw [List.length_replicate, nbytes]
  have hasRoom : HasRoom b.datatype.type b.inlineData.leaves.length
      ⟨List.replicate (inlineNbytes b).toNat (0 : UInt8), 0⟩ := by
    intro _
    change (0 + _) * _ ≤ _
    rw [Nat.zero_add, count, length]
  have small : (List.replicate (inlineNbytes b).toNat (0 : UInt8)).length <
      18446744073709551616 := by
    rw [List.length_replicate]
    exact (inlineNbytes b).toNat_lt
  obtain ⟨err, st, run, kept, wrote⟩ := @parseLeaves_wrote env _ _ _ hasRoom small
  obtain rfl := parseLeaves_ok converts run
  have wrote := wrote rfl
  refine ⟨st.buf, ?_, kept.trans length, fun i elem found => ?_⟩
  · rw [inlineData, if_neg nonzero, malloc, if_pos (by rw [nbytes]; exact room)]
    dsimp only
    rw [parseInlineData, parseInlineArrayLevel_rect rect dims (Nat.zero_add _), run]
    rfl
  · obtain ⟨bytes, convert, value⟩ := wrote.elem i elem found
    refine ⟨bytes, convert, ?_⟩
    change elementAt st.buf 0 _ (0 + i) = bytes at value
    rwa [Nat.zero_add] at value

end Read

/-! ## Arrays -/

section RoundTrip

variable {env : ElementEnv} {lib : ElementBuilder env.scalars.floats} {v : NdarrayValue}
  {a : Ndarray} {block : Option BlockIndex}

theorem serializeSeqLevel_seq {pf : Platform} {extents : List UInt64} {off off' : UInt64}
    {node : YamlNode} (h : serializeSeqLevel pf a extents off = .ret (some (node, off'))) :
    ∃ items, node = .seq items := by
  cases extents with
  | nil =>
    cases h
    exact ⟨[], rfl⟩
  | cons dim rest =>
    cases rest with
    | nil =>
      unfold serializeSeqLevel at h
      cases width : leafWidth pf a.datatype with
      | none =>
        rw [width] at h
        cases h
      | some w =>
        rw [width] at h
        obtain ⟨items, -, h⟩ := Outcome.bind_eq_ret.mp h
        cases h
        exact ⟨_, rfl⟩
    | cons inner rest =>
      unfold serializeSeqLevel at h
      obtain ⟨result, -, h⟩ := Outcome.bind_eq_ret.mp h
      cases result with
      | none => cases h
      | some result =>
        cases h
        exact ⟨_, rfl⟩

theorem nodeOfElement_scalar (lib : NumberBuilder) (host : Byteorder) (point : Bytes)
    (dtype : ScalarDatatype) (bytes : Bytes) :
    (nodeOfElement lib host point dtype bytes).isSequence = false := by
  cases dtype <;> rfl

theorem convertible_of_leafWidth {pf : Platform} {t : ScalarDatatype}
    (supported : leafWidth pf t = some t.size) : Convertible t ∧ (t ≠ .ascii ∧ t ≠ .ucs4) ∧
      t ≠ .structured := by
  cases t <;> first
    | exact ⟨.inl rfl, ⟨by decide, by decide⟩, by decide⟩
    | exact ⟨.inr rfl, ⟨by decide, by decide⟩, by decide⟩
    | cases supported

/-- The datatype that is read back. -/
def plainDatatype (t : ScalarDatatype) : Datatype :=
  ⟨t, UInt64.ofNat t.size, none, .default, [], []⟩

/-- What is written for an array, and how it is read. -/
structure Rewritten (env : ElementEnv) (lib : NumberBuilder) (v : NdarrayValue) (a : Ndarray)
    (block : Option BlockIndex) (node seq : Node) : Prop where
  write : writeInline env lib v a block = .ret (some node)
  read : ndarrayDeserialize env.scalars env.pf.host node =
    (inferInlineArrayDatatype env.scalars 0 seq ⟨[], .start⟩).map fun st =>
      InlineNdarray.toValue ⟨st.shape, plainDatatype a.datatype, env.pf.host, seq⟩
  tree : Recorded a.extents → (a.extents = [] ∧ seq = .sequence none []) ∨ a.extents ≠ [] ∧
    Rect a.extents seq ∧ seq.leaves = (List.range (elementCount a.extents)).map fun i =>
      nodeOfElement lib env.pf.host env.scalars.floats.decimalPoint a.datatype
        (elementAt a.data.bytes 0 a.datatype.size i)

/-- Numbers that can be written are, and the mapping is read in the host's byte order. -/
theorem writeInline_read (string : a.datatype ≠ .ascii ∧ a.datatype ≠ .ucs4)
    (scalar : a.datatype ≠ .structured) {byteorder : Byteorder}
    (datatype : v.datatype = ⟨a.datatype, UInt64.ofNat a.datatype.size, none, byteorder, [], []⟩)
    (held : block.isSome ∨ v.inlineData.isSome) (lib : NumberBuilder) {y : YamlNode}
    (serialized : serializeInlineData env.pf a = .ret (some y)) :
    let seq := y.toNode (nodeOfElement lib env.pf.host env.scalars.floats.decimalPoint a.datatype)
    ∃ node, writeInline env lib v a block = .ret (some node) ∧
      ndarrayDeserialize env.scalars env.pf.host node =
        (inferInlineArrayDatatype env.scalars 0 seq ⟨[], .start⟩).map fun st =>
          InlineNdarray.toValue ⟨st.shape, plainDatatype a.datatype, env.pf.host, seq⟩ := by
  intro seq
  obtain ⟨items, rfl⟩ : ∃ items, y = .seq items := by
    obtain ⟨result, level, eq⟩ := Outcome.bind_eq_ret.mp serialized
    cases result with
    | none => cases eq
    | some result =>
      cases eq
      exact serializeSeqLevel_seq level
  obtain ⟨node, made, found⟩ := @ndarraySerialize_inline env.scalars lib v block _ string scalar
    byteorder datatype held seq
  refine ⟨node, ?_, found.deserialize env.pf.host⟩
  rw [writeInline, serialized, Outcome.ret_bind]
  exact congrArg Outcome.ret made

theorem HoldsArray.rewritten (h : HoldsArray v a block)
    (supported : leafWidth env.pf a.datatype = some a.datatype.size) (lib : NumberBuilder) :
    ∃ node seq, Rewritten env lib v a block node seq := by
  obtain ⟨y, serialized, values⟩ := h.serialize supported
  obtain ⟨-, string, scalar⟩ := convertible_of_leafWidth supported
  obtain ⟨byteorder, datatype⟩ := h.datatype
  obtain ⟨node, write, read⟩ := writeInline_read string scalar datatype h.held lib serialized
  refine ⟨node, _, write, read, fun recorded => ?_⟩
  rcases values recorded with ⟨empty, none⟩ | ⟨dims, nested, scalars⟩
  · cases none
    exact .inl ⟨empty, rfl⟩
  · obtain ⟨rect, leaves⟩ := nested.toNode
      (nodeOfElement_scalar lib env.pf.host env.scalars.floats.decimalPoint a.datatype) recorded
    refine .inr ⟨dims, rect, ?_⟩
    rw [leaves, scalars, List.map_map]
    rfl

theorem InlineNdarray.toValue_inj {b b' : InlineNdarray} (h : b.toValue = b'.toValue) : b = b' := by
  have shape := congrArg NdarrayValue.shape h
  have datatype := congrArg NdarrayValue.datatype h
  have byteorder := congrArg NdarrayValue.byteorder h
  have data := Option.some.inj (congrArg NdarrayValue.inlineData h)
  cases b
  cases b'
  cases shape
  cases datatype
  cases byteorder
  cases data
  rfl

/-- The walk over what was written, where the shape can be recorded. -/
theorem Rewritten.walk {node seq : Node} (h : Rewritten env lib.toNumberBuilder v a block node seq)
    (recorded : Recorded a.extents) :
    ∃ inf, inferInlineArrayDatatype env.scalars 0 seq ⟨[], .start⟩ = .ok ⟨a.extents, inf⟩ := by
  rcases h.tree recorded with ⟨empty, rfl⟩ | ⟨dims, rect, -⟩
  · rw [empty]
    exact ⟨.start, rfl⟩
  · exact (inferInlineArrayDatatype_rect rect dims recorded ⟨[], .start⟩).1 rfl

section Elements

variable (ieee : env.scalars.floats.Ieee) (p : DecimalPoint env.scalars.floats.decimalPoint)
  (narrows : env.scalars.floats.Narrows) (h : HoldsArray v a block)
  (supported : leafWidth env.pf a.datatype = some a.datatype.size)
  (memory : 8 * elementCount a.extents < 18446744073709551616)

include ieee p narrows h supported memory

/-- The data that is parsed from what was written: it has the elements that come
back in their places. -/
theorem Rewritten.data {node seq : Node}
    (written : Rewritten env lib.toNumberBuilder v a block node seq)
    (recorded : Recorded a.extents) :
    ∃ buf, inlineData env ⟨a.extents, plainDatatype a.datatype, env.pf.host, seq⟩ =
        .ret (some buf) ∧ buf.length = elementCount a.extents * a.datatype.size ∧
      ∀ i < elementCount a.extents, elementAt buf 0 a.datatype.size i =
          elementAt a.data.bytes 0 a.datatype.size i ↔
        ElementKept env.scalars.floats env.pf.host a.datatype
          (elementAt a.data.bytes 0 a.datatype.size i) := by
  have room := h.data
  rcases written.tree recorded with ⟨empty, rfl⟩ | ⟨dims, rect, leaves⟩
  · rw [empty, elementCount, if_pos rfl, Nat.zero_mul]
    exact ⟨[], rfl, rfl, fun i lt => absurd lt (Nat.not_lt_zero i)⟩
  have count : elementCount a.extents = extentsVolume a.extents := if_neg dims
  rw [count] at room memory leaves ⊢
  obtain ⟨convertible, -⟩ := convertible_of_leafWidth supported
  have each (i : Nat) (lt : i < extentsVolume a.extents) :=
    @convert_nodeOfElement env lib (elementAt a.data.bytes 0 a.datatype.size i) ieee p narrows
      a.datatype supported (length_elementAt (by
        have := Nat.mul_le_mul_right a.datatype.size (show i + 1 ≤ extentsVolume a.extents from lt)
        omega))
  obtain ⟨buf, run, length, elements⟩ := @inlineData_rect env
    ⟨a.extents, plainDatatype a.datatype, env.pf.host, seq⟩ rect dims recorded convertible
    (datatypeSize_eq convertible rfl) (by
      unfold InMemory
      rwa [rect.length_leaves])
    (room.trans a.data.size_le) (by
      intro elem mem
      change elem ∈ seq.leaves at mem
      rw [leaves] at mem
      obtain ⟨i, lt, rfl⟩ := List.mem_map.mp mem
      obtain ⟨stored, convert, -⟩ := each i (List.mem_range.mp lt)
      exact congrArg Prod.fst convert)
  refine ⟨buf, run, length, fun i lt => ?_⟩
  obtain ⟨stored, convert, kept⟩ := each i lt
  obtain ⟨bytes, convert', value⟩ := elements i _ (by
    change seq.leaves[i]? = _
    rw [leaves, List.getElem?_map, List.getElem?_range lt]
    rfl)
  have same := Option.some.inj (congrArg Prod.snd (convert.symm.trans convert'))
  change elementAt buf 0 a.datatype.size i = bytes at value
  rw [value, ← same]
  exact kept

/-- An array whose shape can be counted comes back if all of its elements do. -/
theorem comesBackInline_of_kept (recorded : Recorded a.extents)
    (all : ∀ i < elementCount a.extents, ElementKept env.scalars.floats env.pf.host a.datatype
      (elementAt a.data.bytes 0 a.datatype.size i)) :
    ComesBackInline env lib.toNumberBuilder v a block := by
  obtain ⟨node, seq, written⟩ := h.rewritten supported lib.toNumberBuilder
  obtain ⟨byteorder, datatype⟩ := h.datatype
  obtain ⟨convertible, -⟩ := convertible_of_leafWidth supported
  obtain ⟨inf, walk⟩ := written.walk recorded
  obtain ⟨buf, run, length, kept⟩ := written.data ieee p narrows h supported memory recorded
  have eq := (eq_take_iff_elements convertible.size.1 length h.data).mpr
    fun i lt => (kept i lt).mpr (all i lt)
  refine ⟨node, ⟨a.extents, plainDatatype a.datatype, env.pf.host, seq⟩, written.write, ?_, rfl,
    ?_, rfl, by rw [run, eq]⟩
  · rw [written.read, walk]
    rfl
  · rw [datatype]
    rfl

/-- **An array that is stored inline comes back just if its shape can be counted and
all of its elements come back.** The mapping that is made of it is read as an array of
the same shape and type and the same bytes if no dimension is empty or longer than an
`int` counts, and each element is one that its text is read as: every integer, the
booleans that are 0 or 1, every double but for the NaNs of others, and every `float` but
for these and for those with odd bits that are read as a double halfway to the next. -/
theorem inline_round_trip : ComesBackInline env lib.toNumberBuilder v a block ↔
    Recorded a.extents ∧ ∀ i < elementCount a.extents,
      ElementKept env.scalars.floats env.pf.host a.datatype
        (elementAt a.data.bytes 0 a.datatype.size i) := by
  obtain ⟨node, seq, written⟩ := h.rewritten supported lib.toNumberBuilder
  obtain ⟨convertible, -⟩ := convertible_of_leafWidth supported
  constructor
  · rintro ⟨node', b, write, read, shape, -, -, data⟩
    cases Option.some.inj (Outcome.ret.inj (write.symm.trans written.write))
    rw [written.read] at read
    cases walk : inferInlineArrayDatatype env.scalars 0 seq ⟨[], .start⟩ with
    | error err =>
      rw [walk] at read
      cases read
    | ok st =>
      rw [walk] at read
      obtain rfl := InlineNdarray.toValue_inj (Except.ok.inj read)
      have recorded : Recorded a.extents := by
        rw [← shape]
        exact inferInlineArrayDatatype_recorded seq walk fun dim mem => absurd mem List.not_mem_nil
      refine ⟨recorded, fun i lt => ?_⟩
      obtain ⟨buf, run, length, kept⟩ := written.data ieee p narrows h supported memory recorded
      change st.shape = a.extents at shape
      rw [shape, run] at data
      have eq := Option.some.inj (Outcome.ret.inj data)
      exact (kept i lt).mp
        ((eq_take_iff_elements convertible.size.1 length h.data).mp eq i lt)
  · rintro ⟨recorded, all⟩
    exact comesBackInline_of_kept ieee p narrows h supported memory recorded all

end Elements

end RoundTrip

/-! ## Some arrays -/

/-- A library that creates plain scalars. -/
def plainElementBuilder (fl : Floats) : ElementBuilder fl :=
  { plainNumbers with style_float := fun _ _ => rfl, style_bool := fun _ _ _ => rfl }

/-- A machine whose locale has a comma for the decimal point. -/
def libraryElements : ElementEnv := ⟨⟨libraryFloats [44], true, fun _ => none⟩, x86, fun _ => 0⟩

/-- 0.1 and 1 as a column of `float`. -/
def floatColumn : Ndarray :=
  ⟨[2, 1], .float32, .little, 0, ⟨[205, 204, 204, 61, 0, 0, 128, 63], by decide⟩⟩

def floatColumnValue : NdarrayValue :=
  ⟨0, [2, 1], plainDatatype .float32, .little, 0, none, some (.sequence none [])⟩

theorem floatColumn_recorded : Recorded floatColumn.extents := by
  intro dim mem
  rcases List.mem_cons.mp mem with rfl | mem
  · decide
  · obtain rfl := List.mem_singleton.mp mem
    decide

theorem inline_round_trip_column : ComesBackInline libraryElements
    (plainElementBuilder (libraryFloats [44])).toNumberBuilder floatColumnValue floatColumn none :=
  (@inline_round_trip libraryElements (plainElementBuilder (libraryFloats [44])) _ _ _
    (libraryFloats_ieee [44]) comma_decimalPoint (fun _ _ => rfl)
    ⟨rfl, ⟨.default, rfl⟩, .inr rfl, by decide⟩ rfl (by decide)).mpr
      ⟨floatColumn_recorded, by decide +kernel⟩

/-- 7.038531e-26 is read as a double halfway to the next `float`, which has even bits. -/
example : ¬ FloatKept (libraryFloats [44]) 363742205 := by decide +kernel

end LibAsdf
