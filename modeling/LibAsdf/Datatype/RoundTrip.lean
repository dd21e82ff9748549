import LibAsdf.Datatype.Serialize

/-!
# Datatypes come back

Which datatypes are read back as they were from the node that is made of them.

* `Parsed`: what holds of every datatype that was read;
* `Survives`: the datatypes that come back;
* `datatype_round_trip`: these are all.
-/

namespace LibAsdf

/-! ## What was read -/

/-- The size that the elements of a datatype are read with, before the shape. -/
def Datatype.baseSize (d : Datatype) : UInt64 :=
  match d.type with
  | .ascii | .ucs4 => cut32 d.size
  | .structured => d.fields.foldl (fun size field => size + field.size) 0
  | type => UInt64.ofNat type.size

/-- A datatype as `asdf_datatype_parse` reads it, without what a field adds. -/
def Datatype.base (byteorder : Byteorder) (d : Datatype) : Datatype :=
  ⟨d.type, d.baseSize, none, byteorder, [], d.fields⟩

theorem Datatype.eta (d : Datatype) :
    (⟨d.type, d.size, d.name, d.byteorder, d.shape, d.fields⟩ : Datatype) = d := by
  cases d
  rfl

/-- The types whose size is not that of their name. -/
def ScalarDatatype.sized : ScalarDatatype → Bool
  | .ascii | .ucs4 | .unknown => true
  | _ => false

/-- What holds of every datatype that was read under a byte order, and of its fields. -/
inductive Parsed (byteorder : Byteorder) : Datatype → Prop
  | intro {d : Datatype}
      (flat : d.type ≠ .structured → d.fields = [])
      (size : d.type.sized = false → d.size = d.shape.foldl (· * ·) d.baseSize)
      (aligned : d.type = .ucs4 → d.size.toNat % 4 = 0)
      (order : d.byteorder = .default → byteorder = .default)
      (terminated : ∀ name ∈ d.name, cString name = name)
      (fields : ∀ f ∈ d.fields, Parsed byteorder f) : Parsed byteorder d

/-- What holds of a datatype that is not a field. -/
structure TopLevel (byteorder : Byteorder) (d : Datatype) : Prop where
  parsed : Parsed byteorder d
  name : d.name = none
  byteorder : d.byteorder = byteorder
  shape : d.shape = []

section Parsed

variable {env : ScalarEnv} {byteorder : Byteorder}

theorem cString_cString (text : Bytes) : cString (cString text) = cString text := by
  unfold cString
  rw [List.takeWhile_takeWhile]
  simp

theorem aligned_mul {a b : UInt64} (h : a.toNat % 4 = 0) : (a * b).toNat % 4 = 0 := by
  rw [UInt64.toNat_mul]
  have divides : (4 : Nat) ∣ 2 ^ 64 := by decide
  rw [Nat.mod_mod_of_dvd _ divides, Nat.mul_mod, h]
  simp

theorem aligned_foldl {shape : List UInt64} {size : UInt64} (h : size.toNat % 4 = 0) :
    (shape.foldl (· * ·) size).toNat % 4 = 0 := by
  induction shape generalizing size with
  | nil => exact h
  | cons dim rest ih => exact ih (aligned_mul h)

theorem topLevel_string {typeVal sizeVal : Node} {d : Datatype}
    (h : stringDatatypeParse env byteorder typeVal sizeVal = .ok d) : TopLevel byteorder d := by
  have made {type : ScalarDatatype} {size : UInt64} (structured : type ≠ .structured)
      (sized : type.sized = true) (aligned : type = .ucs4 → size.toNat % 4 = 0) :
      TopLevel byteorder ⟨type, size, none, byteorder, [], []⟩ := by
    constructor
    · constructor
      · exact fun _ => rfl
      · intro unsized
        exact absurd sized (by simp [unsized])
      · exact aligned
      · exact id
      · nofun
      · nofun
    · rfl
    · rfl
    · rfl
  unfold stringDatatypeParse at h
  cases type : asString0 env typeVal with
  | error err => simp [type, bind, Except.bind] at h
  | ok type' =>
    cases size : asUint64 env sizeVal with
    | error err => simp [type, size, bind, Except.bind] at h
    | ok size' =>
      simp only [type, size, bind, Except.bind] at h
      split at h
      · cases h
        exact made nofun rfl nofun
      split at h
      · cases h
        have aligned : (size' * 4).toNat % 4 = 0 := by
          rw [UInt64.mul_comm]
          exact aligned_mul rfl
        exact made nofun rfl fun _ => aligned
      · cases h
        exact made nofun rfl nofun

theorem scalarDatatypeFromString_ne (dtype : Bytes) :
    scalarDatatypeFromString dtype ≠ .structured ∧ scalarDatatypeFromString dtype ≠ .ucs4 ∧
      scalarDatatypeFromString dtype ≠ .ascii := by
  have sized {digits p : Bytes} {sizes : List (Bytes × ScalarDatatype)}
      (listed : ∀ pair ∈ sizes, pair.2 ≠ .structured ∧ pair.2 ≠ .ucs4 ∧ pair.2 ≠ .ascii) :
      sizedDatatype digits sizes p ≠ .structured ∧ sizedDatatype digits sizes p ≠ .ucs4 ∧
        sizedDatatype digits sizes p ≠ .ascii := by
    unfold sizedDatatype
    split
    · cases found : sizes.lookup p with
      | none => simp
      | some type =>
        have mem : ∃ pair ∈ sizes, pair.2 = type := by
          obtain ⟨l, r, eq, -⟩ := List.lookup_eq_some_iff.mp found
          exact ⟨(p, type), by simp [eq], rfl⟩
        obtain ⟨pair, mem, rfl⟩ := mem
        exact listed pair mem
    · simp
  unfold scalarDatatypeFromString
  repeat' split
  all_goals first
    | exact sized (by simp)
    | simp

theorem topLevel_scalar {value : Node} {d : Datatype}
    (h : scalarDatatypeParse env byteorder value = .ok d) : TopLevel byteorder d := by
  unfold scalarDatatypeParse at h
  split at h
  · rename_i dtype eq
    cases h
    obtain ⟨structured, ucs4, ascii⟩ := scalarDatatypeFromString_ne dtype
    constructor
    · constructor
      · exact fun _ => rfl
      · intro _
        rw [List.foldl_nil, Datatype.baseSize]
        split
        · exact absurd ‹_› ascii
        · exact absurd ‹_› ucs4
        · exact absurd ‹_› structured
        · rfl
      · intro type
        exact absurd type ucs4
      · exact id
      · nofun
      · nofun
    · rfl
    · rfl
    · rfl
  · cases h

theorem topLevel_structured {fields : List Datatype} (h : ∀ f ∈ fields, Parsed byteorder f) :
    TopLevel byteorder (structuredDatatype byteorder fields) := by
  constructor
  · constructor
    · exact fun type => absurd rfl type
    · exact fun _ => rfl
    · nofun
    · exact id
    · nofun
    · exact h
  · rfl
  · rfl
  · rfl

theorem fieldsParse_cons {item : Node} {rest : List Node} {fields : List Datatype} :
    fieldsParse env byteorder (item :: rest) = .ok fields ↔
      ∃ field fields', fieldParse env byteorder item = .ok field ∧
        fieldsParse env byteorder rest = .ok fields' ∧ fields = field :: fields' := by
  rw [fieldsParse]
  cases fieldParse env byteorder item with
  | error err => simp [bind, Except.bind]
  | ok field =>
    cases fieldsParse env byteorder rest with
    | error err => simp [bind, Except.bind]
    | ok fields' => simp [bind, Except.bind, eq_comm]

theorem fieldsParse_mem {items : List Node} {fields : List Datatype}
    (h : fieldsParse env byteorder items = .ok fields) :
    ∀ f ∈ fields, ∃ item ∈ items, fieldParse env byteorder item = .ok f := by
  induction items generalizing fields with
  | nil =>
    rw [fieldsParse] at h
    cases h
    exact List.forall_mem_nil _
  | cons item rest ih =>
    obtain ⟨field, fields', here, later, rfl⟩ := fieldsParse_cons.mp h
    intro f mem
    rcases List.mem_cons.mp mem with rfl | mem
    · exact ⟨item, List.mem_cons_self, here⟩
    · obtain ⟨item', mem', parse⟩ := ih later f mem
      exact ⟨item', List.mem_cons_of_mem _ mem', parse⟩

theorem datatypeByteorderParse_default {parent : Node} {path : Bytes} {out : Byteorder}
    (h : (datatypeByteorderParse env parent path out).2 = .default) : out = .default := by
  unfold datatypeByteorderParse at h
  split at h
  · split at h
    · rename_i order eq
      unfold byteorderOfText at eq
      simp only at h
      subst h
      split at eq
      · cases eq
      split at eq <;> cases eq
    · cases h
  · exact h

theorem fieldName_terminated {value : Node} {name : Bytes} (h : fieldName env value = some name) :
    cString name = name := by
  unfold fieldName at h
  split at h
  · cases h
    exact cString_cString _
  · cases h

/-- What a field adds to its datatype. -/
theorem fieldAttributesParse_adds {value : Node} {base field : Datatype} (whole : base.shape = [])
    (h : fieldAttributesParse env value base = .ok field) :
    field.type = base.type ∧ field.fields = base.fields ∧
      field.size = field.shape.foldl (· * ·) base.size ∧
      field.byteorder = (datatypeByteorderParse env value byteorderKey base.byteorder).2 ∧
      field.name = fieldName env value := by
  unfold fieldAttributesParse at h
  simp only at h
  split at h
  · unfold fieldShapeParse at h
    split at h
    · obtain ⟨shape, rfl⟩ : ∃ shape, field = _ := by
        cases eq : datatypeShapeParse env _ with
        | error err =>
          rw [eq] at h
          cases h
        | ok shape =>
          rw [eq] at h
          exact ⟨shape, (Except.ok.inj h).symm⟩
      exact ⟨rfl, rfl, rfl, rfl, rfl⟩
    · cases h
      exact ⟨rfl, rfl, by rw [whole]; rfl, rfl, rfl⟩
    · cases h
  · cases h

theorem parsed_fieldAttributes {value : Node} {base field : Datatype} (top : TopLevel byteorder base)
    (h : fieldAttributesParse env value base = .ok field) : Parsed byteorder field := by
  obtain ⟨flat, size, aligned, order, -, fields⟩ := top.parsed
  obtain ⟨type, same, multiplied, byteorder', name⟩ := fieldAttributesParse_adds top.shape h
  rw [top.shape, List.foldl_nil] at size
  constructor
  · rw [type, same]
    exact flat
  · intro unsized
    have baseSize : field.baseSize = base.baseSize := by
      rw [type] at unsized
      unfold Datatype.baseSize
      rw [type, same]
      cases base_type : base.type <;> simp_all [ScalarDatatype.sized]
    rw [multiplied, baseSize, size (type ▸ unsized)]
  · intro ucs4
    rw [multiplied]
    exact aligned_foldl (aligned (type ▸ ucs4))
  · intro default
    rw [byteorder'] at default
    exact order (datatypeByteorderParse_default default)
  · intro n mem
    rw [name] at mem
    exact fieldName_terminated mem
  · rw [same]
    exact fields

/-- Whatever was read is as it should be. -/
theorem parsed_of_parse (value : Node) :
    (∀ d, datatypeParse env byteorder value = .ok d → TopLevel byteorder d) ∧
      ∀ f, fieldParse env byteorder value = .ok f → Parsed byteorder f := by
  induction value using Node.tree_induction with
  | step value ih =>
    have whole : ∀ d, datatypeParse env byteorder value = .ok d → TopLevel byteorder d := by
      intro d h
      rw [datatypeParse.eq_def] at h
      split at h
      · rename_i tag items
        split at h
        · exact topLevel_string h
        · cases parse : fieldsParse env byteorder items with
          | error err =>
            rw [parse] at h
            cases h
          | ok fields =>
            rw [parse] at h
            cases h
            apply topLevel_structured
            intro f mem
            obtain ⟨item, mem', parse'⟩ := fieldsParse_mem parse f mem
            exact (ih item mem').2 f parse'
      · exact topLevel_scalar h
    refine ⟨whole, ?_⟩
    intro f h
    rw [fieldParse.eq_def] at h
    split at h
    · rename_i tag pairs
      split at h
      · cases h
      · rename_i datatypeVal found
        cases parse : datatypeParse env byteorder datatypeVal with
        | error err =>
          rw [parse] at h
          cases h
        | ok base =>
          rw [parse] at h
          exact parsed_fieldAttributes
            ((ih datatypeVal (Node.mem_children_of_lookup found)).1 base parse) h
    · exact (whole f h).parsed

end Parsed

/-! ## What is read back -/

section ReadBack

variable {lib : ScalarBuilder} {env : ScalarEnv} {byteorder : Byteorder}

theorem typeName_clear (fl : Floats) (type : ScalarDatatype) :
    yamlStringIsAmbiguous fl (scalarDatatypeToString type) = false ∧
      (scalarDatatypeToString type).length ≤ 2147483647 ∧
      cString (scalarDatatypeToString type) = scalarDatatypeToString type := by
  cases type <;> exact ⟨rfl, by decide, rfl⟩

theorem fromString_toString {type : ScalarDatatype} (string : type ≠ .ascii ∧ type ≠ .ucs4)
    (structured : type ≠ .structured) :
    scalarDatatypeFromString (scalarDatatypeToString type) = type := by
  cases type <;> simp_all <;> decide

/-- The node of the name of a type. -/
theorem typeName_node (lib : ScalarBuilder) (env : ScalarEnv) (type : ScalarDatatype) : ∃ node inferred,
    nodeOfString lib env.floats (scalarDatatypeToString type) = some node ∧
      ReadsString env node inferred ∧ asString0 env node = .ok (scalarDatatypeToString type) := by
  obtain ⟨clear, short, terminated⟩ := typeName_clear env.floats type
  have built := @nodeOfString_clear lib _ _ clear short
  obtain ⟨inferred, reads⟩ := readsString_nodeOfString built
  refine ⟨_, inferred, built, reads, ?_⟩
  rw [reads.asString0]
  exact congrArg Except.ok terminated

theorem datatypeParse_scalar {node : Node} (scalar : valueTypeFromNode node = .scalar) :
    datatypeParse env byteorder node = scalarDatatypeParse env byteorder node := by
  cases node with
  | scalar tag style text => rw [datatypeParse.eq_def]
  | sequence tag items => cases scalar
  | mapping tag pairs => cases scalar

theorem cut32_toNat (v : UInt64) : (cut32 v).toNat = v.toNat % 4294967296 := by
  simp [cut32]

theorem ucs4_size {size : UInt64} (aligned : (cut32 size).toNat % 4 = 0) :
    cut32 size / 4 * 4 = cut32 size := by
  apply UInt64.toNat_inj.mp
  have small := (cut32 size).toNat_lt
  have four : (4 : UInt64).toNat = 4 := rfl
  rw [UInt64.toNat_mul, UInt64.toNat_div, four, Nat.mod_eq_of_lt (by omega)]
  omega

theorem isUint64_container {node : Node} (container : node.isContainer = true) :
    isUint64 env node = false := by
  have mismatched : inferScalarType env (AsdfValue.create node) =
      (AsdfValue.create node, .typeMismatch) := by
    unfold inferScalarType
    rw [if_pos]
    cases node with
    | scalar tag style text => cases container
    | sequence tag items => exact .inl rfl
    | mapping tag pairs => exact .inr rfl
  unfold isUint64
  change (inferredIs env _ (AsdfValue.create node)).2 = false
  simp [inferredIs, mismatched]

/-- The node of a scalar datatype, and what is read from it. -/
theorem serializeScalar_reads {d : Datatype} (parsed : Parsed byteorder d)
    (scalar : d.type ≠ .structured) : ∃ node, serializeScalar lib env d = some node ∧
      (∀ tag pairs, node ≠ .mapping tag pairs) ∧ isUint64 env node = false ∧
      ∀ byteorder, datatypeParse env byteorder node = .ok (d.base byteorder) := by
  obtain ⟨flat, -, aligned, -, -, -⟩ := parsed
  have flat := flat scalar
  obtain ⟨typeVal, inferred, built, reads, name⟩ :=
    typeName_node lib env d.type
  by_cases string : d.type = .ascii ∨ d.type = .ucs4
  · have cut : d.type = .ucs4 → (cut32 d.size).toNat % 4 = 0 := by
      intro ucs4
      have := aligned ucs4
      rw [cut32_toNat]
      omega
    have isString : d.isString = true := by simpa [Datatype.isString] using string
    rcases string with ascii | ucs4
    · refine ⟨.sequence none [typeVal, nodeOfUint lib (cut32 d.size).toNat], ?_,
        fun _ _ => Node.noConfusion, isUint64_container rfl, ?_⟩
      · rw [serializeScalar, if_pos isString, serializeString, built]
        simp [ascii]
      · intro byteorder
        obtain ⟨uint, read⟩ := uint64_nodeOfUint env lib (cut32 d.size)
        rw [datatypeParse]
        simp only [stringItems, uint, ↓reduceIte, stringDatatypeParse, name, read, bind, Except.bind]
        simp [ascii, scalarDatatypeToString, Datatype.base, Datatype.baseSize, flat]
    · have four : ¬ (cut32 d.size % 4 ≠ 0) := by
        intro odd
        apply odd
        apply UInt64.toNat_inj.mp
        rw [UInt64.toNat_mod]
        exact cut ucs4
      refine ⟨.sequence none [typeVal, nodeOfUint lib (cut32 d.size / 4).toNat], ?_,
        fun _ _ => Node.noConfusion, isUint64_container rfl, ?_⟩
      · rw [serializeScalar, if_pos isString, serializeString, built]
        simp only [ucs4, four, and_false, ↓reduceIte, Option.map_some]
      · intro byteorder
        obtain ⟨uint, read⟩ := uint64_nodeOfUint env lib (cut32 d.size / 4)
        rw [datatypeParse]
        simp only [stringItems, uint, ↓reduceIte, stringDatatypeParse, name, read, bind, Except.bind]
        have other : ucs4Str ≠ asciiStr := by decide
        simp [ucs4, scalarDatatypeToString, other, Datatype.base, Datatype.baseSize, flat,
          ucs4_size (cut ucs4)]
  · have isString : d.isString = false := by simpa [Datatype.isString] using string
    obtain ⟨notAscii, notUcs4⟩ := not_or.mp string
    refine ⟨typeVal, ?_, ?_, reads.not_uint64, ?_⟩
    · rw [serializeScalar, if_neg (by simp [isString]), built]
    · rintro tag pairs rfl
      cases reads.scalar
    · intro byteorder
      rw [datatypeParse_scalar reads.scalar, scalarDatatypeParse, name]
      simp only [fromString_toString ⟨notAscii, notUcs4⟩ scalar, Datatype.base, Datatype.baseSize, flat]

/-! ## The mapping of a field -/

/-- What is found in the mapping of a field. -/
structure FieldNode (lib : ScalarBuilder) (env : ScalarEnv) (field : Datatype)
    (datatypeVal node : Node) : Prop where
  container : node.isContainer = true
  mapping : ∃ tag pairs, node = .mapping tag pairs
  name : node.lookup nameKey = field.name.bind (nodeOfString lib env.floats)
  datatype : node.lookup datatypeKey = some datatypeVal
  byteorder : node.lookup byteorderKey = field.byteorder.text.bind (nodeOfString lib env.floats)
  shape : node.lookup shapeKey = if field.shape = [] then none else some (shapeNode lib field.shape)

theorem mappingSetString_some {fl : Floats} {pairs pairs' : List (Node × Node)} {key str : Bytes}
    (set : mappingSetString lib fl pairs key str = some pairs') : ∃ value,
      nodeOfString lib fl str = some value ∧
        mappingSetNode lib fl pairs key value false = some pairs' :=
  Option.bind_eq_some_iff.mp set

theorem setName_lookup {field : Datatype} {pairs : List (Node × Node)}
    (set : setName lib env field = some pairs) (key : Bytes) :
    (Node.mapping none pairs).lookup key =
      if key = nameKey then field.name.bind (nodeOfString lib env.floats) else none := by
  unfold setName at set
  cases name : field.name with
  | none =>
    rw [name] at set
    cases set
    simp [Node.lookup]
  | some str =>
    rw [name] at set
    obtain ⟨value, built, set⟩ := mappingSetString_some set
    rw [lookup_mappingSetNode rfl (by decide) set]
    simp [built, Node.lookup]

theorem setByteorder_lookup {field : Datatype} {pairs pairs' : List (Node × Node)}
    (set : setByteorder lib env field pairs = some pairs') (key : Bytes) :
    (Node.mapping none pairs').lookup key =
      if key = byteorderKey ∧ field.byteorder ≠ .default then
        field.byteorder.text.bind (nodeOfString lib env.floats)
      else (Node.mapping none pairs).lookup key := by
  unfold setByteorder at set
  cases text : field.byteorder.text with
  | none =>
    have default : field.byteorder = .default := by
      cases order : field.byteorder <;> simp_all [Byteorder.text]
    rw [text] at set
    cases set
    simp [default]
  | some str =>
    have explicit : field.byteorder ≠ .default := by
      intro default
      rw [default] at text
      cases text
    rw [text] at set
    obtain ⟨value, built, set⟩ := mappingSetString_some set
    rw [lookup_mappingSetNode rfl (by decide) set]
    simp [built, explicit]

theorem setShape_lookup {field : Datatype} {pairs pairs' : List (Node × Node)}
    (set : setShape lib env field pairs = some pairs') (key : Bytes) :
    (Node.mapping none pairs').lookup key =
      if key = shapeKey ∧ field.shape ≠ [] then some (shapeNode lib field.shape)
      else (Node.mapping none pairs).lookup key := by
  unfold setShape at set
  split at set
  · rename_i empty
    cases set
    simp [empty]
  · rename_i dims
    rw [lookup_mappingSetNode rfl (by decide) set]
    simp [dims]

theorem fieldMapping_node {field : Datatype} {datatypeVal : Option Node} {node : Node}
    (made : fieldMapping lib env field datatypeVal = some node) : ∃ val, datatypeVal = some val ∧
      (∀ name ∈ field.name, (nodeOfString lib env.floats name).isSome = true) ∧
      FieldNode lib env field val node := by
  simp only [fieldMapping, Option.bind_eq_bind, Option.bind_eq_some_iff, Option.some.injEq] at made
  obtain ⟨named, setNamed, val, rfl, typed, setTyped, ordered, setOrdered, shaped, setShaped, rfl⟩ :=
    made
  have lookup (key : Bytes) := setShape_lookup setShaped key
  simp only [setByteorder_lookup setOrdered, lookup_mappingSetNode rfl (by decide) setTyped none,
    setName_lookup setNamed] at lookup
  refine ⟨val, rfl, ?_, rfl, ⟨_, _, rfl⟩, ?_, ?_, ?_, ?_⟩
  · intro name mem
    unfold setName at setNamed
    rw [Option.mem_def.mp mem] at setNamed
    obtain ⟨value, built, -⟩ := mappingSetString_some setNamed
    rw [built]
    rfl
  · rw [lookup]
    rfl
  · rw [lookup]
    rfl
  · have first : byteorderKey ≠ shapeKey ∧ byteorderKey ≠ datatypeKey ∧ byteorderKey ≠ nameKey := by
      decide
    rw [lookup]
    cases field.byteorder <;> simp [Byteorder.text, first]
  · rw [lookup]
    by_cases empty : field.shape = []
    · simp [empty]
      rfl
    · simp [empty]

theorem mappingSetNode_some {fl : Floats} {key : Bytes}
    (clear : yamlStringIsAmbiguous fl key = false) (short : key.length ≤ 2147483647)
    (pairs : List (Node × Node)) (value : Node) :
    ∃ pairs', mappingSetNode lib fl pairs key value false = some pairs' := by
  unfold mappingSetNode
  rw [nodeOfString_clear clear short]
  exact ⟨_, rfl⟩

theorem fieldMapping_some {field : Datatype} {val : Node}
    (named : ∀ name ∈ field.name, (nodeOfString lib env.floats name).isSome = true) :
    ∃ node, fieldMapping lib env field (some val) = some node := by
  have setString {key str : Bytes} (clear : yamlStringIsAmbiguous env.floats key = false)
      (short : key.length ≤ 2147483647)
      (built : (nodeOfString lib env.floats str).isSome = true) (pairs : List (Node × Node)) :
      ∃ pairs', mappingSetString lib env.floats pairs key str = some pairs' := by
    obtain ⟨value, eq⟩ := Option.isSome_iff_exists.mp built
    unfold mappingSetString
    rw [eq]
    exact mappingSetNode_some clear short pairs value
  obtain ⟨pairs, eq⟩ : ∃ pairs, setName lib env field = some pairs := by
    unfold setName
    cases name : field.name with
    | none => exact ⟨_, rfl⟩
    | some str => exact setString rfl (by decide) (named str name) []
  obtain ⟨typed, eq'⟩ : ∃ typed, mappingSetNode lib env.floats pairs datatypeKey val false = some typed :=
    mappingSetNode_some rfl (by decide) pairs val
  obtain ⟨ordered, eq''⟩ : ∃ pairs, setByteorder lib env field typed = some pairs := by
    unfold setByteorder
    cases field.byteorder with
    | default => exact ⟨_, rfl⟩
    | big =>
      apply setString rfl (by decide)
      rw [nodeOfString_clear rfl (by decide)]
      rfl
    | little =>
      apply setString rfl (by decide)
      rw [nodeOfString_clear rfl (by decide)]
      rfl
  obtain ⟨shaped, eq'''⟩ : ∃ pairs, setShape lib env field ordered = some pairs := by
    unfold setShape
    split
    · exact ⟨_, rfl⟩
    · exact mappingSetNode_some rfl (by decide) _ _
  refine ⟨.mapping none shaped, ?_⟩
  unfold fieldMapping
  simp only [eq, eq', eq'', eq''', Option.bind_eq_bind, Option.bind_some]

/-- The name that is read back. -/
def readName (lib : ScalarBuilder) (env : ScalarEnv) (name : Bytes) : Option Bytes :=
  (nodeOfString lib env.floats name).map fun node => cString node.text

variable {field : Datatype} {val node : Node}

theorem getPropertyImpl_none {mapping : Node} {name : Bytes} (absent : mapping.lookup name = none)
    (type : ValueType) : getPropertyImpl env mapping name type none = (.notFound, none) := by
  unfold getPropertyImpl
  rw [absent]

theorem FieldNode.fieldName (h : FieldNode lib env field val node) :
    LibAsdf.fieldName env node = field.name.bind (readName lib env) := by
  have found := h.name
  unfold LibAsdf.fieldName
  cases name : field.name with
  | none =>
    rw [name] at found
    rw [getPropertyImpl_none found]
    rfl
  | some str =>
    rw [name, Option.bind_some] at found
    rw [Option.bind_some, readName]
    cases built : nodeOfString lib env.floats str with
    | none =>
      rw [getPropertyImpl_none (found.trans built)]
      rfl
    | some value =>
      obtain ⟨inferred, reads⟩ := readsString_nodeOfString built
      rw [reads.property (found.trans built)]
      rfl

/-- The byte order that was written into a mapping, if there was one to write. -/
theorem datatypeByteorderParse_text {node : Node} {byteorder : Byteorder}
    (found : node.lookup byteorderKey = byteorder.text.bind (nodeOfString lib env.floats)) (out : Byteorder) :
    datatypeByteorderParse env node byteorderKey out =
      if byteorder = .default then (.notFound, out) else (.ok, byteorder) := by
  have explicit {order : Byteorder} {text : Bytes} (clear : yamlStringIsAmbiguous env.floats text = false)
      (short : text.length ≤ 2147483647) (found : node.lookup byteorderKey = nodeOfString lib env.floats text)
      (reads : byteorderOfText (cString text) = some order) :
      datatypeByteorderParse env node byteorderKey out = (.ok, order) := by
    have built := @nodeOfString_clear lib _ _ clear short
    obtain ⟨inferred, string⟩ := readsString_nodeOfString built
    unfold datatypeByteorderParse
    rw [string.property (found.trans built)]
    simp only [Node.text, reads]
  cases byteorder with
  | default =>
    unfold datatypeByteorderParse
    rw [getPropertyImpl_none found]
    rfl
  | big => exact explicit rfl (by decide) found rfl
  | little => exact explicit rfl (by decide) found rfl

theorem datatypeShapeParse_written (shape : List UInt64) :
    datatypeShapeParse env (shape.map fun dim => nodeOfUint lib dim.toNat) = .ok shape := by
  induction shape with
  | nil => rfl
  | cons dim rest ih =>
    rw [List.map_cons, datatypeShapeParse, (uint64_nodeOfUint env lib dim).2]
    simp only [ih]
    rfl

theorem datatypeShapeParse_shapeNode (shape : List UInt64) :
    datatypeShapeParse env (shapeNode lib shape).items = .ok (shape.map cut32) := by
  have written := @datatypeShapeParse_written lib env (shape.map cut32)
  rw [List.map_map] at written
  exact written

theorem getPropertyImpl_sequence {mapping : Node} {name : Bytes} {tag : Option Bytes}
    {items : List Node} (found : mapping.lookup name = some (.sequence tag items)) :
    getPropertyImpl env mapping name .sequence none = (.ok, some (.value (.sequence tag items))) := by
  unfold getPropertyImpl
  rw [found]
  rfl

theorem FieldNode.shapeParse (h : FieldNode lib env field val node) {base : Datatype}
    (whole : base.shape = []) : fieldShapeParse env node base =
      .ok { base with
        shape := field.shape.map cut32
        size := (field.shape.map cut32).foldl (· * ·) base.size } := by
  have found := h.shape
  unfold fieldShapeParse
  by_cases empty : field.shape = []
  · rw [if_pos empty] at found
    rw [getPropertyImpl_none found, empty]
    cases base
    cases whole
    rfl
  · rw [if_neg empty] at found
    rw [getPropertyImpl_sequence found]
    change (datatypeShapeParse env (shapeNode lib field.shape).items).map _ = _
    rw [datatypeShapeParse_shapeNode]
    rfl

/-- A field as it is read back, from its datatype as it is read back. -/
def rereadField (lib : ScalarBuilder) (env : ScalarEnv) (field base : Datatype) : Datatype :=
  { base with
    name := field.name.bind (readName lib env)
    byteorder := if field.byteorder = .default then base.byteorder else field.byteorder
    shape := field.shape.map cut32
    size := (field.shape.map cut32).foldl (· * ·) base.size }

theorem fieldParse_mapping {tag : Option Bytes} {pairs : List (Node × Node)} {val : Node}
    (found : (Node.mapping tag pairs).lookup datatypeKey = some val) :
    fieldParse env byteorder (.mapping tag pairs) =
      (datatypeParse env byteorder val).bind (fieldAttributesParse env (.mapping tag pairs)) := by
  rw [fieldParse.eq_def]
  dsimp only
  split
  · rename_i absent
    cases found.symm.trans absent
  · rename_i found'
    cases found.symm.trans found'
    rfl

theorem FieldNode.fieldParse (h : FieldNode lib env field val node) :
    LibAsdf.fieldParse env byteorder node =
      (datatypeParse env byteorder val).bind (fieldAttributesParse env node) := by
  obtain ⟨tag, pairs, rfl⟩ := h.mapping
  exact fieldParse_mapping h.datatype

theorem FieldNode.attributes (h : FieldNode lib env field val node) {base : Datatype}
    (whole : base.shape = []) :
    fieldAttributesParse env node base = .ok (rereadField lib env field base) := by
  unfold fieldAttributesParse rereadField
  rw [datatypeByteorderParse_text h.byteorder, h.fieldName]
  by_cases default : field.byteorder = .default
  · simp only [default, ↓reduceIte, or_true]
    exact h.shapeParse whole
  · simp only [default, ↓reduceIte, true_or]
    exact h.shapeParse whole

end ReadBack

/-! ## The datatypes that come back -/

/-- The size of a string or of an unknown type is that of the cut size times the
shape; a scalar field written as its name alone has the enclosing byte order; the
name is read back from its node; the extents of the shape fit 32 bits. -/
inductive Survives (lib : ScalarBuilder) (env : ScalarEnv) (byteorder : Byteorder) : Datatype → Prop
  | intro {d : Datatype}
      (size : d.type.sized = true → d.size = d.shape.foldl (· * ·) d.baseSize)
      (order : d.isSimpleScalar = true → d.byteorder = byteorder)
      (name : ∀ name ∈ d.name, readName lib env name = some name)
      (shape : ∀ dim ∈ d.shape, dim.toNat < 4294967296)
      (fields : ∀ f ∈ d.fields, Survives lib env byteorder f) : Survives lib env byteorder d

section Survives

variable (lib : ScalarBuilder) (env : ScalarEnv) (byteorder : Byteorder)

/-- The node of the datatype of a field, or of a datatype that is no field. -/
def typeNode (d : Datatype) : Option Node :=
  if d.isScalar then serializeScalar lib env d
  else (serializeFields lib env d.fields).map (Node.sequence none)

/-- A datatype comes back, but for what a field adds. -/
def TypeBack (d : Datatype) : Prop :=
  ∃ node, typeNode lib env d = some node ∧ datatypeParse env byteorder node = .ok (d.base byteorder)

/-- A field comes back. -/
def FieldBack (f : Datatype) : Prop :=
  ∃ item, serializeImpl lib env f true = some item ∧ fieldParse env byteorder item = .ok f

variable {lib env byteorder}

theorem serializeImpl_structured {d : Datatype} (structured : d.type = .structured) :
    serializeImpl lib env d false = typeNode lib env d := by
  rw [serializeImpl, typeNode]
  simp [Datatype.isSimpleScalar, Datatype.isScalar, Datatype.isStructured, structured]

theorem serializeImpl_scalar {d : Datatype} (scalar : d.type ≠ .structured) (whole : d.shape = []) :
    serializeImpl lib env d false = typeNode lib env d := by
  rw [serializeImpl, typeNode]
  simp [Datatype.isScalar, scalar, whole]

theorem serializeField_eq (d : Datatype) :
    serializeField lib env d = fieldMapping lib env d (typeNode lib env d) := by
  rw [serializeField]
  by_cases structured : d.type = .structured
  · rw [if_neg (by simp [Datatype.isScalar, structured]), serializeImpl_structured structured]
  · have scalar : d.isScalar = true := by simp [Datatype.isScalar, structured]
    rw [if_pos scalar, typeNode, if_pos scalar]

theorem serializeImpl_field (d : Datatype) : serializeImpl lib env d true =
    if d.isSimpleScalar then serializeScalar lib env d
    else fieldMapping lib env d (typeNode lib env d) := by
  rw [serializeImpl, serializeField_eq]
  simp

theorem isSimpleScalar_iff {d : Datatype} : d.isSimpleScalar = true ↔
    d.type ≠ .structured ∧ (d.byteorder = .default ∨ d.byteorder = .little) ∧ d.name = none ∧
      d.shape = [] ∧ d.fields = [] := by
  simp [Datatype.isSimpleScalar, and_assoc]

/-- An item of a structured datatype is no integer. -/
theorem serializeImpl_not_uint64 {f : Datatype} (parsed : Parsed byteorder f) {item : Node}
    (made : serializeImpl lib env f true = some item) : isUint64 env item = false := by
  rw [serializeImpl_field] at made
  split at made
  · rename_i simple
    obtain ⟨node, eq, -, other, -⟩ :=
      serializeScalar_reads parsed (isSimpleScalar_iff.mp simple).1
    cases made.symm.trans eq
    exact other
  · obtain ⟨val, -, -, mapping⟩ := fieldMapping_node made
    exact isUint64_container mapping.container

theorem serializeFields_cons {f : Datatype} {rest : List Datatype} {items : List Node} :
    serializeFields lib env (f :: rest) = some items ↔ ∃ item items',
      serializeImpl lib env f true = some item ∧
        serializeFields lib env rest = some items' ∧ items = item :: items' := by
  rw [serializeFields]
  cases serializeImpl lib env f true with
  | none => simp
  | some item =>
    cases serializeFields lib env rest with
    | none => simp
    | some items' => simp [eq_comm]

theorem stringItems_none {fields : List Datatype} {items : List Node}
    (parsed : ∀ f ∈ fields, Parsed byteorder f)
    (made : serializeFields lib env fields = some items) : stringItems env items = none := by
  rcases items with _ | ⟨typeVal, _ | ⟨stringlen, _ | _⟩⟩
  · rfl
  · rfl
  · have other : isUint64 env stringlen = false := by
      rcases fields with _ | ⟨f, _ | ⟨g, rest⟩⟩
      · simp [serializeFields] at made
      · obtain ⟨_, _, -, later, eq⟩ := serializeFields_cons.mp made
        cases eq
        simp [serializeFields] at later
      · obtain ⟨_, _, -, later, eq⟩ := serializeFields_cons.mp made
        cases eq
        obtain ⟨_, _, item, -, eq⟩ := serializeFields_cons.mp later
        cases eq
        exact serializeImpl_not_uint64 (parsed g (by simp)) item
    simp [stringItems, other]
  · rfl

theorem fields_back (fields : List Datatype) :
    (∃ items, serializeFields lib env fields = some items ∧
        fieldsParse env byteorder items = .ok fields) ↔
      ∀ f ∈ fields, FieldBack lib env byteorder f := by
  induction fields with
  | nil =>
    simp only [List.not_mem_nil, false_implies, implies_true, iff_true]
    exact ⟨[], by rw [serializeFields], by rw [fieldsParse]⟩
  | cons f rest ih =>
    rw [List.forall_mem_cons, ← ih]
    constructor
    · rintro ⟨items, made, parse⟩
      obtain ⟨item, items', here, later, rfl⟩ := serializeFields_cons.mp made
      obtain ⟨field, fields', here', later', eq⟩ := fieldsParse_cons.mp parse
      cases eq
      exact ⟨⟨item, here, here'⟩, ⟨items', later, later'⟩⟩
    · rintro ⟨⟨item, here, here'⟩, ⟨items', later, later'⟩⟩
      exact ⟨item :: items', serializeFields_cons.mpr ⟨item, items', here, later, rfl⟩,
        fieldsParse_cons.mpr ⟨f, rest, here', later', rfl⟩⟩

theorem typeBack_scalar {d : Datatype} (parsed : Parsed byteorder d) (scalar : d.type ≠ .structured) :
    ∃ node, typeNode lib env d = some node ∧
      datatypeParse env byteorder node = .ok (d.base byteorder) := by
  obtain ⟨node, made, -, -, parse⟩ := @serializeScalar_reads lib env byteorder _ parsed scalar
  refine ⟨node, ?_, parse byteorder⟩
  rw [typeNode, if_pos (by simp [Datatype.isScalar, scalar]), made]

theorem base_structured {d : Datatype} (structured : d.type = .structured) :
    d.base byteorder = structuredDatatype byteorder d.fields := by
  simp [Datatype.base, Datatype.baseSize, structured, structuredDatatype]

theorem datatypeParse_fields {fields : List Datatype} {items : List Node}
    (parsed : ∀ f ∈ fields, Parsed byteorder f)
    (made : serializeFields lib env fields = some items) :
    datatypeParse env byteorder (.sequence none items) =
      (fieldsParse env byteorder items).map (structuredDatatype byteorder) := by
  rw [datatypeParse]
  simp only [stringItems_none parsed made]

theorem typeNode_structured {d : Datatype} (structured : d.type = .structured) :
    typeNode lib env d = (serializeFields lib env d.fields).map (Node.sequence none) := by
  rw [typeNode, if_neg (by simp [Datatype.isScalar, structured])]

theorem typeBack_structured {d : Datatype} (parsed : Parsed byteorder d)
    (structured : d.type = .structured) :
    TypeBack lib env byteorder d ↔ ∀ f ∈ d.fields, FieldBack lib env byteorder f := by
  obtain ⟨-, -, -, -, -, fields⟩ := parsed
  rw [← fields_back]
  unfold TypeBack
  rw [typeNode_structured structured, base_structured structured]
  constructor
  · rintro ⟨node, made, parse⟩
    obtain ⟨items, made', rfl⟩ := Option.map_eq_some_iff.mp made
    refine ⟨items, made', ?_⟩
    rw [datatypeParse_fields fields made'] at parse
    cases eq : fieldsParse env byteorder items with
    | error err =>
      rw [eq] at parse
      cases parse
    | ok fields' =>
      rw [eq] at parse
      have same := congrArg Datatype.fields (Except.ok.inj parse)
      exact congrArg Except.ok same
  · rintro ⟨items, made, parse⟩
    refine ⟨.sequence none items, by rw [made]; rfl, ?_⟩
    rw [datatypeParse_fields fields made, parse]
    rfl

theorem map_cut32 {shape : List UInt64} :
    shape.map cut32 = shape ↔ ∀ dim ∈ shape, dim.toNat < 4294967296 := by
  have one (dim : UInt64) : cut32 dim = dim ↔ dim.toNat < 4294967296 := by
    have lt := dim.toNat_lt
    rw [← UInt64.toNat_inj, cut32_toNat]
    omega
  induction shape with
  | nil => simp
  | cons dim rest ih => simp [one, ih]

theorem base_congr {d t : Datatype} (unsized : d.type.sized = false) (type : t.type = d.type)
    (fields : t.fields = d.fields) : t.base byteorder = d.base byteorder := by
  have size : t.baseSize = d.baseSize := by
    unfold Datatype.baseSize
    rw [type, fields]
    cases d_type : d.type <;> simp_all [ScalarDatatype.sized]
  simp [Datatype.base, type, fields, size]

theorem TopLevel.eq_base {d : Datatype} (top : TopLevel byteorder d) (unsized : d.type.sized = false) :
    d = d.base byteorder := by
  obtain ⟨-, size, -, -, -, -⟩ := top.parsed
  have size := size unsized
  rw [top.shape, List.foldl_nil] at size
  calc
    d = ⟨d.type, d.size, d.name, d.byteorder, d.shape, d.fields⟩ := d.eta.symm
    _ = d.base byteorder := by
      rw [size, top.name, top.byteorder, top.shape]
      rfl

/-- The datatype that a field is read back with. -/
theorem typeNode_reads {f base : Datatype} (parsed : Parsed byteorder f) {val : Node}
    (made : typeNode lib env f = some val) (parse : datatypeParse env byteorder val = .ok base)
    (type : base.type = f.type) (fields : base.fields = f.fields) : base = f.base byteorder := by
  by_cases structured : f.type = .structured
  · have top := (parsed_of_parse val).1 base parse
    have unsized : f.type.sized = false := by
      rw [structured]
      rfl
    rw [top.eq_base (type ▸ unsized), base_congr unsized type fields]
  · obtain ⟨node, made', parse'⟩ := @typeBack_scalar lib env _ _ parsed structured
    cases made.symm.trans made'
    exact Except.ok.inj (parse.symm.trans parse')

theorem rereadField_eq {f : Datatype} (parsed : Parsed byteorder f) :
    rereadField lib env f (f.base byteorder) = f ↔
      (∀ name ∈ f.name, readName lib env name = some name) ∧
        (∀ dim ∈ f.shape, dim.toNat < 4294967296) ∧
        (f.type.sized = true → f.size = f.shape.foldl (· * ·) f.baseSize) := by
  obtain ⟨-, size, -, order, -, -⟩ := parsed
  have byteorder' : (if f.byteorder = .default then byteorder else f.byteorder) = f.byteorder := by
    split
    · rename_i default
      rw [default, order default]
    · rfl
  have name : f.name.bind (readName lib env) = f.name ↔
      ∀ name ∈ f.name, readName lib env name = some name := by
    cases f.name with
    | none => simp
    | some name => simp
  have multiplied : f.shape.foldl (· * ·) f.baseSize = f.size ↔
      (f.type.sized = true → f.size = f.shape.foldl (· * ·) f.baseSize) := by
    constructor
    · intro eq _
      exact eq.symm
    · intro sized
      cases eq : f.type.sized with
      | false => exact (size eq).symm
      | true => exact (sized eq).symm
  rw [← name, ← map_cut32, ← multiplied]
  have fields : rereadField lib env f (f.base byteorder) =
      ⟨f.type, (f.shape.map cut32).foldl (· * ·) f.baseSize, f.name.bind (readName lib env),
        f.byteorder, f.shape.map cut32, f.fields⟩ := by
    unfold rereadField
    simp only [Datatype.base, byteorder']
  rw [fields]
  constructor
  · intro eq
    have shape := congrArg Datatype.shape eq
    have size := congrArg Datatype.size eq
    simp only at shape size
    rw [shape] at size
    exact ⟨congrArg Datatype.name eq, shape, size⟩
  · rintro ⟨name, shape, size⟩
    rw [name, shape, size]
    exact f.eta

theorem size_iff {f : Datatype} (parsed : Parsed byteorder f) :
    (f.type.sized = true → f.size = f.shape.foldl (· * ·) f.baseSize) ↔
      f.size = f.shape.foldl (· * ·) f.baseSize := by
  obtain ⟨-, size, -, -, -, -⟩ := parsed
  constructor
  · intro sized
    cases eq : f.type.sized with
    | false => exact size eq
    | true => exact sized eq
  · intro eq _
    exact eq

theorem fieldBack_simple {f : Datatype} (parsed : Parsed byteorder f)
    (simple : f.isSimpleScalar = true) : FieldBack lib env byteorder f ↔
      f.byteorder = byteorder ∧ (f.type.sized = true → f.size = f.shape.foldl (· * ·) f.baseSize) := by
  obtain ⟨scalar, -, name, shape, fields⟩ := isSimpleScalar_iff.mp simple
  obtain ⟨node, made, scalarNode, -, parse⟩ := @serializeScalar_reads lib env byteorder _ parsed scalar
  have made' : serializeImpl lib env f true = some node := by
    rw [serializeImpl_field, if_pos simple, made]
  have parse' : fieldParse env byteorder node = .ok (f.base byteorder) := by
    rw [fieldParse.eq_def]
    split
    · exact absurd rfl (scalarNode _ _)
    · exact parse byteorder
  have back : FieldBack lib env byteorder f ↔ f.base byteorder = f := by
    constructor
    · rintro ⟨item, made'', parse''⟩
      cases made'.symm.trans made''
      exact Except.ok.inj (parse'.symm.trans parse'')
    · intro same
      exact ⟨node, made', parse'.trans (congrArg Except.ok same)⟩
  rw [back, size_iff parsed, shape, List.foldl_nil]
  constructor
  · intro same
    exact ⟨(congrArg Datatype.byteorder same).symm, (congrArg Datatype.size same).symm⟩
  · rintro ⟨order, size⟩
    calc
      f.base byteorder = ⟨f.type, f.baseSize, none, byteorder, [], f.fields⟩ := rfl
      _ = ⟨f.type, f.size, f.name, f.byteorder, f.shape, f.fields⟩ := by
        rw [← size, name, order, shape]
      _ = f := f.eta

theorem fieldBack_mapping {f : Datatype} (parsed : Parsed byteorder f)
    (mapping : ¬ f.isSimpleScalar = true) : FieldBack lib env byteorder f ↔
      TypeBack lib env byteorder f ∧ rereadField lib env f (f.base byteorder) = f := by
  unfold FieldBack
  rw [serializeImpl_field, if_neg mapping]
  constructor
  · rintro ⟨item, made, parse⟩
    obtain ⟨val, made', -, field⟩ := fieldMapping_node made
    rw [field.fieldParse] at parse
    cases parse' : datatypeParse env byteorder val with
    | error err =>
      rw [parse'] at parse
      cases parse
    | ok base =>
      rw [parse'] at parse
      have whole := ((parsed_of_parse val).1 base parse').shape
      have same : rereadField lib env f base = f :=
        Except.ok.inj ((field.attributes whole).symm.trans parse)
      have type : (rereadField lib env f base).type = f.type := congrArg Datatype.type same
      have fields : (rereadField lib env f base).fields = f.fields := congrArg Datatype.fields same
      have base_eq : base = f.base byteorder := typeNode_reads parsed made' parse' type fields
      subst base_eq
      exact ⟨⟨val, made', parse'⟩, same⟩
  · rintro ⟨⟨val, made, parse⟩, same⟩
    have named : ∀ name ∈ f.name, (nodeOfString lib env.floats name).isSome = true := by
      intro name mem
      have read := ((rereadField_eq parsed).mp same).1 name mem
      obtain ⟨node, built, -⟩ := Option.map_eq_some_iff.mp read
      rw [built]
      rfl
    obtain ⟨item, made'⟩ := @fieldMapping_some lib env f val named
    obtain ⟨_, eq, -, field⟩ := fieldMapping_node made'
    cases eq
    refine ⟨item, by rw [made, made'], ?_⟩
    rw [field.fieldParse, parse]
    exact (field.attributes rfl).trans (congrArg Except.ok same)

theorem typeBack_iff {d : Datatype} (parsed : Parsed byteorder d) :
    TypeBack lib env byteorder d ↔ ∀ f ∈ d.fields, FieldBack lib env byteorder f := by
  by_cases structured : d.type = .structured
  · exact typeBack_structured parsed structured
  · obtain ⟨flat, -, -, -, -, -⟩ := id parsed
    simp only [flat structured, List.not_mem_nil, false_implies, implies_true, iff_true]
    exact typeBack_scalar parsed structured

/-- What has to hold of a field alone, and of its fields. -/
theorem fieldBack_iff {f : Datatype} (parsed : Parsed byteorder f) :
    FieldBack lib env byteorder f ↔
      (f.type.sized = true → f.size = f.shape.foldl (· * ·) f.baseSize) ∧
        (f.isSimpleScalar = true → f.byteorder = byteorder) ∧
        (∀ name ∈ f.name, readName lib env name = some name) ∧
        (∀ dim ∈ f.shape, dim.toNat < 4294967296) ∧
        ∀ g ∈ f.fields, FieldBack lib env byteorder g := by
  by_cases simple : f.isSimpleScalar = true
  · obtain ⟨-, -, name, shape, fields⟩ := isSimpleScalar_iff.mp simple
    rw [fieldBack_simple parsed simple]
    simp [simple, name, shape, fields, and_comm]
  · rw [fieldBack_mapping parsed simple, typeBack_iff parsed, rereadField_eq parsed]
    simp only [simple, Bool.false_eq_true, false_implies, true_and]
    constructor
    · rintro ⟨fields, name, shape, size⟩
      exact ⟨size, name, shape, fields⟩
    · rintro ⟨size, name, shape, fields⟩
      exact ⟨fields, name, shape, size⟩

theorem survives_iff {f : Datatype} (parsed : Parsed byteorder f) :
    FieldBack lib env byteorder f ↔ Survives lib env byteorder f := by
  induction f using Datatype.field_induction with
  | step f ih =>
    obtain ⟨-, -, -, -, -, children⟩ := id parsed
    rw [fieldBack_iff parsed]
    constructor
    · rintro ⟨size, order, name, shape, fields⟩
      exact .intro size order name shape fun g mem => (ih g mem (children g mem)).mp (fields g mem)
    · rintro ⟨size, order, name, shape, fields⟩
      exact ⟨size, order, name, shape, fun g mem => (ih g mem (children g mem)).mpr (fields g mem)⟩

/-- What was written for a datatype that was read is read without an error,
whether or not it gives the datatype. -/
theorem written_parses : ∀ {d : Datatype}, Parsed byteorder d → ∀ order : Byteorder,
    (∀ val, typeNode lib env d = some val → ∃ base, datatypeParse env order val = .ok base) ∧
      ∀ item, serializeImpl lib env d true = some item → ∃ f, fieldParse env order item = .ok f := by
  intro d
  induction d using Datatype.field_induction with
  | step d ih =>
    intro parsed order
    obtain ⟨-, -, -, -, -, children⟩ := id parsed
    have whole : ∀ val, typeNode lib env d = some val → ∃ base, datatypeParse env order val = .ok base := by
      intro val made
      by_cases structured : d.type = .structured
      · rw [typeNode_structured structured] at made
        obtain ⟨items, listed, rfl⟩ := Option.map_eq_some_iff.mp made
        have each : ∀ fields : List Datatype, (∀ f ∈ fields, f ∈ d.fields) → ∀ items,
            serializeFields lib env fields = some items →
              ∃ fields', fieldsParse env order items = .ok fields' := by
          intro fields
          induction fields with
          | nil =>
            intro _ items made
            rw [serializeFields] at made
            cases made
            exact ⟨[], by rw [fieldsParse]⟩
          | cons f rest step =>
            intro members items made
            obtain ⟨item, items', here, later, rfl⟩ := serializeFields_cons.mp made
            have mem := members f List.mem_cons_self
            obtain ⟨f', parse⟩ := (ih f mem (children f mem) order).2 item here
            obtain ⟨fields', parse'⟩ :=
              step (fun g mem => members g (List.mem_cons_of_mem f mem)) items' later
            exact ⟨f' :: fields', fieldsParse_cons.mpr ⟨f', fields', parse, parse', rfl⟩⟩
        obtain ⟨fields', parse⟩ := each d.fields (fun f mem => mem) items listed
        refine ⟨structuredDatatype order fields', ?_⟩
        rw [datatypeParse]
        simp only [stringItems_none children listed, parse]
        rfl
      · obtain ⟨node, made', -, -, parse⟩ := @serializeScalar_reads lib env byteorder _ parsed structured
        rw [typeNode, if_pos (by simp [Datatype.isScalar, structured]), made'] at made
        cases made
        exact ⟨_, parse order⟩
    refine ⟨whole, ?_⟩
    intro item made
    rw [serializeImpl_field] at made
    by_cases simple : d.isSimpleScalar = true
    · rw [if_pos simple] at made
      obtain ⟨node, made', other, -, parse⟩ :=
        @serializeScalar_reads lib env byteorder _ parsed (isSimpleScalar_iff.mp simple).1
      cases made'.symm.trans made
      refine ⟨d.base order, ?_⟩
      rw [fieldParse.eq_def]
      split
      · exact absurd rfl (other _ _)
      · exact parse order
    · rw [if_neg simple] at made
      obtain ⟨val, made', -, field⟩ := fieldMapping_node made
      obtain ⟨base, parse⟩ := whole val made'
      refine ⟨rereadField lib env d base, ?_⟩
      rw [field.fieldParse, parse]
      exact field.attributes ((parsed_of_parse val).1 base parse).shape

end Survives

theorem datatypeSerialize_eq {lib : ScalarBuilder} {env : ScalarEnv} {byteorder : Byteorder}
    {d : Datatype} (top : TopLevel byteorder d) : datatypeSerialize lib env d = typeNode lib env d := by
  by_cases structured : d.type = .structured
  · exact serializeImpl_structured structured
  · exact serializeImpl_scalar structured top.shape

/-- A datatype is read back as it was from what is made of it. -/
def DatatypeRoundTrips (lib : ScalarBuilder) (env : ScalarEnv) (byteorder : Byteorder) (d : Datatype) : Prop :=
  ∃ node, datatypeSerialize lib env d = some node ∧ datatypeParse env byteorder node = .ok d

theorem datatypeRoundTrips_iff {lib : ScalarBuilder} {env : ScalarEnv} {byteorder : Byteorder} {d : Datatype}
    (top : TopLevel byteorder d) :
    DatatypeRoundTrips lib env byteorder d ↔ Survives lib env byteorder d := by
  have made : datatypeSerialize lib env d = typeNode lib env d := datatypeSerialize_eq top
  have base : d.base byteorder = d ↔ d.size = d.shape.foldl (· * ·) d.baseSize := by
    rw [top.shape, List.foldl_nil]
    constructor
    · intro same
      exact (congrArg Datatype.size same).symm
    · intro size
      calc
        d.base byteorder = ⟨d.type, d.baseSize, none, byteorder, [], d.fields⟩ := rfl
        _ = ⟨d.type, d.size, d.name, d.byteorder, d.shape, d.fields⟩ := by
          rw [← size, top.name, top.byteorder, top.shape]
        _ = d := d.eta
  have back : DatatypeRoundTrips lib env byteorder d ↔
      TypeBack lib env byteorder d ∧ d.base byteorder = d := by
    unfold DatatypeRoundTrips
    rw [made]
    constructor
    · rintro ⟨node, made', parse⟩
      have same := typeNode_reads top.parsed made' parse rfl rfl
      exact ⟨⟨node, made', same ▸ parse⟩, same.symm⟩
    · rintro ⟨⟨node, made', parse⟩, same⟩
      exact ⟨node, made', parse.trans (congrArg Except.ok same)⟩
  obtain ⟨-, -, -, -, -, children⟩ := id top.parsed
  rw [back, base, typeBack_iff top.parsed, ← size_iff top.parsed]
  constructor
  · rintro ⟨fields, size⟩
    apply Survives.intro size
    · exact fun _ => top.byteorder
    · simp [top.name]
    · simp [top.shape]
    · exact fun f mem => (survives_iff (children f mem)).mp (fields f mem)
  · rintro ⟨size, -, -, -, fields⟩
    exact ⟨fun f mem => (survives_iff (children f mem)).mpr (fields f mem), size⟩

/-- A datatype that was read comes back exactly if it survives. -/
theorem datatype_round_trip (lib : ScalarBuilder) (env : ScalarEnv) (byteorder : Byteorder)
    (value : Node) (d : Datatype) (parse : datatypeParse env byteorder value = .ok d) :
    DatatypeRoundTrips lib env byteorder d ↔ Survives lib env byteorder d :=
  datatypeRoundTrips_iff ((parsed_of_parse value).1 d parse)

/-- `[{name: a, datatype: int16, shape: [3]}]` -/
def namedField : Node :=
  .sequence none [.mapping none [(.scalar none .plain nameKey, .scalar none .plain [97]),
    (.scalar none .plain datatypeKey, .scalar none .plain (scalarDatatypeToString .int16)),
    (.scalar none .plain shapeKey, .sequence none [.scalar none .plain [51]])]]

theorem namedField_round_trips : DatatypeRoundTrips plainBuilder plainScalars .big
    (structuredDatatype .big [⟨.int16, 6, some [97], .big, [3], []⟩]) := by
  have number : datatypeParse plainScalars .big (.scalar none .plain (scalarDatatypeToString .int16)) =
      .ok ⟨.int16, 2, none, .big, [], []⟩ := by
    rw [datatypeParse_scalar rfl]
    rfl
  have parse : datatypeParse plainScalars .big namedField =
      .ok (structuredDatatype .big [⟨.int16, 6, some [97], .big, [3], []⟩]) := by
    rw [namedField, datatypeParse]
    change (fieldsParse plainScalars .big _).map (structuredDatatype .big) = _
    rw [fieldsParse, fieldsParse, fieldParse_mapping rfl, number]
    rfl
  apply (datatype_round_trip plainBuilder plainScalars .big namedField _ parse).mpr
  have field : Survives plainBuilder plainScalars .big ⟨.int16, 6, some [97], .big, [3], []⟩ := by
    constructor
    · exact fun _ => rfl
    · exact fun _ => rfl
    · rintro name ⟨⟩
      rfl
    · exact List.forall_mem_singleton.mpr (by decide)
    · rintro f ⟨⟩
  constructor
  · exact fun sized => absurd sized Bool.false_ne_true
  · exact fun simple => absurd simple Bool.false_ne_true
  · rintro name ⟨⟩
  · rintro dim ⟨⟩
  · exact List.forall_mem_singleton.mpr field

/-- `[ascii, 4294967296]` -/
def longString : Node :=
  .sequence none
    [.scalar none .plain asciiStr, .scalar none .plain [52, 50, 57, 52, 57, 54, 55, 50, 57, 54]]

/-- A string length of 33 bits is cut to 32 when it is written. -/
theorem long_string_changes :
    datatypeParse plainScalars .little longString =
        .ok ⟨.ascii, 4294967296, none, .little, [], []⟩ ∧
      ¬ DatatypeRoundTrips plainBuilder plainScalars .little ⟨.ascii, 4294967296, none, .little, [], []⟩ := by
  have parse : datatypeParse plainScalars .little longString =
      .ok ⟨.ascii, 4294967296, none, .little, [], []⟩ := by
    rw [longString, datatypeParse]
    rfl
  refine ⟨parse, ?_⟩
  rw [datatypeRoundTrips_iff ((parsed_of_parse _).1 _ parse)]
  rintro ⟨size, -, -, -, -⟩
  exact absurd (size rfl) (by decide)

end LibAsdf
