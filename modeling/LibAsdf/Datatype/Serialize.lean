import LibAsdf.Datatype.Parse
import LibAsdf.Value.Mapping

/-!
# Serialization of datatypes

The node that is made of a datatype. The styles of the sequences and mappings
are left out.

* `serializeImpl`: `asdf_datatype_serialize_impl`;
* `datatypeSerialize`: `asdf_datatype_serialize`;
* `serializeImpl_field`, `serializeImpl_top`: its branches.
-/

namespace LibAsdf

namespace Datatype

/-- `asdf_datatype_is_structured`. -/
def isStructured (d : Datatype) : Bool := d.type = .structured

/-- `asdf_datatype_is_scalar`. -/
def isScalar (d : Datatype) : Bool := d.type ≠ .structured

/-- `asdf_datatype_is_simple_scalar`. -/
def isSimpleScalar (d : Datatype) : Bool :=
  d.type ≠ .structured && (d.byteorder = .default || d.byteorder = .little) &&
    d.name.isNone && d.shape.isEmpty && d.fields.isEmpty

/-- `asdf_datatype_is_string`. -/
def isString (d : Datatype) : Bool := d.type = .ascii || d.type = .ucs4

theorem sizeOf_fields_lt (d : Datatype) : sizeOf d.fields < sizeOf d := by
  cases d
  simp only [mk.sizeOf_spec]
  omega

theorem sizeOf_lt_of_mem {d f : Datatype} (mem : f ∈ d.fields) : sizeOf f < sizeOf d :=
  Nat.lt_trans (List.sizeOf_lt_of_mem mem) d.sizeOf_fields_lt

theorem field_induction {P : Datatype → Prop} (step : ∀ d, (∀ f ∈ d.fields, P f) → P d) :
    ∀ d, P d := by
  intro d
  induction size : sizeOf d using Nat.strongRecOn generalizing d with
  | ind size ih =>
    apply step
    intro f mem
    exact ih _ (size ▸ sizeOf_lt_of_mem mem) f rfl

end Datatype

/-- A conversion to `uint32_t`. -/
def cut32 (v : UInt64) : UInt64 := v.toUInt32.toUInt64

section Serialize

variable (lib : ScalarBuilder) (env : ScalarEnv)

/-- `asdf_datatype_serialize_string`. -/
def serializeString (d : Datatype) : Option Node :=
  let size := cut32 d.size
  if d.type = .ucs4 ∧ size % 4 ≠ 0 then none
  else
    let size := if d.type = .ucs4 then size / 4 else size
    (nodeOfString lib env.floats (scalarDatatypeToString d.type)).map fun typeVal =>
      .sequence none [typeVal, nodeOfUint lib size.toNat]

/-- `asdf_datatype_serialize_scalar`. -/
def serializeScalar (d : Datatype) : Option Node :=
  if d.isString then serializeString lib env d
  else nodeOfString lib env.floats (scalarDatatypeToString d.type)

/-- The name of a field, if it has one. -/
def setName (field : Datatype) : Option (List (Node × Node)) :=
  match field.name with
  | some name => mappingSetString lib env.floats [] nameKey name
  | none => some []

/-- The byte order of a field, unless it is the default. -/
def setByteorder (field : Datatype) (pairs : List (Node × Node)) : Option (List (Node × Node)) :=
  match field.byteorder.text with
  | some text => mappingSetString lib env.floats pairs byteorderKey text
  | none => some pairs

def shapeNode (shape : List UInt64) : Node :=
  .sequence none (shape.map fun dim => nodeOfUint lib (cut32 dim).toNat)

/-- The shape of a field, if it has one. -/
def setShape (field : Datatype) (pairs : List (Node × Node)) : Option (List (Node × Node)) :=
  if field.shape = [] then some pairs
  else mappingSetNode lib env.floats pairs shapeKey (shapeNode lib field.shape) false

/-- The mapping of a field with the node of its datatype. -/
def fieldMapping (field : Datatype) (datatypeVal : Option Node) : Option Node := do
  let pairs ← setName lib env field
  let datatypeVal ← datatypeVal
  let pairs ← mappingSetNode lib env.floats pairs datatypeKey datatypeVal false
  let pairs ← setByteorder lib env field pairs
  let pairs ← setShape lib env field pairs
  some (.mapping none pairs)

mutual

/-- `asdf_datatype_serialize_impl`. -/
def serializeImpl (d : Datatype) (isField : Bool) : Option Node :=
  if d.isSimpleScalar then serializeScalar lib env d
  else if isField = false ∧ d.isScalar = true ∧ d.shape = [] then serializeScalar lib env d
  else if isField then serializeField d
  else if d.isStructured then (serializeFields d.fields).map (Node.sequence none)
  else none
termination_by (sizeOf d, if isField then 2 else 0)
decreasing_by
  · apply Prod.Lex.right
    simp [*]
  · exact Prod.Lex.left _ _ d.sizeOf_fields_lt

/-- The loop over the fields. -/
def serializeFields (fields : List Datatype) : Option (List Node) :=
  match fields with
  | [] => some []
  | field :: rest => do
    let item ← serializeImpl field true
    let items ← serializeFields rest
    some (item :: items)
termination_by (sizeOf fields, 0)

/-- `asdf_datatype_serialize_field`. -/
def serializeField (field : Datatype) : Option Node :=
  fieldMapping lib env field
    (if field.isScalar then serializeScalar lib env field else serializeImpl field false)
termination_by (sizeOf field, 1)

end

/-- `asdf_datatype_serialize`. -/
def datatypeSerialize (d : Datatype) : Option Node := serializeImpl lib env d false

end Serialize

end LibAsdf
