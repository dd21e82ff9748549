import LibAsdf.Datatype.RoundTrip

/-!
# Sizes of datatypes

`asdf_datatype_size` computes the size that the parser has stored once more, and
stores what it computes; a stored zero means that nothing is stored.

* `asdfDatatypeSize`: `asdf_datatype_size`;
* `Cached`: a datatype some of whose sizes have been forgotten;
* `parsed_sizes`: any calls give the sizes of the parser.
-/

namespace LibAsdf

/-! ## The size -/

mutual

/-- `asdf_datatype_size`: the size, and the datatype with what is stored in it. -/
def asdfDatatypeSize (datatype : Datatype) : UInt64 × Datatype :=
  if datatype.size ≠ 0 ∨ datatype.isString = true then (datatype.size, datatype)
  else
    let (size, fields) :=
      if datatype.isStructured = true then asdfFieldsSize datatype.fields 0
      else (UInt64.ofNat datatype.type.size, datatype.fields)
    let size := if size ≠ 0 then datatype.shape.foldl (· * ·) size else size
    (size, { datatype with size := size, fields := fields })
termination_by sizeOf datatype
decreasing_by exact datatype.sizeOf_fields_lt

/-- The loop over the fields. -/
def asdfFieldsSize (fields : List Datatype) (size : UInt64) : UInt64 × List Datatype :=
  match fields with
  | [] => (size, [])
  | field :: rest =>
    let (fieldSize, field) := asdfDatatypeSize field
    let (size, rest) := asdfFieldsSize rest (size + fieldSize)
    (size, field :: rest)
termination_by sizeOf fields

end

mutual

/-- The datatype with zeros for the sizes of the types that are not kept. -/
def Datatype.forget (keep : ScalarDatatype → Bool) (datatype : Datatype) : Datatype :=
  { datatype with
    size := if keep datatype.type then datatype.size else 0
    fields := Datatype.forgetAll keep datatype.fields }
termination_by sizeOf datatype
decreasing_by exact datatype.sizeOf_fields_lt

def Datatype.forgetAll (keep : ScalarDatatype → Bool) (fields : List Datatype) : List Datatype :=
  match fields with
  | [] => []
  | field :: rest => Datatype.forget keep field :: Datatype.forgetAll keep rest
termination_by sizeOf fields

end

/-! ## Calls -/

/-- The datatype itself, or a field of a field of it. -/
def Datatype.fieldAt : List Nat → Datatype → Option Datatype
  | [], datatype => some datatype
  | idx :: path, datatype => datatype.fields[idx]?.bind (Datatype.fieldAt path)

/-- A call for the field at a path. -/
def sizeAt : List Nat → Datatype → Option (UInt64 × Datatype)
  | [], datatype => some (asdfDatatypeSize datatype)
  | idx :: path, datatype => do
    let field ← datatype.fields[idx]?
    let (size, field) ← sizeAt path field
    some (size, { datatype with fields := datatype.fields.set idx field })

/-- Calls one after another. -/
def sizesAt : List (List Nat) → Datatype → Option (List UInt64 × Datatype)
  | [], datatype => some ([], datatype)
  | path :: paths, datatype => do
    let (size, datatype) ← sizeAt path datatype
    let (sizes, datatype) ← sizesAt paths datatype
    some (size :: sizes, datatype)

/-! ## The sizes of the parser -/

mutual

/-- The size without the bound of `uint64_t`. Sizes that do not follow from the name
of a type are taken as they are. -/
def Datatype.extent (datatype : Datatype) : Nat :=
  if datatype.type.sized = true then datatype.size.toNat
  else
    (if datatype.isStructured = true then Datatype.extents datatype.fields
      else datatype.type.size) * (datatype.shape.map UInt64.toNat).prod
termination_by sizeOf datatype
decreasing_by exact datatype.sizeOf_fields_lt

def Datatype.extents (fields : List Datatype) : Nat :=
  match fields with
  | [] => 0
  | field :: rest => Datatype.extent field + Datatype.extents rest
termination_by sizeOf fields

end

section Parser

variable {byteorder : Byteorder} {d : Datatype}

theorem toNat_foldl_mul (shape : List UInt64) (size : UInt64) :
    (shape.foldl (· * ·) size).toNat = size.toNat * (shape.map UInt64.toNat).prod % 2 ^ 64 := by
  induction shape generalizing size with
  | nil =>
    rw [List.foldl_nil, List.map_nil, List.prod_nil, Nat.mul_one, Nat.mod_eq_of_lt size.toNat_lt]
  | cons dim shape ih =>
    rw [List.foldl_cons, ih, List.map_cons, List.prod_cons, UInt64.toNat_mul, ← Nat.mul_assoc,
      Nat.mod_mul_mod]

theorem toNat_foldl_add (fields : List Datatype)
    (right : ∀ f ∈ fields, f.size.toNat = f.extent % 2 ^ 64) (size : UInt64) :
    (fields.foldl (fun size field => size + field.size) size).toNat =
      (size.toNat + Datatype.extents fields) % 2 ^ 64 := by
  induction fields generalizing size with
  | nil =>
    rw [List.foldl_nil, Datatype.extents, Nat.add_zero, Nat.mod_eq_of_lt size.toNat_lt]
  | cons field fields ih =>
    rw [List.foldl_cons, ih fun f member => right f (List.mem_cons_of_mem _ member),
      Datatype.extents, UInt64.toNat_add, right field List.mem_cons_self]
    omega

theorem baseSize_of_structured (structured : d.isStructured = true) :
    d.baseSize = d.fields.foldl (fun size field => size + field.size) 0 := by
  rw [Datatype.baseSize, of_decide_eq_true structured]

theorem baseSize_of_scalar (sized : ¬ d.type.sized = true) (scalar : ¬ d.isStructured = true) :
    d.baseSize = UInt64.ofNat d.type.size := by
  rw [Datatype.baseSize]
  split
  · rename_i type
    exact absurd (by rw [type]; rfl) sized
  · rename_i type
    exact absurd (by rw [type]; rfl) sized
  · rename_i type
    exact absurd (decide_eq_true type) scalar
  · rfl

/-- The sizes are those of the elements, taken as often as the shape says and summed
over the fields, as far as `uint64_t` holds them. -/
theorem size_extent (parsed : Parsed byteorder d) : d.size.toNat = d.extent % 2 ^ 64 := by
  induction d using Datatype.field_induction with
  | step d ih =>
    obtain ⟨-, size, -, -, -, fields⟩ := parsed
    rw [Datatype.extent]
    by_cases sized : d.type.sized = true
    · rw [if_pos sized, Nat.mod_eq_of_lt d.size.toNat_lt]
    rw [if_neg sized, size (Bool.not_eq_true _ ▸ sized), toNat_foldl_mul]
    by_cases structured : d.isStructured = true
    · rw [if_pos structured, baseSize_of_structured structured,
        toNat_foldl_add d.fields fun f member => ih f member (fields f member)]
      rw [UInt64.toNat_zero, Nat.zero_add, Nat.mod_mul_mod]
    · rw [if_neg structured, baseSize_of_scalar sized structured, UInt64.toNat_ofNat',
        Nat.mod_mul_mod]

theorem parsed_fieldAt {path : List Nat} {field : Datatype} (parsed : Parsed byteorder d)
    (found : d.fieldAt path = some field) : Parsed byteorder field := by
  induction path generalizing d with
  | nil =>
    cases found
    exact parsed
  | cons idx path ih =>
    obtain ⟨-, -, -, -, -, fields⟩ := parsed
    obtain ⟨inner, at_idx, at_path⟩ := Option.bind_eq_some_iff.mp found
    exact ih (fields inner (List.mem_of_getElem? at_idx)) at_path

end Parser

/-! ## Sizes that are computed -/

/-- A datatype of which some sizes have been forgotten, which follow from the rest. -/
inductive Cached : Datatype → Datatype → Prop
  | intro {d : Datatype} {size : UInt64} {fields : List Datatype}
      (stored : size = d.size ∨ size = 0 ∧ d.type.sized = false)
      (same : List.Forall₂ Cached d.fields fields) :
      Cached d { d with size := size, fields := fields }

section Computed

variable {byteorder : Byteorder} {d t : Datatype}

theorem sized_of_isString (string : d.isString = true) : d.type.sized = true := by
  rcases Bool.or_eq_true_iff.mp string with type | type
  · rw [of_decide_eq_true type]
    rfl
  · rw [of_decide_eq_true type]
    rfl

theorem unsized_of_structured (structured : d.isStructured = true) : d.type.sized = false := by
  rw [of_decide_eq_true structured]
  rfl

theorem size_of_sized (sized : d.type.sized = true) : UInt64.ofNat d.type.size = 0 := by
  generalize d.type = type at sized
  cases type <;> first | rfl | cases sized

theorem multiplied_zero (shape : List UInt64) : shape.foldl (· * ·) (0 : UInt64) = 0 := by
  induction shape with
  | nil => rfl
  | cons dim shape ih => rw [List.foldl_cons, UInt64.zero_mul, ih]

/-- A zero need not be multiplied. -/
theorem multiplied_eq (shape : List UInt64) (size : UInt64) :
    (if size ≠ 0 then shape.foldl (· * ·) size else size) = shape.foldl (· * ·) size := by
  by_cases none : size = 0
  · rw [none, multiplied_zero]
    rfl
  · exact if_pos none

theorem not_isString_of_structured (structured : d.isStructured = true) : ¬ d.isString = true := by
  intro string
  have sized := sized_of_isString string
  rw [unsized_of_structured structured] at sized
  cases sized

theorem asdfDatatypeSize_stored (stored : d.size ≠ 0 ∨ d.isString = true) :
    asdfDatatypeSize d = (d.size, d) := by
  rw [asdfDatatypeSize, if_pos stored]

theorem asdfDatatypeSize_structured (none : d.size = 0) (structured : d.isStructured = true) :
    asdfDatatypeSize d = (d.shape.foldl (· * ·) (asdfFieldsSize d.fields 0).1,
      { d with size := d.shape.foldl (· * ·) (asdfFieldsSize d.fields 0).1,
               fields := (asdfFieldsSize d.fields 0).2 }) := by
  have computed := not_or.mpr ⟨not_not.mpr none, not_isString_of_structured structured⟩
  rw [asdfDatatypeSize, if_neg computed, if_pos structured]
  dsimp only
  rw [multiplied_eq]

theorem asdfDatatypeSize_scalar (none : d.size = 0) (string : ¬ d.isString = true)
    (scalar : ¬ d.isStructured = true) :
    asdfDatatypeSize d = (d.shape.foldl (· * ·) (UInt64.ofNat d.type.size),
      { d with size := d.shape.foldl (· * ·) (UInt64.ofNat d.type.size) }) := by
  rw [asdfDatatypeSize, if_neg (not_or.mpr ⟨not_not.mpr none, string⟩), if_neg scalar]
  dsimp only
  rw [multiplied_eq]

theorem asdfFieldsSize_cached {ds ts : List Datatype} (same : List.Forall₂ Cached ds ts)
    (each : ∀ d ∈ ds, ∀ t, Cached d t →
      (asdfDatatypeSize t).1 = d.size ∧ Cached d (asdfDatatypeSize t).2)
    (acc : UInt64) :
    (asdfFieldsSize ts acc).1 = ds.foldl (fun size field => size + field.size) acc ∧
      List.Forall₂ Cached ds (asdfFieldsSize ts acc).2 := by
  induction same generalizing acc with
  | nil =>
    rw [asdfFieldsSize]
    exact ⟨rfl, .nil⟩
  | cons first rest ih =>
    obtain ⟨size, cached⟩ := each _ List.mem_cons_self _ first
    obtain ⟨sizes, rest'⟩ := ih (fun d member => each d (List.mem_cons_of_mem _ member))
      (acc + (asdfDatatypeSize _).1)
    rw [asdfFieldsSize]
    dsimp only
    rw [size] at sizes rest' ⊢
    exact ⟨sizes, .cons cached rest'⟩

/-- A call returns the size of the parser, whatever has been forgotten, and forgets
nothing. -/
theorem asdfDatatypeSize_cached (parsed : Parsed byteorder d) (cached : Cached d t) :
    (asdfDatatypeSize t).1 = d.size ∧ Cached d (asdfDatatypeSize t).2 := by
  induction d using Datatype.field_induction generalizing t with
  | step d ih =>
    have whole := parsed
    obtain ⟨-, size', -, -, -, fields⟩ := whole
    cases cached with
    | @intro _ size ts stored same =>
      by_cases kept : size ≠ 0 ∨ d.isString = true
      · have right : size = d.size := by
          rcases stored with right | ⟨none, unsized⟩
          · exact right
          · rcases kept with some | string
            · exact absurd none some
            · rw [sized_of_isString string] at unsized
              cases unsized
        rw [asdfDatatypeSize_stored kept]
        exact ⟨right, .intro stored same⟩
      obtain ⟨none, string⟩ := not_or.mp kept
      by_cases structured : d.isStructured = true
      · obtain ⟨sum, same'⟩ := asdfFieldsSize_cached same
          (fun f member t cached => ih f member (fields f member) cached) 0
        have result : d.shape.foldl (· * ·) (asdfFieldsSize ts 0).1 = d.size := by
          rw [sum, size' (unsized_of_structured structured), baseSize_of_structured structured]
        rw [@asdfDatatypeSize_structured { d with size := size, fields := ts } (not_not.mp none)
          structured]
        exact ⟨result, .intro (.inl result) same'⟩
      · have result : d.shape.foldl (· * ·) (UInt64.ofNat d.type.size) = d.size := by
          by_cases sized : d.type.sized = true
          · rcases stored with right | ⟨-, unsized⟩
            · rw [size_of_sized sized, multiplied_zero, ← right, not_not.mp none]
            · rw [sized] at unsized
              cases unsized
          · rw [size' (Bool.not_eq_true _ ▸ sized), baseSize_of_scalar sized structured]
        rw [@asdfDatatypeSize_scalar { d with size := size, fields := ts } (not_not.mp none) string
          structured]
        exact ⟨result, .intro (.inl result) same⟩

/-! ## Calls on fields -/

theorem forall₂_set {ds ts : List Datatype} (same : List.Forall₂ Cached ds ts) {idx : Nat}
    {field u : Datatype} (found : ds[idx]? = some field) (cached : Cached field u) :
    List.Forall₂ Cached ds (ts.set idx u) := by
  induction same generalizing idx with
  | nil => cases found
  | cons first rest ih =>
    cases idx with
    | zero =>
      cases found
      exact .cons cached rest
    | succ idx => exact .cons first (ih found)

theorem forall₂_get {ds ts : List Datatype} (same : List.Forall₂ Cached ds ts) (idx : Nat) :
    ds[idx]? = none ∧ ts[idx]? = none ∨
      ∃ field u, ds[idx]? = some field ∧ ts[idx]? = some u ∧ Cached field u := by
  induction same generalizing idx with
  | nil => exact .inl ⟨rfl, rfl⟩
  | cons first rest ih =>
    cases idx with
    | zero => exact .inr ⟨_, _, rfl, rfl, first⟩
    | succ idx => exact ih idx

/-- A call for a field, if there is one. -/
theorem sizeAt_cached (path : List Nat) (parsed : Parsed byteorder d) (cached : Cached d t) :
    d.fieldAt path = none ∧ sizeAt path t = none ∨
      ∃ field t', d.fieldAt path = some field ∧ sizeAt path t = some (field.size, t') ∧
        Cached d t' := by
  induction path generalizing d t with
  | nil =>
    obtain ⟨size, cached'⟩ := asdfDatatypeSize_cached parsed cached
    exact .inr ⟨d, _, rfl, by rw [sizeAt, ← size], cached'⟩
  | cons idx path ih =>
    obtain ⟨-, -, -, -, -, fields⟩ := parsed
    cases cached with
    | @intro _ size ts stored same =>
      rw [Datatype.fieldAt, sizeAt]
      dsimp only
      rcases forall₂_get same idx with ⟨none, none'⟩ | ⟨field, u, found, found', cached⟩
      · rw [none, none']
        exact .inl ⟨rfl, rfl⟩
      · rw [found, found']
        rcases ih (fields field (List.mem_of_getElem? found)) cached with
          ⟨none, none'⟩ | ⟨inner, u', at_path, size', cached'⟩
        · refine .inl ⟨none, ?_⟩
          simp only [none', Option.bind_eq_bind, Option.bind_some, Option.bind_none]
        · refine .inr ⟨inner, _, at_path, ?_, .intro stored (forall₂_set same found cached')⟩
          simp only [size', Option.bind_eq_bind, Option.bind_some]

theorem sizesAt_cached (paths : List (List Nat)) (parsed : Parsed byteorder d)
    (cached : Cached d t) : (sizesAt paths t).map Prod.fst =
      paths.mapM fun path => (d.fieldAt path).map Datatype.size := by
  induction paths generalizing t with
  | nil => rfl
  | cons path paths ih =>
    rw [sizesAt, List.mapM_cons]
    rcases sizeAt_cached path parsed cached with ⟨none, none'⟩ | ⟨field, t', found, size, cached'⟩
    · rw [none, none']
      rfl
    · have rest := ih cached'
      rw [found, size, Option.map_some, ← rest]
      simp only [Option.bind_eq_bind, Option.bind_some]
      cases sizesAt paths t' with
      | none => rfl
      | some r => rfl

/-! ## Sizes that are forgotten -/

theorem forgetAll_eq (keep : ScalarDatatype → Bool) (fields : List Datatype) :
    Datatype.forgetAll keep fields = fields.map (Datatype.forget keep) := by
  induction fields with
  | nil => rw [Datatype.forgetAll, List.map_nil]
  | cons field fields ih => rw [Datatype.forgetAll, ih, List.map_cons]

theorem forget_cached (parsed : Parsed byteorder d) : Cached d (d.forget ScalarDatatype.sized) := by
  induction d using Datatype.field_induction with
  | step d ih =>
    obtain ⟨-, -, -, -, -, fields⟩ := parsed
    rw [Datatype.forget, forgetAll_eq]
    constructor
    · split
      · exact .inl rfl
      · rename_i unsized
        exact .inr ⟨rfl, Bool.not_eq_true _ ▸ unsized⟩
    · rw [List.forall₂_map_right_iff, List.forall₂_same]
      exact fun f member => ih f member (fields f member)

theorem asdfFieldsSize_forget {fields : List Datatype} (each : ∀ f ∈ fields,
    asdfDatatypeSize (f.forget ScalarDatatype.sized) = (f.size, f)) (acc : UInt64) :
    asdfFieldsSize (Datatype.forgetAll ScalarDatatype.sized fields) acc =
      (fields.foldl (fun size field => size + field.size) acc, fields) := by
  induction fields generalizing acc with
  | nil => rw [Datatype.forgetAll, asdfFieldsSize, List.foldl_nil]
  | cons field fields ih =>
    rw [Datatype.forgetAll, asdfFieldsSize, each field List.mem_cons_self, List.foldl_cons]
    dsimp only
    rw [ih fun f member => each f (List.mem_cons_of_mem _ member)]

/-- A call for the whole datatype stores every size that was forgotten. -/
theorem asdfDatatypeSize_forget (parsed : Parsed byteorder d) :
    asdfDatatypeSize (d.forget ScalarDatatype.sized) = (d.size, d) := by
  induction d using Datatype.field_induction with
  | step d ih =>
    have whole := parsed
    obtain ⟨flat, size, -, -, -, fields⟩ := whole
    rw [Datatype.forget]
    by_cases structured : d.isStructured = true
    · have unsized := unsized_of_structured structured
      have sums := asdfFieldsSize_forget (fun f member => ih f member (fields f member)) 0
      have result := size unsized
      rw [baseSize_of_structured structured] at result
      rw [unsized, if_neg Bool.false_ne_true, @asdfDatatypeSize_structured { d with
        size := 0, fields := Datatype.forgetAll ScalarDatatype.sized d.fields } rfl structured]
      dsimp only
      rw [sums, ← result, Datatype.eta]
    · have none : d.fields = [] := flat fun type => structured (decide_eq_true type)
      have same : Datatype.forgetAll ScalarDatatype.sized d.fields = d.fields := by
        rw [none, Datatype.forgetAll]
      rw [same]
      by_cases sized : d.type.sized = true
      · rw [if_pos sized, Datatype.eta]
        by_cases stored : d.size ≠ 0 ∨ d.isString = true
        · exact asdfDatatypeSize_stored stored
        · obtain ⟨zero, string⟩ := not_or.mp stored
          rw [asdfDatatypeSize_scalar (not_not.mp zero) string structured, size_of_sized sized,
            multiplied_zero, ← not_not.mp zero, Datatype.eta]
      · have string : ¬ d.isString = true := fun string => sized (sized_of_isString string)
        have result := size (Bool.not_eq_true _ ▸ sized)
        rw [baseSize_of_scalar sized structured] at result
        rw [if_neg sized, @asdfDatatypeSize_scalar { d with size := 0 } rfl string structured]
        dsimp only
        rw [← result, Datatype.eta]

end Computed

/-! ## The sizes of strings -/

/-- The node of the datatype of a field, or of a datatype that is no field. -/
def Node.datatypeNode (node : Node) : Node := (node.lookup datatypeKey).getD node

/-- The node that the field at a path was read from. -/
def Node.fieldNodeAt : List Nat → Node → Option Node
  | [], node => some node
  | idx :: path, node => node.datatypeNode.items[idx]?.bind (Node.fieldNodeAt path)

/-- A string has the size of the length that stands in its node, in characters of four
bytes or of one, taken as often as the shape says. -/
def StringSized (env : ScalarEnv) (node : Node) (d : Datatype) : Prop :=
  d.isString = true → ∃ typeVal sizeVal length, node.datatypeNode.items = [typeVal, sizeVal] ∧
    asUint64 env sizeVal = .ok length ∧
    d.size = d.shape.foldl (· * ·) (if d.type = .ucs4 then length * 4 else length)

section Strings

variable {env : ScalarEnv} {byteorder : Byteorder} {value : Node} {d : Datatype}

/-- A datatype that is no field is read from a sequence or from a scalar. -/
theorem datatypeNode_of_parse (parse : datatypeParse env byteorder value = .ok d) :
    value.datatypeNode = value := by
  cases value with
  | scalar tag style text => rfl
  | sequence tag items => rfl
  | mapping tag pairs =>
    rw [datatypeParse.eq_def] at parse
    cases parse

theorem stringDatatypeParse_size {typeVal sizeVal : Node}
    (parse : stringDatatypeParse env byteorder typeVal sizeVal = .ok d) : d.fields = [] ∧ ∃ length,
      asUint64 env sizeVal = .ok length ∧ d.size = if d.type = .ucs4 then length * 4 else length := by
  unfold stringDatatypeParse at parse
  cases type : asString0 env typeVal with
  | error err => simp [type, bind, Except.bind] at parse
  | ok type' =>
    cases length : asUint64 env sizeVal with
    | error err => simp [type, length, bind, Except.bind] at parse
    | ok length' =>
      simp only [type, length, bind, Except.bind] at parse
      split at parse
      · cases parse
        exact ⟨rfl, length', rfl, rfl⟩
      split at parse <;>
      · cases parse
        exact ⟨rfl, length', rfl, rfl⟩

theorem stringSized_of_datatypeParse (parse : datatypeParse env byteorder value = .ok d) :
    StringSized env value d := by
  intro string
  rw [datatypeNode_of_parse parse]
  have whole := ((parsed_of_parse value).1 d parse).shape
  rw [datatypeParse.eq_def] at parse
  split at parse
  · rename_i tag items
    split at parse
    · rename_i typeVal sizeVal found
      obtain ⟨-, length, read, size⟩ := stringDatatypeParse_size parse
      have two : items = [typeVal, sizeVal] := by
        unfold stringItems at found
        split at found
        · split at found
          · cases found
            rfl
          · cases found
        · cases found
      exact ⟨typeVal, sizeVal, length, two, read, by rw [whole]; exact size⟩
    · cases fields : fieldsParse env byteorder items with
      | error err =>
        rw [fields] at parse
        cases parse
      | ok fields' =>
        rw [fields] at parse
        cases parse
        cases string
  · unfold scalarDatatypeParse at parse
    split at parse
    · rename_i dtype read
      cases parse
      obtain ⟨-, ucs4, ascii⟩ := scalarDatatypeFromString_ne dtype
      rcases Bool.or_eq_true_iff.mp string with type | type
      · exact absurd (of_decide_eq_true type) ascii
      · exact absurd (of_decide_eq_true type) ucs4
    · cases parse

/-- A field is read from a datatype, to which it adds its shape. -/
theorem fieldParse_cases {field : Datatype} (parse : fieldParse env byteorder value = .ok field) :
    ∃ base, datatypeParse env byteorder value.datatypeNode = .ok base ∧ field.type = base.type ∧
      field.fields = base.fields ∧ field.size = field.shape.foldl (· * ·) base.size := by
  have plain {d : Datatype} (parse : datatypeParse env byteorder value = .ok d) :
      ∃ base, datatypeParse env byteorder value.datatypeNode = .ok base ∧ d.type = base.type ∧
        d.fields = base.fields ∧ d.size = d.shape.foldl (· * ·) base.size := by
    have whole := ((parsed_of_parse value).1 d parse).shape
    refine ⟨d, ?_, rfl, rfl, by rw [whole]; rfl⟩
    rw [datatypeNode_of_parse parse]
    exact parse
  cases value with
  | scalar tag style text =>
    rw [fieldParse.eq_def] at parse
    exact plain parse
  | sequence tag items =>
    rw [fieldParse.eq_def] at parse
    exact plain parse
  | mapping tag pairs =>
    cases found : (Node.mapping tag pairs).lookup datatypeKey with
    | none =>
      rw [fieldParse.eq_def] at parse
      dsimp only at parse
      split at parse
      · cases parse
      · rename_i found'
        cases found.symm.trans found'
    | some datatypeVal =>
      have node : (Node.mapping tag pairs).datatypeNode = datatypeVal := by
        rw [Node.datatypeNode, found]
        rfl
      rw [fieldParse_mapping found] at parse
      cases read : datatypeParse env byteorder datatypeVal with
      | error err =>
        rw [read] at parse
        cases parse
      | ok base =>
        rw [read] at parse
        have whole := ((parsed_of_parse datatypeVal).1 base read).shape
        obtain ⟨type, same, size, -, -⟩ := fieldAttributesParse_adds whole parse
        exact ⟨base, by rw [node]; exact read, type, same, size⟩

theorem stringSized_of_fieldParse {field : Datatype} (parse : fieldParse env byteorder value = .ok field) :
    StringSized env value field := by
  intro string
  obtain ⟨base, read, type, -, size⟩ := fieldParse_cases parse
  obtain ⟨typeVal, sizeVal, length, items, given, base_size⟩ := stringSized_of_datatypeParse read (by
    unfold Datatype.isString at string ⊢
    rwa [← type])
  rw [datatypeNode_of_parse read] at items
  rw [((parsed_of_parse _).1 base read).shape, ← type] at base_size
  refine ⟨typeVal, sizeVal, length, items, given, ?_⟩
  rw [size, base_size]
  rfl

/-- The fields of a datatype are read from the items of its node. -/
theorem fieldsParse_at {items : List Node} {fields : List Datatype} {field : Datatype} {idx : Nat}
    (parse : fieldsParse env byteorder items = .ok fields) (found : fields[idx]? = some field) :
    ∃ item, items[idx]? = some item ∧ fieldParse env byteorder item = .ok field := by
  induction items generalizing fields idx with
  | nil =>
    rw [fieldsParse] at parse
    cases parse
    cases found
  | cons item rest ih =>
    obtain ⟨first, later, here, others, rfl⟩ := fieldsParse_cons.mp parse
    cases idx with
    | zero =>
      cases found
      exact ⟨item, rfl, here⟩
    | succ idx => exact ih others found

theorem datatypeParse_at {field : Datatype} {idx : Nat} (parse : datatypeParse env byteorder value = .ok d)
    (found : d.fields[idx]? = some field) :
    ∃ item, value.items[idx]? = some item ∧ fieldParse env byteorder item = .ok field := by
  rw [datatypeParse.eq_def] at parse
  split at parse
  · rename_i tag items
    split at parse
    · rw [(stringDatatypeParse_size parse).1] at found
      cases found
    · cases fields : fieldsParse env byteorder items with
      | error err =>
        rw [fields] at parse
        cases parse
      | ok fields' =>
        rw [fields] at parse
        cases parse
        exact fieldsParse_at fields found
  · unfold scalarDatatypeParse at parse
    split at parse
    · cases parse
      cases found
    · cases parse

/-- The node of a field, and its size if it is a string. -/
theorem stringSized_at {path : List Nat} {field : Datatype}
    (parse : datatypeParse env byteorder value = .ok d ∨ fieldParse env byteorder value = .ok d)
    (found : d.fieldAt path = some field) :
    ∃ node, value.fieldNodeAt path = some node ∧ StringSized env node field := by
  induction path generalizing value d with
  | nil =>
    cases found
    exact ⟨value, rfl, parse.elim stringSized_of_datatypeParse stringSized_of_fieldParse⟩
  | cons idx path ih =>
    obtain ⟨inner, at_idx, at_path⟩ := Option.bind_eq_some_iff.mp found
    obtain ⟨item, listed, read⟩ : ∃ item, value.datatypeNode.items[idx]? = some item ∧
        fieldParse env byteorder item = .ok inner := by
      rcases parse with parse | parse
      · rw [datatypeNode_of_parse parse]
        exact datatypeParse_at parse at_idx
      · obtain ⟨base, read, -, same, -⟩ := fieldParse_cases parse
        rw [same] at at_idx
        exact datatypeParse_at read at_idx
    obtain ⟨node, reached, sized⟩ := ih (.inr read) at_path
    exact ⟨node, Option.bind_eq_some_iff.mpr ⟨item, listed, reached⟩, sized⟩

end Strings

/-- The sizes of the parser are those that `asdf_datatype_size` computes, at every level
and by any calls, if only those are forgotten that follow from the name of a type; the
sizes of strings are those that stand in their nodes. -/
theorem parsed_sizes {env : ScalarEnv} {byteorder : Byteorder} {value : Node} {d : Datatype}
    (parse : datatypeParse env byteorder value = .ok d) :
    (∀ path field, d.fieldAt path = some field → field.size.toNat = field.extent % 2 ^ 64 ∧
      ∃ node, value.fieldNodeAt path = some node ∧ StringSized env node field) ∧
      asdfDatatypeSize (d.forget ScalarDatatype.sized) = (d.size, d) ∧
      ∀ paths, (sizesAt paths (d.forget ScalarDatatype.sized)).map Prod.fst =
        paths.mapM fun path => (d.fieldAt path).map Datatype.size := by
  have parsed := ((parsed_of_parse value).1 d parse).parsed
  refine ⟨fun path field found => ⟨size_extent (parsed_fieldAt parsed found), ?_⟩,
    asdfDatatypeSize_forget parsed, fun paths => sizesAt_cached paths parsed (forget_cached parsed)⟩
  exact stringSized_at (.inl parse) found

/-- A text without quotes. -/
def plainText (text : Bytes) : Node := .scalar none .plain text

theorem parsed_sizes_fields : asdfDatatypeSize ((structuredDatatype .little
      [⟨.int16, 2, none, .little, [], []⟩, ⟨.ascii, 3, none, .little, [], []⟩]).forget
        ScalarDatatype.sized) =
    (5, structuredDatatype .little
      [⟨.int16, 2, none, .little, [], []⟩, ⟨.ascii, 3, none, .little, [], []⟩]) := by
  have parse : datatypeParse plainScalars .little (.sequence none
      [plainText (scalarDatatypeToString .int16),
        .sequence none [plainText asciiStr, plainText [51]]]) =
      .ok (structuredDatatype .little
        [⟨.int16, 2, none, .little, [], []⟩, ⟨.ascii, 3, none, .little, [], []⟩]) := by
    have number : datatypeParse plainScalars .little (plainText (scalarDatatypeToString .int16)) =
        .ok ⟨.int16, 2, none, .little, [], []⟩ := by
      rw [datatypeParse]
      · rfl
      · rintro _ _ ⟨⟩
    have string : datatypeParse plainScalars .little (.sequence none
        [plainText asciiStr, plainText [51]]) = .ok ⟨.ascii, 3, none, .little, [], []⟩ := by
      rw [datatypeParse]
      rfl
    rw [datatypeParse, show stringItems plainScalars [plainText (scalarDatatypeToString .int16),
      .sequence none [plainText asciiStr, plainText [51]]] = none from rfl]
    dsimp only
    rw [fieldsParse, fieldsParse, fieldsParse, plainText, fieldParse, fieldParse, ← plainText,
      number, string]
    · rfl
    · rintro _ _ ⟨⟩
    · rintro _ _ ⟨⟩
  exact (parsed_sizes parse).2.1

/-- The type `u` of the length 1, which is no string type, is read with the size 1. -/
theorem unknown_length : ¬ ∀ (env : ScalarEnv) (byteorder : Byteorder) (value : Node)
    (d : Datatype), datatypeParse env byteorder value = .ok d →
      (asdfDatatypeSize (d.forget fun type => type = .ascii ∨ type = .ucs4)).1 = d.size := by
  intro all
  have parse : datatypeParse plainScalars .little
      (.sequence none [plainText [117], plainText [49]]) = .ok ⟨.unknown, 1, none, .little, [], []⟩ := by
    rw [datatypeParse]
    rfl
  have forgotten : (⟨.unknown, 1, none, .little, [], []⟩ : Datatype).forget
      (fun type => type = .ascii ∨ type = .ucs4) = ⟨.unknown, 0, none, .little, [], []⟩ := by
    rw [Datatype.forget, Datatype.forgetAll]
    rfl
  have same := all _ _ _ _ parse
  rw [forgotten, asdfDatatypeSize_scalar rfl (by decide) (by decide)] at same
  cases same

end LibAsdf
