import LibAsdf.Ndarray.ConvertIntegers
import LibAsdf.Ndarray.InlineArrays
import LibAsdf.Yaml.IntGrammar

/-!
# The elements of inline arrays

Integers, booleans and nulls as the scalars of inline data: what they do to the
inferred type, and what is stored for them.

* `YamlElement`, `IsElement`: what a scalar is in YAML;
* `updateTypeInference_eq`: what it does to the inference;
* `ElementStored`: what an element of the array is to be;
* `convert_int`, `convert_bool`: what is stored.
-/

namespace LibAsdf

/-! ## Scalars -/

inductive YamlElement where
  | int (negative : Bool) (magnitude : Nat)
  | bool (b : Bool)
  | null

/-- A scalar that is not quoted, without a tag of the common schema or with this one. -/
structure PlainScalar (node : Node) (tag : CommonTag) : Prop where
  scalar : valueTypeFromNode node = .scalar
  plain : node.style.quoted = false
  tag : ∀ t, node.tag = some t → commonTagGet t = .unknown ∨ commonTagGet t = tag

/-- What a scalar is in YAML. `0` and `1` are only booleans where a tag says so. -/
inductive IsElement (node : Node) : YamlElement → Prop
  | int {negative : Bool} {n : Nat} (plain : PlainScalar node .int)
      (text : IntText node.text negative n) : IsElement node (.int negative n)
  | bool {b : Bool} (plain : PlainScalar node .bool) (text : yamlScalarIsBool node.text = some b)
      (word : (∃ t, node.tag = some t ∧ commonTagGet t = .bool) ∨
        node.text ≠ [zeroDigit] ∧ node.text ≠ [zeroDigit + 1]) : IsElement node (.bool b)
  | null (plain : PlainScalar node .null) (text : yamlScalarIsNull node.text = true) :
      IsElement node .null

/-- The integers of 64 bits, signed if there is a minus sign. -/
def Fits64 (negative : Bool) (n : Nat) : Prop :=
  if negative then n ≤ 9223372036854775808 else n < 18446744073709551616

instance (negative : Bool) (n : Nat) : Decidable (Fits64 negative n) := by
  unfold Fits64
  infer_instance

section Scalars

variable {env : ScalarEnv} {node : Node} {negative b : Bool} {n : Nat}

theorem Fits64.small (h : Fits64 negative n) : n < 18446744073709551616 := by
  unfold Fits64 at h
  split at h
  · omega
  · exact h

theorem PlainScalar.inferUnquoted {tag : CommonTag} (h : PlainScalar node tag) :
    inferScalarType env (AsdfValue.create node) = inferUnquoted env (AsdfValue.create node) := by
  have plain : (AsdfValue.create node).node.style.quoted = false := h.plain
  rw [inferScalarType_fresh h.scalar rfl, plain, if_neg Bool.false_ne_true]

/-- Where a tag only repeats what the heuristics find. -/
theorem inferUnquoted_eq {tag : CommonTag} {result : AsdfValue × ValueErr}
    (h : PlainScalar node tag)
    (tagged : inferTagged env (AsdfValue.create node) node.text tag = some result)
    (plain : inferPlain env (AsdfValue.create node) node.text = result) :
    inferUnquoted env (AsdfValue.create node) = result := by
  have same : (AsdfValue.create node).node = node := rfl
  unfold LibAsdf.inferUnquoted
  rw [same]
  cases eq : node.tag with
  | none => exact plain
  | some t =>
    rcases h.tag t eq with unknown | known
    · rw [Option.bind_some, unknown]
      exact plain
    · rw [Option.bind_some, known, tagged]

/-- An integer of 64 bits. -/
theorem infer_int (h : PlainScalar node .int) (text : IntText node.text negative n)
    (fits : Fits64 negative n) : IntScalar node negative n := by
  refine ⟨h.scalar, h.plain, h.tag, ?_, ?_⟩
  · rw [yamlScalarIsInt_of_intText text]
    exact if_pos fits.small
  · rintro rfl
    exact fits

theorem not_int_of_null {text : Bytes} (h : yamlScalarIsNull text = true) :
    yamlScalarIsInt text = .error .parseFailure := by
  have spelled : text ∈ [] :: yamlNullStrs := by
    simpa [yamlScalarIsNull, List.isEmpty_iff] using h
  have noInt : ∀ t ∈ [] :: yamlNullStrs, yamlScalarIsInt t = .error .parseFailure := by decide
  exact noInt text spelled

theorem inferInt_wide {text : Bytes} (read : IntText text negative n) (wide : ¬ Fits64 negative n)
    (value : AsdfValue) : inferInt value text =
      ({ value with type := .unknown, err := .overflow }, .overflow) := by
  have result := yamlScalarIsInt_of_intText read
  unfold Fits64 at wide
  unfold inferInt
  by_cases small : n < 2 ^ 64
  · rw [if_pos small] at result
    rw [result]
    cases negative with
    | false =>
      rw [if_neg Bool.false_ne_true] at wide
      exact (wide small).elim
    | true =>
      rw [if_pos rfl] at wide
      exact if_pos (Nat.lt_of_not_le wide)
  · rw [if_neg small] at result
    rw [result]

/-- An integer that is too large for 64 bits is of no type. -/
theorem infer_wide (env : ScalarEnv) (h : PlainScalar node .int) (text : IntText node.text negative n)
    (wide : ¬ Fits64 negative n) : ∃ inferred,
      inferScalarType env (AsdfValue.create node) = (inferred, .overflow) ∧
        inferred.type = .unknown := by
  have large := inferInt_wide text wide
  have noNull : yamlScalarIsNull node.text = false := by
    rw [Bool.eq_false_iff]
    intro null
    have both := (large (AsdfValue.create node)).symm
    rw [inferInt, not_int_of_null null] at both
    cases both
  refine ⟨{ AsdfValue.create node with type := .unknown, err := .overflow }, ?_, rfl⟩
  rw [h.inferUnquoted]
  apply inferUnquoted_eq h
  · rw [inferTagged, large]
  · simp [inferPlain, inferNull, noNull, large]

theorem inferBool_some {text : Bytes} (h : yamlScalarIsBool text = some b) (value : AsdfValue) :
    inferBool env value text = ({ value.withB env b with type := .bool, err := .ok }, .ok) := by
  rw [inferBool, h]

/-- A word for a boolean is no null and no integer. -/
theorem word_of_bool {text : Bytes} (h : yamlScalarIsBool text = some b)
    (zero : text ≠ [zeroDigit]) (one : text ≠ [zeroDigit + 1]) :
    yamlScalarIsNull text = false ∧ yamlScalarIsInt text = .error .parseFailure := by
  have spelled : text ∈ yamlTrueStrs ++ yamlFalseStrs := by
    unfold yamlScalarIsBool at h
    rw [if_neg zero, if_neg one] at h
    rw [List.mem_append]
    split at h
    · exact .inl (List.contains_iff_mem.mp ‹_›)
    · split at h
      · exact .inr (List.contains_iff_mem.mp ‹_›)
      · cases h
  have words : ∀ t ∈ yamlTrueStrs ++ yamlFalseStrs,
      yamlScalarIsNull t = false ∧ yamlScalarIsInt t = .error .parseFailure := by decide
  exact words text spelled

theorem b_withB (env : ScalarEnv) (node : Node) (b : Bool) :
    ((AsdfValue.create node).withB env b).b env = b := by
  cases little : env.littleEndian <;> cases b <;>
    simp [AsdfValue.b, AsdfValue.withB, AsdfValue.create, little]

theorem infer_bool (env : ScalarEnv) (h : PlainScalar node .bool) (text : yamlScalarIsBool node.text = some b)
    (word : (∃ t, node.tag = some t ∧ commonTagGet t = .bool) ∨
      node.text ≠ [zeroDigit] ∧ node.text ≠ [zeroDigit + 1]) : ∃ inferred,
      inferScalarType env (AsdfValue.create node) = (inferred, .ok) ∧
        inferred.type = .bool ∧ inferred.b env = b := by
  refine ⟨{ (AsdfValue.create node).withB env b with type := .bool, err := .ok }, ?_, rfl,
    b_withB env node b⟩
  rw [h.inferUnquoted]
  rcases word with ⟨t, eq, tag⟩ | ⟨zero, one⟩
  · have same : (AsdfValue.create node).node = node := rfl
    unfold inferUnquoted
    rw [same, eq, Option.bind_some, tag, inferTagged, inferBool_some text]
  · obtain ⟨noNull, noInt⟩ := word_of_bool text zero one
    apply inferUnquoted_eq h
    · rw [inferTagged, inferBool_some text]
    · simp [inferPlain, inferNull, inferInt, noNull, noInt, inferBool_some text, AsdfValue.withB]

theorem infer_null (env : ScalarEnv) (h : PlainScalar node .null) (text : yamlScalarIsNull node.text = true) :
    ∃ inferred, inferScalarType env (AsdfValue.create node) = (inferred, .ok) ∧
      inferred.type = .null := by
  refine ⟨{ AsdfValue.create node with type := .null, err := .ok }, ?_, rfl⟩
  rw [h.inferUnquoted]
  apply inferUnquoted_eq h
  · simp [inferTagged, inferNull, text]
  · simp [inferPlain, inferNull, text]

end Scalars

/-! ## Inference of the type -/

/-- What an element does to the inference: only an integer of 64 bits counts. -/
def YamlElement.update : YamlElement → TypeInf → TypeInf
  | .int true n, inf =>
    if Fits64 true n then
      { inf with hasSigned := true, intMin := if -(n : Int) < inf.intMin then -n else inf.intMin }
    else inf
  | .int false n, inf =>
    if Fits64 false n then
      { inf with hasUint := true, uintMax := if n > inf.uintMax then n else inf.uintMax }
    else inf
  | .bool _, inf | .null, inf => inf

section Inference

variable {env : ScalarEnv} {node : Node} {e : YamlElement} {inf : TypeInf}

theorem valueGetType_create {inferred : AsdfValue} {err : ValueErr}
    (scalar : valueTypeFromNode node = .scalar)
    (h : inferScalarType env (AsdfValue.create node) = (inferred, err)) :
    valueGetType env (AsdfValue.create node) = (inferred, inferred.type) := by
  have fresh : (AsdfValue.create node).type = .scalar := scalar
  simp [valueGetType, fresh, h]

theorem IsElement.scalar (h : IsElement node e) : valueTypeFromNode node = .scalar := by
  cases h with
  | int plain | bool plain | null plain => exact plain.scalar

/-- An integer whose sign decides which accessor is asked. -/
theorem updateTypeInference_int {negative : Bool} {n : Nat} (h : IntScalar node negative n)
    (fits : Fits64 negative n) (inf : TypeInf) :
    updateTypeInference env node inf = (YamlElement.int negative n).update inf := by
  obtain ⟨inferred, eq, -, holds⟩ := inferScalarType_create env h
  have again := @inferScalarType_inferred env _ _ _ holds
  unfold updateTypeInference
  rw [valueGetType_create h.scalar eq]
  cases negative with
  | true =>
    have v : signedValue true n = -n := rfl
    have low : n ≤ 9223372036854775808 := fits
    have range : CIntType.int64.InRange (signedValue true n) := by
      rw [inRange_iff, v]
      omega
    have read : (valueAsInt env .int64 inferred).2 = (.ok, some (.int (-n))) := by
      rw [valueAsInt, inferredAs_eq again, ← v]
      exact (asIntArms_eq holds .int64).1 range
    have signed := signedIntType_signed (-n)
    have type := holds.type
    change inferred.type = (signedIntType (-n)).valueType at type
    have kept : ¬ (-(n : Int) ≥ 0 ∧ (-(n : Int)).toNat > inf.uintMax) := by omega
    rw [YamlElement.update, if_pos fits]
    dsimp only
    cases kind : signedIntType (-n) <;> rw [kind] at signed type <;>
      first
      | (rw [type]; simp only [CIntType.valueType, read, kept, if_false]; done)
      | cases signed
  | false =>
    have v : signedValue false n = n := rfl
    have high : n < 18446744073709551616 := fits
    have range : CIntType.uint64.InRange (signedValue false n) := by
      rw [inRange_iff, v]
      omega
    have read : (valueAsInt env .uint64 inferred).2 = (.ok, some (.int n)) := by
      rw [valueAsInt, inferredAs_eq again, ← v]
      exact (asIntArms_eq holds .uint64).1 range
    have unsigned := unsignedIntType_signed n
    have type := holds.type
    change inferred.type = (unsignedIntType n).valueType at type
    rw [YamlElement.update, if_pos fits]
    dsimp only
    cases kind : unsignedIntType n <;> rw [kind] at unsigned type <;>
      first
      | (rw [type]; simp only [CIntType.valueType, read, Int.toNat_natCast]; done)
      | cases unsigned

theorem updateTypeInference_eq (h : IsElement node e) (inf : TypeInf) :
    updateTypeInference env node inf = e.update inf := by
  cases h with
  | @int negative n plain text =>
    by_cases fits : Fits64 negative n
    · exact updateTypeInference_int (infer_int plain text fits) fits inf
    · obtain ⟨inferred, eq, type⟩ := infer_wide env plain text fits
      unfold updateTypeInference
      rw [valueGetType_create plain.scalar eq, type]
      cases negative <;> exact (if_neg fits).symm
  | bool plain text word =>
    obtain ⟨inferred, eq, type, -⟩ := infer_bool env plain text word
    unfold updateTypeInference
    rw [valueGetType_create plain.scalar eq, type]
    rfl
  | null plain text =>
    obtain ⟨inferred, eq, type⟩ := infer_null env plain text
    unfold updateTypeInference
    rw [valueGetType_create plain.scalar eq, type]
    rfl

/-- The inference has taken notice of an element. -/
def Noted (inf : TypeInf) : YamlElement → Prop
  | .int true n => Fits64 true n → inf.hasSigned = true ∧ inf.intMin ≤ -n
  | .int false n => Fits64 false n → inf.hasUint = true ∧ n ≤ inf.uintMax
  | .bool _ | .null => True

/-- What an element does not undo. -/
structure Widens (inf inf' : TypeInf) : Prop where
  string : inf'.hasString = inf.hasString
  float : inf'.hasFloat = inf.hasFloat
  signed : inf.hasSigned = true → inf'.hasSigned = true
  unsigned : inf.hasUint = true → inf'.hasUint = true
  least : inf'.intMin ≤ inf.intMin
  greatest : inf.uintMax ≤ inf'.uintMax

theorem Widens.refl (inf : TypeInf) : Widens inf inf :=
  ⟨rfl, rfl, id, id, Int.le_refl _, Nat.le_refl _⟩

theorem widens_update (e : YamlElement) (inf : TypeInf) : Widens inf (e.update inf) := by
  cases e with
  | bool | null => exact .refl inf
  | int negative n =>
    cases negative with
    | true =>
      rw [YamlElement.update]
      split
      · refine ⟨rfl, rfl, fun _ => rfl, id, ?_, Nat.le_refl _⟩
        dsimp only
        split <;> omega
      · exact .refl inf
    | false =>
      rw [YamlElement.update]
      split
      · refine ⟨rfl, rfl, id, fun _ => rfl, Int.le_refl _, ?_⟩
        dsimp only
        split <;> omega
      · exact .refl inf

theorem noted_update (e : YamlElement) (inf : TypeInf) : Noted (e.update inf) e := by
  cases e with
  | bool | null => trivial
  | int negative n =>
    cases negative with
    | true =>
      intro fits
      rw [YamlElement.update, if_pos fits]
      refine ⟨rfl, ?_⟩
      dsimp only
      split <;> omega
    | false =>
      intro fits
      rw [YamlElement.update, if_pos fits]
      refine ⟨rfl, ?_⟩
      dsimp only
      split <;> omega

theorem Noted.widens {inf' : TypeInf} (h : Noted inf e) (wide : Widens inf inf') :
    Noted inf' e := by
  cases e with
  | bool | null => trivial
  | int negative n =>
    cases negative with
    | true =>
      intro fits
      obtain ⟨signed, least⟩ := h fits
      exact ⟨wide.signed signed, Int.le_trans wide.least least⟩
    | false =>
      intro fits
      obtain ⟨unsigned, greatest⟩ := h fits
      exact ⟨wide.unsigned unsigned, Nat.le_trans greatest wide.greatest⟩

/-- What the inference has found after these elements. -/
structure Summary (es : List YamlElement) (inf : TypeInf) : Prop where
  string : inf.hasString = false
  float : inf.hasFloat = false
  noted : ∀ e ∈ es, Noted inf e
  signed : inf.hasSigned = true → ∃ n, .int true n ∈ es
  unsigned : inf.hasUint = true → ∃ n, .int false n ∈ es

theorem summary_start : Summary [] .start := ⟨rfl, rfl, nofun, nofun, nofun⟩

theorem update_signed (h : (e.update inf).hasSigned = true) :
    inf.hasSigned = true ∨ ∃ n, e = .int true n := by
  cases e with
  | bool | null => exact .inl h
  | int negative n =>
    cases negative with
    | true => exact .inr ⟨n, rfl⟩
    | false =>
      rw [YamlElement.update] at h
      split at h <;> exact .inl h

theorem update_unsigned (h : (e.update inf).hasUint = true) :
    inf.hasUint = true ∨ ∃ n, e = .int false n := by
  cases e with
  | bool | null => exact .inl h
  | int negative n =>
    cases negative with
    | true =>
      rw [YamlElement.update] at h
      split at h <;> exact .inl h
    | false => exact .inr ⟨n, rfl⟩

theorem Summary.update {es : List YamlElement} (h : Summary es inf) (e : YamlElement) :
    Summary (es ++ [e]) (e.update inf) := by
  have wide := widens_update e inf
  refine ⟨wide.string.trans h.string, wide.float.trans h.float, ?_, ?_, ?_⟩
  · intro e' member
    rcases List.mem_append.mp member with old | new
    · exact (h.noted e' old).widens wide
    · rw [List.mem_singleton.mp new]
      exact noted_update e inf
  · intro signed
    rcases update_signed signed with old | ⟨n, rfl⟩
    · obtain ⟨n, member⟩ := h.signed old
      exact ⟨n, List.mem_append_left _ member⟩
    · exact ⟨n, by simp⟩
  · intro unsigned
    rcases update_unsigned unsigned with old | ⟨n, rfl⟩
    · obtain ⟨n, member⟩ := h.unsigned old
      exact ⟨n, List.mem_append_left _ member⟩
    · exact ⟨n, by simp⟩

/-- The elements of a whole array. -/
theorem summary_leaves {leaves : List Node} {es : List YamlElement}
    (h : List.Forall₂ IsElement leaves es) {seen : List YamlElement} (start : Summary seen inf) :
    Summary (seen ++ es) (leaves.foldl (fun inf leaf => updateTypeInference env leaf inf) inf) := by
  induction h generalizing seen inf with
  | nil => rwa [List.append_nil]
  | cons first rest ih =>
    rw [List.foldl_cons, updateTypeInference_eq first, List.append_cons]
    exact ih (start.update _)

end Inference

/-! ## Elements in memory -/

/-- The bytes are those of the element in an array of this type. -/
def ElementStored (host : Byteorder) (dtype : ScalarDatatype) : YamlElement → Bytes → Prop
  | .int negative n, bytes =>
    ∃ t, dtype.intType = some t ∧ t.Has (signedValue negative n) ∧
      loadInt host t bytes = signedValue negative n
  | .bool b, bytes => dtype = .bool8 ∧ bytes = [if b then 1 else 0]
  | .null, _ => False

/-- The elements are all booleans, or all unsigned integers of 64 bits without a minus
sign, or all signed integers of 64 bits. -/
def Uniform (es : List YamlElement) : Prop :=
  (∀ e ∈ es, ∃ b, e = .bool b) ∨
    (∀ e ∈ es, ∃ n, e = .int false n ∧ n < 18446744073709551616) ∨
    ∀ e ∈ es, ∃ negative n, e = .int negative n ∧
      -9223372036854775808 ≤ signedValue negative n ∧
        signedValue negative n < 9223372036854775808

def CIntType.datatype : CIntType → ScalarDatatype
  | int8 => .int8
  | int16 => .int16
  | int32 => .int32
  | int64 => .int64
  | uint8 => .uint8
  | uint16 => .uint16
  | uint32 => .uint32
  | uint64 => .uint64

section Stored

variable {env : ElementEnv} {elem : Node} {negative b : Bool} {n : Nat} {inf : TypeInf}
  {es : List YamlElement} {e : YamlElement}

/-- The integers of an array's type are those of the accessor's. -/
theorem datatype_intType (t : CIntType) : ∃ i, t.datatype.intType = some i ∧
    i.bytes = t.datatype.size ∧ 0 < i.bytes ∧ i.minval = t.min ∧ i.maxval = t.max := by
  cases t <;> exact ⟨_, rfl, rfl, by decide, by decide, by decide⟩

theorem convert_asInt (env : ElementEnv) (t : CIntType) (elem : Node) :
    convertScalarToNative env t.datatype elem = storeResult env.pf.host t.datatype.size
      (valueAsInt env.scalars t (AsdfValue.create elem)).2 := by
  cases t <;> rfl

theorem storeInt_unsigned {host : Byteorder} {i : IntType} {size : Nat} (bytes : i.bytes = size)
    (x : Int) : storeInt host ⟨false, size⟩ x = storeInt host i x := by
  subst bytes
  rfl

/-- An integer that the type has is stored. -/
theorem convert_int (h : IntScalar elem negative n) (t : CIntType)
    (range : t.InRange (signedValue negative n)) :
    ∃ bytes, convertScalarToNative env t.datatype elem = (.ok, some bytes) ∧
      ElementStored env.pf.host t.datatype (.int negative n) bytes := by
  obtain ⟨inferred, eq, -, holds⟩ := inferScalarType_create env.scalars h
  obtain ⟨i, type, size, some_bytes, low, high⟩ := datatype_intType t
  have has : i.Has (signedValue negative n) := by
    unfold IntType.Has
    rw [low, high]
    exact range
  refine ⟨storeInt env.pf.host i (signedValue negative n), ?_, i, type, has,
    loadInt_storeInt some_bytes has⟩
  rw [convert_asInt, valueAsInt, inferredAs_eq eq, (asIntArms_eq holds t).1 range]
  change (ValueErr.ok, some (storeInt env.pf.host ⟨false, t.datatype.size⟩ _)) = _
  rw [storeInt_unsigned size]

theorem convert_bool (h : IsElement elem (.bool b)) :
    ∃ bytes, convertScalarToNative env .bool8 elem = (.ok, some bytes) ∧
      ElementStored env.pf.host .bool8 (.bool b) bytes := by
  refine ⟨[if b then 1 else 0], ?_, rfl, rfl⟩
  cases h with
  | bool plain text word =>
    obtain ⟨inferred, eq, type, value⟩ := infer_bool env.scalars plain text word
    have arms : asBoolArms env.scalars inferred = (.ok, some (.bool b)) := by
      simp [asBoolArms, type, value]
    change storeResult env.pf.host 1 (valueAsBool env.scalars (AsdfValue.create elem)).2 = _
    rw [valueAsBool, inferredAs_eq eq, arms]
    rfl

/-! ## The inferred type -/

theorem inferred_signed (string : inf.hasString = false) (float : inf.hasFloat = false)
    (signed : inf.hasSigned = true) : ∃ t : CIntType, inferScalarDatatype inf = t.datatype ∧
      t.signed = true ∧ ∀ v : Int, (inf.intMin ≤ v ∨ 0 ≤ v) → (v ≤ inf.uintMax ∨ v ≤ 0) →
        CIntType.int64.InRange v → t.InRange v := by
  unfold inferScalarDatatype
  rw [string, float, signed]
  simp only [Bool.false_eq_true, if_false, if_true]
  split
  case isTrue bounds =>
    refine ⟨.int8, rfl, rfl, fun v low high _ => ?_⟩
    rw [inRange_iff]
    omega
  case isFalse =>
    split
    case isTrue bounds =>
      refine ⟨.int16, rfl, rfl, fun v low high _ => ?_⟩
      rw [inRange_iff]
      omega
    case isFalse =>
      split
      case isTrue bounds =>
        refine ⟨.int32, rfl, rfl, fun v low high _ => ?_⟩
        rw [inRange_iff]
        omega
      case isFalse => exact ⟨.int64, rfl, rfl, fun v _ _ range => range⟩

theorem inferred_unsigned (string : inf.hasString = false) (float : inf.hasFloat = false)
    (signed : inf.hasSigned = false) (unsigned : inf.hasUint = true) :
    ∃ t : CIntType, inferScalarDatatype inf = t.datatype ∧ t.signed = false ∧
      ∀ v : Int, 0 ≤ v → v ≤ inf.uintMax → CIntType.uint64.InRange v → t.InRange v := by
  unfold inferScalarDatatype
  rw [string, float, signed, unsigned]
  simp only [Bool.false_eq_true, if_false, if_true]
  split
  case isTrue bounds =>
    refine ⟨.uint8, rfl, rfl, fun v low high _ => ?_⟩
    rw [inRange_iff]
    omega
  case isFalse =>
    split
    case isTrue bounds =>
      refine ⟨.uint16, rfl, rfl, fun v low high _ => ?_⟩
      rw [inRange_iff]
      omega
    case isFalse =>
      split
      case isTrue bounds =>
        refine ⟨.uint32, rfl, rfl, fun v low high _ => ?_⟩
        rw [inRange_iff]
        omega
      case isFalse => exact ⟨.uint64, rfl, rfl, fun v _ _ range => range⟩

theorem inferred_bool (string : inf.hasString = false) (float : inf.hasFloat = false)
    (signed : inf.hasSigned = false) (unsigned : inf.hasUint = false) :
    inferScalarDatatype inf = .bool8 := by
  unfold inferScalarDatatype
  rw [string, float, signed, unsigned]
  rfl

theorem IsElement.intScalar (h : IsElement elem (.int negative n)) (fits : Fits64 negative n) :
    IntScalar elem negative n := by
  cases h with
  | int plain text => exact infer_int plain text fits

/-- Uniform elements are stored in the inferred type. -/
theorem stored_of_uniform (summary : Summary es inf) (uniform : Uniform es) (member : e ∈ es)
    (h : IsElement elem e) :
    ∃ bytes, convertScalarToNative env (inferScalarDatatype inf) elem = (.ok, some bytes) ∧
      ElementStored env.pf.host (inferScalarDatatype inf) e bytes := by
  obtain ⟨string, float, noted, signed, unsigned⟩ := summary
  rcases uniform with bools | naturals | integers
  · have noSigned : inf.hasSigned = false := by
      rw [Bool.eq_false_iff]
      intro has
      obtain ⟨n, int⟩ := signed has
      obtain ⟨b, eq⟩ := bools _ int
      cases eq
    have noUnsigned : inf.hasUint = false := by
      rw [Bool.eq_false_iff]
      intro has
      obtain ⟨n, int⟩ := unsigned has
      obtain ⟨b, eq⟩ := bools _ int
      cases eq
    obtain ⟨b, rfl⟩ := bools e member
    rw [inferred_bool string float noSigned noUnsigned]
    exact convert_bool h
  · have noSigned : inf.hasSigned = false := by
      rw [Bool.eq_false_iff]
      intro has
      obtain ⟨n, int⟩ := signed has
      obtain ⟨m, eq, -⟩ := naturals _ int
      cases eq
    obtain ⟨n, rfl, small⟩ := naturals e member
    have fits : Fits64 false n := small
    have v : signedValue false n = n := rfl
    obtain ⟨has, le⟩ := noted _ member fits
    obtain ⟨t, type, -, range⟩ := inferred_unsigned string float noSigned has
    rw [type]
    apply convert_int (h.intScalar fits)
    rw [v]
    apply range
    · omega
    · omega
    · rw [inRange_iff]
      omega
  · obtain ⟨negative, n, rfl, low, high⟩ := integers e member
    have fits : Fits64 negative n := by
      cases negative with
      | true =>
        change -9223372036854775808 ≤ -(n : Int) at low
        change n ≤ 9223372036854775808
        omega
      | false =>
        change (n : Int) < 9223372036854775808 at high
        change n < 18446744073709551616
        omega
    have known := noted _ member
    by_cases has : inf.hasSigned = true
    · obtain ⟨t, type, -, range⟩ := inferred_signed string float has
      rw [type]
      apply convert_int (h.intScalar fits)
      have whole : CIntType.int64.InRange (signedValue negative n) := by
        rw [inRange_iff]
        omega
      cases negative with
      | true =>
        have v : signedValue true n = -n := rfl
        rw [v] at whole ⊢
        exact range _ (.inl (known fits).2) (.inr (by omega)) whole
      | false =>
        have v : signedValue false n = n := rfl
        rw [v] at whole ⊢
        exact range _ (.inr (by omega)) (.inl (by exact_mod_cast (known fits).2)) whole
    · have noSigned := Bool.eq_false_iff.mpr has
      cases negative with
      | true => exact (has (known fits).1).elim
      | false =>
        have v : signedValue false n = n := rfl
        obtain ⟨hasUint, le⟩ := known fits
        obtain ⟨t, type, -, range⟩ := inferred_unsigned string float noSigned hasUint
        rw [type]
        apply convert_int (h.intScalar fits)
        rw [v] at high ⊢
        apply range
        · omega
        · omega
        · rw [inRange_iff]
          omega

/-- The integers of a signed type of the accessors. -/
theorem signed_bounds {t : CIntType} (signed : t.signed = true) {v : Int} (range : t.InRange v) :
    -9223372036854775808 ≤ v ∧ v < 9223372036854775808 := by
  rw [inRange_iff] at range
  cases t <;> first | (dsimp only at range; omega) | cases signed

theorem unsigned_bounds {t : CIntType} (signed : t.signed = false) {v : Int} (range : t.InRange v) :
    0 ≤ v ∧ v < 18446744073709551616 := by
  rw [inRange_iff] at range
  cases t <;> first | (dsimp only at range; omega) | cases signed

/-- An element that is stored in an accessor's type. -/
theorem inRange_of_stored {host : Byteorder} {t : CIntType} {bytes : Bytes}
    (h : ElementStored host t.datatype e bytes) :
    ∃ negative n, e = .int negative n ∧ t.InRange (signedValue negative n) := by
  obtain ⟨i, type, -, -, low, high⟩ := datatype_intType t
  cases e with
  | int negative n =>
    obtain ⟨i', type', has, -⟩ := h
    cases type.symm.trans type'
    refine ⟨negative, n, rfl, ?_⟩
    unfold IntType.Has at has
    rw [low, high] at has
    exact has
  | bool b =>
    obtain ⟨eq, -⟩ := h
    rw [eq] at type
    cases type
  | null => exact h.elim

/-- Only uniform elements are stored in the inferred type. -/
theorem uniform_of_stored {host : Byteorder} (summary : Summary es inf)
    (stored : ∀ e ∈ es, ∃ bytes, ElementStored host (inferScalarDatatype inf) e bytes) :
    Uniform es := by
  obtain ⟨string, float, noted, -, -⟩ := summary
  by_cases signed : inf.hasSigned = true
  · obtain ⟨t, type, sign, -⟩ := inferred_signed string float signed
    right; right
    intro e member
    obtain ⟨bytes, h⟩ := stored e member
    rw [type] at h
    obtain ⟨negative, n, rfl, range⟩ := inRange_of_stored h
    exact ⟨negative, n, rfl, signed_bounds sign range⟩
  · have noSigned := Bool.eq_false_iff.mpr signed
    by_cases unsigned : inf.hasUint = true
    · obtain ⟨t, type, sign, -⟩ := inferred_unsigned string float noSigned unsigned
      right; left
      intro e member
      obtain ⟨bytes, h⟩ := stored e member
      rw [type] at h
      obtain ⟨negative, n, rfl, range⟩ := inRange_of_stored h
      obtain ⟨low, high⟩ := unsigned_bounds sign range
      cases negative with
      | true =>
        -- A zero with a minus sign would have made the type a signed one.
        change 0 ≤ -(n : Int) at low
        have fits : Fits64 true n := by
          change n ≤ 9223372036854775808
          omega
        exact (signed (noted _ member fits).1).elim
      | false =>
        change (n : Int) < 18446744073709551616 at high
        exact ⟨n, rfl, by omega⟩
    · have type := inferred_bool string float noSigned (Bool.eq_false_iff.mpr unsigned)
      left
      intro e member
      obtain ⟨bytes, h⟩ := stored e member
      rw [type] at h
      cases e with
      | int negative n =>
        obtain ⟨i, none, -⟩ := h
        cases none
      | bool b => exact ⟨b, rfl⟩
      | null => exact h.elim

end Stored

end LibAsdf
