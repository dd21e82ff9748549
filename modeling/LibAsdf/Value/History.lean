import LibAsdf.Value.Integers

/-!
# Queries on one handle

Type inference runs once for a handle, and what it reports is remembered by the
type alone. Whether a sequence of queries is answered as on fresh handles.

* `Query`, `ask`: the type queries and their answers;
* `HistoryFree`: every query is answered as if it were the first;
* `Fits`: the texts that inference has no complaint about;
* `history_free_iff`: exactly these have no history, if no extension is
  registered for their tag.
-/

namespace LibAsdf

inductive Query where
  | getType
  | isType (type : ValueType)
  | asType (type : ValueType)
  | isInt
  | isContainer
  | isExtension (address : Nat)
  | asExtension (address : Nat)
  | property (mapping : Node) (name : Bytes) (type : ValueType) (tag : Option Bytes)

inductive Answer where
  | type (type : ValueType)
  | bool (b : Bool)
  | result (result : Result)

def ask (env : ScalarEnv) (value : AsdfValue) : Query → AsdfValue × Answer
  | .getType => let (value, type) := valueGetType env value; (value, .type type)
  | .isType type => let (value, b) := valueIsType env value type; (value, .bool b)
  | .asType type => let (value, result) := valueAsType env value type; (value, .result result)
  | .isInt => let (value, b) := inferredIs env isAnyIntArms value; (value, .bool b)
  | .isContainer => (value, .bool (value.rawType = .mapping || value.rawType = .sequence))
  | .isExtension address =>
    let (value, b) := valueIsExtensionType env value address; (value, .bool b)
  | .asExtension address =>
    let (value, result) := valueAsExtensionType env value address; (value, .result result)
  | .property mapping name type tag =>
    (value, .result (getPropertyImpl env mapping name type tag))

/-- The answers to queries on one handle, in order. -/
def askAll (env : ScalarEnv) (value : AsdfValue) : List Query → List Answer
  | [] => []
  | query :: rest => (ask env value query).2 :: askAll env (ask env value query).1 rest

/-- The answer to a query on a fresh handle. -/
def askFirst (env : ScalarEnv) (node : Node) (query : Query) : Answer :=
  (ask env (AsdfValue.create node) query).2

/-- Queries that do not ask for an extension. -/
def Query.plain : Query → Prop
  | isType type => type ≠ .extension
  | isExtension _ => False
  | asExtension _ => False
  | _ => True

/-- Queries of a kind are answered on one handle as on fresh ones, in every order. -/
def HistoryFree (env : ScalarEnv) (kind : Query → Prop) (node : Node) : Prop :=
  ∀ queries, (∀ query ∈ queries, kind query) →
    askAll env (AsdfValue.create node) queries = queries.map (askFirst env node)

/-- The text is an integer that 64 bits hold. -/
def IntFits (text : Bytes) : Prop :=
  ∃ negative magnitude, yamlScalarIsInt text = .ok (negative, magnitude) ∧
    (negative = true → magnitude ≤ 9223372036854775808)

/-- The text is an integer that 64 bits do not hold. -/
def IntOverflows (text : Bytes) : Prop :=
  yamlScalarIsInt text = .error .overflow ∨
    ∃ magnitude, yamlScalarIsInt text = .ok (true, magnitude) ∧ 9223372036854775808 < magnitude

/-- A plain text that is not a number out of range. -/
def PlainFits (env : ScalarEnv) (text : Bytes) : Prop :=
  yamlScalarIsNull text = true ∨ IntFits text ∨
    ¬ IntOverflows text ∧
      ((yamlScalarIsBool text).isSome = true ∨
        (yamlScalarIsFloat env.floats text false).1 ≠ .overflow)

/-- The text fits the explicit tag, or is not a number out of range. -/
def Fits (env : ScalarEnv) (node : Node) : Prop :=
  node.style.quoted = true ∨
    match (node.tag.map commonTagGet).getD .unknown with
    | .null => yamlScalarIsNull node.text = true
    | .bool => (yamlScalarIsBool node.text).isSome = true
    | .int => IntFits node.text
    | .float => (yamlScalarIsFloat env.floats node.text true).1 = .ok
    | .str => True
    | .unknown => PlainFits env node.text

section Fits

variable {env : ScalarEnv} {value : AsdfValue} {text : Bytes}

theorem inferNull_ok : (inferNull value text).2 = .ok ↔ yamlScalarIsNull text = true := by
  unfold inferNull
  split <;> simp [*]

theorem inferBool_ok : (inferBool env value text).2 = .ok ↔ (yamlScalarIsBool text).isSome = true := by
  unfold inferBool
  split <;> simp [*]

theorem inferInt_ok : (inferInt value text).2 = .ok ↔ IntFits text := by
  unfold inferInt IntFits
  split
  · rename_i magnitude eq
    simp [eq]
  · rename_i magnitude eq
    by_cases large : magnitude > 9223372036854775808
    · simp [eq, large]
    · simp only [large, ↓reduceIte, true_iff]
      exact ⟨true, magnitude, eq, fun _ => Nat.le_of_not_lt large⟩
  · rename_i err eq
    rcases yamlScalarIsInt_error eq with rfl | rfl <;> simp [eq]

theorem inferInt_overflow : (inferInt value text).2 = .overflow ↔ IntOverflows text := by
  unfold inferInt IntOverflows
  split
  · rename_i magnitude eq
    simp [eq]
  · rename_i magnitude eq
    by_cases large : magnitude > 9223372036854775808
    · simp [eq, large]
    · simp [eq, large]
  · rename_i err eq
    simp [eq]

theorem inferFloat_err {allowInt : Bool} :
    (inferFloat env value text allowInt).2 = (yamlScalarIsFloat env.floats text allowInt).1 := by
  unfold inferFloat
  simp only
  split <;> rfl

theorem inferPlain_ok : (inferPlain env value text).2 = .ok ↔ PlainFits env text := by
  unfold inferPlain PlainFits
  simp only
  by_cases null : yamlScalarIsNull text = true
  · simp [null, inferNull_ok]
  rw [if_neg (by rwa [inferNull_ok])]
  by_cases int : IntFits text
  · simp [int, inferInt_ok]
  by_cases large : IntOverflows text
  · have err : (inferInt (inferNull value text).1 text).2 = .overflow := inferInt_overflow.mpr large
    simp [err, null, int, large]
  rw [if_neg (by rw [inferInt_ok, inferInt_overflow]; simp [int, large])]
  by_cases bool : (yamlScalarIsBool text).isSome = true
  · simp [bool, inferBool_ok, null, int, large]
  rw [if_neg (by rwa [inferBool_ok])]
  simp only [inferFloat_err, null, int, large, bool, Bool.false_eq_true, false_or, not_false_eq_true,
    true_and]
  cases float : (yamlScalarIsFloat env.floats text false).1 <;> simp [inferFloat_err, float]

variable {node : Node}

theorem inferUnquoted_ok : (inferUnquoted env (AsdfValue.create node)).2 = .ok ↔
    match (node.tag.map commonTagGet).getD .unknown with
    | .null => yamlScalarIsNull node.text = true
    | .bool => (yamlScalarIsBool node.text).isSome = true
    | .int => IntFits node.text
    | .float => (yamlScalarIsFloat env.floats node.text true).1 = .ok
    | .str => True
    | .unknown => PlainFits env node.text := by
  have node_eq : (AsdfValue.create node).node = node := rfl
  unfold inferUnquoted
  rw [node_eq]
  cases node.tag with
  | none => exact inferPlain_ok
  | some tag =>
    simp only [Option.bind_some, Option.map_some, Option.getD_some]
    cases commonTagGet tag with
    | unknown => exact inferPlain_ok
    | null => exact inferNull_ok
    | bool => exact inferBool_ok
    | int => exact inferInt_ok
    | float =>
      simp only [inferTagged]
      rw [inferFloat_err]
    | str => simp [inferTagged]

/-- Inference reports no error for the texts that fit. -/
theorem inferScalarType_ok (scalar : valueTypeFromNode node = .scalar) :
    (inferScalarType env (AsdfValue.create node)).2 = .ok ↔ Fits env node := by
  have node_eq : (AsdfValue.create node).node = node := rfl
  rw [inferScalarType_fresh scalar rfl, node_eq, Fits, ← inferUnquoted_ok]
  cases node.style.quoted with
  | true => simp
  | false => simp

end Fits

/-! ## What a handle has been through -/

/-- A handle with the check for an extension made or not. -/
def AsdfValue.mark (value : AsdfValue) (checked : Bool) : AsdfValue :=
  { value with extensionChecked := checked }

/-- Inference does not look at the check for an extension. -/
def Marks (infer : AsdfValue → AsdfValue × ValueErr) : Prop :=
  ∀ value checked, infer (value.mark checked) = ((infer value).1.mark checked, (infer value).2)

section History

variable {env : ScalarEnv} {node : Node} {value : AsdfValue} {text : Bytes}

theorem inferNull_marks (text : Bytes) : Marks fun value => inferNull value text := by
  intro value checked
  simp only [inferNull]
  split <;> rfl

theorem inferBool_marks (env : ScalarEnv) (text : Bytes) : Marks fun value => inferBool env value text := by
  intro value checked
  simp only [inferBool]
  split <;> rfl

theorem inferInt_marks (text : Bytes) : Marks fun value => inferInt value text := by
  intro value checked
  simp only [inferInt]
  split
  · rfl
  · split <;> rfl
  · rfl

theorem inferFloat_marks (env : ScalarEnv) (text : Bytes) (allowInt : Bool) :
    Marks fun value => inferFloat env value text allowInt := by
  intro value checked
  simp only [inferFloat]
  split <;> rfl

theorem inferPlain_marks (env : ScalarEnv) (text : Bytes) : Marks fun value => inferPlain env value text := by
  intro value checked
  have null := inferNull_marks text value checked
  have int := inferInt_marks text (inferNull value text).1 checked
  have bool := inferBool_marks env text
    (inferInt (inferNull value text).1 text).1 checked
  have float := inferFloat_marks env text false
    (inferBool env (inferInt (inferNull value text).1 text).1 text).1 checked
  simp only at null int bool float
  simp only [inferPlain, null, int, bool, float]
  repeat' split
  all_goals rfl

theorem inferUnquoted_marks (env : ScalarEnv) : Marks (inferUnquoted env) := by
  intro value checked
  have same : (value.mark checked).node = value.node := rfl
  simp only [inferUnquoted, same]
  cases value.node.tag with
  | none => exact inferPlain_marks env _ value checked
  | some tag =>
    simp only [Option.bind_some]
    cases commonTagGet tag with
    | unknown => exact inferPlain_marks env _ value checked
    | null => exact inferNull_marks _ value checked
    | bool => exact inferBool_marks env _ value checked
    | int => exact inferInt_marks _ value checked
    | float => exact inferFloat_marks env _ true value checked
    | str => rfl

/-- The handle after inference, on a scalar. -/
def inferredValue (env : ScalarEnv) (node : Node) : AsdfValue :=
  (inferScalarType env (AsdfValue.create node)).1

theorem inferScalarType_mark (scalar : valueTypeFromNode node = .scalar) (checked : Bool) :
    inferScalarType env ((AsdfValue.create node).mark checked) =
      ((inferredValue env node).mark checked,
        (inferScalarType env (AsdfValue.create node)).2) := by
  have marks := inferUnquoted_marks env (AsdfValue.create node) checked
  have same : ((AsdfValue.create node).mark checked).node = (AsdfValue.create node).node := rfl
  rw [inferredValue, inferScalarType_fresh scalar rfl, inferScalarType_fresh scalar rfl, marks, same]
  cases (AsdfValue.create node).node.style.quoted with
  | true => rfl
  | false => rfl

/-- The handles that queries lead to on a scalar, where no extension is
registered for it: fresh ones, and those that inference has been through. -/
inductive Reached (env : ScalarEnv) (node : Node) : AsdfValue → Prop
  | fresh (checked : Bool) : Reached env node ((AsdfValue.create node).mark checked)
  | inferred (checked : Bool) : Reached env node ((inferredValue env node).mark checked)

theorem inferredValue_infers (env : ScalarEnv) (scalar : valueTypeFromNode node = .scalar) :
    Infers (AsdfValue.create node) (inferredValue env node) :=
  inferScalarType_infers scalar rfl

theorem reached_infer (scalar : valueTypeFromNode node = .scalar) (fits : Fits env node)
    (reached : Reached env node value) :
    ∃ checked, inferScalarType env value = ((inferredValue env node).mark checked, .ok) := by
  cases reached with
  | fresh checked =>
    refine ⟨checked, ?_⟩
    rw [inferScalarType_mark scalar, (inferScalarType_ok scalar).mpr fits]
  | inferred checked =>
    refine ⟨checked, ?_⟩
    exact inferScalarType_inferable (inferredValue_infers env scalar).type

/-- The answer of a query, and the handle that it leaves. -/
def Answers (env : ScalarEnv) (node : Node) (query : Query) : Prop :=
  ∃ answer, ∀ value, Reached env node value →
    (ask env value query).2 = answer ∧ Reached env node (ask env value query).1

/-- A test or an accessor that infers first, and does not look at the check for
an extension. -/
theorem answers_inferredIs (scalar : valueTypeFromNode node = .scalar) (fits : Fits env node)
    (test : AsdfValue → Bool) (blind : ∀ value checked, test (value.mark checked) = test value)
    (reached : Reached env node value) :
    (inferredIs env test value).2 = test (inferredValue env node) ∧
      Reached env node (inferredIs env test value).1 := by
  obtain ⟨checked, eq⟩ := reached_infer scalar fits reached
  simp only [inferredIs, eq, blind, decide_true, Bool.true_and, true_and]
  exact .inferred checked

theorem answers_inferredAs (scalar : valueTypeFromNode node = .scalar) (fits : Fits env node)
    (arms : AsdfValue → Result) (blind : ∀ value checked, arms (value.mark checked) = arms value)
    (reached : Reached env node value) :
    (inferredAs env arms value).2 = arms (inferredValue env node) ∧
      Reached env node (inferredAs env arms value).1 := by
  obtain ⟨checked, eq⟩ := reached_infer scalar fits reached
  simp only [inferredAs, eq, ↓reduceIte, blind, true_and]
  exact .inferred checked

theorem answers_getType (scalar : valueTypeFromNode node = .scalar) (fits : Fits env node)
    (reached : Reached env node value) :
    (valueGetType env value).2 = (inferredValue env node).type ∧
      Reached env node (valueGetType env value).1 := by
  obtain ⟨checked, eq⟩ := reached_infer scalar fits reached
  unfold valueGetType
  cases reached with
  | fresh checked' =>
    have type : ((AsdfValue.create node).mark checked').type = .scalar := scalar
    rw [if_neg (by simp [type]), eq]
    exact ⟨rfl, .inferred checked⟩
  | inferred checked' =>
    have known := (inferredValue_infers env scalar).type
    rw [if_pos]
    · exact ⟨rfl, .inferred checked'⟩
    · intro type
      have same : (inferredValue env node).type = .scalar := type
      rw [same] at known
      cases known

theorem reached_rawType (scalar : valueTypeFromNode node = .scalar)
    (reached : Reached env node value) : value.rawType = .scalar := by
  cases reached with
  | fresh checked => exact scalar
  | inferred checked => exact (inferredValue_infers env scalar).rawType.trans scalar

theorem reached_node (scalar : valueTypeFromNode node = .scalar)
    (reached : Reached env node value) : value.node = node := by
  cases reached with
  | fresh checked => rfl
  | inferred checked => exact (inferredValue_infers env scalar).node

theorem reached_type (scalar : valueTypeFromNode node = .scalar) (reached : Reached env node value) :
    value.type ≠ .mapping ∧ value.type ≠ .sequence ∧ value.type ≠ .extension := by
  cases reached with
  | fresh checked =>
    have type : ((AsdfValue.create node).mark checked).type = .scalar := scalar
    simp [type]
  | inferred checked =>
    have known := (inferredValue_infers env scalar).type
    have same : ((inferredValue env node).mark checked).type = (inferredValue env node).type := rfl
    rw [same]
    refine ⟨?_, ?_, ?_⟩ <;> intro type <;> rw [type] at known <;> cases known

theorem answers_isType (scalar : valueTypeFromNode node = .scalar) (fits : Fits env node)
    {type : ValueType} (plain : type ≠ .extension) : Answers env node (.isType type) := by
  have tests (test : AsdfValue → Bool)
      (blind : ∀ value checked, test (value.mark checked) = test value)
      (is : ∀ value, valueIsType env value type = inferredIs env test value) :
      Answers env node (.isType type) := by
    refine ⟨.bool (test (inferredValue env node)), fun value reached => ?_⟩
    obtain ⟨answer, next⟩ := answers_inferredIs scalar fits test blind reached
    simp only [ask, is, answer, true_and]
    exact next
  have raw (answer : Bool) (is : ∀ value, Reached env node value →
      valueIsType env value type = (value, answer)) : Answers env node (.isType type) := by
    refine ⟨.bool answer, fun value reached => ?_⟩
    simp only [ask, is value reached, true_and]
    exact reached
  cases type with
  | unknown => exact raw false fun _ _ => rfl
  | sequence =>
    apply raw false
    intro value reached
    simp [valueIsType, reached_rawType scalar reached]
  | mapping =>
    apply raw false
    intro value reached
    simp [valueIsType, reached_rawType scalar reached]
  | extension => exact absurd rfl plain
  | scalar => exact tests (fun _ => true) (fun _ _ => rfl) fun _ => rfl
  | string => exact tests (fun value => value.type = .string) (fun _ _ => rfl) fun _ => rfl
  | null => exact tests (fun value => value.type = .null) (fun _ _ => rfl) fun _ => rfl
  | double => exact tests (fun value => value.type = .double) (fun _ _ => rfl) fun _ => rfl
  | float => exact tests isFloatArms (fun _ _ => rfl) fun _ => rfl
  | bool => exact tests isBoolArms (fun _ _ => rfl) fun _ => rfl
  | int8 => exact tests (isIntArms · .int8) (fun _ _ => rfl) fun _ => rfl
  | int16 => exact tests (isIntArms · .int16) (fun _ _ => rfl) fun _ => rfl
  | int32 => exact tests (isIntArms · .int32) (fun _ _ => rfl) fun _ => rfl
  | int64 => exact tests (isIntArms · .int64) (fun _ _ => rfl) fun _ => rfl
  | uint8 => exact tests (isIntArms · .uint8) (fun _ _ => rfl) fun _ => rfl
  | uint16 => exact tests (isIntArms · .uint16) (fun _ _ => rfl) fun _ => rfl
  | uint32 => exact tests (isIntArms · .uint32) (fun _ _ => rfl) fun _ => rfl
  | uint64 => exact tests (isIntArms · .uint64) (fun _ _ => rfl) fun _ => rfl

theorem answers_asType (scalar : valueTypeFromNode node = .scalar) (fits : Fits env node)
    (type : ValueType) : Answers env node (.asType type) := by
  have inferred (arms : AsdfValue → Result)
      (blind : ∀ value checked, arms (value.mark checked) = arms value)
      (as : ∀ value, valueAsType env value type = inferredAs env arms value) :
      Answers env node (.asType type) := by
    refine ⟨.result (arms (inferredValue env node)), fun value reached => ?_⟩
    obtain ⟨answer, next⟩ := answers_inferredAs scalar fits arms blind reached
    simp only [ask, as, answer, true_and]
    exact next
  have raw (answer : Result) (as : ∀ value, Reached env node value →
      valueAsType env value type = (value, answer)) : Answers env node (.asType type) := by
    refine ⟨.result answer, fun value reached => ?_⟩
    simp only [ask, as value reached, true_and]
    exact reached
  cases type with
  | unknown =>
    apply raw (.ok, some (.value node))
    intro value reached
    simp [valueAsType, reached_node scalar reached]
  | sequence =>
    apply raw mismatch
    intro value reached
    simp [valueAsType, reached_rawType scalar reached]
  | mapping =>
    apply raw mismatch
    intro value reached
    simp [valueAsType, reached_rawType scalar reached]
  | scalar =>
    apply raw (.ok, some (.text node.text))
    intro value reached
    obtain ⟨mapping, sequence, -⟩ := reached_type scalar reached
    simp [valueAsType, valueAsScalar, mapping, sequence, reached_node scalar reached]
  | null =>
    refine ⟨.result (if (inferredValue env node).type = .null then (.ok, none) else mismatch),
      fun value reached => ?_⟩
    obtain ⟨answer, next⟩ := answers_inferredIs scalar fits
      (fun value => value.type = .null) (fun _ _ => rfl) reached
    simp only [ask, valueAsType, answer, decide_eq_true_eq, true_and]
    exact next
  | extension => exact raw mismatch fun _ _ => rfl
  | string => exact inferred asStringArms (fun _ _ => rfl) fun _ => rfl
  | bool => exact inferred (asBoolArms env) (fun _ _ => rfl) fun _ => rfl
  | float => exact inferred (asFloatArms env) (fun _ _ => rfl) fun _ => rfl
  | double => exact inferred (asDoubleArms env) (fun _ _ => rfl) fun _ => rfl
  | int8 => exact inferred (asIntArms · .int8) (fun _ _ => rfl) fun _ => rfl
  | int16 => exact inferred (asIntArms · .int16) (fun _ _ => rfl) fun _ => rfl
  | int32 => exact inferred (asIntArms · .int32) (fun _ _ => rfl) fun _ => rfl
  | int64 => exact inferred (asIntArms · .int64) (fun _ _ => rfl) fun _ => rfl
  | uint8 => exact inferred (asIntArms · .uint8) (fun _ _ => rfl) fun _ => rfl
  | uint16 => exact inferred (asIntArms · .uint16) (fun _ _ => rfl) fun _ => rfl
  | uint32 => exact inferred (asIntArms · .uint32) (fun _ _ => rfl) fun _ => rfl
  | uint64 => exact inferred (asIntArms · .uint64) (fun _ _ => rfl) fun _ => rfl

/-- Without a registered extension the check for one only leaves its mark. -/
theorem inferExtensionType_none (scalar : valueTypeFromNode node = .scalar)
    (unregistered : node.tag.bind env.extensionGet = none) (reached : Reached env node value) :
    (inferExtensionType env value).2 = .typeMismatch ∧
      Reached env node (inferExtensionType env value).1 := by
  have type := (reached_type scalar reached).2.2
  have unknown : value.node.tag.bind env.extensionGet = none := by
    rwa [reached_node scalar reached]
  unfold inferExtensionType
  split
  · exact ⟨rfl, reached⟩
  · simp only [unknown, true_and]
    cases reached with
    | fresh checked => exact .fresh true
    | inferred checked => exact .inferred true

theorem answers_isExtension (scalar : valueTypeFromNode node = .scalar)
    (unregistered : node.tag.bind env.extensionGet = none) (reached : Reached env node value)
    (address : Nat) : (valueIsExtensionType env value address).2 = false ∧
      Reached env node (valueIsExtensionType env value address).1 := by
  obtain ⟨err, next⟩ := inferExtensionType_none scalar unregistered reached
  simp only [valueIsExtensionType, err, reduceCtorEq, decide_false, Bool.false_and, true_and]
  exact next

theorem answers_plain (scalar : valueTypeFromNode node = .scalar) (fits : Fits env node)
    {query : Query} (plain : query.plain) : Answers env node query := by
  cases query with
  | getType =>
    refine ⟨.type (inferredValue env node).type, fun value reached => ?_⟩
    obtain ⟨answer, next⟩ := answers_getType scalar fits reached
    exact ⟨congrArg Answer.type answer, next⟩
  | isType type => exact answers_isType scalar fits plain
  | asType type => exact answers_asType scalar fits type
  | isInt =>
    refine ⟨.bool (isAnyIntArms (inferredValue env node)), fun value reached => ?_⟩
    obtain ⟨answer, next⟩ := answers_inferredIs scalar fits isAnyIntArms (fun _ _ => rfl) reached
    exact ⟨congrArg Answer.bool answer, next⟩
  | isContainer =>
    refine ⟨.bool false, fun value reached => ⟨?_, reached⟩⟩
    simp [ask, reached_rawType scalar reached]
  | isExtension address => exact plain.elim
  | asExtension address => exact plain.elim
  | property mapping name type tag => exact ⟨_, fun value reached => ⟨rfl, reached⟩⟩

theorem answers_all (scalar : valueTypeFromNode node = .scalar) (fits : Fits env node)
    (unregistered : node.tag.bind env.extensionGet = none) (query : Query) :
    Answers env node query := by
  by_cases plain : query.plain
  · exact answers_plain scalar fits plain
  cases query with
  | isType type =>
    cases Classical.not_not.mp plain
    refine ⟨.bool false, fun value reached => ?_⟩
    obtain ⟨err, next⟩ := inferExtensionType_none scalar unregistered reached
    simp only [ask, valueIsType, err, reduceCtorEq, decide_false, true_and]
    exact next
  | isExtension address =>
    refine ⟨.bool false, fun value reached => ?_⟩
    obtain ⟨answer, next⟩ := answers_isExtension scalar unregistered reached address
    exact ⟨congrArg Answer.bool answer, next⟩
  | asExtension address =>
    refine ⟨.result mismatch, fun value reached => ?_⟩
    obtain ⟨answer, next⟩ := answers_isExtension scalar unregistered reached address
    have eq : valueIsExtensionType env value address =
        ((valueIsExtensionType env value address).1, false) := by rw [← answer]
    simp only [ask, valueAsExtensionType]
    rw [eq]
    exact ⟨rfl, next⟩
  | getType | asType | isInt | isContainer | property => exact absurd trivial plain

/-- Queries that have an answer have it on every handle, in every order. -/
theorem historyFree_of_answers {kind : Query → Prop}
    (answers : ∀ query, kind query → Answers env node query) : HistoryFree env kind node := by
  have run : ∀ (queries : List Query) (value : AsdfValue), (∀ query ∈ queries, kind query) →
      Reached env node value → askAll env value queries = queries.map (askFirst env node) := by
    intro queries
    induction queries with
    | nil =>
      intro value _ _
      rfl
    | cons query rest ih =>
      intro value kinds reached
      obtain ⟨answer, same⟩ := answers query (kinds query List.mem_cons_self)
      obtain ⟨here, next⟩ := same value reached
      obtain ⟨first, -⟩ := same (AsdfValue.create node) (.fresh false)
      rw [askAll, List.map_cons, ih _ (fun q mem => kinds q (List.mem_cons_of_mem _ mem)) next,
        here, askFirst, first]
  intro queries kinds
  exact run queries _ kinds (.fresh false)

/-- A text that does not fit is no scalar at first, and one from then on. -/
theorem not_historyFree_of_misfit (scalar : valueTypeFromNode node = .scalar)
    (misfit : ¬ Fits env node) {kind : Query → Prop} (asked : kind (.isType .scalar)) :
    ¬ HistoryFree env kind node := by
  intro free
  have first : (inferScalarType env (AsdfValue.create node)).2 ≠ .ok := by
    rwa [ne_eq, inferScalarType_ok scalar]
  have second : inferScalarType env (inferredValue env node) = (inferredValue env node, .ok) :=
    inferScalarType_inferable (inferredValue_infers env scalar).type
  have twice := free [.isType .scalar, .isType .scalar] (by simp [asked])
  simp only [askAll, askFirst, ask, valueIsType, inferredIs, List.map_cons, List.map_nil] at twice
  have again : (inferScalarType env (inferScalarType env (AsdfValue.create node)).1).2 = .ok := by
    rw [← inferredValue, second]
  simp [first, again] at twice

/-- Once an extension has been asked for, its type is the answer. -/
theorem not_historyFree_of_extension (scalar : valueTypeFromNode node = .scalar)
    {ext : Extension} (registered : node.tag.bind env.extensionGet = some ext) :
    ¬ HistoryFree env (fun _ => True) node := by
  intro free
  have known := (inferredValue_infers env scalar).type
  have checked : inferExtensionType env (AsdfValue.create node) =
      ({ AsdfValue.create node with
          extensionChecked := true, type := .extension, ext := some (ext, none) }, .ok) := by
    have node_eq : (AsdfValue.create node).node = node := rfl
    simp only [inferExtensionType, node_eq, registered]
    rfl
  have open_type : (AsdfValue.create node).type = .scalar := scalar
  have both := free [.isType .extension, .getType] (fun _ _ => trivial)
  simp only [askAll, askFirst, ask, valueIsType, checked, valueGetType, open_type, List.map_cons,
    List.map_nil] at both
  simp only [ne_eq, reduceCtorEq, not_false_eq_true, not_true_eq_false, ↓reduceIte, List.cons.injEq,
    Answer.type.injEq, true_and, and_true] at both
  rw [inferredValue, ← both] at known
  cases known

end History

/-- A scalar has no history exactly if its text fits, and, where extensions are
asked for, if none is registered for its tag. -/
theorem history_free_iff (env : ScalarEnv) (tag : Option Bytes) (style : ScalarStyle) (text : Bytes) :
    (HistoryFree env Query.plain (.scalar tag style text) ↔ Fits env (.scalar tag style text)) ∧
      (HistoryFree env (fun _ => True) (.scalar tag style text) ↔
        Fits env (.scalar tag style text) ∧ tag.bind env.extensionGet = none) := by
  have scalar : valueTypeFromNode (.scalar tag style text) = .scalar := rfl
  constructor
  · constructor
    · intro free
      apply by_contra
      intro misfit
      exact not_historyFree_of_misfit scalar misfit nofun free
    · intro fits
      apply historyFree_of_answers
      intro query plain
      exact answers_plain scalar fits plain
  · constructor
    · intro free
      constructor
      · apply by_contra
        intro misfit
        exact not_historyFree_of_misfit scalar misfit trivial free
      · cases registered : tag.bind env.extensionGet with
        | none => rfl
        | some ext => exact absurd free (not_historyFree_of_extension scalar registered)
    · rintro ⟨fits, unregistered⟩
      apply historyFree_of_answers
      intro query _
      exact answers_all scalar fits unregistered query

/-- `x`, tagged as an integer, is no scalar when it is asked first, and a scalar
when it is asked again. -/
theorem misfit_remembered :
    askAll plainScalars (AsdfValue.create (.scalar (some (yamlOrgPrefix ++ [105, 110, 116])) .plain [120]))
        [.isType .scalar, .isType .scalar] = [.bool false, .bool true] ∧
      ¬ HistoryFree plainScalars Query.plain
        (.scalar (some (yamlOrgPrefix ++ [105, 110, 116])) .plain [120]) := by
  have answers : askAll plainScalars
      (AsdfValue.create (.scalar (some (yamlOrgPrefix ++ [105, 110, 116])) .plain [120]))
      [.isType .scalar, .isType .scalar] = [.bool false, .bool true] := rfl
  have first : askFirst plainScalars (.scalar (some (yamlOrgPrefix ++ [105, 110, 116])) .plain [120])
      (.isType .scalar) = .bool false := rfl
  refine ⟨answers, ?_⟩
  intro free
  have wrong := free [.isType .scalar, .isType .scalar] (by simp [Query.plain])
  rw [answers, List.map_cons, List.map_cons, first] at wrong
  cases wrong

end LibAsdf
