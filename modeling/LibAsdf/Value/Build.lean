import LibAsdf.Value.Integers
import LibAsdf.Yaml.FloatGrammar

/-!
# Nodes for strings and integers

What the library makes of a string or an integer that it puts into a tree. A
string that would be read as something else is quoted; the quoted text is read
by the YAML library, which is a parameter.

* `yamlStringIsAmbiguous`: what is quoted;
* `nodeOfString`, `nodeOfUint`: the nodes;
* `readsString_nodeOfString`, `intScalar_nodeOfUint`: they are read as what they
  were made of.
-/

namespace LibAsdf

/-- `yYnN`, as `strchr` searches it: with the zero at its end. -/
def letterBools : Bytes := [121, 89, 110, 78, 0]

/-- `<<` and `=` -/
def specialStrs : List Bytes := [[60, 60], [61]]

/-- What an integer, a float or a timestamp starts with. -/
def startsNumber (chr : Byte) : Bool := isDigit chr || chr == minus || chr == plus || chr == dot

/-- `0o[0-7]+`, behind a sign. -/
def isOctal12 (text : Bytes) : Bool :=
  match text with
  | zero :: o :: digits =>
    zero == zeroDigit && o == 111 && digits ≠ [] && spanDigits digits .oct = digits.length
  | _ => false

/-- `asdf_yaml_string_is_ambiguous`. -/
def yamlStringIsAmbiguous (fl : Floats) (str : Bytes) : Bool :=
  if yamlScalarIsNull str || (str.length > 1 && (yamlScalarIsBool str).isSome) then true
  else if specialStrs.contains str then true
  else if str.length = 1 && str.all letterBools.contains then true
  else
    match str with
    | [] => false
    | first :: _ =>
      if startsNumber first = false then false
      else if yamlScalarIsInt str ≠ .error .parseFailure then true
      else if (yamlScalarIsFloat fl str true).1 ≠ .parseFailure then true
      else if isOctal12 (skipSign str) then true
      -- A timestamp starts with a year of four digits.
      else str.length > 4 && spanDigits (str.take 4) .dec = 4 && str[4]? = some minus

/-- The text of a single-quoted scalar. -/
def singleQuote (str : Bytes) : Bytes :=
  39 :: (str.flatMap fun chr => if chr = 39 then [39, 39] else [chr]) ++ [39]

/-- What the YAML library does with the texts that it is given. -/
structure ScalarBuilder where
  /-- The style of a scalar created from a text by `fy_node_create_scalarf`. -/
  style : Bytes → ScalarStyle
  /-- The text that `fy_node_build_from_malloc_string` reads from a
  single-quoted scalar, if it accepts it. -/
  unquote : Bytes → Option Bytes
  /-- Digits need no quotes. -/
  style_digits : ∀ n, (style (decimalDigits n)).quoted = false
  /-- A text on one line is read as it is. -/
  unquote_line : ∀ str, (∀ chr ∈ str, 32 ≤ chr ∧ chr < 127) → unquote (singleQuote str) = some str

/-- The text up to the closing quote, with its lines as they are. -/
def unquoteLine : Bytes → Option Bytes
  | [] => none
  | [chr] => if chr = 39 then some [] else none
  | chr :: next :: rest =>
    if chr = 39 then if next = 39 then (unquoteLine rest).map (39 :: ·) else none
    else (unquoteLine (next :: rest)).map (chr :: ·)

theorem unquoteLine_quoted (str : Bytes) :
    unquoteLine ((str.flatMap fun chr => if chr = 39 then [39, 39] else [chr]) ++ [39]) = some str := by
  induction str with
  | nil => rfl
  | cons chr rest ih =>
    rw [List.flatMap_cons]
    by_cases quote : chr = 39
    · subst quote
      simp only [↓reduceIte, List.cons_append, List.nil_append, unquoteLine]
      rw [ih]
      rfl
    · rw [if_neg quote, List.append_assoc, List.singleton_append]
      obtain ⟨next, tail, eq⟩ : ∃ next tail,
          (rest.flatMap fun chr => if chr = 39 then [39, 39] else [chr]) ++ [39] = next :: tail :=
        List.exists_cons_of_ne_nil (by simp)
      rw [eq] at ih ⊢
      rw [unquoteLine, if_neg quote, ih]
      rfl

/-- A library that creates plain scalars and reads quoted ones as they are. -/
def plainBuilder : ScalarBuilder where
  style _ := .plain
  unquote quoted := unquoteLine (quoted.drop 1)
  style_digits _ := rfl
  unquote_line str _ := unquoteLine_quoted str

section Build

variable (lib : ScalarBuilder) (fl : Floats)

/-- `asdf_node_of_string0`: `asdf_node_of_string` of a string without zeros. -/
def nodeOfString (str : Bytes) : Option Node :=
  if str.length > 2147483647 then none
  else if yamlStringIsAmbiguous fl str then
    (lib.unquote (singleQuote str)).map (Node.scalar none .singleQuoted)
  else some (.scalar none (lib.style str) str)

/-- `asdf_node_of_uint64` and its siblings. -/
def nodeOfUint (v : Nat) : Node := .scalar none (lib.style (decimalDigits v)) (decimalDigits v)

end Build

/-! ## What is read back -/

theorem skipSign_of_not_sign {text : Bytes} (unsigned : hasSign text = false) : skipSign text = text := by
  unfold skipSign
  rw [if_neg]
  simp [unsigned]

section NotNumber

variable {first : Byte} {rest : Bytes} (other : startsNumber first = false)

include other

theorem not_digit_of_not_startsNumber : isDigit first = false := by
  simp only [startsNumber, Bool.or_eq_false_iff] at other
  exact other.1.1.1

theorem not_sign_of_not_startsNumber : hasSign (first :: rest) = false := by
  simp only [startsNumber, Bool.or_eq_false_iff] at other
  simp [hasSign, other.1.1.2, other.1.2]

theorem not_dot_of_not_startsNumber : first ≠ dot := by
  simp only [startsNumber, Bool.or_eq_false_iff] at other
  simpa using other.2

theorem not_int_of_not_startsNumber : yamlScalarIsInt (first :: rest) = .error .parseFailure := by
  have digit := not_digit_of_not_startsNumber other
  unfold yamlScalarIsInt
  rw [skipSign_of_not_sign (not_sign_of_not_startsNumber other)]
  simp only [parseMagnitude, digit, ↓reduceIte]
  rfl

theorem not_decimal_of_not_startsNumber (allowInt : Bool) :
    isDecimalFloat (first :: rest) allowInt = false := by
  have digit := not_digit_of_not_startsNumber other
  have notDot := not_dot_of_not_startsNumber other
  unfold isDecimalFloat
  rw [skipSign_of_not_sign (not_sign_of_not_startsNumber other)]
  simp [spanDecimalInt, digit, notDot]

theorem not_float_of_not_startsNumber (fl : Floats) (allowInt : Bool) :
    (yamlScalarIsFloat fl (first :: rest) allowInt).1 = .parseFailure := by
  have digit := not_digit_of_not_startsNumber other
  have notDot := not_dot_of_not_startsNumber other
  have unsigned : hasSign (first :: rest) = false := not_sign_of_not_startsNumber other
  have special : yamlSpecialFloat fl (first :: rest) = none := by
    have inf : first :: rest ∉ infStrs := by
      simp only [infStrs, List.mem_cons, List.cons.injEq]
      simp_all [dot]
    have nan : first :: rest ∉ nanStrs := by
      simp only [nanStrs, List.mem_cons, List.cons.injEq]
      simp_all [dot]
    simp [yamlSpecialFloat, unsigned, inf, nan]
  have base60 : isBase60Float (first :: rest) = false := by
    unfold isBase60Float
    rw [skipSign_of_not_sign unsigned]
    simp [spanDecimalInt, digit]
  unfold yamlScalarIsFloat
  rw [not_decimal_of_not_startsNumber other, special, base60]
  rfl

end NotNumber

theorem isDecimalFloat_allowInt {text : Bytes} (decimal : isDecimalFloat text false = true) :
    isDecimalFloat text true = true := by
  unfold isDecimalFloat at decimal ⊢
  simp only at decimal ⊢
  split at decimal
  · rw [if_pos ‹_›]
    exact decimal
  · rw [if_neg ‹_›]
    split at decimal
    · cases decimal
    · rw [if_neg ‹_›]
      simp only [Bool.or_false, Bool.and_eq_true, Bool.or_true, and_true] at decimal ⊢
      exact decimal.1

/-- Not a float where integers count as floats, not one where they do not. -/
theorem not_float_of_allowInt {fl : Floats} {text : Bytes}
    (no : (yamlScalarIsFloat fl text true).1 = .parseFailure) :
    (yamlScalarIsFloat fl text false).1 = .parseFailure := by
  have decimal : isDecimalFloat text true = false := by
    apply Bool.eq_false_iff.mpr
    intro decimal
    unfold yamlScalarIsFloat at no
    rw [if_pos decimal] at no
    exact not_parseFailure (parseFloatDigits_err fl text) no
  have decimal' : isDecimalFloat text false = false := by
    apply Bool.eq_false_iff.mpr
    intro decimal'
    rw [isDecimalFloat_allowInt decimal'] at decimal
    cases decimal
  unfold yamlScalarIsFloat at no ⊢
  rw [decimal] at no
  rw [decimal']
  exact no

theorem int_of_short_bool {str : Bytes} (short : str.length ≤ 1)
    (bool : (yamlScalarIsBool str).isSome = true) :
    str = [zeroDigit] ∨ str = [zeroDigit + 1] := by
  unfold yamlScalarIsBool at bool
  split at bool
  · exact .inl ‹_›
  split at bool
  · exact .inr ‹_›
  split at bool
  · rename_i yes
    simp only [yamlTrueStrs, List.contains_iff_mem, List.mem_cons, List.not_mem_nil, or_false] at yes
    rcases yes with rfl | rfl | rfl | rfl | rfl | rfl | rfl | rfl | rfl <;> simp at short
  split at bool
  · rename_i no
    simp only [yamlFalseStrs, List.contains_iff_mem, List.mem_cons, List.not_mem_nil, or_false] at no
    rcases no with rfl | rfl | rfl | rfl | rfl | rfl | rfl | rfl | rfl <;> simp at short
  · cases bool

/-- The recognizers find nothing in a text that is not ambiguous. -/
structure Unrecognized (fl : Floats) (str : Bytes) : Prop where
  null : yamlScalarIsNull str = false
  int : yamlScalarIsInt str = .error .parseFailure
  bool : yamlScalarIsBool str = none
  float : (yamlScalarIsFloat fl str false).1 = .parseFailure

theorem unrecognized_of_unambiguous {fl : Floats} {str : Bytes}
    (clear : yamlStringIsAmbiguous fl str = false) : Unrecognized fl str := by
  unfold yamlStringIsAmbiguous at clear
  split at clear
  · cases clear
  rename_i words
  simp only [Bool.or_eq_true, Bool.and_eq_true, decide_eq_true_eq, not_or, not_and,
    Bool.not_eq_true, Option.isSome_eq_false_iff, Option.isNone_iff_eq_none] at words
  obtain ⟨null, bool⟩ := words
  split at clear
  · cases clear
  split at clear
  · cases clear
  cases str with
  | nil => simp [yamlScalarIsNull] at null
  | cons first rest =>
    simp only at clear
    have numbers : yamlScalarIsInt (first :: rest) = .error .parseFailure ∧
        (yamlScalarIsFloat fl (first :: rest) false).1 = .parseFailure := by
      split at clear
      · rename_i other
        exact ⟨not_int_of_not_startsNumber other, not_float_of_not_startsNumber other fl false⟩
      split at clear
      · cases clear
      rename_i int
      split at clear
      · cases clear
      rename_i float
      exact ⟨Classical.not_not.mp int, not_float_of_allowInt (Classical.not_not.mp float)⟩
    constructor
    · exact null
    · exact numbers.1
    · by_cases short : (first :: rest).length > 1
      · exact bool short
      · cases isBool : yamlScalarIsBool (first :: rest) with
        | none => rfl
        | some b =>
          have digit := int_of_short_bool (Nat.le_of_not_lt short) (by rw [isBool]; rfl)
          have int := numbers.1
          rcases digit with eq | eq <;>
          · rw [eq] at int
            exact absurd int (by decide)
    · exact numbers.2

/-- Inference takes an unquoted text for a string if no recognizer takes it. -/
theorem Unrecognized.inferPlain {env : ScalarEnv} {str : Bytes} (none : Unrecognized env.floats str)
    (value : AsdfValue) :
    (LibAsdf.inferPlain env value str).2 = .ok ∧ (LibAsdf.inferPlain env value str).1.type = .string := by
  have null (value : AsdfValue) : (inferNull value str).2 = .parseFailure := by
    simp [inferNull, none.null]
  have int (value : AsdfValue) : (inferInt value str).2 = .parseFailure := by
    simp [inferInt, none.int]
  have bool (value : AsdfValue) : (inferBool env value str).2 = .parseFailure := by
    simp [inferBool, none.bool]
  have float (value : AsdfValue) : (inferFloat env value str false).2 = .parseFailure := by
    simp [inferFloat, none.float]
  simp [LibAsdf.inferPlain, null, int, bool, float]

/-! ## Fresh handles -/

/-- A string as C sees it. -/
def cString (text : Bytes) : Bytes := text.takeWhile fun chr => chr ≠ 0

/-- `asdf_value_as_string0` on a fresh handle. -/
def asString0 (env : ScalarEnv) (node : Node) : Except ValueErr Bytes :=
  match (valueAsType env (AsdfValue.create node) .string).2 with
  | (.ok, some (.text text)) => .ok (cString text)
  | (err, _) => .error err

/-- `asdf_value_is_uint64` on a fresh handle. -/
def isUint64 (env : ScalarEnv) (node : Node) : Bool :=
  (valueIsInt env .uint64 (AsdfValue.create node)).2

/-- `asdf_value_as_uint64` on a fresh handle. -/
def asUint64 (env : ScalarEnv) (node : Node) : Except ValueErr UInt64 :=
  match (valueAsInt env .uint64 (AsdfValue.create node)).2 with
  | (.ok, some (.int v)) => .ok (UInt64.ofNat v.toNat)
  | (err, _) => .error err

/-- A scalar that inference takes for a string. -/
structure ReadsString (env : ScalarEnv) (node : Node) (inferred : AsdfValue) : Prop where
  scalar : valueTypeFromNode node = .scalar
  infer : inferScalarType env (AsdfValue.create node) = (inferred, .ok)
  type : inferred.type = .string
  node : inferred.node = node

section ReadBack

variable {env : ScalarEnv} {lib : ScalarBuilder}

theorem readsString_of_infers {node : Node} (scalar : valueTypeFromNode node = .scalar)
    (ok : (inferScalarType env (AsdfValue.create node)).2 = .ok)
    (type : (inferScalarType env (AsdfValue.create node)).1.type = .string) :
    ∃ inferred, ReadsString env node inferred := by
  have infers : Infers (AsdfValue.create node) (inferScalarType env (AsdfValue.create node)).1 :=
    inferScalarType_infers scalar rfl
  refine ⟨(inferScalarType env (AsdfValue.create node)).1, scalar, ?_, type, infers.node⟩
  rw [← ok]

/-- A string that was put into the tree is a string. -/
theorem readsString_nodeOfString {str : Bytes} {node : Node}
    (built : nodeOfString lib env.floats str = some node) : ∃ inferred, ReadsString env node inferred := by
  have quoted {style : ScalarStyle} {text : Bytes} (h : style.quoted = true) :
      ∃ inferred, ReadsString env (.scalar none style text) inferred := by
    have fresh : inferScalarType env (AsdfValue.create (.scalar none style text)) =
        ({ AsdfValue.create (.scalar none style text) with type := .string, err := .ok }, .ok) := by
      rw [inferScalarType_fresh rfl rfl]
      exact if_pos h
    exact readsString_of_infers rfl (by rw [fresh]) (by rw [fresh])
  unfold nodeOfString at built
  split at built
  · cases built
  split at built
  · obtain ⟨text, -, rfl⟩ := Option.map_eq_some_iff.mp built
    exact quoted rfl
  · rename_i clear
    cases built
    by_cases h : (lib.style str).quoted = true
    · exact quoted h
    have plain := (unrecognized_of_unambiguous (Bool.eq_false_iff.mpr clear)).inferPlain
      (AsdfValue.create (.scalar none (lib.style str) str))
    have fresh : inferScalarType env (AsdfValue.create (.scalar none (lib.style str) str)) =
        inferPlain env (AsdfValue.create (.scalar none (lib.style str) str)) str := by
      rw [inferScalarType_fresh rfl rfl]
      exact if_neg h
    exact readsString_of_infers rfl (by rw [fresh]; exact plain.1) (by rw [fresh]; exact plain.2)

variable {node : Node} {inferred : AsdfValue}

theorem ReadsString.valueAsType (h : ReadsString env node inferred) :
    LibAsdf.valueAsType env (AsdfValue.create node) .string =
      (inferred, .ok, some (.text node.text)) := by
  change inferredAs env asStringArms (AsdfValue.create node) = _
  rw [inferredAs_eq h.infer, asStringArms, if_neg (by simp [h.type]), h.node]

theorem ReadsString.asString0 (h : ReadsString env node inferred) :
    LibAsdf.asString0 env node = .ok (cString node.text) := by
  unfold LibAsdf.asString0
  rw [h.valueAsType]

theorem ReadsString.not_uint64 (h : ReadsString env node inferred) : isUint64 env node = false := by
  have is : valueIsInt env .uint64 (AsdfValue.create node) = (inferred, isIntArms inferred .uint64) :=
    inferredIs_eq h.infer _
  unfold isUint64
  rw [is]
  simp [isIntArms, isUint64Arms, h.type]

/-- The lookup of a string property. -/
theorem ReadsString.property (h : ReadsString env node inferred) {mapping : Node} {name : Bytes}
    (found : mapping.lookup name = some node) :
    getPropertyImpl env mapping name .string none = (.ok, some (.text node.text)) := by
  have getType : valueGetType env (AsdfValue.create node) = (inferred, .string) := by
    have type : (AsdfValue.create node).type = .scalar := h.scalar
    unfold valueGetType
    rw [if_neg (by simp [type]), h.infer, ← h.type]
  have again : inferScalarType env inferred = (inferred, .ok) :=
    inferScalarType_inferable (by rw [h.type]; rfl)
  have as : LibAsdf.valueAsType env inferred .string = (inferred, .ok, some (.text node.text)) := by
    change inferredAs env asStringArms inferred = _
    rw [inferredAs_eq again, asStringArms, if_neg (by simp [h.type]), h.node]
  unfold getPropertyImpl
  rw [found]
  simp only [getType]
  rw [if_pos (by simp), if_neg (by decide), as]

theorem decimalText_ofNat (v : Nat) : decimalText v = decimalDigits v := by
  unfold decimalText
  rw [if_neg (by omega), Int.natAbs_natCast]

/-- An integer that was put into the tree is an integer. -/
theorem intScalar_nodeOfUint {v : Nat} (small : v ≤ uint64Max) :
    IntScalar (nodeOfUint lib v) false v where
  scalar := rfl
  plain := lib.style_digits v
  tag := nofun
  read := by
    have read : yamlScalarIsInt (decimalText v) = .ok (decide ((v : Int) < 0), (v : Int).natAbs) :=
      yamlScalarIsInt_decimalText (by simpa using small)
    have positive : ¬ (v : Int) < 0 := by omega
    rw [decimalText_ofNat, decide_eq_false positive, Int.natAbs_natCast] at read
    exact read
  fits := nofun

theorem uint64_nodeOfUint (env : ScalarEnv) (lib : ScalarBuilder) (v : UInt64) :
    isUint64 env (nodeOfUint lib v.toNat) = true ∧ asUint64 env (nodeOfUint lib v.toNat) = .ok v := by
  have lt := v.toNat_lt
  have small : v.toNat ≤ uint64Max := by
    have limit : uint64Max = 18446744073709551615 := rfl
    omega
  obtain ⟨inferred, infer, -, holds⟩ := inferScalarType_create env (@intScalar_nodeOfUint lib _ small)
  have range : CIntType.uint64.InRange (signedValue false v.toNat) := by
    rw [inRange_iff]
    simp only [signedValue, Bool.false_eq_true, ↓reduceIte]
    omega
  have test : isIntArms inferred .uint64 = true := by
    apply ((isIntArms_iff holds .uint64).mpr _).mpr range
    rw [testAgrees_iff]
    refine ⟨?_, ?_, ?_⟩
    · rintro _ ⟨⟩
    · rintro ⟨⟩
    · rintro ⟨⟩
  have is : valueIsInt env .uint64 (AsdfValue.create (nodeOfUint lib v.toNat)) =
      (inferred, isIntArms inferred .uint64) := inferredIs_eq infer _
  have as : valueAsInt env .uint64 (AsdfValue.create (nodeOfUint lib v.toNat)) =
      (inferred, asIntArms inferred .uint64) := inferredAs_eq infer _
  constructor
  · unfold isUint64
    rw [is]
    exact test
  · unfold asUint64
    rw [as, (asIntArms_eq holds .uint64).1 range]
    simp [signedValue]

end ReadBack

end LibAsdf
