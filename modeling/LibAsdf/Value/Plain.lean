import LibAsdf.Value.History
import LibAsdf.Value.Build

/-!
# Plain strings

Strings that are written without quotes, and what the resolution takes them for.

* `nodeOfByteString`: `asdf_node_of_string`, also of strings with zeros in them;
* `plain_type`: what an untagged plain scalar is taken for;
* `plain_string`: the strings that are read as strings.
-/

namespace LibAsdf

/-! ## Strings with zeros -/

section Build

variable (lib : ScalarBuilder) (fl : Floats)

/-- `asdf_node_of_string`. `%.*s` ends at the first zero; a quoted text is given with
its length. -/
def nodeOfByteString (str : Bytes) : Option Node :=
  if str.length > 2147483647 then none
  else if yamlStringIsAmbiguous fl str then
    (lib.unquote (singleQuote str)).map (Node.scalar none .singleQuoted)
  else some (.scalar none (lib.style (cString str)) (cString str))

end Build

section Plain

variable {env : ScalarEnv} {lib : ScalarBuilder} {text str : Bytes} {style : ScalarStyle}

theorem cString_eq (noZero : (0 : Byte) ∉ str) : cString str = str := by
  unfold cString
  rw [List.takeWhile_eq_self_iff]
  intro chr member
  apply decide_eq_true
  rintro rfl
  exact noZero member

theorem nodeOfByteString_eq (noZero : (0 : Byte) ∉ str) :
    nodeOfByteString lib env.floats str = nodeOfString lib env.floats str := by
  unfold nodeOfByteString nodeOfString
  rw [cString_eq noZero]

/-! ## Resolution -/

/-- The floating-point recognizer fails, or takes the text for a number. -/
theorem yamlScalarIsFloat_error (fl : Floats) (text : Bytes) (allowInt : Bool) :
    (yamlScalarIsFloat fl text allowInt).1 = .ok ∨
      (yamlScalarIsFloat fl text allowInt).1 = .overflow ∨
      (yamlScalarIsFloat fl text allowInt).1 = .parseFailure := by
  unfold yamlScalarIsFloat
  split
  · exact (parseFloatDigits_err fl text).imp id .inl
  · split
    · exact .inl rfl
    · split
      · exact (parseBase60Float_err fl text).imp id .inl
      · exact .inr (.inr rfl)

theorem inferInt_type (value : AsdfValue) (text : Bytes) :
    (inferInt value text).1.type ≠ .string := by
  unfold inferInt unsignedType signedType
  repeat' split
  all_goals nofun

/-- A text that is taken for a string is not recognized as anything else. -/
theorem inferPlain_of_string {value : AsdfValue} (string : (inferPlain env value text).1.type = .string) :
    Unrecognized env.floats text := by
  unfold inferPlain at string
  dsimp only at string
  by_cases null : yamlScalarIsNull text = true
  · rw [if_pos (inferNull_ok.mpr null), inferNull, if_pos null] at string
    cases string
  rw [if_neg (by rwa [inferNull_ok])] at string
  by_cases int : (inferInt (inferNull value text).1 text).2 = .ok ∨
      (inferInt (inferNull value text).1 text).2 = .overflow
  · rw [if_pos int] at string
    exact absurd string (inferInt_type _ text)
  rw [if_neg int] at string
  by_cases bool : (yamlScalarIsBool text).isSome = true
  · rw [if_pos (inferBool_ok.mpr bool)] at string
    unfold inferBool at string
    split at string
    · cases string
    · cases string
  rw [if_neg (by rwa [inferBool_ok])] at string
  simp only [inferFloat_err] at string
  constructor
  · exact Bool.eq_false_iff.mpr null
  · rw [inferInt_ok, inferInt_overflow] at int
    cases recognized : yamlScalarIsInt text with
    | error err =>
      rcases yamlScalarIsInt_error recognized with rfl | rfl
      · rfl
      · exact absurd (.inr (.inl recognized)) int
    | ok r =>
      obtain ⟨negative, magnitude⟩ := r
      by_cases large : negative = true ∧ 9223372036854775808 < magnitude
      · obtain ⟨rfl, large⟩ := large
        exact absurd (.inr (.inr ⟨magnitude, recognized, large⟩)) int
      · exact absurd (.inl ⟨negative, magnitude, recognized, fun negative =>
          Nat.not_lt.mp fun more => large ⟨negative, more⟩⟩) int
  · rwa [Bool.not_eq_true, Option.isSome_eq_false_iff, Option.isNone_iff_eq_none] at bool
  · rcases yamlScalarIsFloat_error env.floats text false with ok | overflow | failure
    · rw [if_pos (.inl ok)] at string
      unfold inferFloat at string
      dsimp only at string
      rw [if_pos (.inl ok)] at string
      cases string
    · rw [if_pos (.inr overflow)] at string
      unfold inferFloat at string
      dsimp only at string
      rw [if_pos (.inr overflow)] at string
      cases string
    · exact failure

/-- What an untagged scalar without quotes is taken for. -/
theorem plain_type (plain : style.quoted = false) :
    (valueGetType env (AsdfValue.create (.scalar none style text))).2 = .string ↔
      Unrecognized env.floats text := by
  have fresh : inferScalarType env (AsdfValue.create (.scalar none style text)) =
      inferPlain env (AsdfValue.create (.scalar none style text)) text := by
    rw [inferScalarType_fresh rfl rfl]
    exact if_neg (Bool.eq_false_iff.mp plain)
  have type : (valueGetType env (AsdfValue.create (.scalar none style text))).2 =
      (inferPlain env (AsdfValue.create (.scalar none style text)) text).1.type := by
    rw [← fresh]
    rfl
  rw [type]
  constructor
  · exact inferPlain_of_string
  · exact fun unrecognized => (unrecognized.inferPlain _).2

/-! ## What is read -/

/-- The resolution takes a text for a string, and the scalar that is made of it. -/
def ReadsAsString (lib : ScalarBuilder) (env : ScalarEnv) (str : Bytes) : Prop :=
  (∀ style : ScalarStyle, style.quoted = false →
      (valueGetType env (AsdfValue.create (.scalar none style str))).2 = .string) ∧
    ∀ node, nodeOfByteString lib env.floats str = some node →
      (valueGetType env (AsdfValue.create node)).2 = .string

/-- A string that is not ambiguous is taken for a string, and is read as one unless it
has a zero in it and something else before that. -/
theorem plain_string (clear : yamlStringIsAmbiguous env.floats str = false)
    (plain : (lib.style (cString str)).quoted = false) : ReadsAsString lib env str ↔
      2147483647 < str.length ∨ (0 : Byte) ∉ str ∨ Unrecognized env.floats (cString str) := by
  have resolved := unrecognized_of_unambiguous clear
  have made : nodeOfByteString lib env.floats str =
      if str.length > 2147483647 then none
      else some (.scalar none (lib.style (cString str)) (cString str)) := by
    unfold nodeOfByteString
    rw [clear]
    rfl
  constructor
  · intro reads
    by_cases long : 2147483647 < str.length
    · exact .inl long
    · rw [if_neg long] at made
      exact .inr (.inr ((plain_type plain).mp (reads.2 _ made)))
  · intro kind
    refine ⟨fun style unquoted => (plain_type unquoted).mpr resolved, fun node built => ?_⟩
    rw [made] at built
    split at built
    case isTrue => cases built
    case isFalse short =>
      cases built
      apply (plain_type plain).mpr
      rcases kind with long | noZero | unrecognized
      · exact absurd long short
      · rwa [cString_eq noZero]
      · exact unrecognized

/-- `-1a`, which the recognizers of numbers look at. -/
theorem plain_string_digits : ReadsAsString plainBuilder plainScalars [45, 49, 97] := by
  have clear : yamlStringIsAmbiguous plainScalars.floats [45, 49, 97] = false := by decide
  apply (plain_string clear rfl).mpr
  right; left
  decide

/-- `1`, a zero and `x`: what is before the zero is written, and is an integer. -/
theorem zero_cuts_string : ¬ ∀ str, yamlStringIsAmbiguous plainScalars.floats str = false →
    ReadsAsString plainBuilder plainScalars str := by
  intro reads
  have clear : yamlStringIsAmbiguous plainScalars.floats [49, 0, 120] = false := by decide
  have built : nodeOfByteString plainBuilder plainScalars.floats [49, 0, 120] =
      some (.scalar none .plain [49]) := rfl
  have integer : (valueGetType plainScalars (AsdfValue.create (.scalar none .plain [49]))).2 =
      .uint8 := rfl
  cases integer.symm.trans ((reads _ clear).2 _ built)

end Plain

end LibAsdf
