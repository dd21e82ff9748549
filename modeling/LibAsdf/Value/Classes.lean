import LibAsdf.Value.Plain

/-!
# Classes of scalars

The classes that the resolution tries one after the other, and that the order
in which it does that matters for two texts only.

* `ScalarClass`, `inferInOrder`: the resolution in some order;
* `ScalarClass.unique`: no other text is in two classes;
* `scalar_classes`: the floats, the classes and the order.
-/

namespace LibAsdf

open RegularExpression

/-- What the resolution of plain scalars tries. -/
inductive ScalarClass where
  | null
  | int
  | bool
  | float
  deriving DecidableEq, Repr

namespace ScalarClass

/-- The recognizer of a class takes a text. -/
def Accepts (fl : Floats) (text : Bytes) : ScalarClass → Prop
  | null => yamlScalarIsNull text = true
  | int => yamlScalarIsInt text ≠ .error .parseFailure
  | bool => (yamlScalarIsBool text).isSome = true
  | float => (yamlScalarIsFloat fl text false).1 ≠ .parseFailure

def infer (env : ScalarEnv) (text : Bytes) (value : AsdfValue) : ScalarClass → AsdfValue × ValueErr
  | null => inferNull value text
  | int => inferInt value text
  | bool => inferBool env value text
  | float => inferFloat env value text false

/-- The order of `asdf_value_infer_scalar_type`. -/
def order : List ScalarClass := [null, int, bool, float]

end ScalarClass

/-- The heuristics for a plain scalar, with the classes in any order. -/
def inferInOrder (env : ScalarEnv) (text : Bytes) :
    List ScalarClass → AsdfValue → AsdfValue × ValueErr
  | [], value => ({ value with type := .string, err := .ok }, .ok)
  | cls :: order, value =>
    let inferred := cls.infer env text value
    if inferred.2 = .ok ∨ inferred.2 = .overflow then inferred
    else inferInOrder env text order inferred.1

/-! ## Words of the classes -/

section Words

variable {text : Bytes} {n : Nat}

theorem digit_not_dot {base : Radix} {b : Byte} (h : DigitOrSeparator base b) : b ≠ dot := by
  rintro rfl
  rcases h with h | h
  · cases h
  · cases base <;> cases h

theorem digit_not_mark {base : Radix} (decimal : base ≠ .hex) {b : Byte}
    (h : DigitOrSeparator base b) : b ≠ 101 ∧ b ≠ 69 := by
  constructor
  · rintro rfl
    cases base with
    | hex => exact decimal rfl
    | bin | oct | dec => rcases h with h | h <;> cases h
  · rintro rfl
    cases base with
    | hex => exact decimal rfl
    | bin | oct | dec => rcases h with h | h <;> cases h

theorem sexagesimal_chars {m : Nat} (h : Sexagesimal text m n) :
    ∀ b ∈ text, b = colon ∨ isDigit b = true := by
  induction h with
  | nil => exact fun _ member => absurd member List.not_mem_nil
  | one digit more ih =>
    rintro b (_ | ⟨_, _ | ⟨_, member⟩⟩)
    · exact .inl rfl
    · exact .inr digit
    · exact ih b member
  | two low digit more ih =>
    rintro b (_ | ⟨_, _ | ⟨_, _ | ⟨_, member⟩⟩⟩)
    · exact .inl rfl
    · rw [isDigit_iff]
      omega
    · exact .inr digit
    · exact ih b member

/-- An integer has no point, and no `e` unless it is hexadecimal. -/
theorem unsigned_chars (h : Unsigned text n) : (∀ b ∈ text, b ≠ dot) ∧
    ((∃ digits, text = zeroDigit :: 120 :: digits) ∨ ∀ b ∈ text, b ≠ 101 ∧ b ≠ 69) := by
  have chars {b : Byte} (h : DigitOrSeparator .dec b) : b ≠ dot ∧ b ≠ 101 ∧ b ≠ 69 :=
    ⟨digit_not_dot h, digit_not_mark (by decide) h⟩
  have zero : zeroDigit ≠ dot ∧ zeroDigit ≠ 101 ∧ zeroDigit ≠ 69 := chars (.inr rfl)
  cases h with
  | zero =>
    refine ⟨?_, .inr ?_⟩
    · exact List.forall_mem_singleton.mpr zero.1
    · exact List.forall_mem_singleton.mpr zero.2
  | decimal leading =>
    exact ⟨fun b hb => (chars (leading.digits b hb)).1,
      .inr fun b hb => (chars (leading.digits b hb)).2⟩
  | sexagesimal leading nonempty more =>
    rename_i lead components
    have all : ∀ b ∈ lead ++ components, b ≠ dot ∧ b ≠ 101 ∧ b ≠ 69 := by
      intro b hb
      rcases List.mem_append.mp hb with hb | hb
      · exact chars (leading.digits b hb)
      · rcases sexagesimal_chars more b hb with rfl | digit
        · exact ⟨by decide, by decide, by decide⟩
        · exact chars (.inr digit)
    exact ⟨fun b hb => (all b hb).1, .inr fun b hb => (all b hb).2⟩
  | octal nonempty all =>
    constructor
    · exact List.forall_mem_cons.mpr ⟨zero.1, fun b hb => digit_not_dot (all b hb)⟩
    · exact .inr (List.forall_mem_cons.mpr ⟨zero.2, fun b hb => digit_not_mark (by decide) (all b hb)⟩)
  | binary all digit =>
    constructor
    · refine List.forall_mem_cons.mpr ⟨zero.1, List.forall_mem_cons.mpr ⟨by decide, ?_⟩⟩
      exact fun b hb => digit_not_dot (all b hb)
    · refine .inr (List.forall_mem_cons.mpr ⟨zero.2, List.forall_mem_cons.mpr ⟨by decide, ?_⟩⟩)
      exact fun b hb => digit_not_mark (by decide) (all b hb)
  | hexadecimal all digit =>
    constructor
    · refine List.forall_mem_cons.mpr ⟨zero.1, List.forall_mem_cons.mpr ⟨by decide, ?_⟩⟩
      exact fun b hb => digit_not_dot (all b hb)
    · exact .inl ⟨_, rfl⟩

/-- An exponent is not a part of a hexadecimal number. -/
theorem not_hexadecimal_exponent {int exp digits : Bytes} (ints : DecimalText int)
    (exps : ExponentText exp) : int ++ exp ≠ zeroDigit :: 120 :: digits := by
  intro eq
  obtain ⟨b, rest, rfl, -⟩ := ints.first
  obtain ⟨mark, sign, tail, marks, -, -, -⟩ := exps
  rw [List.cons_append, List.cons_eq_cons] at eq
  cases rest with
  | nil =>
    have second := (List.cons_eq_cons.mp eq.2).1
    rcases marks with rfl | rfl <;> cases second
  | cons c rest =>
    have second := (List.cons_eq_cons.mp eq.2).1
    have digit := ints.digits c (by simp)
    rw [second] at digit
    rcases digit with h | h <;> cases h

theorem not_float_of_unsigned (h : Unsigned text n) :
    ¬ DecimalFloatText text ∧ ¬ Base60Text text ∧ text ∉ infStrs ∧ text ∉ nanStrs := by
  obtain ⟨noDot, noMark⟩ := unsigned_chars h
  refine ⟨fun decimal => ?_, fun base60 => ?_, fun inf => ?_, fun nan => ?_⟩
  · cases decimal with
    | point ints fracs exps => exact noDot dot (by simp) rfl
    | bare fracs exps => exact noDot dot List.mem_cons_self rfl
    | exponent ints exps =>
      rcases noMark with ⟨digits, hexadecimal⟩ | noMark
      · exact not_hexadecimal_exponent ints exps hexadecimal
      · obtain ⟨mark, sign, tail, marks, -, -, -⟩ := exps
        obtain ⟨noSmall, noLarge⟩ := noMark mark (by simp)
        rcases marks with rfl | rfl
        · exact noSmall rfl
        · exact noLarge rfl
  · obtain ⟨ints, some, more, fracs⟩ := base60
    exact noDot dot (by simp) rfl
  · simp only [infStrs, List.mem_cons, List.not_mem_nil, or_false] at inf
    rcases inf with rfl | rfl | rfl <;> exact noDot dot List.mem_cons_self rfl
  · simp only [nanStrs, List.mem_cons, List.not_mem_nil, or_false] at nan
    rcases nan with rfl | rfl | rfl <;> exact noDot dot List.mem_cons_self rfl

end Words

/-- What follows the sign of an integer. -/
theorem unsigned_skipSign {text : Bytes} {negative : Bool} {n : Nat} (h : IntText text negative n) :
    Unsigned (skipSign text) n := by
  cases h with
  | bare h =>
    rw [skipSign_of_not_sign (skipSign_unsigned h).1]
    exact h
  | plus h => exact h
  | minus h => exact h

/-! ## One class -/

namespace ScalarClass

section Accepts

variable {fl : Floats} {text : Bytes} {a b : ScalarClass}

/-- The words of null and bool do not begin like a number. -/
theorem word_startsNumber : ∀ w ∈ [] :: (yamlNullStrs ++ yamlTrueStrs ++ yamlFalseStrs),
    w.head?.any startsNumber = false := by
  decide

theorem not_number_of_word (word : text.head?.any startsNumber = false) :
    ¬ int.Accepts fl text ∧ ¬ float.Accepts fl text := by
  cases text with
  | nil => exact ⟨fun h => h rfl, fun h => h rfl⟩
  | cons first rest =>
    have other : startsNumber first = false := word
    exact ⟨fun h => h (not_int_of_not_startsNumber other),
      fun h => h (not_float_of_not_startsNumber other fl false)⟩

theorem word_of_null (h : null.Accepts fl text) : text ∈ [] :: yamlNullStrs := by
  rcases Bool.or_eq_true_iff.mp h with empty | spelled
  · rw [List.isEmpty_iff.mp empty]
    exact List.mem_cons_self
  · exact List.mem_cons_of_mem _ (List.contains_iff_mem.mp spelled)

theorem word_of_bool (h : bool.Accepts fl text) :
    (text = [zeroDigit] ∨ text = [zeroDigit + 1]) ∨ text ∈ yamlTrueStrs ++ yamlFalseStrs := by
  have h : (yamlScalarIsBool text).isSome = true := h
  unfold yamlScalarIsBool at h
  split at h
  · exact .inl (.inl ‹_›)
  split at h
  · exact .inl (.inr ‹_›)
  split at h
  · exact .inr (List.mem_append_left _ (List.contains_iff_mem.mp ‹_›))
  split at h
  · exact .inr (List.mem_append_right _ (List.contains_iff_mem.mp ‹_›))
  · cases h

theorem not_number_of_null (h : null.Accepts fl text) :
    ¬ int.Accepts fl text ∧ ¬ float.Accepts fl text := by
  refine not_number_of_word (word_startsNumber text ?_)
  rcases List.mem_cons.mp (word_of_null h) with rfl | spelled
  · exact List.mem_cons_self
  · exact List.mem_cons_of_mem _ (List.mem_append_left _ (List.mem_append_left _ spelled))

theorem not_number_of_bool (h : text ∈ yamlTrueStrs ++ yamlFalseStrs) :
    ¬ int.Accepts fl text ∧ ¬ float.Accepts fl text := by
  refine not_number_of_word (word_startsNumber text (List.mem_cons_of_mem _ ?_))
  rw [List.append_assoc]
  exact List.mem_append_right _ h

theorem not_bool_of_null (h : null.Accepts fl text) : ¬ bool.Accepts fl text := by
  have noBool : ∀ w ∈ [] :: yamlNullStrs, (yamlScalarIsBool w).isSome ≠ true := by decide
  exact noBool text (word_of_null h)

theorem not_float_of_int (h : int.Accepts fl text) : ¬ float.Accepts fl text := by
  obtain ⟨negative, n, written⟩ := intText_of_yamlScalarIsInt h
  obtain ⟨noDecimal, noBase60, noInf, noNan⟩ := not_float_of_unsigned (unsigned_skipSign written)
  intro accepted
  have pattern := (yamlScalarIsFloat_iff fl text).mp accepted
  rw [floatExpression, mem_add, mem_add, mem_add, mem_decimalFloatExpression,
    mem_base60FloatExpression, mem_infExpression, nanExpression, mem_sum_word] at pattern
  rcases pattern with ((decimal | base60) | inf) | nan
  · exact noDecimal decimal
  · exact noBase60 base60
  · exact noInf inf
  · have unsigned : hasSign text = false := by
      simp only [nanStrs, List.mem_cons, List.not_mem_nil, or_false] at nan
      rcases nan with rfl | rfl | rfl <;> rfl
    rw [skipSign_of_not_sign unsigned] at noNan
    exact noNan nan

theorem int_of_digit (digit : text = [zeroDigit] ∨ text = [zeroDigit + 1]) : int.Accepts fl text := by
  rcases digit with rfl | rfl
  · exact (by decide : yamlScalarIsInt [zeroDigit] ≠ .error .parseFailure)
  · exact (by decide : yamlScalarIsInt [zeroDigit + 1] ≠ .error .parseFailure)

theorem not_float_of_bool (h : bool.Accepts fl text) : ¬ float.Accepts fl text := by
  rcases word_of_bool h with digit | word
  · exact not_float_of_int (int_of_digit digit)
  · exact (not_number_of_bool word).2

theorem digit_of_int_bool (h : int.Accepts fl text) (h' : bool.Accepts fl text) :
    text = [zeroDigit] ∨ text = [zeroDigit + 1] :=
  (word_of_bool h').resolve_right fun word => (not_number_of_bool word).1 h

/-- The text is a digit that is an integer and a boolean. -/
def Shared (text : Bytes) (a b : ScalarClass) : Prop :=
  (text = [zeroDigit] ∨ text = [zeroDigit + 1]) ∧ (a = int ∧ b = bool ∨ a = bool ∧ b = int)

theorem unique (other : a ≠ b) (ha : a.Accepts fl text) (hb : b.Accepts fl text) :
    Shared text a b := by
  cases a with
  | null =>
    cases b with
    | null => exact absurd rfl other
    | int => exact absurd hb (not_number_of_null ha).1
    | bool => exact absurd hb (not_bool_of_null ha)
    | float => exact absurd hb (not_number_of_null ha).2
  | int =>
    cases b with
    | null => exact absurd ha (not_number_of_null hb).1
    | int => exact absurd rfl other
    | bool => exact ⟨digit_of_int_bool ha hb, .inl ⟨rfl, rfl⟩⟩
    | float => exact absurd hb (not_float_of_int ha)
  | bool =>
    cases b with
    | null => exact absurd ha (not_bool_of_null hb)
    | int => exact ⟨digit_of_int_bool hb ha, .inr ⟨rfl, rfl⟩⟩
    | bool => exact absurd rfl other
    | float => exact absurd hb (not_float_of_bool ha)
  | float =>
    cases b with
    | null => exact absurd ha (not_number_of_null hb).2
    | int => exact absurd ha (not_float_of_int hb)
    | bool => exact absurd ha (not_float_of_bool hb)
    | float => exact absurd rfl other

theorem accepts_of_shared (shared : Shared text a b) : a.Accepts fl text ∧ b.Accepts fl text := by
  obtain ⟨digit, kinds⟩ := shared
  have truth : bool.Accepts fl text := by
    rcases digit with rfl | rfl <;> rfl
  rcases kinds with ⟨rfl, rfl⟩ | ⟨rfl, rfl⟩
  · exact ⟨int_of_digit digit, truth⟩
  · exact ⟨truth, int_of_digit digit⟩

end Accepts

/-! ## Any order -/

section Order

variable {env : ScalarEnv} {text : Bytes} {cls : ScalarClass}

/-- What inference leaves in a handle does not depend on the failures before. -/
theorem infer_after (value : AsdfValue) (type : ValueType) (err : ValueErr) :
    cls.infer env text { value with type := type, err := err } = cls.infer env text value := by
  cases cls with
  | null => rfl
  | int => simp only [infer, inferInt]
  | bool => rfl
  | float => rfl

theorem infer_accepts (h : cls.Accepts env.floats text) (value : AsdfValue) :
    (cls.infer env text value).2 = .ok ∨ (cls.infer env text value).2 = .overflow := by
  cases cls with
  | null => exact .inl (inferNull_ok.mpr h)
  | int =>
    simp only [infer, inferInt]
    split
    · exact .inl rfl
    · split
      · exact .inr rfl
      · exact .inl rfl
    · rename_i err eq
      rcases yamlScalarIsInt_error eq with rfl | rfl
      · exact absurd eq h
      · exact .inr rfl
  | bool => exact .inl (inferBool_ok.mpr h)
  | float =>
    simp only [infer, inferFloat_err]
    rcases yamlScalarIsFloat_error env.floats text false with ok | overflow | failure
    · exact .inl ok
    · exact .inr overflow
    · exact absurd failure h

theorem infer_rejects (h : ¬ cls.Accepts env.floats text) (value : AsdfValue) :
    cls.infer env text value =
      ({ value with type := .unknown, err := .parseFailure }, .parseFailure) := by
  cases cls with
  | null => exact if_neg h
  | int =>
    have failure : yamlScalarIsInt text = .error .parseFailure := Classical.not_not.mp h
    simp [infer, inferInt, failure]
  | bool =>
    have none : yamlScalarIsBool text = none := Option.not_isSome_iff_eq_none.mp h
    simp [infer, inferBool, none]
  | float =>
    have failure : (yamlScalarIsFloat env.floats text false).1 = .parseFailure :=
      Classical.not_not.mp h
    simp [infer, inferFloat, failure]

variable {order : List ScalarClass}

/-- The only class that takes a text decides, wherever it stands. -/
theorem inferInOrder_of_accepts (member : cls ∈ order) (h : cls.Accepts env.floats text)
    (alone : ∀ other : ScalarClass, other.Accepts env.floats text → other = cls)
    (value : AsdfValue) : inferInOrder env text order value = cls.infer env text value := by
  induction order generalizing value with
  | nil => cases member
  | cons first order ih =>
    unfold inferInOrder
    by_cases same : first = cls
    · subst same
      exact if_pos (infer_accepts h value)
    · have rejects : ¬ first.Accepts env.floats text := fun h => same (alone first h)
      have rest : cls ∈ order := (List.mem_cons.mp member).resolve_left (Ne.symm same)
      rw [infer_rejects rejects]
      dsimp only
      rw [if_neg (by simp), ih rest, infer_after]

theorem inferInOrder_of_rejects (rejects : ∀ cls ∈ order, ¬ cls.Accepts env.floats text)
    (value : AsdfValue) :
    inferInOrder env text order value = ({ value with type := .string, err := .ok }, .ok) := by
  induction order generalizing value with
  | nil => rfl
  | cons first order ih =>
    unfold inferInOrder
    rw [infer_rejects (rejects first List.mem_cons_self)]
    dsimp only
    rw [if_neg (by simp), ih fun cls member => rejects cls (List.mem_cons_of_mem _ member)]

/-- The order of the source. -/
theorem inferInOrder_order (value : AsdfValue) :
    inferInOrder env text ScalarClass.order value = inferPlain env value text := by
  simp only [ScalarClass.order, inferInOrder, infer, inferPlain]
  have null : (inferNull value text).2 ≠ .overflow := by
    unfold inferNull
    split <;> rintro ⟨⟩
  have bool (value : AsdfValue) : (inferBool env value text).2 ≠ .overflow := by
    unfold inferBool
    split <;> rintro ⟨⟩
  refine ite_congr (by simp only [null, or_false]) (fun _ => rfl) fun _ => ?_
  refine ite_congr rfl (fun _ => rfl) fun _ => ?_
  exact ite_congr (by simp only [bool, or_false]) (fun _ => rfl) fun _ => rfl

/-- The order matters for no text but the two digits. -/
theorem inferInOrder_perm (noDigit : text ≠ [zeroDigit] ∧ text ≠ [zeroDigit + 1])
    (perm : order.Perm ScalarClass.order) (value : AsdfValue) :
    inferInOrder env text order value = inferPlain env value text := by
  rw [← inferInOrder_order]
  have all : ∀ cls : ScalarClass, cls ∈ ScalarClass.order := by
    intro cls
    cases cls <;> decide
  by_cases some : ∃ cls : ScalarClass, cls.Accepts env.floats text
  · obtain ⟨cls, accepted⟩ := some
    have alone (other : ScalarClass) (h : other.Accepts env.floats text) : other = cls := by
      by_contra different
      rcases (unique different h accepted).1 with zero | one
      · exact noDigit.1 zero
      · exact noDigit.2 one
    rw [inferInOrder_of_accepts (perm.mem_iff.mpr (all cls)) accepted alone,
      inferInOrder_of_accepts (all cls) accepted alone]
  · push Not at some
    rw [inferInOrder_of_rejects fun cls _ => some cls, inferInOrder_of_rejects fun cls _ => some cls]

end Order

end ScalarClass

/-- The floats are the words of the patterns. Two classes of plain scalars have only `0`
and `1` in common, which are booleans and integers, and what the resolution makes of
another text does not depend on the order of the classes. -/
theorem scalar_classes (env : ScalarEnv) (scalar : Bytes) :
    (ScalarClass.float.Accepts env.floats scalar ↔ scalar ∈ floatExpression.matches') ∧
      (∀ a b : ScalarClass, a ≠ b → (a.Accepts env.floats scalar ∧ b.Accepts env.floats scalar ↔
        ScalarClass.Shared scalar a b)) ∧
      (scalar ≠ [zeroDigit] ∧ scalar ≠ [zeroDigit + 1] →
        ∀ order : List ScalarClass, order.Perm ScalarClass.order → ∀ value,
          inferInOrder env scalar order value = inferPlain env value scalar) := by
  refine ⟨yamlScalarIsFloat_iff env.floats scalar, fun a b other => ?_, ?_⟩
  · exact ⟨fun both => ScalarClass.unique other both.1 both.2, ScalarClass.accepts_of_shared⟩
  · exact fun noDigit order perm value => ScalarClass.inferInOrder_perm noDigit perm value

/-- `1e5`, with the classes in the opposite order. -/
theorem scalar_classes_exponent : ∀ value : AsdfValue,
    inferInOrder plainScalars [49, 101, 53] [.float, .bool, .int, .null] value =
      inferPlain plainScalars value [49, 101, 53] :=
  (scalar_classes plainScalars [49, 101, 53]).2.2 ⟨by decide, by decide⟩ _ (by decide)

end LibAsdf
