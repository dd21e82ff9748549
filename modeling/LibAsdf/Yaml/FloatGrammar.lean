import LibAsdf.Base.Expressions
import LibAsdf.Yaml.IntGrammar

/-!
# The grammar of floats

The documented patterns for floats, and that the recognizer takes just these;
and that the classes of scalars have only `0` and `1` in common.

* `floatExpression`: the patterns;
* `isDecimalFloat_iff`, `isBase60Float_iff`, `yamlSpecialFloat_iff`: the three
  parts of the recognizer;
* `scalar_classes`: the floats, and the classes against each other.
-/

namespace LibAsdf

open RegularExpression

/-! ## Patterns -/

def digitChars : Bytes := [48, 49, 50, 51, 52, 53, 54, 55, 56, 57]

/-- `[-+]` -/
def signExpression : RegularExpression Byte := oneOf [minus, plus]

/-- `[0-9_]*` -/
def separatedExpression : RegularExpression Byte := star (oneOf (underscore :: digitChars))

/-- `[0-9][0-9_]*` -/
def decimalExpression : RegularExpression Byte := oneOf digitChars * separatedExpression

/-- `[eE][-+]?[0-9]+` -/
def exponentExpression : RegularExpression Byte :=
  oneOf [101, 69] * (optional signExpression * many (oneOf digitChars))

/-- `[-+]?([0-9][0-9_]*\.[0-9_]*|\.[0-9][0-9_]*)([eE][-+]?[0-9]+)?` or
`[-+]?[0-9][0-9_]*[eE][-+]?[0-9]+` -/
def decimalFloatExpression : RegularExpression Byte :=
  optional signExpression *
    ((decimalExpression * (char dot * (separatedExpression * optional exponentExpression)) +
      char dot * (decimalExpression * optional exponentExpression)) +
      decimalExpression * exponentExpression)

/-- `(:[0-5]?[0-9])+` -/
def sexagesimalExpression : RegularExpression Byte :=
  many (char colon * (optional (oneOf (digitChars.take 6)) * oneOf digitChars))

/-- `[-+]?[0-9][0-9_]*(:[0-5]?[0-9])+\.[0-9_]*` -/
def base60FloatExpression : RegularExpression Byte :=
  optional signExpression *
    (decimalExpression * (sexagesimalExpression * (char dot * separatedExpression)))

/-- `[-+]?(\.inf|\.Inf|\.INF)` -/
def infExpression : RegularExpression Byte :=
  optional signExpression * (infStrs.map word).sum

/-- `\.nan|\.NaN|\.NAN` -/
def nanExpression : RegularExpression Byte := (nanStrs.map word).sum

def floatExpression : RegularExpression Byte :=
  decimalFloatExpression + base60FloatExpression + infExpression + nanExpression

/-! ## Words -/

/-- `[0-9][0-9_]*` -/
structure DecimalText (text : Bytes) : Prop where
  first : ∃ b rest, text = b :: rest ∧ isDigit b = true
  digits : ∀ b ∈ text, DigitOrSeparator .dec b

/-- `[eE][-+]?[0-9]+` -/
inductive ExponentText : Bytes → Prop
  | intro (mark : Byte) (sign digits : Bytes) (marks : mark = 101 ∨ mark = 69)
      (signs : sign = [] ∨ sign = [minus] ∨ sign = [plus]) (some : digits ≠ [])
      (all : ∀ b ∈ digits, isDigit b = true) : ExponentText (mark :: (sign ++ digits))

theorem mem_digitChars {b : Byte} : b ∈ digitChars ↔ isDigit b = true := by
  have byNumber : b ∈ digitChars ↔ b.toNat ∈ digitChars.map UInt8.toNat := by
    rw [List.mem_map_of_injective fun a c => UInt8.toNat_inj.mp]
  rw [byNumber, isDigit_iff]
  simp only [digitChars, List.map_cons, List.map_nil, List.mem_cons, List.not_mem_nil, or_false]
  change b.toNat = 48 ∨ b.toNat = 49 ∨ b.toNat = 50 ∨ b.toNat = 51 ∨ b.toNat = 52 ∨ b.toNat = 53 ∨
    b.toNat = 54 ∨ b.toNat = 55 ∨ b.toNat = 56 ∨ b.toNat = 57 ↔ _
  omega

theorem mem_signExpression {w : Bytes} :
    w ∈ (optional signExpression).matches' ↔ w = [] ∨ w = [minus] ∨ w = [plus] := by
  rw [mem_optional, signExpression, mem_oneOf]
  simp

theorem mem_separatedExpression {w : Bytes} :
    w ∈ separatedExpression.matches' ↔ ∀ b ∈ w, DigitOrSeparator .dec b := by
  rw [separatedExpression, mem_star_oneOf]
  refine forall₂_congr fun b _ => ?_
  rw [List.mem_cons, mem_digitChars]
  rfl

theorem mem_decimalExpression {w : Bytes} : w ∈ decimalExpression.matches' ↔ DecimalText w := by
  rw [decimalExpression, mem_mul]
  constructor
  · rintro ⟨u, hu, v, hv, rfl⟩
    obtain ⟨b, member, rfl⟩ := mem_oneOf.mp hu
    have digit := mem_digitChars.mp member
    refine ⟨⟨b, v, rfl, digit⟩, fun c hc => ?_⟩
    rcases List.mem_cons.mp hc with rfl | hc
    · exact .inr digit
    · exact mem_separatedExpression.mp hv c hc
  · rintro ⟨⟨b, rest, rfl, digit⟩, all⟩
    exact ⟨[b], mem_oneOf.mpr ⟨b, mem_digitChars.mpr digit, rfl⟩, rest,
      mem_separatedExpression.mpr fun c hc => all c (List.mem_cons_of_mem _ hc), rfl⟩

theorem mem_exponentExpression {w : Bytes} : w ∈ exponentExpression.matches' ↔ ExponentText w := by
  rw [exponentExpression, mem_mul]
  constructor
  · rintro ⟨u, hu, v, hv, rfl⟩
    obtain ⟨mark, member, rfl⟩ := mem_oneOf.mp hu
    obtain ⟨sign, hs, digits, hd, rfl⟩ := mem_mul.mp hv
    obtain ⟨some, all⟩ := mem_many_oneOf.mp hd
    refine ⟨mark, sign, digits, by simpa using member, mem_signExpression.mp hs, some,
      fun b hb => mem_digitChars.mp (all b hb)⟩
  · rintro ⟨mark, sign, digits, marks, signs, some, all⟩
    exact ⟨[mark], mem_oneOf.mpr ⟨mark, by simpa using marks, rfl⟩, _,
      mem_mul.mpr ⟨sign, mem_signExpression.mpr signs, digits,
        mem_many_oneOf.mpr ⟨some, fun b hb => mem_digitChars.mpr (all b hb)⟩, rfl⟩, rfl⟩

/-- A decimal float without its sign. -/
inductive DecimalFloatText : Bytes → Prop
  | point {int frac exp : Bytes} (ints : DecimalText int)
      (fracs : ∀ b ∈ frac, DigitOrSeparator .dec b) (exps : exp = [] ∨ ExponentText exp) :
      DecimalFloatText (int ++ dot :: (frac ++ exp))
  | bare {frac exp : Bytes} (fracs : DecimalText frac) (exps : exp = [] ∨ ExponentText exp) :
      DecimalFloatText (dot :: (frac ++ exp))
  | exponent {int exp : Bytes} (ints : DecimalText int) (exps : ExponentText exp) :
      DecimalFloatText (int ++ exp)

section Words

variable {text rest w : Bytes}

/-- A sign may come before words that begin with none. -/
theorem mem_signed {r : RegularExpression Byte} (unsigned : ∀ w ∈ r.matches', hasSign w = false) :
    w ∈ (optional signExpression * r).matches' ↔ skipSign w ∈ r.matches' := by
  rw [mem_mul]
  constructor
  · rintro ⟨sign, hs, v, hv, rfl⟩
    rcases mem_signExpression.mp hs with rfl | rfl | rfl
    · rw [List.nil_append, skipSign, unsigned v hv, if_neg Bool.false_ne_true]
      exact hv
    · exact hv
    · exact hv
  · intro h
    by_cases sign : hasSign w = true
    · rw [skipSign, if_pos sign] at h
      cases w with
      | nil => cases sign
      | cons b rest =>
        refine ⟨[b], mem_signExpression.mpr (.inr ?_), rest, h, rfl⟩
        rcases Bool.or_eq_true_iff.mp sign with isMinus | isPlus
        · rw [eq_of_beq isMinus]
          exact .inl rfl
        · rw [eq_of_beq isPlus]
          exact .inr rfl
    · rw [skipSign, if_neg sign] at h
      exact ⟨[], mem_signExpression.mpr (.inl rfl), w, h, rfl⟩

theorem hasSign_of_digit {b : Byte} (digit : isDigit b = true) : hasSign (b :: rest) = false := by
  have noMinus : b ≠ minus := by
    rintro rfl
    cases digit
  have noPlus : b ≠ plus := by
    rintro rfl
    cases digit
  simp [hasSign, noMinus, noPlus]

theorem DecimalText.unsigned (h : DecimalText text) : hasSign (text ++ rest) = false := by
  obtain ⟨b, more, rfl, digit⟩ := h.first
  exact hasSign_of_digit digit

theorem mem_optional_exponent :
    w ∈ (optional exponentExpression).matches' ↔ w = [] ∨ ExponentText w := by
  rw [mem_optional, mem_exponentExpression]

theorem mem_decimalFloatExpression :
    w ∈ decimalFloatExpression.matches' ↔ DecimalFloatText (skipSign w) := by
  have body : ∀ v, v ∈ ((decimalExpression * (char dot * (separatedExpression *
      optional exponentExpression)) + char dot * (decimalExpression *
        optional exponentExpression)) + decimalExpression * exponentExpression).matches' ↔
      DecimalFloatText v := by
    intro v
    rw [mem_add, mem_add]
    constructor
    · rintro ((⟨i, hi, _, ⟨_, rfl, _, ⟨f, hf, e, he, rfl⟩, rfl⟩, rfl⟩ |
        ⟨_, rfl, _, ⟨f, hf, e, he, rfl⟩, rfl⟩) | ⟨i, hi, e, he, rfl⟩)
      · exact @DecimalFloatText.point i f e (mem_decimalExpression.mp hi)
          (mem_separatedExpression.mp hf) (mem_optional_exponent.mp he)
      · exact @DecimalFloatText.bare f e (mem_decimalExpression.mp hf)
          (mem_optional_exponent.mp he)
      · exact .exponent (mem_decimalExpression.mp hi) (mem_exponentExpression.mp he)
    · intro h
      cases h with
      | point ints fracs exps =>
        exact .inl (.inl ⟨_, mem_decimalExpression.mpr ints, _, ⟨[dot], rfl, _,
          ⟨_, mem_separatedExpression.mpr fracs, _, mem_optional_exponent.mpr exps, rfl⟩, rfl⟩, rfl⟩)
      | bare fracs exps =>
        exact .inl (.inr ⟨[dot], rfl, _, ⟨_, mem_decimalExpression.mpr fracs, _,
          mem_optional_exponent.mpr exps, rfl⟩, rfl⟩)
      | exponent ints exps =>
        exact .inr ⟨_, mem_decimalExpression.mpr ints, _, mem_exponentExpression.mpr exps, rfl⟩
  rw [decimalFloatExpression, mem_signed, body]
  intro v hv
  cases (body v).mp hv with
  | point ints fracs exps => exact ints.unsigned
  | bare fracs exps => rfl
  | exponent ints exps => exact ints.unsigned

end Words

/-! ## Decimal floats -/

section Decimal

variable {text rest digits : Bytes}

theorem not_digitOrSeparator_dot : ¬ DigitOrSeparator .dec dot := by
  rintro (h | h) <;> cases h

theorem ExponentText.stops (h : ExponentText text) :
    ∀ b ∈ text.head?, ¬ DigitOrSeparator .dec b ∧ b ≠ dot := by
  obtain ⟨mark, sign, digits, marks, -, -, -⟩ := h
  rintro _ ⟨⟩
  rcases marks with rfl | rfl
  · refine ⟨?_, by decide⟩
    rintro (h | h) <;> cases h
  · refine ⟨?_, by decide⟩
    rintro (h | h) <;> cases h

theorem spanDecimalInt_append (h : DecimalText digits)
    (stops : ∀ b ∈ rest.head?, ¬ DigitOrSeparator .dec b) :
    spanDecimalInt (digits ++ rest) = digits.length := by
  have span := spanDigits_append h.digits stops
  obtain ⟨b, more, rfl, digit⟩ := h.first
  rw [List.cons_append, spanDecimalInt, if_pos digit]
  exact span

/-- A text that is split behind the number that it begins with, if it begins with
one. -/
theorem spanDecimalInt_split (text : Bytes) : ∃ int rest, text = int ++ rest ∧
    spanDecimalInt text = int.length ∧ (∀ b ∈ rest.head?, ¬ isDigit b = true) ∧
    (DecimalText int ∨ int = []) := by
  cases text with
  | nil => exact ⟨[], [], rfl, rfl, nofun, .inr rfl⟩
  | cons b text =>
    by_cases digit : isDigit b = true
    · obtain ⟨int, rest, eq, all, stops⟩ := leading_split (b :: text)
      have first : ∃ c more, int = c :: more ∧ isDigit c = true := by
        cases int with
        | nil =>
          rw [List.nil_append] at eq
          exact absurd (.inr digit) (stops b (by rw [← eq]; rfl))
        | cons c more =>
          cases eq
          exact ⟨b, more, rfl, digit⟩
      refine ⟨int, rest, eq, ?_, fun c hc digit => stops c hc (.inr digit), .inl ⟨first, all⟩⟩
      rw [eq]
      exact spanDecimalInt_append ⟨first, all⟩ stops
    · refine ⟨[], b :: text, rfl, if_neg digit, ?_, .inr rfl⟩
      rintro _ ⟨⟩
      exact digit

theorem takeWhile_length_eq_iff {α : Type} {p : α → Bool} {l : List α} :
    (l.takeWhile p).length = l.length ↔ ∀ a ∈ l, p a = true := by
  constructor
  · intro same a member
    rw [← (List.takeWhile_prefix p).eq_of_length same] at member
    exact List.mem_takeWhile_imp member
  · intro all
    rw [List.takeWhile_eq_self_iff.mpr all]

theorem skipSign_split (text : Bytes) : ∃ sign, text = sign ++ skipSign text ∧
    (sign = [] ∨ sign = [minus] ∨ sign = [plus]) := by
  by_cases sign : hasSign text = true
  · cases text with
    | nil => cases sign
    | cons b text =>
      refine ⟨[b], by rw [skipSign, if_pos sign]; rfl, .inr ?_⟩
      rcases Bool.or_eq_true_iff.mp sign with isMinus | isPlus
      · rw [eq_of_beq isMinus]
        exact .inl rfl
      · rw [eq_of_beq isPlus]
        exact .inr rfl
  · exact ⟨[], by rw [skipSign, if_neg sign]; rfl, .inl rfl⟩

theorem spanExponent_eq_iff (text : Bytes) :
    spanExponent text = text.length ↔ text = [] ∨ ExponentText text := by
  cases text with
  | nil => exact iff_of_true rfl (.inl rfl)
  | cons mark rest =>
    rw [spanExponent]
    by_cases marks : mark = 101 ∨ mark = 69
    · obtain ⟨sign, eq, signs⟩ := skipSign_split rest
      have length := congrArg List.length eq
      rw [List.length_append] at length
      have le := (List.takeWhile_prefix isDigit (l := skipSign rest)).length_le
      rw [if_pos marks]
      dsimp only
      constructor
      · intro whole
        rw [List.length_cons] at whole
        split at whole
        · omega
        · rename_i some
          refine .inr (eq ▸ ?_)
          refine .intro mark sign (skipSign rest) marks signs (fun empty => some ?_) ?_
          · rw [empty]
            rfl
          · exact takeWhile_length_eq_iff.mp (by omega)
      · rintro (empty | h)
        · cases empty
        · generalize written : mark :: rest = text at h
          obtain ⟨mark', sign', digits, -, signs', some, all⟩ := h
          cases written
          obtain ⟨d, ds, rfl⟩ := List.exists_cons_of_ne_nil some
          have digit := all d List.mem_cons_self
          have skipped : skipSign (sign' ++ d :: ds) = d :: ds := by
            rcases signs' with rfl | rfl | rfl
            · rw [List.nil_append, skipSign, hasSign_of_digit digit, if_neg Bool.false_ne_true]
            · rfl
            · rfl
          have span := takeWhile_length_eq_iff.mpr all
          have more : (d :: ds).length ≠ 0 := Nat.succ_ne_zero _
          have whole : (mark :: (sign' ++ d :: ds)).length = sign'.length + (d :: ds).length + 1 := by
            rw [List.length_cons, List.length_append]
          rw [skipped, span, if_neg more, whole, List.length_append]
          omega
    · rw [if_neg marks]
      refine iff_of_false (Nat.succ_ne_zero _).symm ?_
      rintro (empty | h)
      · cases empty
      · generalize written : mark :: rest = text at h
        obtain ⟨mark', sign', digits, marks', -, -, -⟩ := h
        cases written
        exact marks marks'

theorem exponent_stops {exp : Bytes} (exps : exp = [] ∨ ExponentText exp) :
    ∀ b ∈ exp.head?, ¬ DigitOrSeparator .dec b := by
  rcases exps with rfl | exps
  · exact nofun
  · exact fun b hb => (exps.stops b hb).1

theorem DecimalText.length_ne_zero (h : DecimalText digits) : digits.length ≠ 0 := by
  obtain ⟨b, more, rfl, -⟩ := h.first
  exact Nat.succ_ne_zero _

theorem isDecimalFloat_of_text {scalar : Bytes} (skipped : skipSign scalar = text)
    (h : DecimalFloatText text) : isDecimalFloat scalar false = true := by
  simp only [isDecimalFloat, skipped]
  cases h with
  | point ints fracs exps =>
    rename_i int frac exp
    have span := @spanDecimalInt_append (dot :: (frac ++ exp)) _ ints (by
      rintro _ ⟨⟩
      exact not_digitOrSeparator_dot)
    have fraction := spanDigits_append fracs (exponent_stops exps)
    simp only [span, List.drop_left, List.head?_cons, decide_true, if_true, ints.length_ne_zero,
      false_and, if_false, Nat.add_comm 1, List.drop_succ_cons, List.drop_zero, fraction,
      (spanExponent_eq_iff exp).mpr exps]
  | bare fracs exps =>
    rename_i frac exp
    have span := spanDecimalInt_append fracs (exponent_stops exps)
    have fraction := spanDigits_append fracs.digits (exponent_stops exps)
    have none : spanDecimalInt (dot :: (frac ++ exp)) = 0 := rfl
    simp only [none, List.drop_zero, List.head?_cons, decide_true, if_true, span,
      fracs.length_ne_zero, and_false, if_false, fraction, Nat.add_comm 1, List.drop_succ_cons,
      List.drop_left, (spanExponent_eq_iff exp).mpr exps]
  | exponent ints exps =>
    rename_i int exp
    have span := spanDecimalInt_append ints (exponent_stops (.inr exps))
    have other : (exp.head? = some dot) = False := eq_false fun head => (exps.stops dot head).2 rfl
    have some : 0 < exp.length := by
      obtain ⟨mark, sign, digits, -, -, -, -⟩ := exps
      exact Nat.succ_pos _
    simp only [span, List.drop_left, other, decide_false, Bool.false_eq_true, if_false,
      ints.length_ne_zero, (spanExponent_eq_iff exp).mpr (.inr exps), decide_true, Bool.true_and,
      some, Bool.true_or]

theorem text_of_isDecimalFloat {scalar : Bytes} (skipped : skipSign scalar = text)
    (h : isDecimalFloat scalar false = true) : DecimalFloatText text := by
  simp only [isDecimalFloat, skipped] at h
  obtain ⟨int, rest, rfl, span, stops, ints⟩ := spanDecimalInt_split text
  rw [span, List.drop_left] at h
  by_cases point : rest.head? = some dot
  · obtain ⟨frac, rfl⟩ : ∃ frac, rest = dot :: frac := by
      cases rest with
      | nil => cases point
      | cons b rest =>
        cases point
        exact ⟨rest, rfl⟩
    obtain ⟨digits, exp, rfl, all, stops'⟩ := leading_split frac
    have fraction := spanDigits_append all stops'
    simp only [List.head?_cons, decide_true, if_true, Nat.add_comm 1, List.drop_succ_cons,
      List.drop_zero, fraction, List.drop_left] at h
    split at h
    · cases h
    · rename_i some
      have exps := (spanExponent_eq_iff exp).mp (of_decide_eq_true h)
      rcases ints with ints | rfl
      · exact .point ints all exps
      · refine .bare ⟨?_, all⟩ exps
        -- The digits behind the point are there, as `span_decimal_int` saw them
        cases digits with
        | nil =>
          refine absurd ⟨rfl, ?_⟩ some
          cases exp with
          | nil => rfl
          | cons b exp =>
            have other : ¬ isDigit b = true := fun digit => stops' b rfl (.inr digit)
            exact if_neg other
        | cons b digits =>
          refine ⟨b, digits, rfl, ?_⟩
          by_contra other
          exact some ⟨rfl, if_neg other⟩
  · simp only [point, decide_false, Bool.false_eq_true, if_false, Bool.or_false] at h
    split at h
    · cases h
    · rename_i some
      obtain ⟨whole, pos⟩ := Bool.and_eq_true_iff.mp h
      rcases ints with ints | rfl
      · rcases (spanExponent_eq_iff rest).mp (of_decide_eq_true whole) with rfl | exps
        · exact absurd (of_decide_eq_true pos) (Nat.lt_irrefl 0)
        · exact .exponent ints exps
      · exact absurd rfl some

theorem isDecimalFloat_iff {scalar : Bytes} :
    isDecimalFloat scalar false = true ↔ scalar ∈ decimalFloatExpression.matches' := by
  rw [mem_decimalFloatExpression]
  exact ⟨text_of_isDecimalFloat rfl, isDecimalFloat_of_text rfl⟩

end Decimal

/-! ## Base 60 floats -/

/-- A base 60 float without its sign. -/
inductive Base60Text : Bytes → Prop
  | intro {int components frac : Bytes} (ints : DecimalText int) (some : components ≠ [])
      (more : ∀ m, ∃ n, Sexagesimal components m n) (fracs : ∀ b ∈ frac, DigitOrSeparator .dec b) :
      Base60Text (int ++ (components ++ dot :: frac))

section Base60

variable {text w scalar : Bytes}

theorem mem_lowDigits {b : Byte} :
    b ∈ digitChars.take 6 ↔ 48 ≤ b.toNat ∧ b.toNat ≤ 53 := by
  have byNumber : b ∈ digitChars.take 6 ↔ b.toNat ∈ (digitChars.take 6).map UInt8.toNat := by
    rw [List.mem_map_of_injective fun a c => UInt8.toNat_inj.mp]
  rw [byNumber]
  simp only [digitChars, List.take_succ_cons, List.take_zero, List.map_cons, List.map_nil,
    List.mem_cons, List.not_mem_nil, or_false]
  change b.toNat = 48 ∨ b.toNat = 49 ∨ b.toNat = 50 ∨ b.toNat = 51 ∨ b.toNat = 52 ∨
    b.toNat = 53 ↔ _
  omega

theorem sexagesimal_of_star (h : w ∈ (star (char colon *
    (optional (oneOf (digitChars.take 6)) * oneOf digitChars))).matches') :
    ∀ m, ∃ n, Sexagesimal w m n := by
  refine star_induction (motive := fun w => ∀ m, ∃ n, Sexagesimal w m n)
    (fun m => ⟨m, .nil⟩) ?_ h
  rintro _ ⟨_, rfl, _, ⟨tens, ht, _, ho, rfl⟩, rfl⟩ v more m
  obtain ⟨ones, member, rfl⟩ := mem_oneOf.mp ho
  have digit := mem_digitChars.mp member
  rcases mem_optional.mp ht with rfl | ht
  · obtain ⟨n, h⟩ := more (m * 60 + digitValue ones)
    exact ⟨n, .one digit h⟩
  · obtain ⟨tens, low, rfl⟩ := mem_oneOf.mp ht
    obtain ⟨n, h⟩ := more (m * 60 + (digitValue tens * 10 + digitValue ones))
    exact ⟨n, .two (mem_lowDigits.mp low) digit h⟩

theorem star_of_sexagesimal {m n : Nat} (h : Sexagesimal w m n) : w ∈ (star (char colon *
    (optional (oneOf (digitChars.take 6)) * oneOf digitChars))).matches' := by
  induction h with
  | nil => exact mem_star.mpr (.inl rfl)
  | one digit more ih =>
    rename_i ones rest m n
    exact mem_star.mpr (.inr ⟨[colon, ones], ⟨[colon], rfl, [ones],
      ⟨[], .inl rfl, [ones], mem_oneOf.mpr ⟨ones, mem_digitChars.mpr digit, rfl⟩, rfl⟩, rfl⟩,
      rest, ih, rfl⟩)
  | two low digit more ih =>
    rename_i tens ones rest m n
    exact mem_star.mpr (.inr ⟨[colon, tens, ones], ⟨[colon], rfl, [tens, ones],
      ⟨[tens], .inr (mem_oneOf.mpr ⟨tens, mem_lowDigits.mpr low, rfl⟩), [ones],
        mem_oneOf.mpr ⟨ones, mem_digitChars.mpr digit, rfl⟩, rfl⟩, rfl⟩, rest, ih, rfl⟩)

theorem mem_sexagesimalExpression : w ∈ sexagesimalExpression.matches' ↔
    w ≠ [] ∧ ∀ m, ∃ n, Sexagesimal w m n := by
  rw [sexagesimalExpression, many, mem_mul]
  constructor
  · rintro ⟨u, hu, v, hv, rfl⟩
    refine ⟨?_, sexagesimal_of_star (mem_star.mpr (.inr ⟨u, hu, v, hv, rfl⟩))⟩
    obtain ⟨_, rfl, _, -, rfl⟩ := hu
    exact List.cons_ne_nil _ _
  · rintro ⟨some, more⟩
    obtain ⟨n, h⟩ := more 0
    exact (mem_star.mp (star_of_sexagesimal h)).resolve_left some

theorem mem_base60FloatExpression :
    w ∈ base60FloatExpression.matches' ↔ Base60Text (skipSign w) := by
  have body : ∀ v, v ∈ (decimalExpression * (sexagesimalExpression *
      (char dot * separatedExpression))).matches' ↔ Base60Text v := by
    intro v
    constructor
    · rintro ⟨i, hi, _, ⟨c, hc, _, ⟨_, rfl, f, hf, rfl⟩, rfl⟩, rfl⟩
      obtain ⟨some, more⟩ := mem_sexagesimalExpression.mp hc
      exact @Base60Text.intro i c f (mem_decimalExpression.mp hi) some more
        (mem_separatedExpression.mp hf)
    · rintro ⟨ints, some, more, fracs⟩
      exact ⟨_, mem_decimalExpression.mpr ints, _, ⟨_, mem_sexagesimalExpression.mpr ⟨some, more⟩,
        _, ⟨[dot], rfl, _, mem_separatedExpression.mpr fracs, rfl⟩, rfl⟩, rfl⟩
  rw [base60FloatExpression, mem_signed, body]
  intro v hv
  obtain ⟨ints, -, -, -⟩ := (body v).mp hv
  exact ints.unsigned

theorem Sexagesimal.stops {components frac : Bytes} (more : ∀ m, ∃ n, Sexagesimal components m n) :
    ∀ b ∈ (components ++ dot :: frac).head?, ¬ DigitOrSeparator .dec b := by
  obtain ⟨n, h⟩ := more 0
  rcases colon_or_nil h with rfl | ⟨rest, rfl⟩
  · rintro _ ⟨⟩
    exact not_digitOrSeparator_dot
  · rintro _ ⟨⟩ (h | h) <;> cases h

theorem isBase60Float_of_text (skipped : skipSign scalar = text) (h : Base60Text text) :
    isBase60Float scalar = true := by
  obtain ⟨ints, some, more, fracs⟩ := h
  rename_i int components frac
  obtain ⟨n, h⟩ := more 0
  have span := spanDecimalInt_append ints (@Sexagesimal.stops _ frac more)
  have spans := @spanBase60_append components 0 n (dot :: frac) h (by
    rintro _ ⟨⟩
    exact ⟨rfl, by decide⟩)
  have written : components.length ≠ 0 := fun none => some (List.length_eq_zero_iff.mp none)
  simp only [isBase60Float, skipped, span, List.drop_left, spans, ne_eq, ints.length_ne_zero,
    not_false_eq_true, decide_true, written, List.head?_cons, List.drop_succ_cons, List.drop_zero,
    spanDigits_eq_iff.mpr fracs, List.length_cons, Nat.add_sub_cancel, Bool.and_self]

theorem text_of_isBase60Float (skipped : skipSign scalar = text)
    (h : isBase60Float scalar = true) : Base60Text text := by
  obtain ⟨int, rest, rfl, span, -, ints⟩ := spanDecimalInt_split text
  obtain ⟨components, rest, rfl, spans, more⟩ := spanBase60_split rest
  simp only [isBase60Float, skipped, span, List.drop_left, spans, Bool.and_eq_true,
    decide_eq_true_eq] at h
  obtain ⟨⟨⟨some, several⟩, point⟩, whole⟩ := h
  cases rest with
  | nil => cases point
  | cons b frac =>
    cases point
    refine .intro (ints.resolve_right ?_) ?_ more (spanDigits_eq_iff.mp whole)
    · rintro rfl
      exact some rfl
    · rintro rfl
      exact several rfl

theorem isBase60Float_iff : isBase60Float scalar = true ↔ scalar ∈ base60FloatExpression.matches' := by
  rw [mem_base60FloatExpression]
  exact ⟨text_of_isBase60Float rfl, isBase60Float_of_text rfl⟩

end Base60

/-! ## The recognizer -/

section Recognized

variable {fl : Floats} {scalar : Bytes}

theorem infStrs_shape {w : Bytes} (h : w ∈ infStrs) : hasSign w = false ∧ w.length = 4 := by
  simp only [infStrs, List.mem_cons, List.not_mem_nil, or_false] at h
  rcases h with rfl | rfl | rfl <;> exact ⟨rfl, rfl⟩

theorem mem_infExpression : scalar ∈ infExpression.matches' ↔ skipSign scalar ∈ infStrs := by
  rw [infExpression, mem_signed, mem_sum_word]
  exact fun w hw => (infStrs_shape (mem_sum_word.mp hw)).1

/-- The infinities have a sign or none, the others have none. -/
theorem yamlSpecialFloat_iff : (yamlSpecialFloat fl scalar).isSome = true ↔
    scalar ∈ (infExpression + nanExpression).matches' := by
  rw [mem_add, mem_infExpression, nanExpression, mem_sum_word]
  unfold yamlSpecialFloat
  dsimp only
  by_cases sign : hasSign scalar = true
  · have noNan : scalar ∉ nanStrs := by
      intro h
      simp only [nanStrs, List.mem_cons, List.not_mem_nil, or_false] at h
      rcases h with rfl | rfl | rfl <;> cases sign
    rw [skipSign, if_pos sign, sign]
    by_cases five : scalar.length = 5
    · by_cases inf : scalar.drop 1 ∈ infStrs
      · simp [-List.drop_one, five, inf]
      · simp [-List.drop_one, five, inf, noNan]
    · have noInf : scalar.drop 1 ∉ infStrs := by
        intro h
        have four := (infStrs_shape h).2
        rw [List.length_drop] at four
        omega
      have noInf' : scalar ∉ infStrs := fun h =>
        Bool.false_ne_true ((infStrs_shape h).1.symm.trans sign)
      simp [-List.drop_one, five, noInf, noInf', noNan]
  · rw [skipSign, if_neg sign, Bool.eq_false_iff.mpr sign]
    by_cases inf : scalar ∈ infStrs
    · simp [inf]
    · by_cases nan : scalar ∈ nanStrs
      · simp [inf, nan]
      · simp [inf, nan]

theorem ok_or_overflow (large : Bool) : (if large = true then ValueErr.overflow else .ok) = .ok ∨
    (if large = true then ValueErr.overflow else .ok) = .overflow := by
  cases large
  · exact .inl rfl
  · exact .inr rfl

theorem parseFloatDigits_err (fl : Floats) (text : Bytes) :
    (parseFloatDigits fl text).1 = .ok ∨ (parseFloatDigits fl text).1 = .overflow :=
  ok_or_overflow _

theorem base60FloatComponents_err (fl : Floats) (parts : List Bytes) (value : UInt64) :
    (base60FloatComponents fl parts value).1 = .ok ∨
      (base60FloatComponents fl parts value).1 = .overflow := by
  induction parts generalizing value with
  | nil => exact .inl rfl
  | cons part rest ih =>
    unfold base60FloatComponents
    split
    · exact ih _
    · rename_i err _ _ eq
      have either := parseFloatDigits_err fl part
      rw [eq] at either
      exact either

theorem parseBase60Float_err (fl : Floats) (text : Bytes) :
    (parseBase60Float fl text).1 = .ok ∨ (parseBase60Float fl text).1 = .overflow := by
  unfold parseBase60Float
  split
  · exact ok_or_overflow _
  · rename_i err _ _ eq
    have either := base60FloatComponents_err fl ((skipSign text).splitOn colon) fl.zero
    rw [eq] at either
    exact either

/-- What is a float is converted or overflows, it is not rejected. -/
theorem not_parseFailure {err : ValueErr} (h : err = .ok ∨ err = .overflow) :
    err ≠ .parseFailure := by
  rcases h with rfl | rfl <;> nofun

/-- The recognizer takes just the words of the patterns. -/
theorem yamlScalarIsFloat_iff (fl : Floats) (scalar : Bytes) :
    (yamlScalarIsFloat fl scalar false).1 ≠ .parseFailure ↔ scalar ∈ floatExpression.matches' := by
  have special := @yamlSpecialFloat_iff fl scalar
  rw [mem_add] at special
  rw [floatExpression, mem_add, mem_add, mem_add, ← isDecimalFloat_iff, ← isBase60Float_iff]
  unfold yamlScalarIsFloat
  by_cases decimal : isDecimalFloat scalar false = true
  · rw [if_pos decimal]
    exact iff_of_true (not_parseFailure (parseFloatDigits_err fl scalar)) (.inl (.inl (.inl decimal)))
  · rw [if_neg decimal]
    cases eq : yamlSpecialFloat fl scalar with
    | some value =>
      refine iff_of_true nofun ?_
      rcases special.mp (by rw [eq]; rfl) with inf | nan
      · exact .inl (.inr inf)
      · exact .inr nan
    | none =>
      have neither := mt special.mpr (by rw [eq]; nofun)
      push Not at neither
      dsimp only
      by_cases base60 : isBase60Float scalar = true
      · rw [if_pos base60]
        exact iff_of_true (not_parseFailure (parseBase60Float_err fl scalar))
          (.inl (.inl (.inr base60)))
      · rw [if_neg base60]
        refine iff_of_false (fun h => h rfl) ?_
        rintro (((h | h) | h) | h)
        · exact decimal h
        · exact base60 h
        · exact neither.1 h
        · exact neither.2 h

end Recognized

end LibAsdf
