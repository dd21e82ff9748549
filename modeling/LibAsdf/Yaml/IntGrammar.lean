import LibAsdf.Yaml.Decimal
import Mathlib.Data.Nat.Digits.Defs

/-!
# The grammar of integers

The texts that the resolution takes for integers, and the numbers they are.

* `Unsigned`, `IntText`: the grammar, with the number of each text;
* `parseMagnitude_of_unsigned`: what the recognizer makes of the texts;
* `unsigned_of_parseMagnitude`: it takes no others;
* `int_scalar`: both, with the sign.
-/

namespace LibAsdf

/-! ## Grammar -/

/-- The number that digits stand for. -/
def number (base : Nat) (digits : Bytes) : Nat :=
  Nat.ofDigits base ((digits.filter (· ≠ underscore)).map digitValue).reverse

/-- A digit of a base, or a separator. -/
def DigitOrSeparator (base : Radix) (b : Byte) : Prop :=
  b = underscore ∨ isDigitInBase b base = true

/-- `(:[0-5]?[0-9])*`, with the number before it and the number with it. -/
inductive Sexagesimal : Bytes → Nat → Nat → Prop
  | nil {m : Nat} : Sexagesimal [] m m
  | one {ones : Byte} {rest : Bytes} {m n : Nat} (digit : isDigit ones = true)
      (more : Sexagesimal rest (m * 60 + digitValue ones) n) :
      Sexagesimal (colon :: ones :: rest) m n
  | two {tens ones : Byte} {rest : Bytes} {m n : Nat} (low : 48 ≤ tens.toNat ∧ tens.toNat ≤ 53)
      (digit : isDigit ones = true)
      (more : Sexagesimal rest (m * 60 + (digitValue tens * 10 + digitValue ones)) n) :
      Sexagesimal (colon :: tens :: ones :: rest) m n

/-- `[1-9][0-9_]*` -/
structure Leading (text : Bytes) : Prop where
  first : ∃ b rest, text = b :: rest ∧ 49 ≤ b.toNat ∧ b.toNat ≤ 57
  digits : ∀ b ∈ text, DigitOrSeparator .dec b

/-- An integer without its sign, and its number. -/
inductive Unsigned : Bytes → Nat → Prop
  /-- `0` -/
  | zero : Unsigned [zeroDigit] 0
  /-- `[1-9][0-9_]*` -/
  | decimal {text : Bytes} (leading : Leading text) : Unsigned text (number 10 text)
  /-- `[1-9][0-9_]*(:[0-5]?[0-9])+` -/
  | sexagesimal {text components : Bytes} {n : Nat} (leading : Leading text)
      (nonempty : components ≠ []) (more : Sexagesimal components (number 10 text) n) :
      Unsigned (text ++ components) n
  /-- `0[0-7_]+` -/
  | octal {digits : Bytes} (nonempty : digits ≠ []) (all : ∀ b ∈ digits, DigitOrSeparator .oct b) :
      Unsigned (zeroDigit :: digits) (number 8 (zeroDigit :: digits))
  /-- `0b[01_]+` -/
  | binary {digits : Bytes} (all : ∀ b ∈ digits, DigitOrSeparator .bin b)
      (digit : ∃ b ∈ digits, b ≠ underscore) : Unsigned (zeroDigit :: 98 :: digits) (number 2 digits)
  /-- `0x[0-9a-fA-F_]+` -/
  | hexadecimal {digits : Bytes} (all : ∀ b ∈ digits, DigitOrSeparator .hex b)
      (digit : ∃ b ∈ digits, b ≠ underscore) :
      Unsigned (zeroDigit :: 120 :: digits) (number 16 digits)

/-- An integer: whether there is a minus sign, and the number after it. -/
inductive IntText : Bytes → Bool → Nat → Prop
  | bare {text : Bytes} {n : Nat} (h : Unsigned text n) : IntText text false n
  | plus {text : Bytes} {n : Nat} (h : Unsigned text n) : IntText (plus :: text) false n
  | minus {text : Bytes} {n : Nat} (h : Unsigned text n) : IntText (minus :: text) true n

/-! ## Digits -/

section Digits

variable {text : Bytes} {base : Radix}

theorem copyDigits_none (text : Bytes) : copyDigits text none = text.filter (· ≠ underscore) := by
  unfold copyDigits
  induction text with
  | nil => rfl
  | cons b text ih =>
    rw [List.flatMap_cons, ih]
    by_cases separator : b = underscore
    · simp [separator]
    · by_cases point : b = dot
      · subst point
        rfl
      · simp [separator, point]

theorem foldl_digits (base : Nat) (digits : List Nat) (start : Nat) :
    digits.foldl (fun value d => value * base + d) start =
      Nat.ofDigits base digits.reverse + base ^ digits.length * start := by
  induction digits generalizing start with
  | nil => simp
  | cons d digits ih =>
    rw [List.foldl_cons, ih, List.reverse_cons, Nat.ofDigits_append, Nat.ofDigits_singleton,
      List.length_reverse, List.length_cons, Nat.pow_succ]
    ring

/-- What `strtoull` reads is the number. -/
theorem digitsValue_copyDigits (text : Bytes) (base : Radix) :
    digitsValue (copyDigits text none) base = number base.base text := by
  have fold := foldl_digits base.base ((text.filter (· ≠ underscore)).map digitValue) 0
  rw [List.foldl_map, Nat.mul_zero, Nat.add_zero] at fold
  rw [digitsValue, copyDigits_none, fold, number]

theorem digitOrSeparator_iff {b : Byte} :
    (b == underscore || isDigitInBase b base) = true ↔ DigitOrSeparator base b := by
  rw [Bool.or_eq_true, beq_iff_eq]
  rfl

theorem spanDigits_eq_iff :
    spanDigits text base = text.length ↔ ∀ b ∈ text, DigitOrSeparator base b := by
  unfold spanDigits
  constructor
  · intro whole b member
    have prefix_ := List.takeWhile_prefix (p := fun b => b == underscore || isDigitInBase b base)
      (l := text)
    have same := prefix_.eq_of_length whole
    rw [← same] at member
    have accepted := List.mem_takeWhile_imp member
    exact digitOrSeparator_iff.mp accepted
  · intro all
    rw [List.takeWhile_eq_self_iff.mpr fun b member => digitOrSeparator_iff.mpr (all b member)]

/-- Digits end where something else begins. -/
theorem spanDigits_append {rest : Bytes} (all : ∀ b ∈ text, DigitOrSeparator base b)
    (stops : ∀ b ∈ rest.head?, ¬ DigitOrSeparator base b) :
    spanDigits (text ++ rest) base = text.length := by
  have whole := spanDigits_eq_iff.mpr all
  unfold spanDigits at whole ⊢
  have kept : ∀ b ∈ text, (b == underscore || isDigitInBase b base) = true :=
    fun b member => digitOrSeparator_iff.mpr (all b member)
  rw [List.takeWhile_append_of_pos kept, List.length_append]
  cases rest with
  | nil => rfl
  | cons b rest =>
    have stop := stops b rfl
    have other : (b == underscore || isDigitInBase b base) = false := by
      rw [Bool.eq_false_iff, ne_eq, digitOrSeparator_iff]
      exact stop
    rw [List.takeWhile_cons, if_neg (by rw [other]; exact Bool.false_ne_true)]
    rfl

/-- What is reported for digits of a base. -/
theorem parseUintDigits_eq (digit : ∃ b ∈ text, b ≠ underscore) :
    parseUintDigits text base =
      if number base.base text < 2 ^ 64 then .ok (number base.base text) else .error .overflow := by
  obtain ⟨b, member, other⟩ := digit
  have nonempty : copyDigits text none ≠ [] := by
    rw [copyDigits_none]
    apply List.ne_nil_of_mem
    exact List.mem_filter.mpr ⟨member, decide_eq_true other⟩
  have limit : uint64Max = 2 ^ 64 - 1 := rfl
  unfold parseUintDigits
  simp only [nonempty, if_false, digitsValue_copyDigits]
  split
  · rw [if_neg (by omega)]
  · rw [if_pos (by omega)]

theorem parseUintDigits_separators (none : ∀ b ∈ text, b = underscore) :
    parseUintDigits text base = .error .parseFailure := by
  have empty : copyDigits text Option.none = [] := by
    rw [copyDigits_none, List.filter_eq_nil_iff]
    intro b member
    simp [none b member]
  unfold parseUintDigits
  rw [empty]
  rfl

end Digits

/-! ## Components -/

section Components

variable {text : Bytes} {m n : Nat}

theorem not_digit_colon : isDigit colon = false := rfl

theorem colon_or_nil (h : Sexagesimal text m n) : text = [] ∨ ∃ rest, text = colon :: rest := by
  cases h with
  | nil => exact .inl rfl
  | one | two => exact .inr ⟨_, rfl⟩

/-- The scanner stops where something else begins. -/
theorem spanBase60_append {rest : Bytes} (h : Sexagesimal text m n)
    (stops : ∀ b ∈ rest.head?, isDigit b = false ∧ b ≠ colon) :
    spanBase60 (text ++ rest) = text.length := by
  induction h with
  | nil =>
    cases rest with
    | nil => rfl
    | cons b rest =>
      cases rest with
      | nil => rfl
      | cons c rest =>
        have other : ¬ (b = colon ∧ isDigit c = true) := fun start => (stops b rfl).2 start.1
        rw [List.nil_append]
        unfold spanBase60
        exact if_neg other
  | one digit more ih =>
    rename_i ones text m n
    have other : ∀ b ∈ (text ++ rest).head?, isDigit b = false := by
      rcases colon_or_nil more with rfl | ⟨_, rfl⟩
      · exact fun b head => (stops b head).1
      · rintro _ ⟨⟩
        exact not_digit_colon
    rw [List.cons_append, List.cons_append, List.length_cons, List.length_cons, ← ih]
    cases after : text ++ rest with
    | nil => simp [spanBase60, digit]
    | cons b after' =>
      have noDigit := other b (by rw [after]; rfl)
      simp only [spanBase60, digit, and_self, if_true, noDigit, Bool.false_eq_true, if_false]
      exact Nat.add_comm 2 _
  | two low digit more ih =>
    rename_i tens ones text m n
    have tensDigit : isDigit tens = true := by
      rw [isDigit_iff]
      omega
    have small : ¬ tens > 53 := by
      rw [gt_iff_lt, UInt8.lt_iff_toNat_lt]
      exact Nat.not_lt.mpr low.2
    rw [List.cons_append, List.cons_append, List.cons_append]
    simp only [spanBase60, tensDigit, digit, and_self, if_true, small, if_false]
    rw [ih, List.length_cons, List.length_cons, List.length_cons]
    omega

theorem spanBase60_of_sexagesimal (h : Sexagesimal text m n) : spanBase60 text = text.length := by
  have alone := @spanBase60_append text m n [] h nofun
  rwa [List.append_nil] at alone

/-- A text that is split behind the components that it begins with. -/
theorem spanBase60_split (text : Bytes) : ∃ components rest, text = components ++ rest ∧
    spanBase60 text = components.length ∧ ∀ m, ∃ n, Sexagesimal components m n := by
  fun_induction spanBase60 text with
  | case1 | case5 | case6 => exact ⟨[], _, rfl, rfl, fun m => ⟨m, .nil⟩⟩
  | case2 colon' tens start ones rest digit low ih =>
    obtain ⟨rfl, tensDigit⟩ := start
    rw [isDigit_iff] at tensDigit
    have most : tens.toNat ≤ 53 := by
      have le := UInt8.not_lt.mp low
      exact UInt8.le_iff_toNat_le.mp le
    obtain ⟨components, after, rfl, span, more⟩ := ih
    refine ⟨colon :: tens :: ones :: components, after, rfl, ?_, fun m => ?_⟩
    · rw [span, List.length_cons, List.length_cons, List.length_cons]
      omega
    · obtain ⟨n, h⟩ := more (m * 60 + (digitValue tens * 10 + digitValue ones))
      exact ⟨n, .two ⟨tensDigit.1, most⟩ digit h⟩
  | case3 colon' tens start ones rest other ih =>
    obtain ⟨rfl, tensDigit⟩ := start
    obtain ⟨components, after, eq, span, more⟩ := ih
    refine ⟨colon :: tens :: components, after, by rw [eq]; rfl, ?_, fun m => ?_⟩
    · rw [span, List.length_cons, List.length_cons]
      omega
    · obtain ⟨n, h⟩ := more (m * 60 + digitValue tens)
      exact ⟨n, .one tensDigit h⟩
  | case4 colon' tens start =>
    obtain ⟨rfl, tensDigit⟩ := start
    exact ⟨[colon, tens], [], rfl, rfl, fun m => ⟨_, .one tensDigit .nil⟩⟩

theorem sexagesimal_of_spanBase60 (h : spanBase60 text = text.length) (m : Nat) :
    ∃ n, Sexagesimal text m n := by
  obtain ⟨components, rest, rfl, span, more⟩ := spanBase60_split text
  rw [span, List.length_append] at h
  have empty : rest = [] := List.length_eq_zero_iff.mp (by omega)
  rw [empty, List.append_nil]
  exact more m

theorem sexagesimal_le (h : Sexagesimal text m n) : m ≤ n := by
  induction h with
  | nil => exact Nat.le_refl _
  | one digit more ih => omega
  | two low digit more ih => omega

theorem digitValue_eq {b : Byte} (digit : isDigit b = true) : b.toNat - 48 = digitValue b := by
  rw [digitValue, if_pos digit]

theorem digitValue_le {b : Byte} (digit : isDigit b = true) : digitValue b ≤ 9 := by
  rw [← digitValue_eq digit]
  rw [isDigit_iff] at digit
  omega

/-- The check before a component is added. -/
theorem base60_overflows {component : Nat} (small : component ≤ 99) :
    m > (uint64Max - component) / radixSexagesimal ↔ 2 ^ 64 ≤ m * 60 + component := by
  have limit : uint64Max = 2 ^ 64 - 1 := rfl
  unfold radixSexagesimal
  omega

/-- A round of the loop, where a component of one digit is all there is before the
next colon. -/
theorem base60Components_one {ones : Byte} (start : text = [] ∨ ∃ rest, text = colon :: rest)
    (m : Nat) : base60Components (colon :: ones :: text) m =
      if m > (uint64Max - (ones.toNat - 48)) / radixSexagesimal then .error .overflow
      else base60Components text (m * radixSexagesimal + (ones.toNat - 48)) := by
  rcases start with rfl | ⟨rest, rfl⟩
  · simp [base60Components]
  · rw [base60Components, if_neg (not_not.mpr rfl)]

/-- The loop over the components reports the number, if it fits. -/
theorem base60Components_eq (h : Sexagesimal text m n) (small : m < 2 ^ 64) :
    base60Components text m = if n < 2 ^ 64 then .ok n else .error .overflow := by
  induction h with
  | nil =>
    rw [if_pos small]
    rfl
  | one digit more ih =>
    have low := digitValue_le digit
    have le := sexagesimal_le more
    rw [base60Components_one (colon_or_nil more), digitValue_eq digit]
    split
    case isTrue over_ =>
      have over_ := (base60_overflows (by omega)).mp over_
      rw [if_neg (by omega)]
    case isFalse fits =>
      rw [base60_overflows (by omega)] at fits
      exact ih (Nat.lt_of_not_le fits)
  | two low digit more ih =>
    rename_i tens ones rest m n
    have tensDigit : isDigit tens = true := by
      rw [isDigit_iff]
      omega
    have low_tens := digitValue_le tensDigit
    have low_ones := digitValue_le digit
    have le := sexagesimal_le more
    have other : ones ≠ colon := by
      rintro rfl
      cases digit
    rw [base60Components, if_pos other, digitValue_eq digit, digitValue_eq tensDigit]
    dsimp only
    split
    case isTrue over_ =>
      have over_ := (base60_overflows (by omega)).mp over_
      rw [if_neg (by omega)]
    case isFalse fits =>
      rw [base60_overflows (by omega)] at fits
      exact ih (Nat.lt_of_not_le fits)

end Components

/-! ## The recognizer -/

section Recognizer

variable {text : Bytes} {n : Nat}

/-- A text with a leading zero. -/
theorem parseMagnitude_zero {rest : Bytes} (nonempty : rest ≠ []) :
    parseMagnitude (zeroDigit :: rest) =
      if rest.head? = some 98 then
        if spanDigits (rest.drop 1) .bin = (rest.drop 1).length then
          parseUintDigits (rest.drop 1) .bin
        else .error .parseFailure
      else if rest.head? = some 120 then
        if spanDigits (rest.drop 1) .hex = (rest.drop 1).length then
          parseUintDigits (rest.drop 1) .hex
        else .error .parseFailure
      else
        if spanDigits (zeroDigit :: rest) .oct = (zeroDigit :: rest).length then
          parseUintDigits (zeroDigit :: rest) .oct
        else .error .parseFailure := by
  have digit : isDigit zeroDigit = true := rfl
  unfold parseMagnitude
  simp only [digit, Bool.true_eq_false, if_false, nonempty, ne_eq, not_false_eq_true, and_self,
    if_true]
  by_cases binary : rest.head? = some 98
  · simp [binary]
  · by_cases hexadecimal : rest.head? = some 120
    · simp [hexadecimal]
    · simp [binary, hexadecimal]

theorem Leading.digit (h : Leading text) : ∃ b ∈ text, b ≠ underscore := by
  obtain ⟨b, rest, rfl, -, le⟩ := h.first
  refine ⟨b, List.mem_cons_self, ?_⟩
  rintro rfl
  exact absurd le (by decide)

/-- A text without a leading zero. -/
theorem parseMagnitude_leading {components : Bytes} (h : Leading text)
    (stops : ∀ b ∈ components.head?, ¬ DigitOrSeparator .dec b) :
    parseMagnitude (text ++ components) =
      if components = [] then parseUintDigits text .dec
      else if spanBase60 components ≠ components.length then .error .parseFailure
      else
        parseUintDigits text .dec >>= base60Components components := by
  have span := spanDigits_append h.digits stops
  obtain ⟨b, rest, rfl, low, high⟩ := h.first
  have digit : isDigit b = true := by
    rw [isDigit_iff]
    omega
  have nonzero : b ≠ zeroDigit := by
    rintro rfl
    exact absurd low (by decide)
  rw [List.cons_append] at span ⊢
  unfold parseMagnitude
  simp only [digit, Bool.true_eq_false, if_false, nonzero, false_and, false_or, span]
  cases components with
  | nil => simp
  | cons c components =>
    have more : ¬ (b :: rest).length = (b :: (rest ++ c :: components)).length := by
      simp
    rw [if_neg more, if_neg (List.cons_ne_nil _ _)]
    have parts : b :: (rest ++ c :: components) = (b :: rest) ++ (c :: components) := rfl
    rw [parts, List.drop_left, List.take_left, List.length_append]
    simp only [ne_eq, Nat.add_left_cancel_iff]

theorem parseMagnitude_of_unsigned (h : Unsigned text n) :
    parseMagnitude text = if n < 2 ^ 64 then .ok n else .error .overflow := by
  cases h with
  | zero => rfl
  | decimal leading =>
    have alone := @parseMagnitude_leading text [] leading nofun
    rw [List.append_nil, if_pos rfl] at alone
    rw [alone, parseUintDigits_eq leading.digit]
    rfl
  | sexagesimal leading nonempty more =>
    rename_i lead components
    have stops : ∀ b ∈ components.head?, ¬ DigitOrSeparator .dec b := by
      rcases colon_or_nil more with rfl | ⟨rest, rfl⟩
      · nofun
      · rintro _ ⟨⟩ (h | h) <;> cases h
    rw [parseMagnitude_leading leading stops, if_neg nonempty,
      if_neg (not_not.mpr (spanBase60_of_sexagesimal more)), parseUintDigits_eq leading.digit]
    have le := sexagesimal_le more
    change (if number 10 lead < 2 ^ 64 then Except.ok (number 10 lead) else .error .overflow) >>=
      base60Components components = _
    split
    case isTrue small => exact base60Components_eq more small
    case isFalse large =>
      rw [if_neg (by omega)]
      rfl
  | octal nonempty all =>
    rename_i digits
    obtain ⟨b, rest, rfl⟩ := List.exists_cons_of_ne_nil nonempty
    have first := all b List.mem_cons_self
    have octal : b ≠ 98 ∧ b ≠ 120 := by
      constructor
      · rintro rfl
        rcases first with h | h <;> cases h
      · rintro rfl
        rcases first with h | h <;> cases h
    have span : ∀ c ∈ zeroDigit :: b :: rest, DigitOrSeparator .oct c := by
      intro c member
      rcases List.mem_cons.mp member with rfl | member
      · exact .inr rfl
      · exact all c member
    rw [parseMagnitude_zero nonempty]
    simp only [List.head?_cons, Option.some.injEq, octal, if_false]
    rw [if_pos (spanDigits_eq_iff.mpr span),
      parseUintDigits_eq ⟨zeroDigit, List.mem_cons_self, by decide⟩]
    rfl
  | binary all digit =>
    rw [parseMagnitude_zero (List.cons_ne_nil _ _)]
    simp only [List.head?_cons, if_true, List.drop_one, List.tail_cons]
    rw [if_pos (spanDigits_eq_iff.mpr all), parseUintDigits_eq digit]
    rfl
  | hexadecimal all digit =>
    rw [parseMagnitude_zero (List.cons_ne_nil _ _)]
    simp only [List.head?_cons, if_true, List.drop_one, List.tail_cons]
    rw [if_neg (by decide), if_pos (spanDigits_eq_iff.mpr all), parseUintDigits_eq digit]
    rfl

/-- Digits of a base after a prefix, which are taken. -/
theorem digits_of_parse {base : Radix}
    (h : (if spanDigits text base = text.length then parseUintDigits text base
      else .error .parseFailure) ≠ .error .parseFailure) :
    (∀ b ∈ text, DigitOrSeparator base b) ∧ ∃ b ∈ text, b ≠ underscore := by
  by_cases whole : spanDigits text base = text.length
  · rw [if_pos whole] at h
    refine ⟨spanDigits_eq_iff.mp whole, ?_⟩
    by_contra separators
    push Not at separators
    exact h (parseUintDigits_separators separators)
  · rw [if_neg whole] at h
    exact (h rfl).elim

/-- A text that is split behind its digits. -/
theorem leading_split (text : Bytes) : ∃ digits components, text = digits ++ components ∧
    (∀ b ∈ digits, DigitOrSeparator .dec b) ∧
      ∀ b ∈ components.head?, ¬ DigitOrSeparator .dec b := by
  let p : Byte → Bool := fun b => b == underscore || isDigitInBase b .dec
  refine ⟨text.takeWhile p, text.dropWhile p, (List.takeWhile_append_dropWhile).symm, ?_, ?_⟩
  · intro b member
    have taken : p b = true := List.mem_takeWhile_imp member
    exact digitOrSeparator_iff.mp taken
  · intro b member digit
    have stop := List.head?_dropWhile_not p text
    rw [Option.mem_def.mp member] at stop
    have taken : p b = true := digitOrSeparator_iff.mpr digit
    exact absurd taken (by simp [stop])

theorem unsigned_of_parseMagnitude (h : parseMagnitude text ≠ .error .parseFailure) :
    ∃ n, Unsigned text n := by
  cases text with
  | nil => exact (h rfl).elim
  | cons first rest =>
    by_cases digit : isDigit first = true
    · by_cases zero : first = zeroDigit
      · subst zero
        by_cases alone : rest = []
        · subst alone
          exact ⟨0, .zero⟩
        · rw [parseMagnitude_zero alone] at h
          obtain ⟨b, digits, rfl⟩ := List.exists_cons_of_ne_nil alone
          simp only [List.head?_cons, Option.some.injEq, List.drop_one, List.tail_cons] at h
          by_cases binary : b = 98
          · rw [if_pos binary] at h
            obtain ⟨all, written⟩ := digits_of_parse h
            subst binary
            exact ⟨_, .binary all written⟩
          · rw [if_neg binary] at h
            by_cases hexadecimal : b = 120
            · rw [if_pos hexadecimal] at h
              obtain ⟨all, written⟩ := digits_of_parse h
              subst hexadecimal
              exact ⟨_, .hexadecimal all written⟩
            · rw [if_neg hexadecimal] at h
              obtain ⟨all, -⟩ := digits_of_parse h
              exact ⟨_, .octal alone fun c member => all c (List.mem_cons_of_mem _ member)⟩
      · obtain ⟨digits, components, split_, all, stops⟩ := leading_split (first :: rest)
        have leading : Leading digits := by
          rw [isDigit_iff] at digit
          refine ⟨?_, all⟩
          cases digits with
          | nil =>
            have head := stops first (by rw [← List.nil_append components, ← split_]; rfl)
            exact (head (.inr ((isDigit_iff first).mpr digit))).elim
          | cons b digits =>
            cases split_
            have other : first.toNat ≠ 48 := fun eq => zero (UInt8.toNat_inj.mp eq)
            exact ⟨first, digits, rfl, by omega, by omega⟩
        rw [split_] at h ⊢
        rw [parseMagnitude_leading leading stops] at h
        by_cases alone : components = []
        · rw [alone, List.append_nil]
          exact ⟨_, .decimal leading⟩
        · rw [if_neg alone] at h
          by_cases span : spanBase60 components = components.length
          · obtain ⟨n, more⟩ := sexagesimal_of_spanBase60 span (number 10 digits)
            exact ⟨n, .sexagesimal leading alone more⟩
          · rw [if_pos span] at h
            exact (h rfl).elim
    · have other : isDigit first = false := Bool.eq_false_iff.mpr digit
      unfold parseMagnitude at h
      simp only [other, if_true] at h
      exact (h rfl).elim

theorem skipSign_unsigned (h : Unsigned text n) :
    hasSign text = false ∧ text.head? ≠ some minus := by
  have digit : ∃ b rest, text = b :: rest ∧ isDigit b = true := by
    cases h with
    | zero => exact ⟨_, _, rfl, rfl⟩
    | decimal leading =>
      obtain ⟨b, rest, rfl, low, high⟩ := leading.first
      exact ⟨b, rest, rfl, (isDigit_iff b).mpr (by omega)⟩
    | sexagesimal leading nonempty more =>
      obtain ⟨b, rest, rfl, low, high⟩ := leading.first
      exact ⟨b, _, rfl, (isDigit_iff b).mpr (by omega)⟩
    | octal | binary | hexadecimal => exact ⟨_, _, rfl, rfl⟩
  obtain ⟨b, rest, rfl, digit⟩ := digit
  have noMinus : b ≠ minus := by
    rintro rfl
    cases digit
  have noPlus : b ≠ plus := by
    rintro rfl
    cases digit
  constructor
  · simp [hasSign, noMinus, noPlus]
  · simp [noMinus]

/-- What the recognizer makes of an integer. -/
theorem yamlScalarIsInt_of_intText {negative : Bool} (h : IntText text negative n) :
    yamlScalarIsInt text = if n < 2 ^ 64 then .ok (negative, n) else .error .overflow := by
  unfold yamlScalarIsInt
  cases h with
  | bare h =>
    obtain ⟨unsigned, other⟩ := skipSign_unsigned h
    rw [skipSign, unsigned, if_neg Bool.false_ne_true, parseMagnitude_of_unsigned h]
    split
    · simp [Except.map, other]
    · rfl
  | plus h =>
    rename_i body
    have skipped : skipSign (plus :: body) = body := rfl
    rw [skipped, parseMagnitude_of_unsigned h]
    split <;> rfl
  | minus h =>
    rename_i body
    have skipped : skipSign (minus :: body) = body := rfl
    rw [skipped, parseMagnitude_of_unsigned h]
    split <;> rfl

/-- The recognizer rejects what is no integer. -/
theorem intText_of_yamlScalarIsInt (h : yamlScalarIsInt text ≠ .error .parseFailure) :
    ∃ negative n, IntText text negative n := by
  have parsed : parseMagnitude (skipSign text) ≠ .error .parseFailure := by
    intro eq
    rw [yamlScalarIsInt, eq] at h
    exact h rfl
  obtain ⟨n, unsigned⟩ := unsigned_of_parseMagnitude parsed
  by_cases sign : hasSign text = true
  · cases text with
    | nil => cases sign
    | cons first rest =>
      rw [skipSign, if_pos sign] at unsigned
      rcases Bool.or_eq_true_iff.mp sign with isMinus | isPlus
      · rw [eq_of_beq isMinus]
        exact ⟨true, n, .minus unsigned⟩
      · rw [eq_of_beq isPlus]
        exact ⟨false, n, .plus unsigned⟩
  · rw [skipSign, if_neg sign] at unsigned
    exact ⟨false, n, .bare unsigned⟩

/-- The recognizer takes just the integers of the grammar, and reports the number that
is written, or an overflow where it has more than 64 bits. -/
theorem int_scalar (scalar : Bytes) :
    ((∃ negative magnitude, yamlScalarIsInt scalar = .ok (negative, magnitude)) ∨
        yamlScalarIsInt scalar = .error .overflow ↔ ∃ negative n, IntText scalar negative n) ∧
      (∀ negative n, IntText scalar negative n →
        (∀ sign magnitude, yamlScalarIsInt scalar = .ok (sign, magnitude) →
          sign = negative ∧ magnitude = n) ∧
        (yamlScalarIsInt scalar = .error .overflow ↔ 2 ^ 64 ≤ n)) := by
  constructor
  · constructor
    · rintro (⟨negative, magnitude, eq⟩ | eq) <;>
      · apply intText_of_yamlScalarIsInt
        rw [eq]
        nofun
    · rintro ⟨negative, n, h⟩
      rw [yamlScalarIsInt_of_intText h]
      by_cases small : n < 2 ^ 64
      · exact .inl ⟨negative, n, if_pos small⟩
      · exact .inr (if_neg small)
  · intro negative n h
    rw [yamlScalarIsInt_of_intText h]
    by_cases small : n < 2 ^ 64
    · rw [if_pos small]
      constructor
      · rintro sign magnitude ⟨⟩
        exact ⟨rfl, rfl⟩
      · exact ⟨nofun, fun large => absurd small (Nat.not_lt.mpr large)⟩
    · rw [if_neg small]
      exact ⟨nofun, fun _ => Nat.le_of_not_lt small, fun _ => rfl⟩

/-- `1:30` -/
theorem int_scalar_minutes : IntText [49, 58, 51, 48] false 90 ∧
    ((∀ sign magnitude, yamlScalarIsInt [49, 58, 51, 48] = .ok (sign, magnitude) →
        sign = false ∧ magnitude = 90) ∧
      (yamlScalarIsInt [49, 58, 51, 48] = .error .overflow ↔ 2 ^ 64 ≤ 90)) := by
  have leading : Leading [49] := by
    refine ⟨⟨49, [], rfl, by decide, by decide⟩, ?_⟩
    rintro b (⟨⟩ | ⟨_, ⟨⟩⟩)
    exact .inr rfl
  have more : Sexagesimal [58, 51, 48] (number 10 [49]) 90 :=
    .two ⟨by decide, by decide⟩ rfl .nil
  have minutes : IntText [49, 58, 51, 48] false 90 := .bare (.sexagesimal leading nofun more)
  exact ⟨minutes, (int_scalar [49, 58, 51, 48]).2 false 90 minutes⟩

end Recognizer

end LibAsdf
