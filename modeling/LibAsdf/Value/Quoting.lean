import LibAsdf.Value.Build
import LibAsdf.Yaml.IntGrammar

/-!
# Quoted strings

What YAML reads from the single-quoted text that an ambiguous string is built from.

* `unquoteSingle`: the rules for single-quoted scalars;
* `unquoteSingle_singleQuote_iff`: they only alter strings with line breaks;
* `oneLine_of_flagged`: what starts like a timestamp may have some, and nothing else
  that is ambiguous;
* `quoted_string`: the ambiguous strings that are read as they were.
-/

namespace LibAsdf

/-! ## Single-quoted scalars -/

/-- A line feed or a carriage return: the line breaks of YAML 1.2. The next line, the line
separator and the paragraph separator, which are line breaks of YAML 1.1, are none. -/
def isLineBreak (chr : Byte) : Bool := chr == 10 || chr == 13

/-- A space or a tab. -/
def isBlank (chr : Byte) : Bool := chr == 32 || chr == 9

/-- Lines that end with a line feed, where a carriage return or both ended them. -/
def normalizeBreaks (afterReturn : Bool) : Bytes → Bytes
  | [] => []
  | chr :: rest =>
    if chr = 13 then 10 :: normalizeBreaks true rest
    else if chr = 10 ∧ afterReturn = true then normalizeBreaks false rest
    else chr :: normalizeBreaks false rest

/-- What consecutive line breaks are read as: one as a space, and more as one less. -/
def foldedBreaks (breaks : Nat) : Bytes :=
  if breaks = 1 then [32] else List.replicate (breaks - 1) 10

/-- What is between two other characters: blanks, if there is no line break. -/
def foldedSpace (breaks : Nat) (blanks : Bytes) : Bytes :=
  if breaks = 0 then blanks else foldedBreaks breaks

/-- The folding of lines, with the line breaks and the blanks since the last other
character. -/
def foldLines (breaks : Nat) (blanks : Bytes) : Bytes → Bytes
  | [] => foldedSpace breaks blanks
  | chr :: rest =>
    if isBlank chr then foldLines breaks (blanks ++ [chr]) rest
    else if chr = 10 then foldLines (breaks + 1) [] rest
    else foldedSpace breaks blanks ++ chr :: foldLines 0 [] rest

/-- What YAML 1.2 reads from a single-quoted scalar. -/
def unquoteSingle : Bytes → Option Bytes
  | [] => none
  | open_ :: rest =>
    if open_ = 39 then (unquoteLine rest).map fun text => foldLines 0 [] (normalizeBreaks false text)
    else none

theorem unquoteSingle_singleQuote (str : Bytes) :
    unquoteSingle (singleQuote str) = some (foldLines 0 [] (normalizeBreaks false str)) := by
  unfold singleQuote
  rw [List.cons_append, unquoteSingle, if_pos rfl, unquoteLine_quoted]
  rfl

/-- There is no line break in the text. -/
def OneLine (text : Bytes) : Prop := ∀ chr ∈ text, isLineBreak chr = false

section Folding

variable {text blanks : Bytes} {breaks : Nat}

theorem oneLine_of_any (h : text.any isLineBreak = false) : OneLine text := by
  intro chr member
  rw [Bool.eq_false_iff]
  exact List.any_eq_false.mp h chr member

theorem OneLine.cons {chr : Byte} {rest : Bytes} (h : OneLine (chr :: rest)) :
    chr ≠ 10 ∧ chr ≠ 13 ∧ OneLine rest := by
  have first := h chr List.mem_cons_self
  simp only [isLineBreak, Bool.or_eq_false_iff, beq_eq_false_iff_ne] at first
  exact ⟨first.1, first.2, fun chr' member => h chr' (List.mem_cons_of_mem chr member)⟩

theorem normalizeBreaks_eq (h : OneLine text) (afterReturn : Bool) :
    normalizeBreaks afterReturn text = text := by
  induction text generalizing afterReturn with
  | nil => rfl
  | cons chr rest ih =>
    obtain ⟨lf, cr, later⟩ := h.cons
    rw [normalizeBreaks, if_neg cr, if_neg fun both => lf both.1, ih later]

theorem foldLines_eq (h : OneLine text) (blanks : Bytes) : foldLines 0 blanks text = blanks ++ text := by
  induction text generalizing blanks with
  | nil =>
    rw [List.append_nil]
    rfl
  | cons chr rest ih =>
    obtain ⟨lf, -, later⟩ := h.cons
    unfold foldLines
    rw [if_neg lf]
    split
    · rw [ih later, List.append_assoc]
      rfl
    · change blanks ++ chr :: foldLines 0 [] rest = _
      rw [ih later]
      rfl

/-- The number of line breaks. -/
def lineBreaks (text : Bytes) : Nat := text.countP isLineBreak

theorem lineBreaks_cons (chr : Byte) (rest : Bytes) :
    lineBreaks (chr :: rest) = lineBreaks rest + if isLineBreak chr = true then 1 else 0 :=
  List.countP_cons

theorem lineBreaks_normalizeBreaks (text : Bytes) (afterReturn : Bool) :
    lineBreaks (normalizeBreaks afterReturn text) ≤ lineBreaks text := by
  induction text generalizing afterReturn with
  | nil => exact Nat.le_refl _
  | cons chr rest ih =>
    unfold normalizeBreaks
    rw [lineBreaks_cons chr]
    split
    case isTrue return_ =>
      rw [return_, lineBreaks_cons]
      exact Nat.add_le_add_right (ih true) 1
    case isFalse =>
      have later := ih false
      split
      · omega
      · rw [lineBreaks_cons]
        omega

theorem mem_normalizeBreaks (h : ¬ OneLine text) : (10 : Byte) ∈ normalizeBreaks false text := by
  induction text with
  | nil => exact absurd (List.forall_mem_nil _) h
  | cons chr rest ih =>
    unfold normalizeBreaks
    split
    case isTrue => exact List.mem_cons_self
    case isFalse cr =>
      rw [if_neg fun both => Bool.false_ne_true both.2]
      by_cases lf : chr = 10
      · rw [lf]
        exact List.mem_cons_self
      · apply List.mem_cons_of_mem
        apply ih
        intro later
        apply h
        intro chr' member
        rcases List.mem_cons.mp member with rfl | member
        · simp [isLineBreak, lf, cr]
        · exact later chr' member

theorem lineBreaks_foldedSpace (oneLine : lineBreaks blanks = 0) :
    lineBreaks (foldedSpace breaks blanks) = breaks - 1 := by
  unfold foldedSpace foldedBreaks
  by_cases zero : breaks = 0
  · rw [if_pos zero, oneLine, zero]
  · rw [if_neg zero]
    by_cases one : breaks = 1
    · rw [if_pos one, one]
      rfl
    · rw [if_neg one]
      simp [lineBreaks, isLineBreak, List.countP_replicate]

/-- Folded lines have fewer line breaks than the text, unless that has none. -/
theorem lineBreaks_foldLines (oneLine : lineBreaks blanks = 0) :
    lineBreaks (foldLines breaks blanks text) ≤ breaks + lineBreaks text ∧
      (0 < breaks ∨ (10 : Byte) ∈ text →
        lineBreaks (foldLines breaks blanks text) < breaks + lineBreaks text) := by
  induction text generalizing breaks blanks with
  | nil =>
    have space := @lineBreaks_foldedSpace blanks breaks oneLine
    change lineBreaks (foldedSpace breaks blanks) ≤ breaks + 0 ∧
      (_ → lineBreaks (foldedSpace breaks blanks) < breaks + 0)
    rw [space]
    refine ⟨by omega, fun some_ => ?_⟩
    rcases some_ with pos | none
    · omega
    · cases none
  | cons chr rest ih =>
    unfold foldLines
    rw [lineBreaks_cons]
    split
    case isTrue blank =>
      have other : chr ≠ 10 ∧ isLineBreak chr = false := by
        unfold isBlank at blank
        rcases Bool.or_eq_true_iff.mp blank with eq | eq
        · rw [beq_iff_eq.mp eq]
          decide
        · rw [beq_iff_eq.mp eq]
          decide
      have more : lineBreaks (blanks ++ [chr]) = 0 := by
        unfold lineBreaks at oneLine ⊢
        rw [List.countP_append, oneLine, List.countP_singleton, other.2]
        rfl
      obtain ⟨most, fewer⟩ := @ih (blanks ++ [chr]) breaks more
      rw [other.2]
      refine ⟨most, fun some_ => fewer ?_⟩
      rcases some_ with pos | member
      · exact .inl pos
      · exact .inr ((List.mem_cons.mp member).resolve_left other.1.symm)
    case isFalse =>
      split
      case isTrue lf =>
        obtain ⟨-, fewer⟩ := @ih [] (breaks + 1) rfl
        have less := fewer (.inl (Nat.succ_pos _))
        have one : (if isLineBreak chr = true then 1 else 0) = 1 := by rw [lf]; rfl
        rw [one]
        exact ⟨by omega, fun _ => by omega⟩
      case isFalse lf =>
        have space := @lineBreaks_foldedSpace blanks breaks oneLine
        obtain ⟨most, fewer⟩ := @ih [] 0 rfl
        have sum : lineBreaks (foldedSpace breaks blanks ++ chr :: foldLines 0 [] rest) =
            breaks - 1 + lineBreaks (chr :: foldLines 0 [] rest) := by
          rw [← space]
          exact List.countP_append
        rw [sum, lineBreaks_cons]
        refine ⟨by omega, fun some_ => ?_⟩
        rcases some_ with pos | member
        · omega
        · have less := fewer (.inr ((List.mem_cons.mp member).resolve_left (Ne.symm lf)))
          omega

/-- A quoted string is read as it was, if it has no line break. -/
theorem unquoteSingle_singleQuote_iff (str : Bytes) :
    unquoteSingle (singleQuote str) = some str ↔ OneLine str := by
  rw [unquoteSingle_singleQuote, Option.some.injEq]
  constructor
  · intro same
    by_contra broken
    obtain ⟨-, fewer⟩ := @lineBreaks_foldLines (normalizeBreaks false str) [] 0 rfl
    have less := fewer (.inr (mem_normalizeBreaks broken))
    have kept := lineBreaks_normalizeBreaks str false
    rw [same] at less
    omega
  · intro oneLine
    rw [normalizeBreaks_eq oneLine, foldLines_eq oneLine]
    rfl

end Folding

/-! ## What is ambiguous -/

/-- The characters of numbers come behind the controls and the blanks. -/
def Graphic (text : Bytes) : Prop := ∀ chr ∈ text, 43 ≤ chr.toNat

section Recognized

variable {text : Bytes} {base : Radix}

theorem Graphic.oneLine (h : Graphic text) : OneLine text := by
  intro chr member
  have le := h chr member
  rw [Bool.eq_false_iff]
  intro break_
  unfold isLineBreak at break_
  rcases Bool.or_eq_true_iff.mp break_ with eq | eq
  · rw [beq_iff_eq.mp eq] at le
    exact absurd le (by decide)
  · rw [beq_iff_eq.mp eq] at le
    exact absurd le (by decide)

def isGraphic (text : Bytes) : Bool := text.all fun chr => 43 ≤ chr.toNat

theorem graphic_of_all (h : isGraphic text = true) : Graphic text :=
  fun chr member => of_decide_eq_true (List.all_eq_true.mp h chr member)

theorem graphic_nil : Graphic [] := List.forall_mem_nil _

theorem graphic_cons {chr : Byte} (first : 43 ≤ chr.toNat) (rest : Graphic text) :
    Graphic (chr :: text) := by
  intro chr' member
  rcases List.mem_cons.mp member with rfl | member
  · exact first
  · exact rest chr' member

theorem Graphic.append {text' : Bytes} (h : Graphic text) (h' : Graphic text') :
    Graphic (text ++ text') := by
  intro chr member
  rcases List.mem_append.mp member with member | member
  · exact h chr member
  · exact h' chr member

theorem graphic_split (n : Nat) (start : Graphic (text.take n)) (rest : Graphic (text.drop n)) :
    Graphic text := by
  rw [← List.take_append_drop n text]
  exact start.append rest

theorem graphic_digit {chr : Byte} (digit : isDigit chr = true) : 43 ≤ chr.toNat := by
  rw [isDigit_iff] at digit
  omega

theorem graphic_digitOrSeparator {chr : Byte} (h : DigitOrSeparator base chr) : 43 ≤ chr.toNat := by
  rcases h with rfl | digit
  · decide
  · cases base with
    | bin =>
      rcases Bool.or_eq_true_iff.mp digit with eq | eq
      · rw [beq_iff_eq.mp eq]
        decide
      · rw [beq_iff_eq.mp eq]
        decide
    | oct =>
      have low := UInt8.le_iff_toNat_le.mp (of_decide_eq_true (Bool.and_eq_true_iff.mp digit).1)
      exact Nat.le_trans (by decide) low
    | dec => exact graphic_digit digit
    | hex =>
      rcases Bool.or_eq_true_iff.mp digit with digit | upper
      · rcases Bool.or_eq_true_iff.mp digit with digit | lower
        · exact graphic_digit digit
        · have low := UInt8.le_iff_toNat_le.mp (of_decide_eq_true (Bool.and_eq_true_iff.mp lower).1)
          exact Nat.le_trans (by decide) low
      · have low := UInt8.le_iff_toNat_le.mp (of_decide_eq_true (Bool.and_eq_true_iff.mp upper).1)
        exact Nat.le_trans (by decide) low

theorem graphic_sexagesimal {m n : Nat} (h : Sexagesimal text m n) : Graphic text := by
  induction h with
  | nil => exact graphic_nil
  | one digit more ih => exact graphic_cons (by decide) (graphic_cons (graphic_digit digit) ih)
  | two low digit more ih =>
    exact graphic_cons (by decide)
      (graphic_cons (by omega) (graphic_cons (graphic_digit digit) ih))

theorem graphic_unsigned {n : Nat} (h : Unsigned text n) : Graphic text := by
  cases h with
  | zero => exact graphic_cons (by decide) graphic_nil
  | decimal leading => exact fun chr member => graphic_digitOrSeparator (leading.digits chr member)
  | sexagesimal leading nonempty more =>
    have first : Graphic _ := fun chr member => graphic_digitOrSeparator (leading.digits chr member)
    exact first.append (graphic_sexagesimal more)
  | octal nonempty all =>
    exact graphic_cons (by decide) fun chr member => graphic_digitOrSeparator (all chr member)
  | binary all digit =>
    exact graphic_cons (by decide)
      (graphic_cons (by decide) fun chr member => graphic_digitOrSeparator (all chr member))
  | hexadecimal all digit =>
    exact graphic_cons (by decide)
      (graphic_cons (by decide) fun chr member => graphic_digitOrSeparator (all chr member))

theorem graphic_int (h : yamlScalarIsInt text ≠ .error .parseFailure) : Graphic text := by
  obtain ⟨negative, n, int⟩ := intText_of_yamlScalarIsInt h
  cases int with
  | bare h => exact graphic_unsigned h
  | plus h => exact graphic_cons (by decide) (graphic_unsigned h)
  | minus h => exact graphic_cons (by decide) (graphic_unsigned h)

theorem graphic_skipSign (h : Graphic (skipSign text)) : Graphic text := by
  unfold skipSign at h
  split at h
  case isFalse => exact h
  case isTrue signed =>
    cases text with
    | nil => exact graphic_nil
    | cons chr rest =>
      apply graphic_cons _ h
      rcases Bool.or_eq_true_iff.mp signed with eq | eq
      · rw [beq_iff_eq.mp eq]
        decide
      · rw [beq_iff_eq.mp eq]
        decide

theorem graphic_spanDigits (text : Bytes) (base : Radix) :
    Graphic (text.take (spanDigits text base)) := by
  have prefix_ := List.takeWhile_prefix (p := fun b => b == underscore || isDigitInBase b base)
    (l := text)
  unfold spanDigits
  rw [← List.prefix_iff_eq_take.mp prefix_]
  intro chr member
  have accepted := List.mem_takeWhile_imp member
  exact graphic_digitOrSeparator (digitOrSeparator_iff.mp accepted)

theorem graphic_spanDigits_all (h : spanDigits text base = text.length) : Graphic text := by
  have start := graphic_spanDigits text base
  rwa [h, List.take_length] at start

theorem graphic_spanDecimalInt (text : Bytes) : Graphic (text.take (spanDecimalInt text)) := by
  unfold spanDecimalInt
  split
  · split
    · exact graphic_spanDigits _ _
    · exact graphic_nil
  · exact graphic_nil

theorem graphic_spanExponent (h : spanExponent text = text.length) : Graphic text := by
  cases text with
  | nil => exact graphic_nil
  | cons first rest =>
    unfold spanExponent at h
    dsimp only at h
    split at h
    case isFalse => cases h
    case isTrue letter =>
      split at h
      case isTrue => cases h
      case isFalse =>
        have shorter : (skipSign rest).length ≤ rest.length := by
          unfold skipSign
          split
          · rw [List.length_drop]
            exact Nat.sub_le _ _
          · exact Nat.le_refl _
        rw [List.length_cons] at h
        have whole : ((skipSign rest).takeWhile isDigit).length = (skipSign rest).length := by omega
        have digits := (List.takeWhile_prefix isDigit).eq_of_length whole
        apply graphic_cons
        · rcases letter with rfl | rfl <;> decide
        · apply graphic_skipSign
          intro chr member
          rw [← digits] at member
          exact graphic_digit (List.mem_takeWhile_imp member)

theorem graphic_spanBase60 (text : Bytes) : Graphic (text.take (spanBase60 text)) := by
  fun_induction spanBase60 text with
  | case1 => exact graphic_nil
  | case2 colon' tens start ones rest digit low ih =>
    obtain ⟨rfl, tensDigit⟩ := start
    rw [Nat.add_comm, List.take_succ_cons, List.take_succ_cons, List.take_succ_cons]
    exact graphic_cons (by decide) (graphic_cons (graphic_digit tensDigit)
      (graphic_cons (graphic_digit digit) ih))
  | case3 colon' tens start ones rest other ih =>
    obtain ⟨rfl, tensDigit⟩ := start
    rw [Nat.add_comm, List.take_succ_cons, List.take_succ_cons]
    exact graphic_cons (by decide) (graphic_cons (graphic_digit tensDigit) ih)
  | case4 colon' tens start =>
    obtain ⟨rfl, tensDigit⟩ := start
    exact graphic_cons (by decide) (graphic_cons (graphic_digit tensDigit) graphic_nil)
  | case5 => exact graphic_nil
  | case6 => exact graphic_nil

/-- A point, and what is behind it. -/
theorem graphic_dot {rest : Bytes} (point : rest.head? = some dot) (behind : Graphic (rest.drop 1)) :
    Graphic rest := by
  cases rest with
  | nil => exact graphic_nil
  | cons chr rest =>
    cases point
    exact graphic_cons (by decide) behind

theorem graphic_decimal {allowInt : Bool} (h : isDecimalFloat text allowInt = true) :
    Graphic text := by
  apply graphic_skipSign
  apply graphic_split (spanDecimalInt (skipSign text)) (graphic_spanDecimalInt _)
  unfold isDecimalFloat at h
  dsimp only at h
  split at h
  case isTrue point =>
    split at h
    case isTrue => cases h
    case isFalse =>
      apply graphic_dot (of_decide_eq_true point)
      apply graphic_split _ (graphic_spanDigits _ .dec)
      rw [List.drop_drop]
      exact graphic_spanExponent (of_decide_eq_true h)
  case isFalse =>
    split at h
    case isTrue => cases h
    case isFalse => exact graphic_spanExponent (of_decide_eq_true (Bool.and_eq_true_iff.mp h).1)

theorem graphic_base60 (h : isBase60Float text = true) : Graphic text := by
  apply graphic_skipSign
  apply graphic_split (spanDecimalInt (skipSign text)) (graphic_spanDecimalInt _)
  apply graphic_split _ (graphic_spanBase60 _)
  unfold isBase60Float at h
  simp only [Bool.and_eq_true, decide_eq_true_eq] at h
  obtain ⟨⟨-, point⟩, digits⟩ := h
  apply graphic_dot point
  apply @graphic_spanDigits_all _ .dec
  exact digits.trans (@List.length_drop _ 1 _).symm

theorem graphic_special {fl : Floats} {value : UInt64} (h : yamlSpecialFloat fl text = some value) :
    Graphic text := by
  have inf : ∀ str ∈ infStrs, Graphic str := fun str member =>
    graphic_of_all (List.all_eq_true.mp (by decide : infStrs.all isGraphic = true) str member)
  have nan : ∀ str ∈ nanStrs, Graphic str := fun str member =>
    graphic_of_all (List.all_eq_true.mp (by decide : nanStrs.all isGraphic = true) str member)
  unfold yamlSpecialFloat at h
  dsimp only at h
  by_cases signed : (decide (text.length = 5) && hasSign text) = true
  · have sign := (Bool.and_eq_true_iff.mp signed).2
    simp only [signed, if_true] at h
    split at h
    case isTrue found =>
      apply graphic_skipSign
      unfold skipSign
      rw [if_pos sign]
      exact inf _ (List.contains_iff_mem.mp found)
    case isFalse => cases h
  · simp only [signed, Bool.false_eq_true, if_false] at h
    split at h
    case isTrue found => exact inf _ (List.contains_iff_mem.mp found)
    case isFalse =>
      split at h
      case isTrue found => exact nan _ (List.contains_iff_mem.mp found)
      case isFalse => cases h

theorem graphic_float {fl : Floats} {allowInt : Bool}
    (h : (yamlScalarIsFloat fl text allowInt).1 ≠ .parseFailure) : Graphic text := by
  unfold yamlScalarIsFloat at h
  by_cases decimal : isDecimalFloat text allowInt = true
  · exact graphic_decimal decimal
  · rw [if_neg decimal] at h
    cases special : yamlSpecialFloat fl text with
    | some value => exact graphic_special special
    | none =>
      rw [special] at h
      by_cases base60 : isBase60Float text = true
      · exact graphic_base60 base60
      · dsimp only at h
        rw [if_neg base60] at h
        exact absurd rfl h

theorem graphic_octal12 (h : isOctal12 text = true) : Graphic text := by
  unfold isOctal12 at h
  split at h
  · simp only [Bool.and_eq_true, beq_iff_eq, decide_eq_true_eq] at h
    obtain ⟨⟨⟨rfl, rfl⟩, -⟩, digits⟩ := h
    exact graphic_cons (by decide) (graphic_cons (by decide) (graphic_spanDigits_all digits))
  · cases h

/-- A year of four digits and a minus sign, which are taken for a timestamp. -/
def StartsTimestamp (str : Bytes) : Prop :=
  4 < str.length ∧ spanDigits (str.take 4) .dec = 4 ∧ str[4]? = some minus

theorem oneLine_words : ∀ str ∈ [] :: yamlNullStrs ++ yamlTrueStrs ++ yamlFalseStrs ++ specialStrs,
    OneLine str := by
  have words : ∀ str ∈ [] :: yamlNullStrs ++ yamlTrueStrs ++ yamlFalseStrs ++ specialStrs,
      str.any isLineBreak = false := by decide
  exact fun str member => oneLine_of_any (words str member)

theorem oneLine_of_null (h : yamlScalarIsNull text = true) : OneLine text := by
  apply oneLine_words
  rcases Bool.or_eq_true_iff.mp h with empty | word
  · rw [List.isEmpty_iff.mp empty]
    simp
  · have member := List.contains_iff_mem.mp word
    simp [member]

theorem oneLine_of_bool (h : (yamlScalarIsBool text).isSome = true) : OneLine text := by
  unfold yamlScalarIsBool at h
  split at h
  case isTrue zero =>
    rw [zero]
    exact (graphic_cons (by decide) graphic_nil).oneLine
  case isFalse =>
    split at h
    case isTrue one =>
      rw [one]
      exact (graphic_cons (by decide) graphic_nil).oneLine
    case isFalse =>
      apply oneLine_words
      split at h
      case isTrue word =>
        have member := List.contains_iff_mem.mp word
        simp [member]
      case isFalse =>
        split at h
        case isTrue word =>
          have member := List.contains_iff_mem.mp word
          simp [member]
        case isFalse => cases h

theorem oneLine_of_letter (h : text.all letterBools.contains = true) : OneLine text := by
  have letters : OneLine letterBools := oneLine_of_any (by decide)
  intro chr member
  exact letters chr (List.contains_iff_mem.mp (List.all_eq_true.mp h chr member))

/-- Of what is ambiguous, only what starts like a timestamp may have line breaks. -/
theorem oneLine_of_flagged {fl : Floats} {str : Bytes} (flagged : yamlStringIsAmbiguous fl str = true)
    (other : ¬ StartsTimestamp str) : OneLine str := by
  unfold yamlStringIsAmbiguous at flagged
  split at flagged
  case isTrue word =>
    rcases Bool.or_eq_true_iff.mp word with null | bool
    · exact oneLine_of_null null
    · exact oneLine_of_bool (Bool.and_eq_true_iff.mp bool).2
  case isFalse =>
    split at flagged
    case isTrue special =>
      have member := List.contains_iff_mem.mp special
      apply oneLine_words
      simp [member]
    case isFalse =>
      split at flagged
      case isTrue letter => exact oneLine_of_letter (Bool.and_eq_true_iff.mp letter).2
      case isFalse =>
        cases str with
        | nil => cases flagged
        | cons first rest =>
          dsimp only at flagged
          split at flagged
          case isTrue => cases flagged
          case isFalse =>
            split at flagged
            case isTrue int => exact (graphic_int int).oneLine
            case isFalse =>
              split at flagged
              case isTrue float => exact (graphic_float float).oneLine
              case isFalse =>
                split at flagged
                case isTrue octal => exact (graphic_skipSign (graphic_octal12 octal)).oneLine
                case isFalse =>
                  simp only [Bool.and_eq_true, decide_eq_true_eq] at flagged
                  exact absurd ⟨flagged.1.1, flagged.1.2, flagged.2⟩ other

/-- An ambiguous string is read as it was, unless it starts like a timestamp and
has a line break. -/
theorem quoted_string {fl : Floats} {str : Bytes} (flagged : yamlStringIsAmbiguous fl str = true) :
    unquoteSingle (singleQuote str) = some str ↔ ¬ (StartsTimestamp str ∧ ¬ OneLine str) := by
  rw [unquoteSingle_singleQuote_iff]
  constructor
  · exact fun oneLine both => both.2 oneLine
  · intro kind
    by_contra broken
    apply broken
    apply oneLine_of_flagged flagged
    exact fun timestamp => kind ⟨timestamp, broken⟩

/-- `2024-01` -/
theorem quoted_string_month : yamlStringIsAmbiguous noFloats [50, 48, 50, 52, 45, 48, 49] = true ∧
    unquoteSingle (singleQuote [50, 48, 50, 52, 45, 48, 49]) =
      some [50, 48, 50, 52, 45, 48, 49] := by
  have flagged : yamlStringIsAmbiguous noFloats [50, 48, 50, 52, 45, 48, 49] = true := by decide
  exact ⟨flagged, (quoted_string flagged).mpr fun both => both.2 (oneLine_of_any (by decide))⟩

/-- `2024-` and a second line, which is joined to the first. -/
theorem timestamp_lines_joined :
    ¬ ∀ str, yamlStringIsAmbiguous noFloats str = true → unquoteSingle (singleQuote str) = some str := by
  intro same
  have flagged : yamlStringIsAmbiguous noFloats [50, 48, 50, 52, 45, 10, 97] = true := by decide
  have joined : unquoteSingle (singleQuote [50, 48, 50, 52, 45, 10, 97]) =
      some [50, 48, 50, 52, 45, 32, 97] := by decide
  cases joined.symm.trans (same _ flagged)

end Recognized

end LibAsdf
