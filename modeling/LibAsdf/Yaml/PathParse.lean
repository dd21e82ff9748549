import LibAsdf.Yaml.Path
import Mathlib.Data.List.Forall2

/-!
# Reading paths that were written

What the path parser makes of components that are written one after the other,
with a slash between them.

* `UnquotedKey`, `QuotedKey`, `BracketIndex`, `PathSegment`: how a component is
  written;
* `PathSegment.lag`: what the length that is reported for it leaves out;
* `parseSingle_written`: how far the parser goes;
* `pathLoop_leftover`: what is left of a component is read as more of them;
* `pathLoop_exact_iff`, `readsExactly_iff`: when every component is read once.
-/

namespace LibAsdf

/-! ## PathSegment components -/

/-- A key with whitespace before it. -/
structure UnquotedKey where
  space : Bytes
  text : Bytes
  spaces : ∀ b ∈ space, isSpace b = true
  begins : text.head?.map isSpace = some false
  plain : ∀ b ∈ text, b ≠ slash ∧ isBracket b = false

/-- The text of a quoted key: characters, and characters that are escaped. -/
inductive QuotedText (quote : Byte) : Bytes → Prop
  | nil : QuotedText quote []
  | plain {chr : Byte} {rest : Bytes} : chr ≠ backslash → chr ≠ quote → QuotedText quote rest →
      QuotedText quote (chr :: rest)
  | escape {chr : Byte} {rest : Bytes} : isEscapable chr = true → QuotedText quote rest →
      QuotedText quote (backslash :: chr :: rest)

/-- A key in single or double quotes. -/
structure QuotedKey where
  quote : Byte
  text : Bytes
  isQuote : quote = 39 ∨ quote = 34
  quoted : QuotedText quote text

/-- An index in brackets, with whitespace around it. -/
structure BracketIndex where
  before : Bytes
  negative : Bool
  digits : Bytes
  after : Bytes
  spaces : ∀ b ∈ before ++ after, isSpace b = true
  some : digits ≠ []
  decimal : ∀ b ∈ digits, isDigit b = true

def BracketIndex.number (i : BracketIndex) : Bytes :=
  if i.negative then minus :: i.digits else i.digits

def BracketIndex.value (i : BracketIndex) : Int :=
  if i.negative then -(digitsValue i.digits .dec : Int) else digitsValue i.digits .dec

theorem BracketIndex.integer (i : BracketIndex) : IntegerText i.number i.value := by
  unfold number value
  cases i.negative
  · exact .bare i.some i.decimal
  · exact .negative i.some i.decimal

inductive PathSegment where
  | key (k : UnquotedKey)
  | quoted (k : QuotedKey)
  | index (i : BracketIndex)

namespace PathSegment

def text : PathSegment → Bytes
  | key k => k.space ++ k.text
  | quoted k => k.quote :: (k.text ++ [k.quote])
  | index i => 91 :: (i.before ++ (i.number ++ (i.after ++ [closingSquare])))

/-- What is to be read: a key that is an integer is also an index, and the other
two are one only. -/
def Matches : PathSegment → PathComponent → Prop
  | key k, c => c.key = k.text ∧ (c.target = .any ∧ IntegerText k.text c.index ∨
      c.target = .map ∧ ∀ v, ¬ IntegerText k.text v)
  | quoted k, c => c.key = k.text ∧ c.target = .map
  | index i, c => c.key = i.number ∧ c.target = .seq ∧ c.index = i.value

end PathSegment

/-- Components with a slash between them. -/
def joined : List PathSegment → Bytes
  | [] => []
  | [w] => w.text
  | w :: ws => w.text ++ slash :: joined ws

/-! ## When they are read -/

/-- Every backslash is followed by a character that may be escaped. -/
def Followed : Bytes → Prop
  | [] => True
  | chr :: rest => (chr = backslash → ∃ next more, rest = next :: more ∧ isEscapable next = true) ∧
      Followed rest

namespace PathSegment

/-- What is read where the parser does not refuse the component. -/
def Readable : PathSegment → Prop
  | key _ => True
  | quoted k => Followed k.text
  | index _ => True

/-- The whitespace that the reported length does not count. -/
def lag : PathSegment → Nat
  | key k => k.space.length
  | quoted _ => 0
  | index i => i.before.length

/-- An index has to be one that can be held. -/
def Fits : PathSegment → Prop
  | key k => ∀ v, IntegerText k.text v → InInt64 v
  | quoted _ => True
  | index i => InInt64 i.value

/-- The component is read as it is to be, and the next from its start. At the end
of the path one character makes no difference. -/
def Clean (last : Bool) (w : PathSegment) : Prop :=
  w.Readable ∧ w.Fits ∧ (w.lag = 0 ∨ last = true ∧ w.lag = 1)

theorem spaces_nil : ∀ b ∈ ([] : Bytes), isSpace b = true := List.forall_mem_nil _

/-- Whitespace at the start of a path is not looked at. -/
def strip : PathSegment → PathSegment
  | key k => key { k with
      space := []
      spaces := spaces_nil }
  | quoted k => quoted k
  | index i => index i

end PathSegment

def AllClean : List PathSegment → Prop
  | [] => True
  | [w] => w.Clean true
  | w :: ws => w.Clean false ∧ AllClean ws

/-! ## The three parsers -/

/-- The end of the path, or a slash. -/
def Boundary (rest : Bytes) : Prop := rest.head?.getD slash = slash

theorem boundary_nil : Boundary [] := rfl

theorem boundary_slash (rest : Bytes) : Boundary (slash :: rest) := rfl

theorem Boundary.cases {rest : Bytes} (h : Boundary rest) :
    rest = [] ∨ ∃ more, rest = slash :: more := by
  cases rest with
  | nil => exact .inl rfl
  | cons first more =>
    cases h
    exact .inr ⟨more, rfl⟩

theorem Boundary.skipWhitespace {rest : Bytes} (h : Boundary rest) :
    skipWhitespace rest = rest := by
  obtain rfl | ⟨more, rfl⟩ := h.cases
  · rfl
  · rfl

theorem skipWhitespace_append {space : Bytes} (spaces : ∀ b ∈ space, isSpace b = true)
    (rest : Bytes) : skipWhitespace (space ++ rest) = skipWhitespace rest :=
  List.dropWhile_append_of_pos spaces

theorem skipWhitespace_begins {first : Byte} {rest : Bytes} (begins : isSpace first = false) :
    skipWhitespace (first :: rest) = first :: rest := by
  rw [skipWhitespace, List.dropWhile_cons, begins]
  rfl

theorem UnquotedKey.cons (k : UnquotedKey) :
    ∃ first rest, k.text = first :: rest ∧ isSpace first = false := by
  have begins := k.begins
  cases text : k.text with
  | nil =>
    rw [text] at begins
    cases begins
  | cons first rest =>
    rw [text] at begins
    exact ⟨first, rest, rfl, Option.some.inj begins⟩

theorem findAny_key (k : UnquotedKey) {rest : Bytes} (boundary : Boundary rest) :
    findAny (k.space ++ k.text ++ rest) = some (k.text, k.text.length) := by
  obtain ⟨first, more, text, begins⟩ := k.cons
  have skipped : skipWhitespace (k.space ++ k.text ++ rest) = k.text ++ rest := by
    rw [List.append_assoc, skipWhitespace_append k.spaces, text]
    exact skipWhitespace_begins begins
  have taken : (k.text ++ rest).takeWhile (· ≠ slash) = k.text := by
    rw [List.takeWhile_append_of_pos fun b mem => decide_eq_true (k.plain b mem).1]
    obtain rfl | ⟨more, rfl⟩ := boundary.cases
    · rw [List.takeWhile_nil, List.append_nil]
    · rw [List.takeWhile_cons_of_neg (by simp), List.append_nil]
  have none : k.text.any isBracket = false :=
    List.any_eq_false.mpr fun b mem => by rw [(k.plain b mem).2]; decide
  simp only [findAny, skipped, taken, none, Bool.false_eq_true, if_false]

theorem QuotedText.no_quote {quote : Byte} {text : Bytes} (isQuote : quote = 39 ∨ quote = 34)
    (quoted : QuotedText quote text) : ∀ b ∈ text, b ≠ quote := by
  induction quoted with
  | nil => exact nofun
  | plain _ ne _ ih =>
    intro b mem
    obtain rfl | mem := List.mem_cons.mp mem
    · exact ne
    · exact ih b mem
  | escape escapable _ ih =>
    intro b mem
    obtain rfl | mem := List.mem_cons.mp mem
    · obtain rfl | rfl := isQuote <;> decide
    · obtain rfl | mem := List.mem_cons.mp mem
      · rintro rfl
        obtain rfl | rfl := isQuote <;> exact absurd escapable (by decide)
      · exact ih b mem

section Scan

variable {quote : Byte} {text rest : Bytes}

theorem mapScan_backslash (next : Byte) (more : Bytes) :
    mapScan quote (backslash :: next :: more) =
      if isEscapable next then (mapScan quote (next :: more)).map (· + 1) else none := by
  rw [mapScan, if_pos rfl]

theorem mapScan_plain {chr : Byte} (ne : chr ≠ backslash) (ne' : chr ≠ quote) (more : Bytes) :
    mapScan quote (chr :: more) = (mapScan quote more).map (· + 1) := by
  rw [mapScan.eq_def]
  dsimp only
  rw [if_neg ne, if_neg fun h => ne' h.1]

theorem mapScan_closing (ne : quote ≠ backslash) (boundary : Boundary rest) :
    mapScan quote (quote :: rest) = some 0 := by
  rw [mapScan.eq_def]
  dsimp only
  rw [if_neg ne, if_pos ⟨rfl, boundary⟩]

theorem mapScan_followed (ne : quote ≠ backslash) (none : ∀ b ∈ text, b ≠ quote)
    (followed : Followed text) (boundary : Boundary rest) :
    mapScan quote (text ++ quote :: rest) = some text.length := by
  induction text with
  | nil => exact mapScan_closing ne boundary
  | cons chr more ih =>
    obtain ⟨escapes, followed⟩ := followed
    have ih := ih (fun b mem => none b (List.mem_cons_of_mem _ mem)) followed
    by_cases escape : chr = backslash
    · obtain ⟨next, last, rfl, escapable⟩ := escapes escape
      subst escape
      rw [List.cons_append, List.cons_append, mapScan_backslash, if_pos escapable,
        ← List.cons_append, ih]
      rfl
    · rw [List.cons_append, mapScan_plain escape (none chr List.mem_cons_self), ih]
      rfl

/-- A backslash that is not followed so, ends the parser at the latest. -/
theorem mapScan_not_followed (isQuote : isEscapable quote = false)
    (none : ∀ b ∈ text, b ≠ quote) (not : ¬ Followed text) :
    mapScan quote (text ++ quote :: rest) = Option.none := by
  induction text with
  | nil => exact absurd trivial not
  | cons chr more ih =>
    have ih := ih fun b mem => none b (List.mem_cons_of_mem _ mem)
    by_cases escape : chr = backslash
    · subst escape
      cases more with
      | nil =>
        rw [List.cons_append, List.nil_append, mapScan_backslash, isQuote]
        rfl
      | cons next last =>
        rw [List.cons_append, List.cons_append, mapScan_backslash]
        split
        · rename_i escapable
          have not : ¬ Followed (next :: last) := fun h =>
            not ⟨fun _ => ⟨next, last, rfl, escapable⟩, h⟩
          rw [← List.cons_append, ih not]
          rfl
        · rfl
    · have not : ¬ Followed more := fun h => not ⟨fun eq => absurd eq escape, h⟩
      rw [List.cons_append, mapScan_plain escape (none chr List.mem_cons_self), ih not]
      rfl

end Scan

/-! ## One component -/

namespace PathSegment

/-- The component, where there is one. -/
def component : PathSegment → Option PathComponent
  | key k => componentOf .any k.text
  | quoted k => componentOf .map k.text
  | index i => componentOf .seq i.number

/-- What the parser goes on with. -/
def next (w : PathSegment) (rest : Bytes) : Bytes :=
  if w.lag = 0 then rest.drop 1 else w.text.drop (w.text.length - (w.lag - 1)) ++ rest

theorem lag_lt (w : PathSegment) : w.lag < w.text.length := by
  cases w with
  | key k =>
    obtain ⟨first, more, text, -⟩ := k.cons
    change k.space.length < (k.space ++ k.text).length
    rw [List.length_append, text, List.length_cons]
    omega
  | quoted k => exact Nat.succ_pos _
  | index i =>
    change i.before.length < (91 :: (i.before ++ _) : Bytes).length
    rw [List.length_cons, List.length_append]
    omega

end PathSegment

/-- The length that is reported: up to the next component, but for the lag. -/
def reported (w : PathSegment) (rest : Bytes) : Nat :=
  if w.text.length - w.lag ≠ (w.text ++ rest).length then w.text.length - w.lag + 1
  else w.text.length - w.lag

theorem drop_reported (w : PathSegment) {rest : Bytes} (boundary : Boundary rest) :
    (w.text ++ rest).drop (reported w rest) = w.next rest := by
  have lag := w.lag_lt
  unfold reported PathSegment.next
  by_cases exact : w.lag = 0
  · rw [if_pos exact, exact, Nat.sub_zero]
    obtain rfl | ⟨more, rfl⟩ := boundary.cases
    · rw [List.append_nil, if_neg (not_not.mpr rfl), List.drop_length]
      rfl
    · rw [if_pos (by rw [List.length_append, List.length_cons]; omega), ← List.drop_drop,
        List.drop_left]
  · rw [if_neg exact, if_pos (by rw [List.length_append]; omega),
      List.drop_append_of_le_length (by omega)]
    congr 2
    omega

theorem headD_append {text : Bytes} (held : text ≠ []) (rest : Bytes) :
    (text ++ rest).headD 0 = text.headD 0 := by
  cases text with
  | nil => exact absurd rfl held
  | cons first more => rfl

/-- Whitespace, and what is not a bracket, begin no quoted key and no index. -/
theorem targetForBracket_any {first : Byte} (h : isSpace first = true ∨ isBracket first = false) :
    targetForBracket first = (.any, none) := by
  have plain : first ≠ 91 ∧ first ≠ 39 ∧ first ≠ 34 := by
    obtain space | plain := h
    · refine ⟨?_, ?_, ?_⟩ <;> rintro rfl <;> exact absurd space (by decide)
    · refine ⟨?_, ?_, ?_⟩ <;> rintro rfl <;> exact absurd plain (by decide)
  unfold targetForBracket
  rw [if_neg plain.1, if_neg (by rintro (h | h); exacts [plain.2.1 h, plain.2.2 h])]

theorem parseSingle_any {start : Bytes} (target : targetForBracket (start.headD 0) = (.any, none)) :
    parseSingle start = (findAny start).bind fun found =>
      (componentOf .any found.1).map fun comp =>
        (comp, if found.2 ≠ start.length then found.2 + 1 else found.2) := by
  unfold parseSingle
  rw [target]
  simp only [Option.isSome_none, Bool.false_eq_true, if_false, List.drop_zero, findPathComponent,
    Nat.zero_add]
  cases findAny start <;> rfl

theorem parseSingle_quoted (k : QuotedKey) (rest : Bytes) :
    parseSingle (k.quote :: rest) = (findMap k.quote rest).map fun found =>
      (⟨.map, found.1, 0⟩, if 1 + found.2 ≠ rest.length + 1 then 1 + found.2 + 1
        else 1 + found.2) := by
  have target : targetForBracket k.quote = (.map, some k.quote) := by
    unfold targetForBracket
    have ne : k.quote ≠ 91 := by
      obtain h | h := k.isQuote <;> rw [h] <;> decide
    rw [if_neg ne, if_pos k.isQuote]
  unfold parseSingle
  rw [List.headD_cons, target]
  simp only [Option.isSome_some, if_true, List.drop_succ_cons, List.drop_zero, findPathComponent,
    componentOf, Option.map_some, List.length_cons]
  cases findMap k.quote rest <;> rfl

theorem parseSingle_index (rest : Bytes) :
    parseSingle (91 :: rest) = (findSeq closingSquare rest).bind fun found =>
      (componentOf .seq found.1).map fun comp =>
        (comp, if 1 + found.2 ≠ rest.length + 1 then 1 + found.2 + 1 else 1 + found.2) := by
  have target : targetForBracket 91 = (.seq, some closingSquare) := if_pos rfl
  unfold parseSingle
  rw [List.headD_cons, target]
  simp only [Option.isSome_some, if_true, List.drop_succ_cons, List.drop_zero, findPathComponent,
    List.length_cons]
  cases findSeq closingSquare rest <;> rfl

/-- What follows on the digits of an index. -/
theorem takeWhile_digits {digits after : Bytes} (decimal : ∀ b ∈ digits, isDigit b = true)
    (spaces : ∀ b ∈ after, isSpace b = true) (rest : Bytes) :
    (digits ++ (after ++ closingSquare :: rest)).takeWhile isDigit = digits := by
  rw [List.takeWhile_append_of_pos decimal]
  have stop : (after ++ closingSquare :: rest).takeWhile isDigit = [] := by
    cases after with
    | nil => exact List.takeWhile_cons_of_neg (by decide)
    | cons first more =>
      apply List.takeWhile_cons_of_neg
      intro digit
      have space := spaces first List.mem_cons_self
      rw [not_isSpace_of_isDigit digit] at space
      cases space
  rw [stop, List.append_nil]

namespace BracketIndex

variable (i : BracketIndex)

theorem number_cons : ∃ first more, i.number = first :: more ∧ isSpace first = false := by
  unfold number
  cases i.negative
  · obtain ⟨first, more, digits⟩ := List.exists_cons_of_ne_nil i.some
    refine ⟨first, more, digits, not_isSpace_of_isDigit (i.decimal first ?_)⟩
    rw [digits]
    exact List.mem_cons_self
  · exact ⟨minus, i.digits, rfl, by decide⟩

theorem indexLen_number (rest : Bytes) :
    indexLen (i.number ++ (i.after ++ closingSquare :: rest)) = i.number.length := by
  have spaces : ∀ b ∈ i.after, isSpace b = true :=
    fun b mem => i.spaces b (List.mem_append_right _ mem)
  have digits := takeWhile_digits i.decimal spaces rest
  unfold indexLen number
  cases i.negative
  · have unsigned : (i.digits ++ (i.after ++ closingSquare :: rest)).head? ≠ Option.some minus := by
      obtain ⟨first, more, eq⟩ := List.exists_cons_of_ne_nil i.some
      have digit := i.decimal first (by rw [eq]; exact List.mem_cons_self)
      rw [eq]
      rintro ⟨⟩
      exact absurd digit (by decide)
    simp only [Bool.false_eq_true, if_false, unsigned, List.drop_zero, digits, Nat.zero_add]
  · simp only [if_true, List.cons_append, List.head?_cons, List.drop_succ_cons, List.drop_zero,
      digits, List.length_cons]
    exact Nat.add_comm _ _

end BracketIndex

/-- An index is read with the whitespace behind its bracket, whatever follows on it. -/
theorem findSeq_number (i : BracketIndex) (rest : Bytes) :
    findSeq closingSquare (i.before ++ (i.number ++ (i.after ++ closingSquare :: rest))) =
      some (i.number, i.number.length + (i.after.length + 1) +
        (rest.length - (skipWhitespace rest).length)) := by
  obtain ⟨first, more, number, begins⟩ := i.number_cons
  have skipped : skipWhitespace (i.before ++ (i.number ++ (i.after ++ closingSquare :: rest))) =
      i.number ++ (i.after ++ closingSquare :: rest) := by
    rw [skipWhitespace_append fun b mem => i.spaces b (List.mem_append_left _ mem), number]
    exact skipWhitespace_begins begins
  have closes : skipWhitespace (i.after ++ closingSquare :: rest) = closingSquare :: rest := by
    rw [skipWhitespace_append fun b mem => i.spaces b (List.mem_append_right _ mem)]
    exact skipWhitespace_begins (by decide)
  have held : i.number.length ≠ 0 := by
    rw [number]
    exact Nat.succ_ne_zero _
  have shorter : (skipWhitespace rest).length ≤ rest.length := (List.dropWhile_suffix _).length_le
  unfold findSeq
  simp only [skipped, i.indexLen_number, List.drop_left, closes, ne_eq, not_true_eq_false, if_false,
    held, List.take_left, List.length_append, List.length_cons]
  congr 2
  omega

theorem findSeq_index (i : BracketIndex) {rest : Bytes} (boundary : Boundary rest) :
    findSeq closingSquare (i.before ++ (i.number ++ (i.after ++ closingSquare :: rest))) =
      some (i.number, i.number.length + (i.after.length + 1)) := by
  rw [findSeq_number, boundary.skipWhitespace, Nat.sub_self, Nat.add_zero]

/-- One component: it is read where it is readable, and the length is reported
without the lag. -/
theorem parseSingle_written (w : PathSegment) {rest : Bytes} (boundary : Boundary rest)
    (readable : w.Readable) : parseSingle (w.text ++ rest) =
      w.component.map fun comp => (comp, reported w rest) := by
  cases w with
  | key k =>
    obtain ⟨first, more, text, begins⟩ := k.cons
    have held : k.space ++ k.text ≠ [] := by
      rw [text]
      exact List.append_ne_nil_of_right_ne_nil _ (List.cons_ne_nil _ _)
    have start : targetForBracket ((k.space ++ k.text).headD 0) = (.any, none) := by
      apply targetForBracket_any
      cases space : k.space with
      | nil =>
        rw [List.nil_append, text]
        exact .inr (k.plain first (by rw [text]; exact List.mem_cons_self)).2
      | cons b bs => exact .inl (k.spaces b (by rw [space]; exact List.mem_cons_self))
    have target := start
    rw [← headD_append held rest] at target
    change parseSingle (k.space ++ k.text ++ rest) = _
    rw [parseSingle_any target, findAny_key k boundary]
    have length : (PathSegment.key k).text.length - (PathSegment.key k).lag = k.text.length := by
      change (k.space ++ k.text).length - k.space.length = _
      rw [List.length_append, Nat.add_sub_cancel_left]
    unfold reported
    rw [length]
    rfl
  | quoted k =>
    have ne : k.quote ≠ backslash := by
      obtain h | h := k.isQuote <;> rw [h] <;> decide
    have scan := mapScan_followed ne (k.quoted.no_quote k.isQuote) readable boundary
    have whole : (PathSegment.quoted k).text ++ rest = k.quote :: (k.text ++ k.quote :: rest) := by
      change k.quote :: (k.text ++ [k.quote]) ++ rest = _
      rw [List.cons_append, List.append_assoc]
      rfl
    have length : (PathSegment.quoted k).text.length - (PathSegment.quoted k).lag =
        1 + (k.text.length + 1) := by
      change (k.quote :: (k.text ++ [k.quote])).length - 0 = _
      rw [List.length_cons, List.length_append, List.length_singleton]
      omega
    unfold reported
    rw [whole, parseSingle_quoted, findMap, scan, length, List.length_cons]
    simp only [Option.map_some, List.take_left]
    rfl
  | index i =>
    have whole : (PathSegment.index i).text ++ rest =
        91 :: (i.before ++ (i.number ++ (i.after ++ closingSquare :: rest))) := by
      change 91 :: (i.before ++ (i.number ++ (i.after ++ [closingSquare]))) ++ rest = _
      simp only [List.cons_append, List.append_assoc, List.nil_append]
    have length : (PathSegment.index i).text.length - (PathSegment.index i).lag =
        1 + (i.number.length + (i.after.length + 1)) := by
      change (91 :: (i.before ++ (i.number ++ (i.after ++ [closingSquare]))) : Bytes).length -
        i.before.length = _
      simp only [List.length_cons, List.length_append, List.length_nil]
      omega
    unfold reported
    rw [whole, parseSingle_index, findSeq_index i boundary, length, List.length_cons]
    rfl

/-- A quoted key with a backslash that is not followed as it has to be. -/
theorem parseSingle_unreadable {w : PathSegment} {rest : Bytes} (unreadable : ¬ w.Readable) :
    parseSingle (w.text ++ rest) = none := by
  cases w with
  | key k => exact absurd trivial unreadable
  | index i => exact absurd trivial unreadable
  | quoted k =>
    have isQuote : isEscapable k.quote = false := by
      obtain h | h := k.isQuote <;> rw [h] <;> decide
    have scan : mapScan k.quote (k.text ++ k.quote :: rest) = none :=
      mapScan_not_followed isQuote (k.quoted.no_quote k.isQuote) unreadable
    have whole : (PathSegment.quoted k).text ++ rest = k.quote :: (k.text ++ k.quote :: rest) := by
      change k.quote :: (k.text ++ [k.quote]) ++ rest = _
      rw [List.cons_append, List.append_assoc]
      rfl
    rw [whole, parseSingle_quoted, findMap, scan]
    rfl

/-! ## The loop -/

theorem PathSegment.text_ne_nil (w : PathSegment) : w.text ≠ [] := by
  apply List.ne_nil_of_length_pos
  exact Nat.lt_of_le_of_lt (Nat.zero_le _) w.lag_lt

theorem reported_pos (w : PathSegment) (rest : Bytes) : 0 < reported w rest := by
  have lag := w.lag_lt
  unfold reported
  split <;> omega

/-- One round of the loop. -/
theorem pathLoop_written (w : PathSegment) {rest : Bytes} (boundary : Boundary rest)
    (readable : w.Readable) : pathLoop (w.text ++ rest) =
      w.component.bind fun comp => (pathLoop (w.next rest)).map (comp :: ·) := by
  have held : w.text ++ rest ≠ [] := List.append_ne_nil_of_left_ne_nil w.text_ne_nil rest
  have single := parseSingle_written w boundary readable
  cases component : w.component with
  | none =>
    rw [component] at single
    exact pathLoop_stop held single
  | some comp =>
    rw [component] at single
    rw [pathLoop_step held single (reported_pos w rest), drop_reported w boundary]
    rfl

theorem pathLoop_unreadable {w : PathSegment} {rest : Bytes} (unreadable : ¬ w.Readable) :
    pathLoop (w.text ++ rest) = none :=
  pathLoop_stop (List.append_ne_nil_of_left_ne_nil w.text_ne_nil rest)
    (parseSingle_unreadable unreadable)

/-- A part of a component that is left over. -/
def Leftover (x : Bytes) : Prop :=
  ∀ b ∈ x, b ≠ slash ∧ (isSpace b = true ∨ isBracket b = false ∨ b = closingSquare)

theorem targetForBracket_closing : targetForBracket closingSquare = (.any, none) := by decide

/-- No more than what is left over is read of it. -/
theorem findAny_leftover {x rest key : Bytes} {len : Nat} (leftover : Leftover x)
    (found : findAny (x ++ slash :: rest) = some (key, len)) : len ≤ x.length := by
  have skipped : skipWhitespace (x ++ slash :: rest) = skipWhitespace x ++ slash :: rest := by
    unfold skipWhitespace
    rw [List.dropWhile_append]
    split
    · rename_i empty
      rw [List.isEmpty_iff.mp empty, List.nil_append, List.dropWhile_cons_of_neg (by decide)]
    · rfl
  have sub : skipWhitespace x <:+ x := List.dropWhile_suffix _
  have taken : (skipWhitespace x ++ slash :: rest).takeWhile (· ≠ slash) = skipWhitespace x := by
    rw [List.takeWhile_append_of_pos
      fun b mem => decide_eq_true (leftover b (sub.subset mem)).1,
      List.takeWhile_cons_of_neg (by simp), List.append_nil]
  unfold findAny at found
  dsimp only at found
  rw [skipped, taken] at found
  split at found
  · cases found
  · cases found
    exact sub.length_le

/-- What is left over gives components of its own, before what follows on it. -/
theorem pathLoop_leftover {x rest : Bytes} {comps : List PathComponent} (leftover : Leftover x)
    (read : pathLoop (x ++ slash :: rest) = some comps) :
    ∃ comps', pathLoop rest = some comps' ∧ comps'.length < comps.length := by
  induction size : x.length using Nat.strongRecOn generalizing x comps with
  | ind n ih =>
    subst size
    have held : x ++ slash :: rest ≠ [] :=
      List.append_ne_nil_of_right_ne_nil _ (List.cons_ne_nil _ _)
    have target : targetForBracket ((x ++ slash :: rest).headD 0) = (.any, none) := by
      cases x with
      | nil => exact targetForBracket_any (.inr (by decide : isBracket slash = false))
      | cons b bs =>
        obtain ⟨-, space | plain | rfl⟩ := leftover b List.mem_cons_self
        · exact targetForBracket_any (.inl space)
        · exact targetForBracket_any (.inr plain)
        · exact targetForBracket_closing
    cases single : parseSingle (x ++ slash :: rest) with
    | none =>
      rw [pathLoop_stop held single] at read
      cases read
    | some r =>
      obtain ⟨comp, count⟩ := r
      rw [parseSingle_any target] at single
      obtain ⟨⟨key, len⟩, found, single⟩ := Option.bind_eq_some_iff.mp single
      have length := findAny_leftover leftover found
      obtain ⟨comp', -, eq⟩ := Option.map_eq_some_iff.mp single
      have count_eq : count = len + 1 := by
        rw [← (Prod.mk.inj eq).2, if_pos]
        rw [List.length_append, List.length_cons]
        omega
      have single : parseSingle (x ++ slash :: rest) = some (comp, len + 1) := by
        rw [parseSingle_any target, found, Option.bind_some, single, count_eq]
      rw [pathLoop_step held single (Nat.succ_pos _)] at read
      obtain ⟨comps₁, again, rfl⟩ := Option.map_eq_some_iff.mp read
      by_cases all : len = x.length
      · rw [all, ← List.drop_drop, List.drop_left] at again
        exact ⟨comps₁, again, Nat.lt_succ_self _⟩
      · have tail : (x ++ slash :: rest).drop (len + 1) = x.drop (len + 1) ++ slash :: rest :=
          List.drop_append_of_le_length (by omega)
        rw [tail] at again
        have smaller : (x.drop (len + 1)).length < x.length := by
          rw [List.length_drop]
          omega
        obtain ⟨comps', read', fewer⟩ := ih _ smaller
          (fun b mem => leftover b (List.mem_of_mem_drop mem)) again rfl
        exact ⟨comps', read', Nat.lt_succ_of_lt fewer⟩

theorem isBracket_of_isDigit {b : Byte} (digit : isDigit b = true) : isBracket b = false := by
  cases bracket : isBracket b with
  | false => rfl
  | true =>
    simp only [isBracket, List.contains_cons, List.contains_nil, Bool.or_false, Bool.or_eq_true,
      beq_iff_eq] at bracket
    obtain rfl | rfl | rfl | rfl := bracket <;> exact absurd digit (by decide)

theorem leftover_written (w : PathSegment) (lagging : w.lag ≠ 0) :
    Leftover (w.text.drop (w.text.length - (w.lag - 1))) := by
  cases w with
  | key k =>
    intro b mem
    obtain space | plain := List.mem_append.mp (List.mem_of_mem_drop mem)
    · refine ⟨?_, .inl (k.spaces b space)⟩
      rintro rfl
      exact absurd (k.spaces _ space) (by decide)
    · exact ⟨(k.plain b plain).1, .inr (.inl (k.plain b plain).2)⟩
  | quoted k => exact absurd rfl lagging
  | index i =>
    have spaced (b : Byte) (space : isSpace b = true) :
        b ≠ slash ∧ (isSpace b = true ∨ isBracket b = false ∨ b = closingSquare) := by
      refine ⟨?_, .inl space⟩
      rintro rfl
      exact absurd space (by decide)
    have numeral (b : Byte) (mem : b ∈ i.number) : b ≠ slash ∧ isBracket b = false := by
      have digit (mem : b ∈ i.digits) : b ≠ slash ∧ isBracket b = false := by
        have decimal := i.decimal b mem
        refine ⟨?_, isBracket_of_isDigit decimal⟩
        rintro rfl
        exact absurd decimal (by decide)
      unfold BracketIndex.number at mem
      split at mem
      · obtain rfl | mem := List.mem_cons.mp mem
        · decide
        · exact digit mem
      · exact digit mem
    have lag := (PathSegment.index i).lag_lt
    intro b mem
    obtain ⟨n, count⟩ := Nat.exists_eq_add_one.mpr (Nat.sub_pos_of_lt
      (Nat.lt_of_le_of_lt (Nat.sub_le (PathSegment.index i).lag 1) lag))
    rw [count] at mem
    have mem : b ∈ i.before ++ (i.number ++ (i.after ++ [closingSquare])) :=
      List.mem_of_mem_drop mem
    simp only [List.mem_append, List.mem_singleton] at mem
    obtain before | number | after | closing := mem
    · exact spaced b (i.spaces b (List.mem_append_left _ before))
    · exact ⟨(numeral b number).1, .inr (.inl (numeral b number).2)⟩
    · exact spaced b (i.spaces b (List.mem_append_right _ after))
    · subst closing
      exact ⟨by decide, .inr (.inr rfl)⟩

/-! ## All components -/

theorem joined_cons (w : PathSegment) (ws : List PathSegment) :
    ∃ rest, joined (w :: ws) = w.text ++ rest ∧ Boundary rest ∧
      (ws = [] ∧ rest = [] ∨ ws ≠ [] ∧ rest = slash :: joined ws) := by
  cases ws with
  | nil => exact ⟨[], (List.append_nil _).symm, boundary_nil, .inl ⟨rfl, rfl⟩⟩
  | cons w' ws => exact ⟨_, rfl, boundary_slash _, .inr ⟨List.cons_ne_nil _ _, rfl⟩⟩

/-- What is read in a round, and what is still to be read. -/
theorem pathLoop_joined_cons {w : PathSegment} {ws : List PathSegment} {comps : List PathComponent}
    (read : pathLoop (joined (w :: ws)) = some comps) :
    ∃ rest comp comps', comps = comp :: comps' ∧ w.Readable ∧ w.component = some comp ∧
      pathLoop (w.next rest) = some comps' ∧
      (ws = [] ∧ rest = [] ∨ ws ≠ [] ∧ rest = slash :: joined ws) := by
  obtain ⟨rest, eq, boundary, tail⟩ := joined_cons w ws
  rw [eq] at read
  by_cases readable : w.Readable
  · rw [pathLoop_written w boundary readable] at read
    obtain ⟨comp, component, read⟩ := Option.bind_eq_some_iff.mp read
    obtain ⟨comps', again, rfl⟩ := Option.map_eq_some_iff.mp read
    exact ⟨rest, comp, comps', rfl, readable, component, again, tail⟩
  · rw [pathLoop_unreadable readable] at read
    cases read

/-- Behind a component that lags, the next are read after what is left over. -/
theorem pathLoop_next {w : PathSegment} {ws : List PathSegment} {comps : List PathComponent}
    (read : pathLoop (w.next (slash :: joined ws)) = some comps) :
    ∃ comps', pathLoop (joined ws) = some comps' ∧ comps'.length ≤ comps.length ∧
      (w.lag ≠ 0 → comps'.length < comps.length) := by
  unfold PathSegment.next at read
  split at read
  · rename_i exact
    refine ⟨comps, read, Nat.le_refl _, ?_⟩
    intro lagging
    exact absurd exact lagging
  · rename_i lagging
    obtain ⟨comps', again, fewer⟩ := pathLoop_leftover (leftover_written w lagging) read
    exact ⟨comps', again, Nat.le_of_lt fewer, fun _ => fewer⟩

/-- No component is passed over. -/
theorem length_le_of_pathLoop {ws : List PathSegment} {comps : List PathComponent}
    (read : pathLoop (joined ws) = some comps) : ws.length ≤ comps.length := by
  induction ws generalizing comps with
  | nil => exact Nat.zero_le _
  | cons w ws ih =>
    obtain ⟨rest, comp, comps₁, rfl, -, -, again, tail⟩ := pathLoop_joined_cons read
    obtain ⟨rfl, -⟩ | ⟨-, rfl⟩ := tail
    · exact Nat.succ_le_succ (Nat.zero_le _)
    · obtain ⟨comps', read', le, -⟩ := pathLoop_next again
      exact Nat.succ_le_succ (Nat.le_trans (ih read') le)

theorem IntegerText.unique {text : Bytes} {v v' : Int} (h : IntegerText text v)
    (h' : IntegerText text v') : v = v' := by
  have unsigned {sign : Byte} {ds : Bytes} (digits : ∀ b ∈ sign :: ds, isDigit b = true)
      (signed : isDigit sign = false) : False := by
    rw [digits sign List.mem_cons_self] at signed
    cases signed
  cases h with
  | bare some digits =>
    cases h' with
    | bare => rfl
    | positive => exact (unsigned digits (by decide)).elim
    | negative => exact (unsigned digits (by decide)).elim
  | positive some digits =>
    cases h' with
    | bare some' digits' => exact (unsigned digits' (by decide)).elim
    | positive => rfl
  | negative some digits =>
    cases h' with
    | bare some' digits' => exact (unsigned digits' (by decide)).elim
    | negative => rfl

/-- What a key becomes. -/
theorem componentOf_key (k : UnquotedKey) :
    (∃ v, IntegerText k.text v ∧ componentOf .any k.text = some ⟨.any, k.text, clampInt64 v⟩) ∨
      ((∀ v, ¬ IntegerText k.text v) ∧
        componentOf .any k.text = some ⟨.map, k.text, (strtoll k.text).1⟩) := by
  by_cases integer : ∃ v, IntegerText k.text v
  · obtain ⟨v, integer⟩ := integer
    refine .inl ⟨v, integer, ?_⟩
    unfold componentOf
    rw [strtoll_integer integer]
    rfl
  · refine .inr ⟨fun v h => integer ⟨v, h⟩, ?_⟩
    obtain ⟨first, rest, text, begins⟩ := k.cons
    have part : (strtoll k.text).2 ≠ [] := by
      intro whole
      rw [text] at whole integer
      exact integer (integer_of_strtoll begins whole)
    unfold componentOf
    rw [if_neg (by decide), if_neg part, if_neg (by decide)]

theorem componentOf_index (i : BracketIndex) :
    componentOf .seq i.number = some ⟨.seq, i.number, clampInt64 i.value⟩ := by
  unfold componentOf
  rw [strtoll_integer i.integer]
  rfl

theorem component_isSome (w : PathSegment) : ∃ comp, w.component = some comp := by
  cases w with
  | key k =>
    obtain ⟨v, -, component⟩ | ⟨-, component⟩ := componentOf_key k
    · exact ⟨_, component⟩
    · exact ⟨_, component⟩
  | quoted k => exact ⟨_, rfl⟩
  | index i => exact ⟨_, componentOf_index i⟩

/-- The component that is read is right if its index can be held. -/
theorem component_matches {w : PathSegment} {comp : PathComponent}
    (component : w.component = some comp) :
    w.Matches comp ↔ w.Fits := by
  cases w with
  | key k =>
    change componentOf .any k.text = some comp at component
    obtain ⟨v, integer, eq⟩ | ⟨not, eq⟩ := componentOf_key k
    · cases eq.symm.trans component
      constructor
      · rintro ⟨-, ⟨-, clamped⟩ | ⟨map, -⟩⟩ v' integer'
        · cases integer.unique integer'
          exact clampInt64_eq_iff.mp (clamped.unique integer)
        · cases map
      · intro fits
        refine ⟨rfl, .inl ⟨rfl, ?_⟩⟩
        change IntegerText k.text (clampInt64 v)
        rw [clampInt64_eq_iff.mpr (fits v integer)]
        exact integer
    · cases eq.symm.trans component
      exact iff_of_true ⟨rfl, .inr ⟨rfl, not⟩⟩ fun v integer => absurd integer (not v)
  | quoted k =>
    cases component
    exact iff_of_true ⟨rfl, rfl⟩ trivial
  | index i =>
    cases (componentOf_index i).symm.trans component
    constructor
    · rintro ⟨-, -, value⟩
      exact clampInt64_eq_iff.mp value
    · intro fits
      exact ⟨rfl, rfl, clampInt64_eq_iff.mpr fits⟩

/-- The components are read one by one just if all are clean. -/
theorem pathLoop_exact_iff (ws : List PathSegment) :
    (∃ comps, pathLoop (joined ws) = some comps ∧ List.Forall₂ PathSegment.Matches ws comps) ↔
      AllClean ws := by
  induction ws with
  | nil => exact iff_of_true ⟨[], pathLoop_nil, .nil⟩ trivial
  | cons w ws ih =>
    constructor
    · rintro ⟨comps, read, exact⟩
      obtain ⟨rest, comp, comps', rfl, readable, component, again, tail⟩ :=
        pathLoop_joined_cons read
      obtain ⟨head, exact⟩ := List.forall₂_cons.mp exact
      have fits := (component_matches component).mp head
      obtain ⟨rfl, rfl⟩ | ⟨more, rfl⟩ := tail
      · cases exact
        refine ⟨readable, fits, ?_⟩
        unfold PathSegment.next at again
        split at again
        · exact .inl ‹_›
        · rename_i lagging
          refine .inr ⟨rfl, ?_⟩
          by_contra late
          refine pathLoop_ne_nil ?_ again
          rw [List.append_nil]
          apply List.ne_nil_of_length_pos
          have lag := w.lag_lt
          rw [List.length_drop]
          omega
      · obtain ⟨comps'', read'', le, fewer⟩ := pathLoop_next again
        have enough := length_le_of_pathLoop read''
        have length := exact.length_eq
        have lag : w.lag = 0 := by
          by_contra lagging
          have := fewer lagging
          omega
        have same : w.next (slash :: joined ws) = joined ws := if_pos lag
        rw [same] at again
        obtain ⟨w', ws', rfl⟩ := List.exists_cons_of_ne_nil more
        exact ⟨⟨readable, fits, .inl lag⟩, ih.mp ⟨comps', again, exact⟩⟩
    · intro clean
      obtain ⟨comp, component⟩ := component_isSome w
      cases ws with
      | nil =>
        obtain ⟨readable, fits, lag⟩ := clean
        have done : w.next [] = [] := by
          unfold PathSegment.next
          split
          · rfl
          · rename_i lagging
            rw [(lag.resolve_left lagging).2, Nat.sub_self, Nat.sub_zero, List.drop_length,
              List.append_nil]
        have read := pathLoop_written w boundary_nil readable
        rw [List.append_nil, component, done, pathLoop_nil] at read
        exact ⟨[comp], read, .cons ((component_matches component).mpr fits) .nil⟩
      | cons w' ws =>
        obtain ⟨⟨readable, fits, lag⟩, clean⟩ := clean
        obtain ⟨comps, read, exact⟩ := ih.mpr clean
        have same : w.next (slash :: joined (w' :: ws)) = joined (w' :: ws) :=
          if_pos (lag.resolve_right fun h => nomatch h.1)
        have whole := pathLoop_written w (boundary_slash (joined (w' :: ws))) readable
        rw [component, same, read] at whole
        exact ⟨comp :: comps, whole, .cons ((component_matches component).mpr fits) exact⟩

/-! ## Paths -/

/-- What a path may begin with. -/
structure PathLead where
  text : Bytes
  skipped : ∀ b ∈ text, b = slash ∨ isSpace b = true

namespace PathSegment

theorem strip_text (w : PathSegment) : ∃ space first rest, w.text = space ++ first :: rest ∧
    w.strip.text = first :: rest ∧ (∀ b ∈ space, isSpace b = true) ∧ first ≠ slash ∧
    isSpace first = false := by
  cases w with
  | key k =>
    obtain ⟨first, rest, text, begins⟩ := k.cons
    have plain := (k.plain first (by rw [text]; exact List.mem_cons_self)).1
    refine ⟨k.space, first, rest, ?_, text, k.spaces, plain, begins⟩
    change k.space ++ k.text = _
    rw [text]
  | quoted k =>
    refine ⟨[], k.quote, _, rfl, rfl, nofun, ?_, ?_⟩
    · obtain h | h := k.isQuote <;> rw [h] <;> decide
    · obtain h | h := k.isQuote <;> rw [h] <;> decide
  | index i => exact ⟨[], 91, _, rfl, rfl, nofun, by decide, by decide⟩

theorem matches_strip (w : PathSegment) (comp : PathComponent) :
    w.strip.Matches comp ↔ w.Matches comp := by
  cases w <;> rfl

end PathSegment

/-- The path without what is skipped at its start. -/
theorem pathParse_lead (lead : PathLead) (w : PathSegment) (tail : Bytes) :
    pathParse (lead.text ++ (w.text ++ tail)) = pathLoop (w.strip.text ++ tail) := by
  obtain ⟨space, first, rest, text, strip, spaces, ne, begins⟩ := w.strip_text
  have skipped : (lead.text ++ (w.text ++ tail)).dropWhile
      (fun chr => chr = slash || isSpace chr) = w.strip.text ++ tail := by
    rw [List.dropWhile_append_of_pos fun b mem => by
        obtain eq | space := lead.skipped b mem
        · simp only [eq, decide_true, Bool.true_or]
        · simp only [space, Bool.or_true], text, strip, List.append_assoc,
      List.dropWhile_append_of_pos fun b mem => by simp only [spaces b mem, Bool.or_true]]
    exact List.dropWhile_cons_of_neg (by simp only [ne, decide_false, begins, Bool.or_self]; decide)
  unfold pathParse
  dsimp only
  rw [skipped, if_neg (by rw [strip]; exact List.cons_ne_nil _ _)]

theorem joined_cons_strip (w : PathSegment) (ws : List PathSegment) (tail : Bytes) :
    ∃ rest, joined (w :: ws) ++ tail = w.text ++ rest ∧
      joined (w.strip :: ws) ++ tail = w.strip.text ++ rest := by
  cases ws with
  | nil => exact ⟨tail, rfl, rfl⟩
  | cons w' ws =>
    exact ⟨slash :: joined (w' :: ws) ++ tail, List.append_assoc _ _ _, List.append_assoc _ _ _⟩

/-- Every component is read once, in order, as it is written. -/
def ReadsExactly (lead : PathLead) (ws : List PathSegment) : Prop :=
  ∃ comps, pathParse (lead.text ++ joined ws) = some comps ∧
    List.Forall₂ PathSegment.Matches ws comps

/-- There is a component, and all are clean, where the whitespace before the first
does not count. -/
def PathClean : List PathSegment → Prop
  | [] => False
  | w :: ws => AllClean (w.strip :: ws)

theorem readsExactly_iff (lead : PathLead) (ws : List PathSegment) :
    ReadsExactly lead ws ↔ PathClean ws := by
  cases ws with
  | nil =>
    apply iff_of_false _ id
    rintro ⟨comps, read, exact⟩
    cases exact
    have empty : lead.text.dropWhile (fun chr => chr = slash || isSpace chr) = [] := by
      rw [List.dropWhile_eq_nil_iff]
      intro b mem
      obtain eq | space := lead.skipped b mem
      · simp only [eq, decide_true, Bool.true_or]
      · simp only [space, Bool.or_true]
    change pathParse (lead.text ++ []) = _ at read
    rw [List.append_nil] at read
    unfold pathParse at read
    dsimp only at read
    rw [empty, if_pos rfl] at read
    cases read
  | cons w ws =>
    have same : pathParse (lead.text ++ joined (w :: ws)) = pathLoop (joined (w.strip :: ws)) := by
      obtain ⟨rest, eq, eq'⟩ := joined_cons_strip w ws []
      rw [List.append_nil] at eq eq'
      rw [eq, eq', pathParse_lead]
    have matches_ (comps : List PathComponent) : List.Forall₂ PathSegment.Matches (w :: ws) comps ↔
        List.Forall₂ PathSegment.Matches (w.strip :: ws) comps := by
      cases comps with
      | nil => exact iff_of_false nofun nofun
      | cons comp comps => rw [List.forall₂_cons, List.forall₂_cons, w.matches_strip comp]
    unfold ReadsExactly
    simp only [same, matches_]
    exact pathLoop_exact_iff (w.strip :: ws)

end LibAsdf
