import LibAsdf.Yaml.Decimal

/-!
# Paths

The parser of `yaml.c` for paths of mapping keys and sequence indices.

* `PathComponent`: what a path is made of;
* `findAny`, `findMap`, `findSeq`: the parsers of the three kinds of components;
* `parseSingle`, `pathLoop`, `pathParse`: the parser;
* `IntegerText`, `strtoll_integer`, `integer_of_strtoll`: what is read as an
  integer;
* `pathLoop_step`, `pathLoop_stop`: one round.
-/

namespace LibAsdf

/-! ## Characters -/

def slash : Byte := 47

def backslash : Byte := 92

/-- `isspace` in the C locale. -/
def isSpace (chr : Byte) : Bool := chr == 32 || (9 ≤ chr && chr ≤ 13)

def skipWhitespace (p : Bytes) : Bytes := p.dropWhile isSpace

/-- The quotes and the square brackets. -/
def isBracket (chr : Byte) : Bool := [39, 34, 91, 93].contains chr

/-- What may follow on a backslash in a quoted key: `/*&.{}[]\`. -/
def isEscapable (chr : Byte) : Bool := [47, 42, 38, 46, 123, 125, 91, 93, 92].contains chr

def closingSquare : Byte := 93

/-- `strtoll` to base 10: the value, and where it ends. -/
def strtoll (text : Bytes) : Int × Bytes :=
  let body := skipWhitespace text
  let digits := (skipSign body).takeWhile isDigit
  if digits = [] then (0, text)
  else
    let magnitude : Int := digitsValue digits .dec
    let value := if body.head? = some minus then -magnitude else magnitude
    (max (-(2 ^ 63)) (min value (2 ^ 63 - 1)), (skipSign body).drop digits.length)

/-! ## Components -/

/-- `asdf_yaml_pc_target_t`. -/
inductive PathTarget where
  | any
  | map
  | seq
  deriving DecidableEq, Repr

/-- `asdf_yaml_path_component_t`. -/
structure PathComponent where
  target : PathTarget
  key : Bytes
  index : Int
  deriving DecidableEq, Repr

/-- `target_for_bracket`. -/
def targetForBracket (brac : Byte) : PathTarget × Option Byte :=
  if brac = 91 then (.seq, some closingSquare)
  else if brac = 39 ∨ brac = 34 then (.map, some brac)
  else (.any, none)

/-- `find_path_component_any`: the key and its length, which does not count the
whitespace before it. -/
def findAny (start : Bytes) : Option (Bytes × Nat) :=
  let start := skipWhitespace start
  let key := start.takeWhile (· ≠ slash)
  if key.any isBracket then none else some (key, key.length)

/-- The loop of `find_path_component_map`: the length of the key. What follows on
a backslash is looked at again as a character of its own. -/
def mapScan (closing : Byte) : Bytes → Option Nat
  | [] => none
  | chr :: rest =>
    if chr = backslash then
      match rest with
      | [] => none
      | next :: _ => if isEscapable next then (mapScan closing rest).map (· + 1) else none
    else if chr = closing ∧ (rest.head?.getD slash) = slash then some 0
    else (mapScan closing rest).map (· + 1)

/-- `find_path_component_map`. -/
def findMap (closing : Byte) (start : Bytes) : Option (Bytes × Nat) :=
  (mapScan closing start).map fun keyLen => (start.take keyLen, keyLen + 1)

/-- The length of an index: a sign and digits. -/
def indexLen (start : Bytes) : Nat :=
  let sign := if start.head? = some minus then 1 else 0
  sign + ((start.drop sign).takeWhile isDigit).length

/-- `find_path_component_seq`: the index and a length, which does not count the
whitespace before it. -/
def findSeq (closing : Byte) (start : Bytes) : Option (Bytes × Nat) :=
  let start := skipWhitespace start
  let len := indexLen start
  match skipWhitespace (start.drop len) with
  | [] => none
  | chr :: rest =>
    if chr ≠ closing then none
    else if len = 0 then none
    else some (start.take len, start.length - (skipWhitespace rest).length)

/-- `find_path_component`. -/
def findPathComponent (target : PathTarget) (closing : Option Byte) (start : Bytes) :
    Option (Bytes × Nat) :=
  match target, closing with
  | .map, some closing => findMap closing start
  | .seq, some closing => findSeq closing start
  | _, _ => findAny start

/-- Whether a key is an integer; `none` where it has to be and is not. -/
def componentOf (target : PathTarget) (key : Bytes) : Option PathComponent :=
  if target = .map then some ⟨.map, key, 0⟩
  else if (strtoll key).2 = [] then some ⟨target, key, (strtoll key).1⟩
  else if target = .seq then none
  else some ⟨.map, key, (strtoll key).1⟩

/-- `parse_single_path_component`: the component, and how far it is to the next. -/
def parseSingle (start : Bytes) : Option (PathComponent × Nat) :=
  let (target, closing) := targetForBracket (start.headD 0)
  let opening := if closing.isSome then 1 else 0
  match findPathComponent target closing (start.drop opening) with
  | none => none
  | some (key, compLen) =>
    let p := opening + compLen
    (componentOf target key).map fun comp => (comp, if p ≠ start.length then p + 1 else p)

/-- The loop of `asdf_yaml_path_parse`. -/
def pathLoop (p : Bytes) : Option (List PathComponent) :=
  if p = [] then some []
  else
    match parseSingle p with
    | none => none
    | some (comp, compLen) =>
      if compLen = 0 then none else (pathLoop (p.drop compLen)).map (comp :: ·)
termination_by p.length
decreasing_by
  have : 0 < p.length := List.length_pos_of_ne_nil (by assumption)
  rw [List.length_drop]
  omega

/-- `asdf_yaml_path_parse`. -/
def pathParse (path : Bytes) : Option (List PathComponent) :=
  let p := path.dropWhile fun chr => chr = slash || isSpace chr
  if p = [] then some [⟨.map, [], 0⟩] else pathLoop p

/-! ## Integers -/

/-- A sign, which may be missing, and digits. -/
inductive IntegerText : Bytes → Int → Prop
  | bare {digits : Bytes} : digits ≠ [] → (∀ b ∈ digits, isDigit b = true) →
      IntegerText digits (digitsValue digits .dec)
  | positive {digits : Bytes} : digits ≠ [] → (∀ b ∈ digits, isDigit b = true) →
      IntegerText (plus :: digits) (digitsValue digits .dec)
  | negative {digits : Bytes} : digits ≠ [] → (∀ b ∈ digits, isDigit b = true) →
      IntegerText (minus :: digits) (-(digitsValue digits .dec : Int))

/-- What an `int64_t` holds. -/
def InInt64 (v : Int) : Prop := -(2 ^ 63) ≤ v ∧ v < 2 ^ 63

/-- The nearest value that an `int64_t` holds. -/
def clampInt64 (v : Int) : Int := max (-(2 ^ 63)) (min v (2 ^ 63 - 1))

theorem clampInt64_eq_iff {v : Int} : clampInt64 v = v ↔ InInt64 v := by
  unfold clampInt64 InInt64
  omega

theorem not_isSpace_of_isDigit {b : Byte} (digit : isDigit b = true) : isSpace b = false := by
  rw [isDigit_iff] at digit
  unfold isSpace
  have ne : b ≠ 32 := by
    rintro rfl
    exact absurd digit.1 (by decide)
  have large : ¬ b ≤ 13 := by
    rw [UInt8.le_iff_toNat_le]
    exact fun le => absurd (Nat.le_trans digit.1 le) (by decide)
  simp only [beq_eq_false_iff_ne.mpr ne, large, decide_false, Bool.and_false, Bool.or_self]

theorem hasSign_of_isDigit {b : Byte} {rest : Bytes} (digit : isDigit b = true) :
    hasSign (b :: rest) = false := by
  rw [isDigit_iff] at digit
  have minus_ne : b ≠ minus := by
    rintro rfl
    exact absurd digit.1 (by decide)
  have plus_ne : b ≠ plus := by
    rintro rfl
    exact absurd digit.1 (by decide)
  simp only [hasSign, beq_eq_false_iff_ne.mpr minus_ne, beq_eq_false_iff_ne.mpr plus_ne,
    Bool.or_self]

theorem takeWhile_all {text : Bytes} (digits : ∀ b ∈ text, isDigit b = true) :
    text.takeWhile isDigit = text := by
  rw [List.takeWhile_eq_self_iff]
  exact digits

/-- `strtoll` of a text that begins with no whitespace. -/
theorem strtoll_of_begins {first : Byte} {rest : Bytes} (begins : isSpace first = false) :
    strtoll (first :: rest) =
      if (skipSign (first :: rest)).takeWhile isDigit = [] then (0, first :: rest)
      else (clampInt64 (if first = minus
          then -(digitsValue ((skipSign (first :: rest)).takeWhile isDigit) .dec : Int)
          else digitsValue ((skipSign (first :: rest)).takeWhile isDigit) .dec),
        (skipSign (first :: rest)).drop ((skipSign (first :: rest)).takeWhile isDigit).length) := by
  have body : skipWhitespace (first :: rest) = first :: rest := by
    rw [skipWhitespace, List.dropWhile_cons, begins]
    rfl
  unfold strtoll
  rw [body]
  simp only [List.head?_cons, Option.some.injEq]
  rfl

theorem strtoll_integer {text : Bytes} {v : Int} (integer : IntegerText text v) :
    strtoll text = (clampInt64 v, []) := by
  cases integer with
  | bare some digits =>
    obtain ⟨first, rest, rfl⟩ := List.exists_cons_of_ne_nil some
    have digit := digits first List.mem_cons_self
    have sign : skipSign (first :: rest) = first :: rest := by
      rw [skipSign, hasSign_of_isDigit digit]
      rfl
    have ne : first ≠ minus := by
      rintro rfl
      exact absurd digit (by decide)
    rw [strtoll_of_begins (not_isSpace_of_isDigit digit), sign, takeWhile_all digits,
      if_neg some, if_neg ne, List.drop_length]
  | @positive ds some digits =>
    have sign : skipSign (plus :: ds) = ds := rfl
    rw [strtoll_of_begins (by decide), sign, takeWhile_all digits, if_neg some,
      if_neg (by decide), List.drop_length]
  | @negative ds some digits =>
    have sign : skipSign (minus :: ds) = ds := rfl
    rw [strtoll_of_begins (by decide), sign, takeWhile_all digits, if_neg some,
      if_pos rfl, List.drop_length]

/-- What `strtoll` reads to the end is an integer. -/
theorem integer_of_strtoll {first : Byte} {rest : Bytes} (begins : isSpace first = false)
    (whole : (strtoll (first :: rest)).2 = []) : ∃ v, IntegerText (first :: rest) v := by
  rw [strtoll_of_begins begins] at whole
  split at whole
  · cases whole
  · rename_i some
    have all : (skipSign (first :: rest)).takeWhile isDigit = skipSign (first :: rest) := by
      apply (List.takeWhile_prefix _).eq_of_length_le
      exact List.drop_eq_nil_iff.mp whole
    rw [all] at some
    have digits : ∀ b ∈ skipSign (first :: rest), isDigit b = true :=
      List.takeWhile_eq_self_iff.mp all
    unfold skipSign at some digits
    split at some
    · rename_i signed
      rw [if_pos signed] at digits
      simp only [hasSign, Bool.or_eq_true, beq_iff_eq] at signed
      obtain rfl | rfl := signed
      · exact ⟨_, .negative some digits⟩
      · exact ⟨_, .positive some digits⟩
    · rename_i unsigned
      rw [if_neg unsigned] at digits
      exact ⟨_, .bare some digits⟩

/-! ## Rounds -/

theorem pathLoop_nil : pathLoop [] = some [] := by
  unfold pathLoop
  rfl

theorem pathLoop_step {p : Bytes} {comp : PathComponent} {n : Nat} (held : p ≠ [])
    (single : parseSingle p = some (comp, n)) (pos : 0 < n) :
    pathLoop p = (pathLoop (p.drop n)).map (comp :: ·) := by
  conv_lhs => unfold pathLoop
  rw [if_neg held, single]
  dsimp only
  rw [if_neg (Nat.pos_iff_ne_zero.mp pos)]

theorem pathLoop_stop {p : Bytes} (held : p ≠ []) (single : parseSingle p = none) :
    pathLoop p = none := by
  unfold pathLoop
  rw [if_neg held, single]

/-- A path that is not empty has a component. -/
theorem pathLoop_ne_nil {p : Bytes} (held : p ≠ []) : pathLoop p ≠ some [] := by
  intro empty
  cases single : parseSingle p with
  | none =>
    rw [pathLoop_stop held single] at empty
    cases empty
  | some r =>
    unfold pathLoop at empty
    rw [if_neg held, single] at empty
    dsimp only at empty
    split at empty
    · cases empty
    · obtain ⟨comps, -, eq⟩ := Option.map_eq_some_iff.mp empty
      cases eq

end LibAsdf
