import LibAsdf.Yaml.PathParse

/-!
# Text behind a component

What the path parser makes of text between the end of a component and the next
slash.

* `ClosesLater`: a quote further on that is taken for the end of the key;
* `parseSingle_behind_iff`: a quoted key is refused just if there is none;
* `pathParse_behind`: text behind a closing quote is refused, where there is none;
* `pathLoop_passes`: behind a `]` one character is passed over;
* `path_parse`: what is made of paths.
-/

namespace LibAsdf

/-! ## Quotes -/

/-- Text behind the closing quote of a key that has a quote of its kind before a
slash or the end, with every backslash up to there followed as it has to be. -/
def ClosesLater (k : QuotedKey) (tail : Bytes) : Prop :=
  ∃ front back, tail = front ++ k.quote :: back ∧ Boundary back ∧
    Followed (k.text ++ k.quote :: front)

theorem QuotedKey.not_escapable (k : QuotedKey) : isEscapable k.quote = false := by
  obtain quote | quote := k.isQuote <;> rw [quote] <;> decide

theorem QuotedKey.ne_backslash (k : QuotedKey) : k.quote ≠ backslash := by
  obtain quote | quote := k.isQuote <;> rw [quote] <;> decide

section Scan

variable {quote : Byte}

/-- The parser ends at a quote that ends a component. -/
theorem mapScan_some {text : Bytes} {n : Nat} (unescaped : isEscapable quote = false)
    (scan : mapScan quote text = some n) :
    ∃ front back, text = front ++ quote :: back ∧ front.length = n ∧ Boundary back ∧
      Followed front := by
  induction text generalizing n with
  | nil => cases scan
  | cons chr more ih =>
    rw [mapScan.eq_def] at scan
    dsimp only at scan
    split at scan
    · rename_i escape
      cases more with
      | nil => cases scan
      | cons next last =>
        dsimp only at scan
        split at scan
        · rename_i escapable
          obtain ⟨m, found, rfl⟩ := Option.map_eq_some_iff.mp scan
          obtain ⟨front, back, eq, rfl, boundary, followed⟩ := ih found
          refine ⟨chr :: front, back, by rw [eq]; rfl, rfl, boundary, ?_, followed⟩
          intro _
          cases front with
          | nil =>
            cases eq
            rw [unescaped] at escapable
            cases escapable
          | cons first front =>
            obtain ⟨rfl, -⟩ := List.cons.inj eq
            exact ⟨next, front, rfl, escapable⟩
        · cases scan
    · rename_i plain
      split at scan
      · rename_i closes
        obtain ⟨rfl, boundary⟩ := closes
        cases scan
        exact ⟨[], more, rfl, rfl, boundary, trivial⟩
      · obtain ⟨m, found, rfl⟩ := Option.map_eq_some_iff.mp scan
        obtain ⟨front, back, rfl, rfl, boundary, followed⟩ := ih found
        exact ⟨chr :: front, back, rfl, rfl, boundary, fun escape => absurd escape plain, followed⟩

/-- A quote that ends a component ends the parser, or one before it does. -/
theorem mapScan_isSome {front back : Bytes} (plain : quote ≠ backslash) (boundary : Boundary back)
    (followed : Followed front) : ∃ n, mapScan quote (front ++ quote :: back) = some n := by
  induction front with
  | nil => exact ⟨0, mapScan_closing plain boundary⟩
  | cons chr more ih =>
    obtain ⟨escapes, followed⟩ := followed
    obtain ⟨n, scan⟩ := ih followed
    by_cases escape : chr = backslash
    · obtain ⟨next, last, rfl, escapable⟩ := escapes escape
      subst escape
      refine ⟨n + 1, ?_⟩
      rw [List.cons_append, List.cons_append, mapScan_backslash, if_pos escapable,
        ← List.cons_append, scan]
      rfl
    · rw [List.cons_append, mapScan.eq_def]
      dsimp only
      rw [if_neg escape]
      split
      · exact ⟨0, rfl⟩
      · exact ⟨n + 1, by rw [scan]; rfl⟩

end Scan

theorem PathSegment.quoted_append (k : QuotedKey) (tail : Bytes) :
    (PathSegment.quoted k).text ++ tail = k.quote :: (k.text ++ k.quote :: tail) := by
  change k.quote :: (k.text ++ [k.quote]) ++ tail = _
  rw [List.cons_append, List.append_assoc]
  rfl

/-- Where the parser ends in text behind a closing quote. -/
theorem closesLater_of_scan {k : QuotedKey} {tail : Bytes} {n : Nat} (behind : ¬ Boundary tail)
    (scan : mapScan k.quote (k.text ++ k.quote :: tail) = some n) :
    ∃ front back, tail = front ++ k.quote :: back ∧ n = k.text.length + (front.length + 1) ∧
      Boundary back ∧ Followed (k.text ++ k.quote :: front) := by
  obtain ⟨front, back, whole, rfl, boundary, followed⟩ := mapScan_some k.not_escapable scan
  obtain ⟨more, rfl, eq⟩ | ⟨more, text, eq⟩ := List.append_eq_append_iff.mp whole
  · cases more with
    | nil =>
      obtain ⟨-, rfl⟩ := List.cons.inj eq
      exact absurd boundary behind
    | cons first more =>
      obtain ⟨rfl, rfl⟩ := List.cons.inj eq
      exact ⟨more, back, rfl, List.length_append, boundary, followed⟩
  · cases more with
    | nil =>
      obtain ⟨-, rfl⟩ := List.cons.inj eq
      exact absurd boundary behind
    | cons first more =>
      obtain ⟨rfl, -⟩ := List.cons.inj eq
      refine absurd rfl (k.quoted.no_quote k.isQuote k.quote ?_)
      rw [text]
      exact List.mem_append_right _ List.mem_cons_self

/-- Text behind a closing quote is refused just if no quote further on is taken
for the closing one. -/
theorem parseSingle_behind_iff {k : QuotedKey} {tail : Bytes} (behind : ¬ Boundary tail) :
    parseSingle ((PathSegment.quoted k).text ++ tail) = none ↔ ¬ ClosesLater k tail := by
  rw [PathSegment.quoted_append, parseSingle_quoted, Option.map_eq_none_iff, findMap,
    Option.map_eq_none_iff]
  constructor
  · rintro refused ⟨front, back, rfl, boundary, followed⟩
    obtain ⟨n, scan⟩ := mapScan_isSome k.ne_backslash boundary followed
    rw [List.append_assoc, List.cons_append, refused] at scan
    cases scan
  · intro later
    cases scan : mapScan k.quote (k.text ++ k.quote :: tail) with
    | none => rfl
    | some n =>
      obtain ⟨front, back, eq, -, boundary, followed⟩ := closesLater_of_scan behind scan
      exact absurd ⟨front, back, eq, boundary, followed⟩ later

/-! ## Paths -/

/-- Nothing before the key makes up for it. -/
theorem pathLoop_behind (init : List PathSegment) {k : QuotedKey} {tail : Bytes}
    (refused : parseSingle ((PathSegment.quoted k).text ++ tail) = none) :
    pathLoop (joined (init ++ [.quoted k]) ++ tail) = none := by
  induction init with
  | nil =>
    apply pathLoop_stop _ refused
    exact List.append_ne_nil_of_left_ne_nil (PathSegment.text_ne_nil _) _
  | cons w init ih =>
    have eq : joined (w :: init ++ [.quoted k]) ++ tail =
        w.text ++ slash :: (joined (init ++ [.quoted k]) ++ tail) := by
      obtain ⟨w', ws, cons⟩ : ∃ w' ws, init ++ [PathSegment.quoted k] = w' :: ws :=
        List.exists_cons_of_ne_nil (List.append_ne_nil_of_right_ne_nil _ (List.cons_ne_nil _ _))
      rw [List.cons_append, cons]
      exact List.append_assoc _ _ _
    rw [eq]
    by_cases readable : w.Readable
    · rw [pathLoop_written w (boundary_slash _) readable]
      have again : pathLoop (w.next (slash :: (joined (init ++ [.quoted k]) ++ tail))) = none := by
        unfold PathSegment.next
        split
        · exact ih
        · rename_i lagging
          cases read : pathLoop _ with
          | none => rfl
          | some comps =>
            obtain ⟨comps', read', -⟩ := pathLoop_leftover (leftover_written w lagging) read
            rw [ih] at read'
            cases read'
      rw [again]
      cases w.component <;> rfl
    · exact pathLoop_unreadable readable

theorem pathParse_behind {lead : PathLead} {init : List PathSegment} {k : QuotedKey} {tail : Bytes}
    (refused : parseSingle ((PathSegment.quoted k).text ++ tail) = none) :
    pathParse (lead.text ++ (joined (init ++ [.quoted k]) ++ tail)) = none := by
  cases init with
  | nil =>
    have read := pathParse_lead lead (.quoted k) tail
    exact read.trans (pathLoop_behind [] refused)
  | cons w init =>
    obtain ⟨rest, eq, eq'⟩ := joined_cons_strip w (init ++ [.quoted k]) tail
    rw [List.cons_append, eq, pathParse_lead, ← eq']
    exact pathLoop_behind (w.strip :: init) refused

/-- Text behind the closing quote of the last key, up to the slash that follows on
it or the end, is refused. -/
def RefusesBehind (lead : PathLead) (init : List PathSegment) (k : QuotedKey) (tail : Bytes) :
    Prop :=
  ¬ Boundary tail → pathParse (lead.text ++ (joined (init ++ [.quoted k]) ++ tail)) = none

theorem refusesBehind_of_not_closesLater {lead : PathLead} {init : List PathSegment} {k : QuotedKey}
    {tail : Bytes} (later : ¬ ClosesLater k tail) : RefusesBehind lead init k tail :=
  fun behind => pathParse_behind ((parseSingle_behind_iff behind).mpr later)

/-- A single key with text up to the end of the path. -/
theorem pathParse_single_behind (lead : PathLead) {k : QuotedKey} {tail : Bytes}
    (behind : ¬ Boundary tail) (single : slash ∉ tail) (later : ClosesLater k tail) :
    ∃ comp, pathParse (lead.text ++ ((PathSegment.quoted k).text ++ tail)) = some [comp] := by
  obtain ⟨front, back, eq, boundary, followed⟩ := later
  obtain ⟨n, scan⟩ : ∃ n, mapScan k.quote (k.text ++ k.quote :: tail) = some n := by
    obtain ⟨n, scan⟩ := mapScan_isSome k.ne_backslash boundary followed
    rw [List.append_assoc, List.cons_append, ← eq] at scan
    exact ⟨n, scan⟩
  obtain ⟨front, back, rfl, rfl, boundary, -⟩ := closesLater_of_scan behind scan
  have last : back = [] := by
    obtain rfl | ⟨more, rfl⟩ := boundary.cases
    · rfl
    · refine absurd ?_ single
      exact List.mem_append_right _ (List.mem_cons_of_mem _ List.mem_cons_self)
  subst last
  have all : 1 + (k.text.length + (front.length + 1) + 1) =
      (k.text ++ k.quote :: (front ++ [k.quote])).length + 1 := by
    simp only [List.length_append, List.length_cons, List.length_nil]
    omega
  obtain ⟨comp, read⟩ : ∃ comp,
      parseSingle (k.quote :: (k.text ++ k.quote :: (front ++ [k.quote]))) = some (comp,
        (k.quote :: (k.text ++ k.quote :: (front ++ [k.quote]))).length) := by
    rw [parseSingle_quoted, findMap, scan, Option.map_some, Option.map_some,
      if_neg (not_not.mpr all), all]
    exact ⟨_, rfl⟩
  refine ⟨comp, (pathParse_lead lead (.quoted k) _).trans ?_⟩
  change pathLoop ((PathSegment.quoted k).text ++ _) = _
  rw [PathSegment.quoted_append, pathLoop_step (List.cons_ne_nil _ _) read (Nat.succ_pos _),
    List.drop_length, pathLoop_nil]
  rfl

theorem refusesBehind_single_iff {lead : PathLead} {k : QuotedKey} {tail : Bytes}
    (single : slash ∉ tail) :
    RefusesBehind lead [] k tail ↔ Boundary tail ∨ ¬ ClosesLater k tail := by
  constructor
  · intro refuses
    by_cases behind : Boundary tail
    · exact .inl behind
    · refine .inr ?_
      intro later
      obtain ⟨comp, read⟩ := pathParse_single_behind lead behind single later
      cases read.symm.trans (refuses behind)
  · rintro (boundary | later)
    · exact fun behind => absurd boundary behind
    · exact refusesBehind_of_not_closesLater later

/-- Behind a `]` and whitespace the loop goes on after one more character, which it
does not look at. -/
theorem pathLoop_passes (i : BracketIndex) (flush : i.before = []) {space : Bytes}
    (spaces : ∀ b ∈ space, isSpace b = true) {chr : Byte} (begins : isSpace chr = false) (rest : Bytes) :
    pathLoop ((PathSegment.index i).text ++ (space ++ chr :: rest)) =
      (PathSegment.index i).component.bind fun comp => (pathLoop rest).map (comp :: ·) := by
  have whole : (PathSegment.index i).text ++ (space ++ chr :: rest) =
      91 :: (i.before ++ (i.number ++ (i.after ++ closingSquare :: (space ++ chr :: rest)))) := by
    change 91 :: (i.before ++ (i.number ++ (i.after ++ [closingSquare]))) ++ _ = _
    simp only [List.cons_append, List.append_assoc, List.nil_append]
  have skipped : skipWhitespace (space ++ chr :: rest) = chr :: rest := by
    rw [skipWhitespace_append spaces]
    exact skipWhitespace_begins begins
  obtain ⟨comp, read⟩ := component_isSome (.index i)
  have single : parseSingle ((PathSegment.index i).text ++ (space ++ chr :: rest)) =
      some (comp, 1 + (i.number.length + (i.after.length + 1) + space.length) + 1) := by
    have found : (space ++ chr :: rest).length - (chr :: rest).length = space.length := by
      rw [List.length_append, Nat.add_sub_cancel]
    rw [whole, parseSingle_index, findSeq_number, skipped, found, Option.bind_some]
    change componentOf .seq i.number = some comp at read
    rw [read, Option.map_some, if_pos]
    simp only [List.length_cons, List.length_append]
    omega
  have before : (PathSegment.index i).text ++ (space ++ chr :: rest) =
      (91 :: (i.number ++ (i.after ++ closingSquare :: (space ++ [chr])))) ++ rest := by
    rw [whole, flush]
    simp only [List.nil_append, List.cons_append, List.append_assoc]
  have dropped : ((PathSegment.index i).text ++ (space ++ chr :: rest)).drop
      (1 + (i.number.length + (i.after.length + 1) + space.length) + 1) = rest := by
    rw [before]
    apply List.drop_left'
    simp only [List.length_cons, List.length_append, List.length_nil]
    omega
  rw [pathLoop_step (by rw [whole]; exact List.cons_ne_nil _ _) single (Nat.succ_pos _), dropped, read]
  rfl

/-- Components are read one by one just if they are clean. Text behind a closing
quote is refused if no quote further on is taken for the closing one, and where the
path ends with it only then. -/
theorem path_parse (lead : PathLead) (ws init : List PathSegment) (k : QuotedKey) (tail : Bytes) :
    (ReadsExactly lead ws ↔ PathClean ws) ∧
    (ClosesLater k tail ∨ RefusesBehind lead init k tail) ∧
    (slash ∉ tail → (RefusesBehind lead [] k tail ↔ Boundary tail ∨ ¬ ClosesLater k tail)) := by
  refine ⟨readsExactly_iff lead ws, ?_, refusesBehind_single_iff⟩
  by_cases later : ClosesLater k tail
  · exact .inl later
  · exact .inr (refusesBehind_of_not_closesLater later)

/-! ## Paths that are not read so -/

def keyOf (space : Bytes) (chr : Byte) (spaces : ∀ b ∈ space, isSpace b = true)
    (begins : isSpace chr = false) (plain : chr ≠ slash ∧ isBracket chr = false) : UnquotedKey where
  space
  text := [chr]
  spaces
  begins := congrArg Option.some begins
  plain := by
    intro b mem
    obtain rfl := List.mem_singleton.mp mem
    exact plain

/-- The path `a/ b/c`. -/
def spacedKeys : List PathSegment :=
  [.key (keyOf [] 97 PathSegment.spaces_nil (by decide) (by decide)),
    .key (keyOf [32] 98 (List.forall_mem_singleton.mpr (by decide)) (by decide) (by decide)),
    .key (keyOf [] 99 PathSegment.spaces_nil (by decide) (by decide))]

/-- The key `'d\\'`. -/
def escapedBackslash : QuotedKey where
  quote := 39
  text := [100, backslash, backslash]
  isQuote := .inl rfl
  quoted := .plain (by decide) (by decide) (.escape (by decide) .nil)

/-- The index `[0]`. -/
def zeroIndex : BracketIndex where
  before := []
  negative := false
  digits := [48]
  after := []
  spaces := PathSegment.spaces_nil
  some := List.cons_ne_nil _ _
  decimal := List.forall_mem_singleton.mpr (by decide)

/-- The second key of `a/ b/c` is read twice, `'d\\'` is refused, and of `[0]x` the
last character is passed over. -/
theorem path_not_exact :
    ¬ ReadsExactly ⟨[], nofun⟩ spacedKeys ∧ ¬ ReadsExactly ⟨[], nofun⟩ [.quoted escapedBackslash] ∧
    pathParse [91, 48, 93, 120] = some [⟨.seq, [48], 0⟩] := by
  refine ⟨?_, ?_, ?_⟩
  · rw [readsExactly_iff]
    rintro ⟨-, ⟨-, -, exact | ⟨last, -⟩⟩, -⟩
    · cases exact
    · cases last
  · rw [readsExactly_iff]
    rintro ⟨⟨-, -, escapes, -⟩, -⟩
    obtain ⟨next, more, eq, -⟩ := escapes rfl
    cases eq
  · have passed := pathLoop_passes zeroIndex rfl PathSegment.spaces_nil (show isSpace 120 = false by decide) []
    rw [pathLoop_nil] at passed
    exact passed

end LibAsdf
