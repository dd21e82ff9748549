import LibAsdf.Parser.Handlers
import LibAsdf.Parser.Lawful

/-!
# What each handler can do

One lemma for each `parse_*` function up to the block index, on a lawful
stream: the results it can give, the fields it changes, and how the bytes left
go down. The loops run out of iterations only as their lemmas say.

* `parseComment_spec`: the comment loop;
* `parseTreeOrBlock_spec`, `parseTreeFast_spec`: the scanning loops, which end
  unless their first match is rejected;
* `parseTree_spec`, `parseYaml_spec`: the tree.
-/

namespace LibAsdf

open StreamOps ParserStream StreamMeasure LawfulStream

/-! ## Texts -/

theorem peekByte_ends (mem : Bytes) (idx : Nat) : Ends (fun _ => True) (peekByte mem idx) := by
  unfold peekByte
  cases mem[idx]? with
  | some b => trivial
  | none => exact Fault.noConfusion

theorem strncmp_ends (mem str : Bytes) : Ends (fun _ => True) (strncmp mem str) := by
  induction str generalizing mem with
  | nil => cases mem <;> trivial
  | cons c str ih =>
    cases mem with
    | nil => exact Fault.noConfusion
    | cons b mem =>
      rw [strncmp]
      split
      · exact ih mem
      · trivial

theorem strndup_ends (mem : Bytes) (n : Nat) : Ends (fun _ => True) (strndup mem n) := by
  unfold strndup
  split
  · trivial
  · split
    · trivial
    · exact Fault.noConfusion

theorem skipDigits_ends (mem : Bytes) (n idx : Nat) :
    Ends (fun _ => True) (skipDigits mem n idx) := by
  induction n generalizing idx with
  | zero => exact Outcome.wp_seq (peekByte_ends mem idx) fun _ _ => trivial
  | succ n ih =>
    refine Outcome.wp_seq (peekByte_ends mem idx) fun b _ => ?_
    split
    · exact ih _
    · trivial

theorem endsWithNewline_ends (mem : Bytes) (bufSize len : Nat) :
    Ends (fun _ => True) (endsWithNewline mem bufSize len) := by
  rw [endsWithNewline]
  split
  · trivial
  · refine Outcome.wp_seq (peekByte_ends mem len) fun b _ => ?_
    split
    · trivial
    · split
      · exact Outcome.wp_seq (peekByte_ends mem (len + 1)) fun _ _ => trivial
      · trivial

theorem isStringWithNewline_ends (v : Option View) (str : Bytes) :
    Ends (fun r => r = true → ∃ w, v = some w ∧ str.length < w.len)
      (isStringWithNewline v str) := by
  cases v with
  | none => exact nofun
  | some v =>
    rw [isStringWithNewline]
    split
    · exact nofun
    · rename_i enough
      refine Outcome.wp_seq (strncmp_ends v.mem str) fun b _ => ?_
      cases b with
      | false => exact nofun
      | true => exact Outcome.wp_mono (endsWithNewline_ends v.mem v.len str.length) fun _ _ _ =>
          ⟨v, rfl, by omega⟩

theorem isYamlMinorVersion_ends (v : View) (idx : Nat) :
    Ends (fun _ => True) (isYamlMinorVersion v idx) := by
  refine Outcome.wp_seq (peekByte_ends v.mem idx) fun b _ => ?_
  split
  · trivial
  · refine Outcome.wp_seq (skipDigits_ends v.mem _ idx) fun idx _ => ?_
    refine Outcome.wp_seq (peekByte_ends v.mem idx) fun b _ => ?_
    exact Outcome.wp_seq (peekByte_ends v.mem _) fun _ _ => trivial

theorem isGenericYamlDirective_ends (v : Option View) :
    Ends (fun _ => True) (isGenericYamlDirective v) := by
  cases v with
  | none => trivial
  | some v =>
    rw [isGenericYamlDirective]
    split
    · trivial
    · refine Outcome.wp_seq (strncmp_ends v.mem _) fun b _ => ?_
      split
      · trivial
      · refine Outcome.wp_seq (peekByte_ends v.mem _) fun b _ => ?_
        split
        · trivial
        · refine Outcome.wp_seq (skipDigits_ends v.mem _ _) fun idx _ => ?_
          split
          · refine Outcome.wp_seq (peekByte_ends v.mem idx) fun b _ => ?_
            split
            · trivial
            · exact isYamlMinorVersion_ends v _
          · exact isYamlMinorVersion_ends v _

theorem isYamlDirective_ends (v : Option View) : Ends (fun _ => True) (isYamlDirective v) := by
  refine Outcome.wp_seq (isStringWithNewline_ends v _) fun b _ => ?_
  split
  · trivial
  · exact isGenericYamlDirective_ends v

theorem isBlockMagic_ends (v : Option View) :
    Ends (fun r => r = true → ∃ w, v = some w ∧ blockMagic.length ≤ w.len) (isBlockMagic v) := by
  cases v with
  | none => exact nofun
  | some v =>
    rw [isBlockMagic]
    split
    · exact nofun
    · exact Outcome.wp_seq (load_ends v.mem _ _) fun _ _ _ => ⟨v, rfl, by omega⟩

/-! ## Seeking and scanning -/

variable {σ φ : Type} [ParserStream σ] [LawfulStream σ] {p : Parser σ φ}

theorem trySeek_ends (h : Good p.stream) (offset : Int) (whence : Whence) :
    Ends (fun r => ∃ s, r.2 = { p with stream := s } ∧ Sought p.stream offset whence (r.1, s))
      (p.trySeek offset whence) := by
  refine Outcome.wp_seq (streamSeek_ends h offset whence) fun r hr => ?_
  obtain ⟨ok, s⟩ := r
  cases ok with
  | true => exact ⟨s, rfl, hr⟩
  | false =>
    have failed := onward_setError hr.keeps.good .unexpectedEof
    exact ⟨_, rfl, hr.keeps.trans failed.toKeeps, Nat.le_trans failed.left_le hr.left_le,
      fun w le ok => Nat.le_trans failed.left_le (hr.cur w le ok),
      fun w zero => Nat.le_trans failed.left_le (hr.ends w zero), fun _ _ ok => (nomatch ok),
      fun w seekable low before => ⟨Nat.le_trans failed.left_le
        (hr.before w seekable low before).1, nofun⟩⟩

theorem scanTokens_ends (h : Good p.stream) {tokens : List ParseToken} (some : tokens ≠ []) :
    Ends (fun r => ∃ s, r.2 = { p with stream := s } ∧ Onward p.stream s ∧
      ∀ t, r.1 = Option.some t → t ∈ tokens ∧ Fed s t.tok.length) (p.scanTokens tokens) := by
  refine Outcome.wp_seq (scan_ends p.stream _ h (by simpa using some)) fun r hr => ?_
  obtain ⟨found, s⟩ := r
  obtain ⟨onward, fed⟩ := hr
  cases found with
  | none => exact ⟨s, rfl, onward, fun t eq => by cases eq⟩
  | some m =>
    obtain ⟨tok, ht, fed⟩ := fed m rfl
    rw [List.getElem?_map, Option.map_eq_some_iff] at ht
    obtain ⟨token, htoken, rfl⟩ := ht
    simp only [htoken]
    refine ⟨s, rfl, onward, fun t eq => ?_⟩
    cases eq
    exact ⟨List.mem_of_getElem? htoken, fed⟩

/-! ## Header and comments -/

theorem parseVersionComment_ends (h : Good p.stream) (expected : Bytes) :
    Ends (fun r => ∃ s, r.2 = { p with stream := s } ∧ Onward p.stream s)
      (parseVersionComment p expected) := by
  refine Outcome.wp_seq (readline_ends p.stream h) fun r hr => ?_
  obtain ⟨line, s⟩ := r
  obtain ⟨onward, -⟩ := hr
  have failed : ∀ code, Onward p.stream (setError s code) := fun code =>
    onward.trans (onward_setError onward.good code)
  cases line with
  | none => exact ⟨_, rfl, failed _⟩
  | some v =>
    simp only
    split
    · exact ⟨_, rfl, failed _⟩
    · refine Outcome.wp_seq (strncmp_ends v.mem expected) fun b _ => ?_
      split
      · exact ⟨_, rfl, failed _⟩
      · exact Outcome.wp_seq (strndup_ends _ _) fun _ _ => ⟨s, rfl, onward⟩

theorem parseAsdfVersion_spec (h : Good p.stream) :
    Ends (fun r => ∃ s, Onward p.stream s ∧ (r = (.error, { p with stream := s }) ∨
      ∃ version, r = (.event (.asdfVersion version),
        { p with stream := s, asdfVersion := some version, state := .standardVersion })))
      (parseAsdfVersion p) := by
  refine Outcome.wp_seq (parseVersionComment_ends h _) fun r hr => ?_
  obtain ⟨version, q⟩ := r
  obtain ⟨s, rfl, onward⟩ := hr
  cases version with
  | none => exact ⟨s, onward, .inl rfl⟩
  | some version => exact ⟨s, onward, .inr ⟨version, rfl⟩⟩

theorem parseStandardVersion_spec (h : Good p.stream) :
    Ends (fun r => ∃ s, Onward p.stream s ∧ (r = (.error, { p with stream := s }) ∨
      ∃ version, r = (.event (.standardVersion version),
        { p with stream := s, standardVersion := some version, state := .comment })))
      (parseStandardVersion p) := by
  refine Outcome.wp_seq (parseVersionComment_ends h _) fun r hr => ?_
  obtain ⟨version, q⟩ := r
  obtain ⟨s, rfl, onward⟩ := hr
  cases version with
  | none => exact ⟨s, onward, .inl rfl⟩
  | some version => exact ⟨s, onward, .inr ⟨version, rfl⟩⟩

/-- What `parse_comment` does: a comment comes with the bytes of its line. -/
def Commented (p : Parser σ φ) (r : ParseResult × Parser σ φ) : Prop :=
  ∃ s, Onward p.stream s ∧ (r = (.error, { p with stream := s }) ∨
    (∃ text, r = (.event (.comment text), { p with stream := s }) ∧ left s < left p.stream) ∨
    r = (.continue, { p with stream := s, state := .blockIndex }))

theorem parseCommentRound_spec (h : Good p.stream) :
    Ends (Outcome.Round (fun q => ∃ s, q = { p with stream := s } ∧ Onward p.stream s ∧
      left s < left p.stream) (Commented p)) (parseCommentRound p) := by
  refine Outcome.wp_seq (streamPeek_ends h 1) fun r hr => ?_
  obtain ⟨buf, s⟩ := r
  obtain ⟨onward, fed⟩ := hr
  cases buf with
  | none => exact ⟨s, onward, .inr (.inr rfl)⟩
  | some v =>
    obtain ⟨pos, fed⟩ := fed v rfl
    have one : Fed s 1 := fed_mono s pos fed
    simp only
    rw [if_neg (Nat.ne_of_gt pos)]
    refine Outcome.wp_seq (Q := fun _ => True) ?_ fun chr _ => ?_
    · unfold View.get
      cases v.mem[0]? with
      | some b => trivial
      | none => exact Fault.noConfusion
    · split
      · refine Outcome.wp_seq (consume_ends s 1 0 onward.good one) fun t ht => ?_
        obtain ⟨keeps, less, -⟩ := ht
        have shorter : left t < left p.stream := Nat.lt_of_lt_of_le less onward.left_le
        have moved := onward.trans ⟨keeps, Nat.le_of_add_right_le less⟩
        split
        · exact ⟨t, moved, .inl rfl⟩
        · exact ⟨t, rfl, moved, shorter⟩
      · split
        · refine Outcome.wp_seq (readline_ends s onward.good) fun r hr => ?_
          obtain ⟨line, t⟩ := r
          obtain ⟨moved, some⟩ := hr
          obtain ⟨there, less⟩ := some one
          cases line with
          | none => exact absurd rfl there
          | some w => exact Outcome.wp_seq (strndup_ends _ _) fun _ _ =>
              ⟨t, onward.trans moved, .inr (.inl ⟨_, rfl, Nat.lt_of_lt_of_le less onward.left_le⟩)⟩
        · exact ⟨s, onward, .inr (.inr rfl)⟩

theorem parseComment_spec (h : Good p.stream) (fuel : Nat) :
    Outcome.wp (fun e => e ≠ .vector) (fuel ≤ left p.stream) (Commented p)
      (parseComment fuel p) := by
  refine Outcome.wp_imp (Outcome.wp_loop_within (T := False)
    (I := fun q => ∃ s, q = { p with stream := s } ∧ Onward p.stream s)
    (fun q => left q.stream) (fun q hq => ?_) fuel p ⟨p.stream, rfl, .refl h⟩)
    (fun _ => id) (Or.elim · False.elim id)
  obtain ⟨s, rfl, onward⟩ := hq
  refine Outcome.wp_mono (parseCommentRound_spec onward.good) fun r hr => ?_
  cases r with
  | inl q =>
    obtain ⟨t, rfl, moved, less⟩ := hr
    exact ⟨⟨t, rfl, onward.trans moved⟩, less⟩
  | inr r =>
    obtain ⟨t, moved, rest⟩ := hr
    refine ⟨t, onward.trans moved, rest.imp_right (Or.imp_left ?_)⟩
    rintro ⟨text, eq, less⟩
    exact ⟨text, eq, Nat.lt_of_lt_of_le less onward.left_le⟩

/-! ## The tree -/

/-- What `parse_tree_or_block` does. -/
def TreeOrBlocked (p : Parser σ φ) (r : ParseResult × Parser σ φ) : Prop :=
  ∃ s, Onward p.stream s ∧ (r = (.continue, { p with stream := s, state := .end }) ∨
    (∃ info tree, r = (.event (.treeStart info),
      { p with stream := s, tree := tree, state := .tree })) ∨
    ∃ tree, r = (.continue, { p with stream := s, tree := tree, state := .block }))

theorem parseTreeOrBlockRound_spec (h : Good p.stream) :
    Ends (Outcome.Round (fun q => ∃ s, q = { p with stream := s } ∧ Onward p.stream s)
      (TreeOrBlocked p)) (parseTreeOrBlockRound p) := by
  refine Outcome.wp_seq (scanTokens_ends h (List.cons_ne_nil _ _)) fun r hr => ?_
  obtain ⟨token, q⟩ := r
  obtain ⟨s, rfl, onward, found⟩ := hr
  match token, found with
  | none, _ => exact ⟨s, onward, .inl rfl⟩
  | some .yamlDirective, _ =>
    refine Outcome.wp_seq (next_ends s 0 onward.good) fun r hr => ?_
    obtain ⟨buf, t⟩ := r
    obtain ⟨moved, -⟩ := hr
    refine Outcome.wp_seq (isYamlDirective_ends buf) fun b _ => ?_
    split
    · exact ⟨t, onward.trans moved, .inr (.inl ⟨_, _, rfl⟩)⟩
    · exact ⟨t, rfl, onward.trans moved⟩
  | some .blockMagic, _ => exact ⟨s, onward, .inr (.inr ⟨_, rfl⟩)⟩
  | some .yamlDocumentEnd, found => exact absurd (found _ rfl).1 (by decide)
  | some .blockIndexHeader, found => exact absurd (found _ rfl).1 (by decide)

/-- The first match that `parse_tree_or_block` looks at is rejected. -/
def TreeOrBlockRejects (p : Parser σ φ) : Prop :=
  ∃ buf s q, streamPeek p.stream 0 = .ret (buf, s) ∧
    parseTreeOrBlockRound { p with stream := s } = .ret (.inl q)

theorem parseTreeOrBlock_spec (h : Good p.stream) (fuel : Nat) :
    Outcome.wp (fun e => e ≠ .vector) (fuel = 0 ∨ TreeOrBlockRejects p) (TreeOrBlocked p)
      (parseTreeOrBlock fuel p) := by
  rw [parseTreeOrBlock]
  cases peeked : streamPeek p.stream 0 with
  | timeout => exact absurd peeked (Outcome.ne_timeout_of_wp (streamPeek_ends h 0))
  | fault e =>
    have := streamPeek_ends h 0
    rwa [peeked] at this
  | ret r =>
    obtain ⟨onward, -⟩ := Outcome.wp_of_ret (streamPeek_ends h 0) peeked
    obtain ⟨buf, s⟩ := r
    simp only [Outcome.ret_bind]
    have rejects : (fuel = 0 ∨ ∃ q, parseTreeOrBlockRound { p with stream := s } = .ret (.inl q)) →
        fuel = 0 ∨ TreeOrBlockRejects p := Or.imp_right fun ⟨q, hq⟩ => ⟨buf, s, q, peeked, hq⟩
    split
    · exact ⟨s, onward, .inl rfl⟩
    · refine Outcome.wp_seq (Outcome.wp_imp (isYamlDirective_ends buf) (fun _ => id)
        False.elim) fun b _ => ?_
      split
      · exact ⟨s, onward, .inr (.inl ⟨_, _, rfl⟩)⟩
      · refine Outcome.wp_seq (Outcome.wp_imp (isBlockMagic_ends buf) (fun _ => id)
          False.elim) fun b _ => ?_
        split
        · exact ⟨s, onward, .inr (.inr ⟨_, rfl⟩)⟩
        · refine Outcome.wp_imp (Outcome.wp_loop_first
            (I := fun q => ∃ t, q = { p with stream := t } ∧ Onward p.stream t)
            (fun q hq => ?_) fuel _ ⟨s, rfl, onward⟩) (fun _ => id) rejects
          obtain ⟨t, rfl, moved⟩ := hq
          refine Outcome.wp_mono (parseTreeOrBlockRound_spec moved.good) fun r hr => ?_
          cases r with
          | inl q =>
            obtain ⟨u, rfl, further⟩ := hr
            exact ⟨u, rfl, moved.trans further⟩
          | inr r =>
            obtain ⟨u, further, rest⟩ := hr
            exact ⟨u, moved.trans further, rest⟩

theorem parseTreeFastRound_spec (h : Good p.stream) :
    Ends (Outcome.Round (fun q => ∃ s, q = { p with stream := s } ∧ Onward p.stream s)
      (fun r => ∃ s, r.2 = { p with stream := s } ∧ Onward p.stream s))
      (parseTreeFastRound p) := by
  refine Outcome.wp_seq (scanTokens_ends h (List.cons_ne_nil _ _)) fun r hr => ?_
  obtain ⟨token, q⟩ := r
  obtain ⟨s, rfl, onward, found⟩ := hr
  match token, found with
  | none, _ => exact ⟨s, rfl, onward⟩
  | some .yamlDocumentEnd, found =>
    refine Outcome.wp_seq (next_ends s 0 onward.good) fun r hr => ?_
    obtain ⟨buf, t⟩ := r
    obtain ⟨moved, fed⟩ := hr
    refine Outcome.wp_seq (isStringWithNewline_ends buf _) fun b hb => ?_
    split
    · rename_i marker
      obtain ⟨v, rfl, long⟩ := hb marker
      refine Outcome.wp_seq (consume_ends t 1 0 moved.good
        (fed_mono t (Nat.zero_lt_of_lt long) (fed v rfl).2)) fun u hu => ?_
      obtain ⟨keeps, less, -⟩ := hu
      have consumed := (onward.trans moved).trans ⟨keeps, Nat.le_of_add_right_le less⟩
      dsimp only
      split
      · exact ⟨u, rfl, consumed⟩
      · exact Outcome.wp_seq (readline_ends u consumed.good) fun r hr =>
          ⟨r.2, rfl, consumed.trans hr.1⟩
    · exact ⟨t, rfl, onward.trans moved⟩
  | some .blockMagic, _ => exact ⟨s, rfl, onward⟩
  | some .yamlDirective, found => exact absurd (found _ rfl).1 (by decide)
  | some .blockIndexHeader, found => exact absurd (found _ rfl).1 (by decide)

theorem parseTreeFast_spec (h : Good p.stream) (fuel : Nat) :
    Outcome.wp (fun e => e ≠ .vector)
      (fuel = 0 ∨ ∃ q, parseTreeFastRound p = .ret (.inl q))
      (fun r => ∃ s tree, r.2 = { p with stream := s, tree := tree } ∧ Onward p.stream s)
      (parseTreeFast fuel p) := by
  refine Outcome.wp_seq (Outcome.wp_loop_first
    (I := fun q => ∃ s, q = { p with stream := s } ∧ Onward p.stream s)
    (P := fun r => ∃ s, r.2 = { p with stream := s } ∧ Onward p.stream s)
    (fun q hq => ?_) fuel p ⟨p.stream, rfl, .refl h⟩) fun r hr => ?_
  · obtain ⟨s, rfl, onward⟩ := hq
    refine Outcome.wp_mono (parseTreeFastRound_spec onward.good) fun r hr => ?_
    cases r with
    | inl q =>
      obtain ⟨t, rfl, moved⟩ := hr
      exact ⟨t, rfl, onward.trans moved⟩
    | inr r =>
      obtain ⟨t, eq, moved⟩ := hr
      exact ⟨t, eq, onward.trans moved⟩
  · obtain ⟨treeEnd, q⟩ := r
    obtain ⟨s, rfl, onward⟩ := hr
    cases treeEnd with
    | none => exact ⟨s, p.tree, rfl, onward⟩
    | some treeEnd => exact ⟨s, _, rfl, onward⟩

/-- The first match that `parse_tree_fast` looks at is rejected. -/
def TreeRejects (p : Parser σ φ) : Prop :=
  (capturesTree p || !p.emitYamlEvents) ∧ ∃ q, parseTreeFastRound (if capturesTree p then
    { p with stream := streamSetCapture p.stream (some []) } else p) = .ret (.inl q)

theorem parseTreeCaptured_spec (h : Good p.stream) (fuel : Nat) (bufferTree : Bool) :
    Outcome.wp (fun e => e ≠ .vector)
      (fuel = 0 ∨ ∃ q, parseTreeFastRound (if bufferTree then
        { p with stream := streamSetCapture p.stream (some []) } else p) = .ret (.inl q))
      (fun r => ∃ s tree, r.2 = { p with stream := s, tree := tree } ∧ Onward p.stream s)
      (parseTreeCaptured fuel bufferTree p) := by
  rw [parseTreeCaptured]
  obtain ⟨t, eq, onward⟩ : ∃ t, (if bufferTree then
      { p with stream := streamSetCapture p.stream (some []) } else p) = { p with stream := t } ∧
      Onward p.stream t := by
    cases bufferTree with
    | true => exact ⟨_, rfl, onward_setCapture h _⟩
    | false => exact ⟨_, rfl, .refl h⟩
  dsimp only
  rw [eq]
  refine Outcome.wp_seq (parseTreeFast_spec onward.good fuel) fun r hr => ?_
  obtain ⟨ok, q⟩ := r
  obtain ⟨s, tree, rfl, moved⟩ := hr
  have closed := (onward.trans moved).trans (onward_setCapture moved.good none)
  cases bufferTree with
  | true => exact ⟨_, _, rfl, closed⟩
  | false => exact ⟨_, _, rfl, closed⟩

theorem yamlInput_ends (h : Good p.stream) :
    Ends (fun r => ∃ s, r.2 = { p with stream := s } ∧ Keeps p.stream s) (yamlInput p) := by
  rw [yamlInput]
  split
  · exact ⟨p.stream, rfl, .refl h⟩
  · exact Outcome.wp_seq (fyParserSetInput_ends p.stream h) fun r hr => ⟨r.2, rfl, hr⟩

theorem initializeYamlParser_spec (h : Good p.stream) (env : Env φ) :
    Ends (fun r => ∃ s, Keeps p.stream s ∧ (r = (false, { p with stream := s }) ∨
      ∃ input yaml, env.fy.setInput input = some yaml ∧
        r = (true, { p with stream := s, yamlParser := some yaml })))
      (initializeYamlParser env p) := by
  rw [initializeYamlParser]
  refine Outcome.wp_seq (Q := fun _ => True) ?_ fun _ _ => ?_
  · unfold assert
    split
    · trivial
    · exact Fault.noConfusion
  · refine Outcome.wp_seq (yamlInput_ends h) fun r hr => ?_
    obtain ⟨input, q⟩ := r
    obtain ⟨s, rfl, keeps⟩ := hr
    dsimp only
    cases set : input.bind env.fy.setInput with
    | none => exact ⟨_, keeps.trans (onward_setError keeps.good _).toKeeps, .inl rfl⟩
    | some yaml =>
      obtain ⟨input, -, set⟩ := Option.bind_eq_some_iff.mp set
      exact ⟨s, keeps, .inr ⟨input, yaml, set, rfl⟩⟩

/-- What `parse_tree` does. -/
def Treed (env : Env φ) (p : Parser σ φ) (r : ParseResult × Parser σ φ) : Prop :=
  ∃ s tree, Keeps p.stream s ∧ (r = (.error, { p with stream := s, tree := tree }) ∨
    (∃ input yaml, env.fy.setInput input = some yaml ∧ r = (.continue,
      { p with stream := s, tree := tree, yamlParser := some yaml, state := .yaml })) ∨
    ∃ info, r = (.event (.treeEnd info),
      { p with stream := s, tree := tree, state := .padding }))

theorem skipTree_spec (h : Good p.stream) (fuel : Nat) :
    Outcome.wp (fun e => e ≠ .vector) (fuel = 0 ∨ TreeRejects p)
      (fun r => ∃ s tree, r.2 = { p with stream := s, tree := tree } ∧ Onward p.stream s)
      (skipTree fuel p) := by
  rw [skipTree]
  split
  · rename_i scans
    exact Outcome.wp_imp (parseTreeCaptured_spec h fuel _) (fun _ => id)
      (Or.imp_right fun rejects => ⟨scans, rejects⟩)
  · exact ⟨p.stream, p.tree, rfl, .refl h⟩

theorem parseTree_spec (h : Good p.stream) (env : Env φ) (fuel : Nat) :
    Outcome.wp (fun e => e ≠ .vector) (fuel = 0 ∨ TreeRejects p) (Treed env p)
      (parseTree env fuel p) := by
  refine Outcome.wp_seq (skipTree_spec h fuel) fun r hr => ?_
  obtain ⟨ok, q⟩ := r
  obtain ⟨s, tree, rfl, onward⟩ := hr
  cases ok with
  | false => exact ⟨s, tree, onward.toKeeps, .inl rfl⟩
  | true =>
    dsimp only
    rw [if_neg (by decide)]
    split
    · refine Outcome.wp_seq (Outcome.wp_imp (initializeYamlParser_spec onward.good env)
        (fun _ => id) False.elim) fun r hr => ?_
      obtain ⟨t, keeps, rfl | ⟨input, yaml, set, rfl⟩⟩ := hr
      · exact ⟨t, tree, onward.toKeeps.trans keeps, .inl rfl⟩
      · exact ⟨t, _, onward.toKeeps.trans keeps, .inr (.inl ⟨input, yaml, set, rfl⟩)⟩
    · exact ⟨s, tree, onward.toKeeps, .inr (.inr ⟨_, rfl⟩)⟩

/-- What `parse_yaml` does after libfyaml was asked for the next event. -/
inductive YamlNext (parsed : FyParsed φ) (p : Parser σ φ) :
    ParseResult × Parser σ φ → Prop
  | failed (s : σ) (tree : ParserTree) (keeps : Keeps p.stream s) : YamlNext parsed p
      (.error, { p with stream := s, tree := tree, yamlParser := some parsed.parser })
  | ended (s : σ) (tree : ParserTree) (keeps : Keeps p.stream s) (yaml : Option FyEvent)
      (done : tree.done) (null : yaml = none → parsed.event = none ∧ parsed.streamError = false) :
      YamlNext parsed p (.event (.yaml yaml),
        { p with stream := s, tree := tree, yamlParser := some parsed.parser })
  | event (s : σ) (tree : ParserTree) (keeps : Keeps p.stream s) (yaml : FyEvent)
      (more : tree.done = p.tree.done) (read : parsed.event = some yaml)
      (last : yaml ≠ .streamEnd) : YamlNext parsed p (.event (.yaml (some yaml)),
        { p with stream := s, tree := tree, yamlParser := some parsed.parser })

/-- What `parse_yaml` does. -/
def Yamled (env : Env φ) (p : Parser σ φ) (r : ParseResult × Parser σ φ) : Prop :=
  (p.tree.done ∧ ∃ info, r = (.event (.treeEnd info), { p with state := .padding })) ∨
  p.tree.done = false ∧
    ∃ y, p.yamlParser = some y ∧ YamlNext (env.fy.parse y (fyFilePos p.stream)) p r

theorem parseYamlDocumentEnd_ends (h : Good p.stream) (endMark : Option Nat) :
    Ends (fun r => ∃ s tree, Keeps p.stream s ∧ tree.done = p.tree.done ∧
      r.2 = { p with stream := s, tree := tree }) (parseYamlDocumentEnd endMark p) := by
  unfold parseYamlDocumentEnd
  refine Outcome.wp_mono (trySeek_ends ?_ _ _) fun r hr => ?_
  · exact h
  obtain ⟨s, eq, sought⟩ := hr
  refine ⟨s, _, sought.keeps, ?_, eq⟩
  rfl

theorem parseYaml_spec (h : Good p.stream) (env : Env φ) :
    Ends (Yamled env p) (parseYaml env p) := by
  rw [parseYaml]
  refine Outcome.wp_seq (Q := fun _ => True) ?_ fun _ _ => ?_
  · unfold assert
    split
    · trivial
    · exact Fault.noConfusion
  split
  · exact .inl ⟨‹_›, _, rfl⟩
  rename_i notDone
  cases started : p.yamlParser with
  | none => exact Fault.noConfusion
  | some y =>
    dsimp only
    generalize read : env.fy.parse y (fyFilePos p.stream) = parsed
    have keeps := fyMoved_keeps p.stream parsed.filePos h
    refine Outcome.wp_mono (Q := YamlNext parsed p) ?_
      fun r hr => .inr ⟨by simpa using notDone, y, started, read.symm ▸ hr⟩
    generalize chosen : (if (parsed.streamError && p.tree.found) = true then
      some FyEvent.streamEnd else parsed.event) = yaml
    have direct : yaml ≠ some .streamEnd → parsed.event = yaml := by
      intro last
      split at chosen
      · exact absurd chosen.symm last
      · exact chosen
    split
    · exact .failed _ _ (keeps.trans (onward_setError keeps.good _).toKeeps)
    · rename_i noError
      match yaml with
      | none =>
        refine .ended _ _ keeps none rfl fun _ => ⟨direct nofun, ?_⟩
        simpa using noError
      | some .streamEnd => exact .ended _ _ keeps _ rfl nofun
      | some (.documentEnd endMark) =>
        refine Outcome.wp_seq (parseYamlDocumentEnd_ends keeps.good endMark) fun r hr => ?_
        obtain ⟨ok, q⟩ := r
        obtain ⟨s, tree, moved, more, rfl⟩ := hr
        cases ok with
        | true => exact .event s tree (keeps.trans moved) _ more (direct nofun) nofun
        | false => exact .failed s tree (keeps.trans moved)
      | some .streamStart => exact .event _ _ keeps _ rfl (direct nofun) nofun
      | some .documentStart => exact .event _ _ keeps _ rfl (direct nofun) nofun
      | some .other => exact .event _ _ keeps _ rfl (direct nofun) nofun

end LibAsdf
