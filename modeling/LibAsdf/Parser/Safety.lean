import LibAsdf.Parser.Bounds
import LibAsdf.Parser.Directive
import LibAsdf.Parser.Steps

/-!
# Handlers that stay inside their memory

What the handlers up to the tree must not meet, so that they read nothing
outside an allocation and fail no assertion.

* `VersionCut`, `CommentOpen`, `TreeStartCut`: the texts that are read past their end;
* `ReadsYaml`: where libfyaml can be set up;
* `parseTreeOrBlock_safe`, `parseTree_safe`, `parseYaml_safe`: the tree.
-/

namespace LibAsdf

open StreamOps ParserStream StreamMeasure LawfulStream StreamBounds BoundedStream

/-! ## Texts -/

theorem peekByte_safe {mem : Bytes} {idx : Nat} (lt : idx < mem.length) :
    Safely (fun b => mem[idx]? = some b) (peekByte mem idx) := by
  rw [peekByte, List.getElem?_eq_getElem lt]
  exact rfl

/-- The comparison goes through unless the memory ends inside the text. -/
theorem strncmp_safe {mem str : Bytes} (whole : str.length ≤ mem.length ∨ ¬ mem <+: str) :
    Safely (fun r => r = true → str <+: mem) (strncmp mem str) := by
  induction str generalizing mem with
  | nil => cases mem <;> exact fun _ => List.nil_prefix
  | cons c str ih =>
    cases mem with
    | nil =>
      rcases whole with long | other
      · exact absurd long (Nat.not_succ_le_zero _)
      · exact absurd List.nil_prefix other
    | cons b mem =>
      rw [strncmp]
      split
      · rename_i same
        subst same
        refine Outcome.wp_mono (ih ?_) fun r hr yes => List.cons_prefix_cons.mpr ⟨rfl, hr yes⟩
        exact whole.imp Nat.le_of_succ_le_succ fun other start =>
          other (List.cons_prefix_cons.mpr ⟨rfl, start⟩)
      · exact fun yes => absurd yes Bool.false_ne_true

/-- The copy stops at a zero, or has enough bytes. -/
theorem strndup_safe {mem : Bytes} {n : Nat} (ends : n ≤ mem.length ∨ 0 ∈ mem) :
    Safely (fun _ => True) (strndup mem n) := by
  rw [strndup]
  split
  · trivial
  · rename_i none
    split
    · trivial
    · rename_i short
      have zero := ends.resolve_left short
      rw [List.take_of_length_le (Nat.le_of_not_le short), List.idxOf?_eq_none_iff] at none
      exact absurd zero none

theorem endsWithNewline_safe {mem : Bytes} {size : Nat} (inside : size ≤ mem.length) (len : Nat) :
    Safely (fun r => r = true → ∃ k, len ≤ k ∧ k < size ∧ mem[k]? = some newline)
      (endsWithNewline mem size len) := by
  rw [endsWithNewline]
  split
  · exact fun yes => absurd yes Bool.false_ne_true
  · rename_i long
    have lt : len < size := by omega
    refine Outcome.wp_seq (peekByte_safe (Nat.lt_of_lt_of_le lt inside)) fun b hb => ?_
    split
    · rename_i ends
      exact fun _ => ⟨len, Nat.le_refl _, lt, ends ▸ hb⟩
    · split
      · rename_i cr
        refine Outcome.wp_seq (peekByte_safe (Nat.lt_of_lt_of_le cr.2 inside)) fun c hc yes => ?_
        exact ⟨len + 1, Nat.le_succ _, cr.2, of_decide_eq_true yes ▸ hc⟩
      · exact fun yes => absurd yes Bool.false_ne_true

/-- A text that is found with its line end has a newline behind it. -/
theorem isStringWithNewline_safe {v : Option View} (inside : ∀ w, v = some w → w.len ≤ w.mem.length)
    (str : Bytes) : Safely (fun r => r = true → ∃ w k, v = some w ∧ str.length ≤ k ∧ k < w.len ∧
      w.mem[k]? = some newline) (isStringWithNewline v str) := by
  cases v with
  | none => exact nofun
  | some v =>
    have held := inside v rfl
    rw [isStringWithNewline]
    split
    · exact nofun
    · rename_i long
      refine Outcome.wp_seq (strncmp_safe (.inl (by omega))) fun b _ => ?_
      cases b with
      | false => exact nofun
      | true =>
        refine Outcome.wp_mono (endsWithNewline_safe held str.length) fun r hr yes => ?_
        obtain ⟨k, le, lt, here⟩ := hr yes
        exact ⟨v, k, rfl, le, lt, here⟩

theorem isBlockMagic_safe {v : Option View} (inside : ∀ w, v = some w → w.len ≤ w.mem.length) :
    Safely (fun _ => True) (isBlockMagic v) := by
  cases v with
  | none => trivial
  | some v =>
    have held := inside v rfl
    rw [isBlockMagic]
    split
    · trivial
    · rw [load_of_le (by omega)]
      trivial

/-! ## Directives -/

/-- The memory breaks off inside a directive, with what is shown. -/
def View.CutDirective (v : View) : Prop := v.len = v.mem.length ∧ BreaksOff v.mem

theorem skipDigits_safe {mem : Bytes} {n idx : Nat} (inside : idx + n < mem.length) :
    Safely (fun i => idx ≤ i ∧ i ≤ idx + n) (skipDigits mem n idx) := by
  induction n generalizing idx with
  | zero => exact Outcome.wp_seq (peekByte_safe inside) fun _ _ => ⟨Nat.le_refl _, Nat.le_refl _⟩
  | succ n ih =>
    refine Outcome.wp_seq (peekByte_safe (by omega)) fun b _ => ?_
    split
    · refine Outcome.wp_mono (ih (by omega)) fun i hi => ?_
      omega
    · exact ⟨Nat.le_refl _, Nat.le_add_right _ _⟩

theorem isYamlMinorVersion_safe {v : View} (beyond : v.len < v.mem.length) {idx : Nat}
    (le : idx ≤ v.len) : Safely (fun _ => True) (isYamlMinorVersion v idx) := by
  refine Outcome.wp_seq (peekByte_safe (by omega)) fun b _ => ?_
  split
  · trivial
  · refine Outcome.wp_seq (skipDigits_safe (by omega)) fun i hi => ?_
    refine Outcome.wp_seq (peekByte_safe (by omega)) fun b _ => ?_
    refine Outcome.wp_seq (peekByte_safe ?_) fun _ _ => trivial
    split <;> omega

/-- A byte behind what is shown is enough. -/
theorem isGenericYamlDirective_beyond {v : View} (beyond : v.len < v.mem.length) :
    Safely (fun _ => True) (isGenericYamlDirective (some v)) := by
  rw [isGenericYamlDirective]
  split
  · trivial
  · rename_i short
    have long : yamlDirective.length + 1 ≤ v.len := Nat.le_of_not_lt short
    have start : yamlDirectivePrefix.length ≤ v.len := Nat.le_trans (by decide) long
    refine Outcome.wp_seq (strncmp_safe (.inl (by omega))) fun b _ => ?_
    split
    · trivial
    · refine Outcome.wp_seq (peekByte_safe (by omega)) fun b _ => ?_
      split
      · trivial
      · refine Outcome.wp_seq (skipDigits_safe (by omega)) fun i hi => ?_
        split
        · refine Outcome.wp_seq (peekByte_safe (by omega)) fun b _ => ?_
          split
          · trivial
          · exact isYamlMinorVersion_safe beyond (by omega)
        · exact isYamlMinorVersion_safe beyond (by omega)

/-- The directives are told apart without reading past the memory, unless it breaks off in
one. -/
theorem isYamlDirective_safe {v : Option View} (inside : ∀ w, v = some w → w.len ≤ w.mem.length)
    (whole : ∀ w, v = some w → ¬ w.CutDirective) : Safely (fun _ => True) (isYamlDirective v) := by
  refine Outcome.wp_seq (isStringWithNewline_safe inside _) fun b _ => ?_
  split
  · trivial
  cases v with
  | none => trivial
  | some v =>
    rcases Nat.lt_or_eq_of_le (inside v rfl) with beyond | all
    · exact isGenericYamlDirective_beyond beyond
    · have decided := (generic_directive_iff v.mem).mpr fun breaks => whole v rfl ⟨all, breaks⟩
      obtain ⟨answer, eq, -⟩ := decided []
      rw [List.append_nil, ← all] at eq
      rw [eq]
      trivial

/-! ## Version lines and comments -/

variable {σ φ : Type} [ParserStream σ] {p q : Parser σ φ}

/-- The version line is no longer than the text before its version, and no zero is behind it. -/
def VersionCut (expected : Bytes) (p : Parser σ φ) : Prop :=
  ∃ v s, readline p.stream = .ret (some v, s) ∧ v.len = expected.length ∧
    v.mem.take v.len <+: expected ∧ 0 ∉ v.mem.drop v.len

/-- The comment that comes next ends with the memory, with neither a newline nor a zero. -/
def CommentOpen (p : Parser σ φ) : Prop :=
  ∃ v s w t, streamPeek p.stream 1 = .ret (some v, s) ∧ v.mem.head? = some commentChar ∧
    readline s = .ret (some w, t) ∧ w.mem.length < w.len ∧ 0 ∉ w.mem.drop 1

variable [BoundedStream σ]

/-- A stream between two turns: nothing is captured. -/
def Idle (s : σ) : Prop := Sound s ∧ (base s).capture = none

theorem Idle.stays {s t : σ} (h : Idle s) (stays : Stays s t) : Idle t :=
  ⟨stays.sound, stays.free h.2⟩

theorem Idle.setError {s : σ} (h : Idle s) (code : ErrorCode) : Idle (setError s code) :=
  h.stays (stays_setError h.1 code)

theorem parseVersionComment_safe (inside : Inside p.stream) (ready : Ready p.stream)
    (free : (base p.stream).capture = none) {expected : Bytes} (whole : ¬ VersionCut expected p) :
    Safely (fun r => Idle r.2.stream) (parseVersionComment p expected) := by
  refine Outcome.wp_seq (Outcome.wp_self (readline_free p.stream inside ready free)) fun r hr => ?_
  obtain ⟨line, s⟩ := r
  obtain ⟨⟨sound, captured, shown⟩, read⟩ := hr
  have idle : Idle s := ⟨sound, captured⟩
  cases line with
  | none => exact idle.setError _
  | some v =>
    have width := (shown v rfl).2
    dsimp only
    split
    · exact idle.setError _
    · rename_i long
      -- The line is cut off inside the text, or the text is compared as a whole
      have compared : expected.length ≤ v.mem.length ∨ ¬ v.mem <+: expected := by
        by_cases enough : expected.length ≤ v.mem.length
        · exact .inl enough
        · refine .inr fun cut => whole ⟨v, s, read, by omega, ?_, ?_⟩
          · rwa [List.take_of_length_le (by omega)]
          · rw [List.drop_eq_nil_of_le (by omega)]
            exact List.not_mem_nil
      refine Outcome.wp_seq (strncmp_safe compared) fun b start => ?_
      cases b with
      | false => exact idle.setError _
      | true =>
        have start := start rfl
        have le := start.length_le
        refine Outcome.wp_seq (strndup_safe ?_) fun _ _ => idle
        rw [List.length_drop]
        by_cases same : v.len = expected.length
        · refine .inr ?_
          by_contra none
          refine whole ⟨v, s, read, same, ?_, same ▸ none⟩
          rw [same, ← List.prefix_iff_eq_take.mp start]
        · left
          rw [sizeSub_of_le (by omega)]
          omega

theorem parseCommentRound_safe (idle : Idle p.stream) (whole : ¬ CommentOpen p) :
    Safely (Outcome.Round (fun q => Idle q.stream) (fun r => Idle r.2.stream))
      (parseCommentRound p) := by
  refine Outcome.wp_seq (Outcome.wp_self (streamPeek_safe idle.1 (.inl Nat.one_pos))) fun r hr => ?_
  obtain ⟨buf, s⟩ := r
  obtain ⟨⟨stays, view⟩, peeked⟩ := hr
  have idle : Idle s := idle.stays stays
  cases buf with
  | none => exact idle
  | some v =>
    obtain ⟨held, inside, pos, fed⟩ := view v rfl
    have one : Fed s 1 := fed_mono s pos fed
    dsimp only
    split
    · exact idle
    · obtain ⟨chr, first⟩ : ∃ chr, v.mem[0]? = some chr :=
        ⟨_, List.getElem?_eq_getElem (by omega)⟩
      have got : v.get 0 = .ret chr := by rw [View.get, first]
      rw [got, Outcome.ret_bind]
      split
      · refine Outcome.wp_seq (consume_safe s 1 inside one) fun t ht => ?_
        have idle : Idle t := idle.stays ht.1
        split
        · exact idle
        · exact idle
      · split
        · rename_i hash
          refine Outcome.wp_seq (Outcome.wp_self (readline_free s inside (ready_fed s one) idle.2))
            fun r hr => ?_
          obtain ⟨line, t⟩ := r
          obtain ⟨⟨sound, captured, shown⟩, read⟩ := hr
          have idle : Idle t := ⟨sound, captured⟩
          cases line with
          | none => exact idle.setError _
          | some w =>
            obtain ⟨some, width⟩ := shown w rfl
            refine Outcome.wp_seq (strndup_safe ?_) fun _ _ => idle
            rw [List.length_drop, sizeSub_of_le some]
            by_cases inLine : w.len ≤ w.mem.length
            · exact .inl (Nat.sub_le_sub_right inLine 1)
            · refine .inr ?_
              by_contra none
              refine whole ⟨v, s, w, t, peeked, ?_, read, Nat.lt_of_not_le inLine, none⟩
              rw [List.head?_eq_getElem?, first, hash]
        · exact idle

theorem parseComment_safe (idle : Idle p.stream)
    (whole : ∀ q, Outcome.Turns parseCommentRound p q → ¬ CommentOpen q) (fuel : Nat) :
    Safely (fun r => Idle r.2.stream) (parseComment fuel p) := by
  refine Outcome.wp_loop (I := fun q => Outcome.Turns parseCommentRound p q ∧ Idle q.stream)
    (fun q hq => ?_) fuel p ⟨.refl, idle⟩
  refine Outcome.wp_mono (Outcome.wp_self (parseCommentRound_safe hq.2 (whole q hq.1)))
    fun r hr => ?_
  cases r with
  | inl q' => exact ⟨.next hq.1 hr.2, hr.1⟩
  | inr r => exact hr.1

/-! ## The tree -/

theorem scanTokens_safe (inside : Inside p.stream) {tokens : List ParseToken} (some : tokens ≠ []) :
    Safely (fun r => ∃ s, r.2 = { p with stream := s } ∧ Stays p.stream s ∧
      ∀ t, r.1 = Option.some t → t ∈ tokens ∧ Fed s t.tok.length) (p.scanTokens tokens) := by
  have good : Good p.stream := good_sound _ (sound_inside _ inside)
  refine Outcome.wp_seq ((scan_safe p.stream (tokens.map ParseToken.tok) inside).and
    (scan_ends p.stream _ good (by simpa using some))) fun r hr => ?_
  obtain ⟨found, s⟩ := r
  obtain ⟨⟨-, fed⟩, stays⟩ := hr
  cases found with
  | none => exact ⟨s, rfl, stays, nofun⟩
  | some m =>
    obtain ⟨tok, ht, fed⟩ := fed m rfl
    rw [List.getElem?_map, Option.map_eq_some_iff] at ht
    obtain ⟨token, htoken, rfl⟩ := ht
    simp only [htoken]
    refine ⟨s, rfl, stays, fun t eq => ?_⟩
    cases eq
    exact ⟨List.mem_of_getElem? htoken, fed⟩

/-- The bytes at the position break off inside a directive; or those at the first match do,
where the scan for one begins. -/
def TreeStartCut (p : Parser σ φ) : Prop :=
  ∃ v s, streamPeek p.stream 0 = .ret (some v, s) ∧ (v.CutDirective ∨
    isYamlDirective (some v) = .ret false ∧ isBlockMagic (some v) = .ret false ∧
      ∃ q w t, Parser.scanTokens { p with stream := s } [.yamlDirective, .blockMagic] =
        .ret (some .yamlDirective, q) ∧ next q.stream 0 = .ret (some w, t) ∧ w.CutDirective)

theorem parseTreeOrBlock_safe (idle : Idle p.stream) (ready : Ready p.stream)
    (whole : ¬ TreeStartCut p) (accepts : ¬ TreeOrBlockRejects p) (fuel : Nat) :
    Safely (fun r => Idle r.2.stream ∧ (r.2.state ≠ .end → Inside r.2.stream))
      (parseTreeOrBlock fuel p) := by
  refine Outcome.wp_seq (Outcome.wp_self (streamPeek_safe idle.1 (.inr ready))) fun r hr => ?_
  obtain ⟨buf, s⟩ := r
  obtain ⟨⟨stays, view⟩, peeked⟩ := hr
  have idle : Idle s := idle.stays stays
  have held : ∀ w, buf = some w → w.len ≤ w.mem.length := fun w eq => (view w eq).1
  cases buf with
  | none => exact ⟨idle, fun other => absurd rfl other⟩
  | some v =>
    have inside := (view v rfl).2.1
    dsimp only
    rw [if_neg (Option.some_ne_none v)]
    refine Outcome.wp_seq (Outcome.wp_self (isYamlDirective_safe held fun w eq cut =>
      whole ⟨w, s, eq ▸ peeked, .inl cut⟩)) fun directive hd => ?_
    cases directive with
    | true => exact ⟨idle, fun _ => inside⟩
    | false =>
      refine Outcome.wp_seq (Outcome.wp_self (isBlockMagic_safe held)) fun magic hm => ?_
      cases magic with
      | true => exact ⟨idle, fun _ => inside⟩
      | false =>
        refine Outcome.wp_loop_once (fun q again => accepts ⟨some v, s, q, peeked, again⟩) ?_ fuel
        refine Outcome.wp_seq (Outcome.wp_self (scanTokens_safe inside (List.cons_ne_nil _ _)))
          fun r hr => ?_
        obtain ⟨token, q⟩ := r
        obtain ⟨⟨t, rfl, moved, found⟩, scanned⟩ := hr
        have idle : Idle t := idle.stays moved
        have inside : Inside t := moved.inside inside
        cases token with
        | none => exact ⟨idle, fun other => absurd rfl other⟩
        | some token =>
          cases token with
          | yamlDirective =>
            have one : Fed t 1 := fed_mono t (by decide) (found _ rfl).2
            refine Outcome.wp_seq (Outcome.wp_self (next_safe t 0 idle.1 (.inr (ready_fed t one))))
              fun r hr => ?_
            obtain ⟨shown, u⟩ := r
            obtain ⟨⟨further, view⟩, read⟩ := hr
            refine Outcome.wp_seq (isYamlDirective_safe (fun w eq => (view w eq).1) fun w eq cut =>
              whole ⟨v, s, peeked, .inr ⟨hd.2, hm.2, _, w, u, scanned, eq ▸ read, cut⟩⟩)
              fun b _ => ?_
            cases b with
            | true => exact ⟨idle.stays further, fun _ => further.inside inside⟩
            | false => trivial
          | blockMagic => exact ⟨idle, fun _ => inside⟩
          | yamlDocumentEnd => exact absurd (found _ rfl).1 (by decide)
          | blockIndexHeader => exact absurd (found _ rfl).1 (by decide)

theorem parseTreeFastRound_safe (inside : Inside p.stream) :
    Safely (Outcome.Round (fun _ => True) (fun r => Stays p.stream r.2.stream))
      (parseTreeFastRound p) := by
  refine Outcome.wp_seq (scanTokens_safe inside (List.cons_ne_nil _ _)) fun r hr => ?_
  obtain ⟨token, q⟩ := r
  obtain ⟨s, rfl, stays, found⟩ := hr
  have inside : Inside s := stays.inside inside
  have sound : Sound s := stays.sound
  cases token with
  | none => exact stays
  | some token =>
    cases token with
    | yamlDocumentEnd =>
      have one : Fed s 1 := fed_mono s (by decide) (found _ rfl).2
      refine Outcome.wp_seq ((next_safe s 0 sound (.inr (ready_fed s one))).and
        (next_ends s 0 (good_sound s sound))) fun r hr => ?_
      obtain ⟨buf, t⟩ := r
      obtain ⟨⟨-, fed⟩, moved, view⟩ := hr
      refine Outcome.wp_seq (isStringWithNewline_safe (fun w eq => (view w eq).1) _) fun b hb => ?_
      cases b with
      | false => trivial
      | true =>
        -- The newline behind the marker is still ahead when the first byte is gone
        obtain ⟨w, k, rfl, long, lt, here⟩ := hb rfl
        obtain ⟨-, inside, lines⟩ := view w rfl
        have width : yamlDocumentEndMarker.length = 4 := rfl
        have all : Fed t (1 + (w.len - 1)) := fed_mono t (by omega) (fed w rfl).2
        refine Outcome.wp_seq ((consume_safe t 1 inside (fed_mono t (by omega) all)).and
          (consume_ends t 1 (w.len - 1) (good_sound t moved.sound) all)) fun u hu => ?_
        obtain ⟨⟨-, -, rest⟩, further, ahead⟩ := hu
        have consumed := (stays.trans moved).trans further
        dsimp only
        split
        · exact consumed
        · refine Outcome.wp_seq (readline_line u (k - 1) (further.inside inside)
            (ready_fed u (fed_mono u (by omega) rest)) (ahead (k - 1) ?_)) fun r hr => ?_
          · rw [Nat.add_sub_cancel' (by omega)]
            exact lines k lt here
          · exact consumed.trans hr
    | blockMagic => exact stays
    | yamlDirective => exact absurd (found _ rfl).1 (by decide)
    | blockIndexHeader => exact absurd (found _ rfl).1 (by decide)

theorem parseTreeFast_safe (inside : Inside p.stream)
    (accepts : ∀ q, parseTreeFastRound p ≠ .ret (.inl q)) (fuel : Nat) :
    Safely (fun r => Stays p.stream r.2.stream ∧ (r.1 = true → r.2.tree.found))
      (parseTreeFast fuel p) := by
  refine Outcome.wp_seq (Outcome.wp_loop_once accepts (parseTreeFastRound_safe inside) fuel)
    fun r hr => ?_
  obtain ⟨treeEnd, q⟩ := r
  cases treeEnd with
  | none => exact ⟨hr, nofun⟩
  | some treeEnd => exact ⟨hr, fun _ => rfl⟩

/-- A tree that is captured is in the buffer then. -/
theorem parseTreeCaptured_safe (inside : Inside p.stream) (bufferTree : Bool)
    (accepts : ∀ q, parseTreeFastRound (if bufferTree then
      { p with stream := streamSetCapture p.stream (some []) } else p) ≠ .ret (.inl q))
    (fuel : Nat) :
    Safely (fun r => (Inside r.2.stream ∧ (base r.2.stream).capture = none) ∧
      (bufferTree = true → r.1 = true → r.2.tree.found ∧ r.2.tree.buf.isSome))
      (parseTreeCaptured fuel bufferTree p) := by
  have closed : ∀ {s : σ}, Inside s → Inside (streamSetCapture s none) ∧
      (base (streamSetCapture s none)).capture = none := fun {s} inside =>
    ⟨inside_withBase _ _ inside, by rw [streamSetCapture, base_withBase]; rfl⟩
  rw [parseTreeCaptured]
  cases bufferTree with
  | false =>
    refine Outcome.wp_seq (parseTreeFast_safe inside accepts fuel) fun r hr => ?_
    exact ⟨closed (hr.1.inside inside), fun buffered => absurd buffered Bool.false_ne_true⟩
  | true =>
    have opened : Inside (streamSetCapture p.stream (some [])) := inside_withBase _ _ inside
    refine Outcome.wp_seq (parseTreeFast_safe (p := { p with
      stream := streamSetCapture p.stream (some []) }) opened accepts fuel) fun r hr => ?_
    refine ⟨closed (hr.1.inside opened), fun _ ok => ⟨hr.2 ok, ?_⟩⟩
    refine hr.1.capture.trans ?_
    rw [streamSetCapture, base_withBase]
    rfl

theorem skipTree_safe (inside : Inside p.stream) (free : (base p.stream).capture = none)
    (accepts : ¬ TreeRejects p) (fuel : Nat) :
    Safely (fun r => (Inside r.2.stream ∧ (base r.2.stream).capture = none) ∧
      (capturesTree p = true → r.1 = true → r.2.tree.found ∧ r.2.tree.buf.isSome))
      (skipTree fuel p) := by
  rw [skipTree]
  split
  · rename_i scans
    exact parseTreeCaptured_safe inside _ (fun q again => accepts ⟨scans, q, again⟩) fuel
  · rename_i asks
    refine ⟨⟨inside, free⟩, fun captures => ?_⟩
    rw [captures] at asks
    exact absurd rfl asks

/-- The YAML events of the tree come from the buffer, or from a stream that can seek. -/
def ReadsYaml (p : Parser σ φ) : Prop := p.bufferTree = true ∨ p.isSeekable = true

theorem initializeYamlParser_safe (sound : Sound p.stream) (env : Env φ) (reads : ReadsYaml p)
    (held : p.isSeekable = true ∨ p.tree.found = true ∧ p.tree.buf.isSome = true) :
    Safely (fun r => Stays p.stream r.2.stream ∧ (r.1 = true → r.2.yamlParser.isSome))
      (initializeYamlParser env p) := by
  have asserted : (p.isSeekable || (p.tree.found && p.tree.buf.isSome)) = true := by
    simpa using held
  have given : Safely (fun r => Stays p.stream r.2.stream) (yamlInput p) := by
    rw [yamlInput]
    split
    · exact .refl sound
    · rename_i unbuffered
      exact Outcome.wp_seq (setInput_safe p.stream sound (reads.resolve_left unbuffered))
        fun _ hr => hr
  rw [initializeYamlParser, assert, if_pos asserted, Outcome.ret_bind]
  refine Outcome.wp_seq given fun r hr => ?_
  obtain ⟨input, q⟩ := r
  dsimp only
  split
  · exact ⟨hr, fun _ => rfl⟩
  · exact ⟨hr.trans (stays_setError hr.sound _), fun yes => absurd yes Bool.false_ne_true⟩

/-- What `parse_yaml` asserts, and that libfyaml was set up. -/
def YamlSet (p : Parser σ φ) : Prop :=
  p.emitYamlEvents = true ∧ ReadsYaml p ∧ p.yamlParser.isSome

theorem parseTree_safe (inside : Inside p.stream) (free : (base p.stream).capture = none)
    (accepts : ¬ TreeRejects p) (reads : p.emitYamlEvents = true → ReadsYaml p) (env : Env φ)
    (fuel : Nat) :
    Safely (fun r => r.1 ≠ .error → Inside r.2.stream ∧ (base r.2.stream).capture = none ∧
      (r.2.state = .yaml → YamlSet r.2)) (parseTree env fuel p) := by
  have good : Good p.stream := good_sound _ (sound_inside _ inside)
  refine Outcome.wp_seq ((skipTree_safe inside free accepts fuel).and
    (skipTree_spec good fuel)) fun r hr => ?_
  obtain ⟨ok, q⟩ := r
  obtain ⟨⟨s, tree, rfl, onward⟩, ⟨inside, free⟩, captured⟩ := hr
  cases ok with
  | false => exact absurd rfl
  | true =>
    dsimp only
    rw [if_neg (by decide)]
    split
    · rename_i emits
      have still : ReadsYaml { p with stream := s, tree := tree } :=
        (reads emits).imp_right onward.seekable.trans
      have held : Parser.isSeekable { p with stream := s, tree := tree } = true ∨
          tree.found = true ∧ tree.buf.isSome = true := by
        by_cases can : Parser.isSeekable { p with stream := s, tree := tree } = true
        · exact .inl can
        · refine .inr (captured ?_ rfl)
          rw [capturesTree, (reads emits).resolve_right fun seeks => can (onward.seekable.trans seeks)]
          rfl
      refine Outcome.wp_seq ((initializeYamlParser_safe (p := { p with stream := s, tree := tree })
        (sound_inside _ inside) env still held).and (initializeYamlParser_spec (p := { p with
          stream := s, tree := tree }) onward.good env)) fun r hr => ?_
      obtain ⟨⟨t, keeps, rfl | ⟨input, yaml, -, rfl⟩⟩, stays, -⟩ := hr
      · exact absurd rfl
      · exact fun _ => ⟨stays.inside inside, stays.free free, fun _ =>
          ⟨emits, still.imp_right keeps.seekable.trans, rfl⟩⟩
    · exact fun _ => ⟨inside, free, nofun⟩

theorem trySeek_safe (sound : Sound p.stream) {offset : Int} {whence : Whence}
    (allowed : 0 ≤ offset ∨ whence ≠ .cur) :
    Safely (fun r => ∃ s, r.2 = { p with stream := s } ∧ Stays p.stream s ∧
      (p.isSeekable = true → r.1 = true → Inside s)) (p.trySeek offset whence) := by
  refine Outcome.wp_seq (streamSeek_safe sound allowed) fun r hr => ?_
  obtain ⟨ok, s⟩ := r
  obtain ⟨stays, inside⟩ := hr
  cases ok with
  | true => exact ⟨s, rfl, stays, inside⟩
  | false => exact ⟨_, rfl, stays.trans (stays_setError stays.sound _), fun _ => nofun⟩

theorem emitYamlEvent_safe (sound : Sound p.stream) (yaml : Option FyEvent) :
    Safely (fun r => Stays p.stream r.2.stream) (emitYamlEvent yaml p) := by
  have stays : Stays p.stream p.stream := .refl sound
  match yaml with
  | none => exact stays
  | some .streamEnd => exact stays
  | some (.documentEnd endMark) =>
    have rewound : Safely (fun r => Stays p.stream r.2.stream) (parseYamlDocumentEnd endMark p) := by
      unfold parseYamlDocumentEnd
      refine Outcome.wp_mono (trySeek_safe ?_ (.inr Whence.noConfusion)) fun r hr => ?_
      · exact sound
      · obtain ⟨s, eq, moved, -⟩ := hr
        rw [eq]
        exact moved
    refine Outcome.wp_seq rewound fun r hr => ?_
    exact hr
  | some .streamStart => exact stays
  | some .documentStart => exact stays
  | some .other => exact stays

theorem parseYaml_safe (sound : Sound p.stream) (set : YamlSet p) (env : Env φ) :
    Safely (fun r => Stays p.stream r.2.stream) (parseYaml env p) := by
  have asserted : (p.emitYamlEvents && (p.bufferTree || p.isSeekable)) = true := by
    rw [set.1, Bool.true_and, Bool.or_eq_true]
    exact set.2.1
  rw [parseYaml, assert, if_pos asserted, Outcome.ret_bind]
  split
  · exact .refl sound
  obtain ⟨y, started⟩ := Option.isSome_iff_exists.mp set.2.2
  rw [started]
  dsimp only
  generalize env.fy.parse y (fyFilePos p.stream) = parsed
  have moved := moved_safe p.stream parsed.filePos sound
  generalize (if (parsed.streamError && p.tree.found) = true then some FyEvent.streamEnd
    else parsed.event) = yaml
  split
  · exact moved.trans (stays_setError moved.sound _)
  · exact Outcome.wp_mono (emitYamlEvent_safe moved.sound _) fun r hr => moved.trans hr

end LibAsdf
