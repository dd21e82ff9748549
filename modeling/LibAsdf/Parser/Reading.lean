import LibAsdf.Base.Calls
import LibAsdf.Parser.Layout
import LibAsdf.Parser.VersionLine
import LibAsdf.Stream.Whole
import Mathlib.Data.Bool.AllAny

/-!
# Reading the parts of a file

What the handlers of the parser's states do on a stream that shows all that
comes, when the next part of a file is there.

* `Stands`, `OnFile`: where a stream is in a file;
* `parseVersionComment_reads`, `comments_say`: the front;
* `findBlockIndex_absent`, `findBlockIndex_present`: the search for a block index;
* `treeOrBlock_tree`, `parseTree_reads`: the tree.
-/

namespace LibAsdf

open StreamOps ParserStream ReadContent WholeRead

/-! ## Places in a file -/

section Places

variable {σ : Type} [StreamOps σ] [WholeRead σ]

/-- The stream is behind `done`, with `rest` to come. -/
structure Stands (s : σ) (done rest : Bytes) : Prop where
  sane : Sane s
  content_eq : content s = done ++ rest
  pos_eq : pos s = done.length
  calm : errorGet s = none

/-- The stream is somewhere in the file. -/
structure OnFile (s : σ) (bytes : Bytes) : Prop where
  fit : Fit s
  content_eq : content s = bytes
  calm : errorGet s = none

variable {s t : σ} {done part rest bytes : Bytes}

theorem Stands.onFile (h : Stands s done rest) : OnFile s (done ++ rest) :=
  ⟨fit_of_sane s h.sane, h.content_eq, h.calm⟩

theorem Stands.coming_eq (h : Stands s done rest) : coming s = rest := by
  rw [coming, h.content_eq, h.pos_eq, List.drop_left]

theorem Stands.small (h : Stands s done rest) : (done ++ rest).length ≤ offMax := by
  rw [← h.content_eq]
  exact WholeRead.length_le s (fit_of_sane s h.sane)

theorem Stands.tell_eq (h : Stands s done rest) : tell s = done.length := by
  have small := h.small
  rw [List.length_append] at small
  rw [LawfulRead.tell_eq s h.sane (by rw [h.pos_eq]; omega), h.pos_eq]

theorem Stands.seekable (h : Stands s done rest) : (base s).isSeekable = true :=
  isSeekable s (fit_of_sane s h.sane)

/-- A part of the file is passed over. -/
theorem Stands.moved (h : Stands s done (part ++ rest)) (moved : Moved s part.length t) :
    Stands t (done ++ part) rest where
  sane := moved.sane
  content_eq := by rw [moved.content_eq, h.content_eq, List.append_assoc]
  pos_eq := by rw [moved.pos_eq, h.pos_eq, List.length_append]
  calm := moved.error_eq.trans h.calm

theorem Stands.stays (h : Stands s done rest) (moved : Moved s 0 t) : Stands t done rest where
  sane := moved.sane
  content_eq := moved.content_eq.trans h.content_eq
  pos_eq := moved.pos_eq.trans h.pos_eq
  calm := moved.error_eq.trans h.calm

theorem Stands.withCapture (h : Stands s done rest) (capture : Option Bytes) :
    Stands (streamSetCapture s capture) done rest where
  sane := sane_withBase s _ rfl h.sane
  content_eq := (content_withBase s _).trans h.content_eq
  pos_eq := (pos_withBase s _).trans h.pos_eq
  calm := by
    rw [errorGet, streamSetCapture, base_withBase]
    exact h.calm

theorem next_stands (h : Stands s done rest) {count : Nat} (small : count ≤ offMax) :
    ∃ v t, next s count = .ret (v, t) ∧ Stands t done rest ∧ Moved s 0 t ∧
      inView t = rest.length ∧ Shown v rest ∧ (rest = [] → v = none) := by
  obtain ⟨v, t, run, moved, seen, shown, none⟩ := next_whole s count h.sane small
  have stands := h.stays moved
  rw [h.coming_eq] at shown none
  rw [stands.coming_eq] at seen
  exact ⟨v, t, run, stands, moved, seen, shown, none⟩

theorem consume_stands (h : Stands s done (part ++ rest)) (seen : part.length ≤ inView s) :
    ∃ t, consume s part.length = .ret t ∧ Stands t (done ++ part) rest ∧ Moved s part.length t := by
  obtain ⟨t, run, moved, -⟩ := LawfulRead.consume_moves s part.length h.sane seen
  exact ⟨t, run, h.moved moved, moved⟩

theorem peek_stands (h : Stands s done rest) {count : Nat} (small : count ≤ offMax) :
    ∃ v t, streamPeek s count = .ret (v, t) ∧ Stands t done rest ∧ inView t = rest.length ∧
      Shown v rest ∧ (rest = [] → v = none) := by
  obtain ⟨v, t, run, stands, -, seen, shown, none⟩ := next_stands h small
  obtain ⟨u, consumed, moved, view⟩ := LawfulRead.consume_moves t 0 stands.sane (Nat.zero_le _)
  refine ⟨v, u, ?_, stands.stays moved, by rw [view, seen, Nat.sub_zero], shown, none⟩
  rw [streamPeek, run, Outcome.ret_bind]
  dsimp only
  rw [consumed]
  rfl

/-- A line is passed over. -/
theorem readline_stands (h : Stands s done (part ++ newline :: rest))
    (clean : ∀ b ∈ part, b ≠ newline) :
    ∃ v t, readline s = .ret (some v, t) ∧ v.Shows (part ++ [newline]) ∧
      Stands t (done ++ (part ++ [newline])) rest ∧ Moved s (part ++ [newline]).length t := by
  have ends : newlineIndex (coming s) = some part.length := by
    rw [h.coming_eq, newlineIndex, List.findIdx?_append,
      show part.findIdx? (· == newline) = none from newlineIndex_none clean]
    rw [List.findIdx?_cons]
    simp
  obtain ⟨v, t, run, shows, moved⟩ := readline_whole s h.sane ends
  have line : (coming s).take (part.length + 1) = part ++ [newline] := by
    rw [h.coming_eq, List.take_length_add_append]
    rfl
  have width : (part ++ [newline]).length = part.length + 1 := by
    rw [List.length_append, List.length_singleton]
  rw [line] at shows
  rw [← width] at moved
  have whole : Stands s done ((part ++ [newline]) ++ rest) := by
    rw [List.append_assoc]
    exact h
  exact ⟨v, t, run, shows, whole.moved moved, moved⟩

theorem seek_stands (h : OnFile s (done ++ rest)) (offset : Nat) (whence : Whence)
    (place : seekPlace s offset whence = done.length) :
    ∃ t, streamSeek s offset whence = .ret (true, t) ∧ Stands t done rest := by
  have inside : seekPlace s offset whence ≤ (content s).length := by
    rw [place, h.content_eq, List.length_append]
    exact Nat.le_add_right _ _
  obtain ⟨t, run, sane, same, there, base_eq⟩ := seek_whole s offset whence h.fit inside
  have seekable := isSeekable s h.fit
  refine ⟨t, ?_, sane, same.trans h.content_eq, there.trans place, ?_⟩
  · rw [streamSeek, seekable]
    exact run
  · rw [errorGet, base_eq]
    exact h.calm

end Places

section Handlers

variable {σ φ : Type} [ParserStream σ] [WholeRead σ] {p : Parser σ φ} {done part rest : Bytes}

theorem trySeek_set (h : OnFile p.stream (done ++ rest)) :
    ∃ t, p.trySeek (done.length : Nat) .set = .ret (true, { p with stream := t }) ∧
      Stands t done rest := by
  obtain ⟨t, run, stands⟩ := seek_stands h done.length .set rfl
  refine ⟨t, ?_, stands⟩
  rw [Parser.trySeek, run]
  rfl

theorem trySeek_end {bytes : Bytes} (h : OnFile p.stream bytes) :
    ∃ t, p.trySeek 0 .end = .ret (true, { p with stream := t }) ∧ Stands t bytes [] := by
  have whole : OnFile p.stream (bytes ++ []) := by
    rw [List.append_nil]
    exact h
  obtain ⟨t, run, stands⟩ := seek_stands whole 0 .end (by
    rw [seekPlace, h.content_eq, Nat.add_zero])
  refine ⟨t, ?_, stands⟩
  rw [Parser.trySeek, show streamSeek p.stream 0 .end = _ from run]
  rfl

/-- A token is found behind a gap. -/
theorem scanTokens_stands (tokens : List ParseToken) (token : ParseToken) {idx : Nat}
    (h : Stands p.stream done (part ++ rest)) (asked : 0 < maxTokenLen (tokens.map ParseToken.tok))
    (long : maxTokenLen (tokens.map ParseToken.tok) ≤ (part ++ rest).length)
    (found : LibAsdf.scanTokens (part ++ rest) (tokens.map ParseToken.tok) = some (part.length, idx))
    (entry : tokens[idx]? = some token) :
    ∃ t, p.scanTokens tokens = .ret (some token, { p with stream := t }) ∧
      Stands t (done ++ part) rest ∧ Moved p.stream part.length t ∧ inView t = rest.length := by
  rw [← h.coming_eq] at long found
  obtain ⟨place, t, run, moved, seen⟩ := scan_whole p.stream _ h.sane asked long found
  have stands := h.moved moved
  rw [stands.coming_eq] at seen
  refine ⟨t, ?_, stands, moved, seen⟩
  simp only [Parser.scanTokens, run, Outcome.ret_bind, entry]
  rfl

theorem scanTokens_lost (tokens : List ParseToken) (h : Stands p.stream done rest)
    (none : LibAsdf.scanTokens rest (tokens.map ParseToken.tok) = none) :
    ∃ t, p.scanTokens tokens = .ret (.none, { p with stream := t }) ∧
      OnFile t (done ++ rest) := by
  have short : maxTokenLen (tokens.map ParseToken.tok) ≤ blockIndexHeader.length := by
    refine maxTokenLen_le.mpr fun bytes member => ?_
    obtain ⟨token, -, rfl⟩ := List.mem_map.mp member
    exact token.tok_le
  rw [← h.coming_eq] at none
  obtain ⟨t, run, fit, same, calm⟩ := scan_lost p.stream _ h.sane short none
  refine ⟨t, ?_, fit, same.trans h.content_eq, calm.trans h.calm⟩
  simp only [Parser.scanTokens, run, Outcome.ret_bind]
  rfl

/-! ## Versions -/

/-- The bytes behind a part of what is shown. -/
theorem View.Shows.field {v : View} {front bytes tail : Bytes} (h : v.Shows (front ++ (bytes ++ tail))) :
    (v.mem.drop front.length).take bytes.length = bytes := by
  have shown := congrArg (List.drop front.length) h.2
  have width := h.1
  rw [List.drop_left, List.drop_take] at shown
  have cut := congrArg (List.take bytes.length) shown
  rw [List.take_left, List.take_take, Nat.min_eq_left (by
    rw [width, List.length_append, List.length_append]
    omega)] at cut
  exact cut

theorem strndup_field {v : View} {front bytes tail : Bytes}
    (h : v.Shows (front ++ (bytes ++ tail))) (clean : ∀ b ∈ bytes, b ≠ 0) :
    strndup (v.mem.drop front.length) bytes.length = .ret bytes := by
  have le := h.len_le
  have width := h.1
  rw [List.length_append, List.length_append] at width
  rw [strndup_eq (by rw [List.length_drop]; omega), h.field, List.takeWhile_eq_self_iff.mpr]
  intro b member
  exact decide_eq_true (clean b member)

theorem parseVersionComment_reads {expected version : Bytes}
    (h : Stands p.stream done (versionText expected version ++ rest))
    (plain : ∀ b ∈ expected, b ≠ newline) (clean : ∀ b ∈ version, b ≠ newline ∧ b ≠ 0) :
    ∃ t, parseVersionComment p expected =
        .ret (some (versionParse version), { p with stream := t }) ∧
      Stands t (done ++ versionText expected version) rest := by
  have shape : versionText expected version ++ rest = (expected ++ version) ++ newline :: rest := by
    simp only [versionText, List.append_assoc, List.cons_append, List.nil_append]
  rw [shape] at h
  obtain ⟨v, t, run, shows, stands, -⟩ := readline_stands h (by
    intro b member
    rcases List.mem_append.mp member with member | member
    · exact plain b member
    · exact (clean b member).1)
  rw [List.append_assoc] at shows stands
  have width := shows.1
  rw [List.length_append, List.length_append, List.length_singleton] at width
  have begins : expected <+: v.mem := by
    have prefixed := List.prefix_append expected (version ++ [newline])
    rw [← shows.2] at prefixed
    exact prefixed.trans (List.take_prefix _ _)
  have copied := strndup_field shows fun b member => (clean b member).2
  have toCopy : sizeSub (v.len - expected.length) 1 = version.length := by
    rw [sizeSub_of_le (by omega)]
    omega
  refine ⟨t, ?_, stands⟩
  rw [parseVersionComment, run, Outcome.ret_bind]
  dsimp only
  rw [if_neg (by omega), strncmp_eq begins.length_le, decide_eq_true begins, Outcome.ret_bind]
  simp only [Bool.not_true, Bool.false_eq_true, if_false]
  rw [toCopy, copied]
  rfl

/-! ## Comments -/

theorem View.Shows.get_zero {v : View} {b : Byte} {bytes : Bytes} (h : v.Shows (b :: bytes)) :
    v.get 0 = .ret b := by
  have first : v.mem[0]? = some b := by
    have shown := congrArg (·[0]?) h.2
    have width := h.1
    rw [List.length_cons] at width
    simp only [List.getElem?_cons_zero] at shown
    rw [List.getElem?_take_of_lt (by omega)] at shown
    exact shown
  rw [View.get, first]

/-- A peek at what comes next. -/
theorem peek_cons {s : σ} {b : Byte} (h : Stands s done (b :: rest)) :
    ∃ v t, streamPeek s 1 = .ret (some v, t) ∧ Stands t done (b :: rest) ∧ v.len ≠ 0 ∧
      v.get 0 = .ret b ∧ inView t = (b :: rest).length := by
  obtain ⟨v, t, run, stands, seen, shown, -⟩ := peek_stands h (show 1 ≤ offMax by decide)
  obtain ⟨w, rfl, shows⟩ := shown.some_of_ne (List.cons_ne_nil _ _)
  refine ⟨w, t, run, stands, ?_, shows.get_zero, seen⟩
  rw [shows.1]
  exact Nat.succ_ne_zero _

theorem commentRound_blank {chr : Byte} (h : Stands p.stream done (chr :: rest))
    (blank : chr = carriageReturn ∨ chr = newline) :
    ∃ t, parseCommentRound p = .ret (.inl { p with stream := t }) ∧
      Stands t (done ++ [chr]) rest := by
  obtain ⟨v, t, run, stands, held, first, seen⟩ := peek_cons h
  have split : Stands t done ([chr] ++ rest) := stands
  obtain ⟨u, consumed, stands', -⟩ := consume_stands split (by
    rw [seen]
    exact Nat.le_add_left _ _)
  refine ⟨u, ?_, stands'⟩
  rw [parseCommentRound, run, Outcome.ret_bind]
  dsimp only
  rw [if_neg held, first, Outcome.ret_bind, if_pos blank, show consume t 1 = _ from consumed,
    Outcome.ret_bind, stands'.calm]
  rfl

theorem comment_text {text : Bytes} (clean : ∀ b ∈ text, b ≠ newline) :
    (text ++ [newline]).takeWhile (fun b => b ≠ carriageReturn ∧ b ≠ newline) =
      text.takeWhile (· ≠ carriageReturn) := by
  induction text with
  | nil => decide
  | cons b text ih =>
    have plain := clean b List.mem_cons_self
    rw [List.cons_append, List.takeWhile_cons, List.takeWhile_cons,
      ih fun b member => clean b (List.mem_cons_of_mem _ member)]
    simp only [plain, ne_eq, not_false_eq_true, and_true]

theorem commentRound_comment {text : Bytes}
    (h : Stands p.stream done ((Remark.comment text).bytes ++ rest))
    (clean : (Remark.comment text).Fits) :
    ∃ t, parseCommentRound p = .ret (.inr (.event (.comment (text.takeWhile (· ≠ carriageReturn))),
        { p with stream := t })) ∧ Stands t (done ++ (Remark.comment text).bytes) rest := by
  have clean : ∀ b ∈ text, b ≠ newline ∧ b ≠ 0 := clean
  have shape : (Remark.comment text).bytes ++ rest = (commentChar :: text) ++ newline :: rest := by
    simp only [Remark.bytes, List.cons_append, List.append_assoc, List.nil_append]
  rw [shape] at h
  obtain ⟨v, t, run, stands, held, first, -⟩ := peek_cons h
  have split : Stands t done ((commentChar :: text) ++ newline :: rest) := stands
  obtain ⟨w, u, line, shows, stands', -⟩ := readline_stands split (by
    intro b member
    rcases List.mem_cons.mp member with rfl | member
    · decide
    · exact (clean b member).1)
  have width := shows.1
  rw [List.length_append, List.length_cons, List.length_singleton] at width
  have field : w.Shows ([commentChar] ++ ((text ++ [newline]) ++ [])) := by
    rw [List.append_nil]
    exact shows
  have copied := strndup_field field (by
      intro b member
      rcases List.mem_append.mp member with member | member
      · exact (clean b member).2
      · rw [List.mem_singleton.mp member]
        decide)
  have count : sizeSub w.len 1 = (text ++ [newline]).length := by
    rw [sizeSub_of_le (by omega), List.length_append, List.length_singleton]
    omega
  refine ⟨u, ?_, stands'⟩
  rw [parseCommentRound, run, Outcome.ret_bind]
  dsimp only
  rw [if_neg held, first, Outcome.ret_bind, if_neg (by decide), if_pos rfl, line, Outcome.ret_bind]
  dsimp only
  rw [count, show strndup (w.mem.drop 1) _ = _ from copied, Outcome.ret_bind]
  simp only [Outcome.pure_eq, comment_text fun b member => (clean b member).1]

/-- Anything else ends the comments. -/
theorem commentRound_stops (h : Stands p.stream done rest)
    (stops : ∀ b ∈ rest.head?, b ≠ carriageReturn ∧ b ≠ newline ∧ b ≠ commentChar) :
    ∃ t, parseCommentRound p =
        .ret (.inr (.continue, { p with stream := t, state := .blockIndex })) ∧
      Stands t done rest := by
  cases rest with
  | nil =>
    obtain ⟨v, t, run, stands, -, -, none⟩ := peek_stands h (show 1 ≤ offMax by decide)
    cases none rfl
    refine ⟨t, ?_, stands⟩
    rw [parseCommentRound, run]
    rfl
  | cons b rest =>
    obtain ⟨cr, lf, other⟩ := stops b rfl
    obtain ⟨v, t, run, stands, held, first, -⟩ := peek_cons h
    refine ⟨t, ?_, stands⟩
    rw [parseCommentRound, run, Outcome.ret_bind]
    dsimp only
    rw [if_neg held, first, Outcome.ret_bind, if_neg (not_or.mpr ⟨cr, lf⟩), if_neg other]
    rfl

section CommentStep

variable (env : Env φ) {q : Parser σ φ} {r : ParseResult × Parser σ φ}

omit [WholeRead σ] in
theorem commentStep_goes (state : p.state = .comment) (round : parseCommentRound p = .ret (.inl q))
    (fuel : Nat) : parserStep env (fuel + 1) p = parseComment fuel q >>= afterHandler := by
  rw [parserStep, state]
  dsimp only
  rw [parseComment, Outcome.loop_of_continue round]
  rfl

omit [WholeRead σ] in
theorem commentStep_ends (state : p.state = .comment) (round : parseCommentRound p = .ret (.inr r)) :
    ∃ F, ∀ fuel ≥ F, parserStep env fuel p = afterHandler r := by
  refine ⟨1, fun fuel enough => ?_⟩
  obtain ⟨fuel, rfl⟩ : ∃ n, fuel = n + 1 := ⟨fuel - 1, by omega⟩
  rw [parserStep, state]
  dsimp only
  rw [parseComment, Outcome.loop_of_exit round]
  rfl

end CommentStep

/-- The comments are read one by one, and what is blank is passed over. -/
theorem comments_say (env : Env φ) {remarks : List Remark} (fits : ∀ r ∈ remarks, r.Fits)
    (stops : ∀ b ∈ rest.head?, b ≠ carriageReturn ∧ b ≠ newline ∧ b ≠ commentChar) :
    ∀ {p : Parser σ φ} {done : Bytes}, p.state = .comment →
      Stands p.stream done (remarks.flatMap Remark.bytes ++ rest) →
      ∃ t, Outcome.Says (parserStep env) p ((remarks.flatMap Remark.events).map some)
          { p with stream := t, state := .blockIndex } ∧
        Stands t (done ++ remarks.flatMap Remark.bytes) rest := by
  induction remarks with
  | nil =>
    intro p done state stands
    obtain ⟨t, round, stands'⟩ := commentRound_stops stands stops
    refine ⟨t, .single (commentStep_ends env state round), ?_⟩
    rwa [List.flatMap_nil, List.append_nil]
  | cons remark remarks ih =>
    intro p done state stands
    rw [List.flatMap_cons, List.append_assoc] at stands
    rw [List.flatMap_cons, List.flatMap_cons, List.map_append, ← List.append_assoc]
    have fits' := fits remark List.mem_cons_self
    have fewer : ∀ r ∈ remarks, r.Fits := fun r member => fits r (List.mem_cons_of_mem _ member)
    cases remark with
    | blank chr =>
      obtain ⟨t, round, stands'⟩ := commentRound_blank stands fits'
      obtain ⟨u, more, last⟩ := ih fewer (p := { p with stream := t }) state stands'
      refine ⟨u, more.shift (fun fuel => ?_) fun same => ?_, last⟩
      · rw [commentStep_goes env state round, parserStep]
        dsimp only
        rw [state]
      · have states := congrArg Parser.state same
        dsimp only at states
        rw [state] at states
        cases states
    | comment text =>
      obtain ⟨t, round, stands'⟩ := commentRound_comment stands fits'
      obtain ⟨u, more, last⟩ := ih fewer (p := { p with stream := t }) state stands'
      exact ⟨u, .call (commentStep_ends env state round) more, last⟩

/-! ## Texts in view -/

theorem View.Shows.split {v : View} {bytes : Bytes} (h : v.Shows bytes) :
    ∃ tail, v = ⟨bytes ++ tail, bytes.length⟩ := by
  obtain ⟨mem, len⟩ := v
  obtain ⟨width, shown⟩ := h
  simp only at width shown
  refine ⟨mem.drop len, ?_⟩
  rw [← width, ← shown, List.take_append_drop]

section Texts

variable {v : View} {text lineEnd tail : Bytes}

/-- The byte behind a text in view. -/
theorem View.Shows.peek {b : Byte} (h : v.Shows (text ++ b :: tail)) :
    peekByte v.mem text.length = .ret b := by
  obtain ⟨more, rfl⟩ := h.split
  rw [List.append_assoc, List.cons_append]
  exact peekByte_at text b (tail ++ more)

theorem endsWithNewline_line (h : v.Shows (text ++ (lineEnd ++ tail))) (held : text ≠ [])
    (ends : lineEnd = [newline] ∨ lineEnd = [carriageReturn, newline]) :
    endsWithNewline v.mem v.len text.length = .ret true := by
  have width := h.1
  rw [List.length_append, List.length_append] at width
  have some := List.length_pos_of_ne_nil held
  rcases ends with rfl | rfl
  · rw [endsWithNewline, if_neg (by simp only [List.length_singleton] at width; omega), h.peek]
    rfl
  · have shows : v.Shows ((text ++ [carriageReturn]) ++ newline :: tail) := by
      rw [List.append_assoc]
      exact h
    have next := shows.peek
    rw [List.length_append, List.length_singleton] at next
    simp only [List.length_cons, List.length_nil] at width
    rw [endsWithNewline, if_neg (by omega), h.peek, Outcome.ret_bind, if_neg (by decide),
      if_pos ⟨rfl, by omega⟩, next]
    rfl

theorem View.Shows.prefix_iff {bytes : Bytes} (h : v.Shows bytes) (le : text.length ≤ bytes.length) :
    text <+: v.mem ↔ text <+: bytes := by
  rw [← h.2, List.prefix_take_iff, h.1]
  exact (and_iff_left le).symm

theorem isStringWithNewline_line (h : v.Shows (text ++ (lineEnd ++ tail))) (held : text ≠ [])
    (ends : lineEnd = [newline] ∨ lineEnd = [carriageReturn, newline]) :
    isStringWithNewline (some v) text = .ret true := by
  have width := h.1
  have one : 1 ≤ lineEnd.length := by rcases ends with rfl | rfl <;> decide
  rw [List.length_append, List.length_append] at width
  have le : text.length ≤ (text ++ (lineEnd ++ tail)).length := by
    rw [← h.1]
    omega
  have begins := (h.prefix_iff le).mpr (List.prefix_append _ _)
  rw [isStringWithNewline, if_neg (by omega), strncmp_eq begins.length_le, decide_eq_true begins,
    Outcome.ret_bind]
  exact endsWithNewline_line h held ends

/-- Nothing is read past what is in view. -/
theorem isStringWithNewline_ret {bytes : Bytes} (h : v.Shows bytes) (text : Bytes) :
    ∃ b, isStringWithNewline (some v) text = .ret b := by
  have le := h.len_le
  rw [isStringWithNewline]
  split
  · exact ⟨false, rfl⟩
  · rename_i long
    rw [strncmp_eq (by omega), Outcome.ret_bind]
    split
    · exact ⟨false, rfl⟩
    · rw [endsWithNewline]
      split
      · exact ⟨false, rfl⟩
      · rw [peekByte, List.getElem?_eq_getElem (by omega), Outcome.ret_bind]
        split
        · exact ⟨true, rfl⟩
        · split
          · rename_i both
            rw [peekByte, List.getElem?_eq_getElem (by omega)]
            exact ⟨_, rfl⟩
          · exact ⟨false, rfl⟩

/-- A text that begins with a directive does not break off in one. -/
theorem not_breaksOff_of_starts {bytes : Bytes} (h : StartsDirective bytes) : ¬ BreaksOff bytes := by
  intro breaks
  obtain ⟨u, some, line, member, eq⟩ := agrees_of_breaksOff breaks
  obtain ⟨line', rest, member', rfl⟩ := h
  obtain ⟨major, minor, cr, majors, minors, crs, rfl⟩ := mem_directiveExpression.mp member
  obtain ⟨major', minor', cr', -, -, -, rfl⟩ := mem_directiveExpression.mp member'
  rw [List.append_nil] at eq
  -- There is a newline before the last byte of a line that has none
  have inner : newline ∈ (yamlDirectivePrefix ++ (major ++ dot :: (minor ++ cr))) := by
    obtain ⟨last, b, rfl⟩ : ∃ last b, u = last ++ [b] := by
      refine ⟨u.dropLast, u.getLast some, (List.dropLast_append_getLast some).symm⟩
    have shape : yamlDirectivePrefix ++ (major ++ dot :: (minor ++ (cr ++ [newline]))) =
        yamlDirectivePrefix ++ (major ++ dot :: (minor ++ cr)) ++ [newline] := by simp
    rw [shape, ← List.append_assoc] at eq
    have front := (List.append_inj' eq rfl).1
    rw [← front]
    simp
  simp only [List.mem_append, List.mem_cons] at inner
  have digit : ∀ {text : Bytes}, Digits text → newline ∉ text := fun digits member =>
    absurd (digits.2 _ member) (by decide)
  rcases inner with inner | inner | inner | inner | inner
  · exact absurd inner (by decide)
  · exact digit majors inner
  · exact absurd inner (by decide)
  · exact digit minors inner
  · rcases crs with rfl | rfl
    · exact absurd inner List.not_mem_nil
    · exact absurd inner (by decide)

theorem isYamlDirective_starts {bytes : Bytes} (h : v.Shows bytes) (starts : StartsDirective bytes) :
    isYamlDirective (some v) = .ret true := by
  obtain ⟨b, exact_⟩ := isStringWithNewline_ret h yamlDirective
  rw [isYamlDirective, exact_, Outcome.ret_bind]
  cases b with
  | true => rfl
  | false =>
    obtain ⟨more, rfl⟩ := h.split
    obtain ⟨answer, run, iff⟩ := (generic_directive_iff bytes).mpr (not_breaksOff_of_starts starts) more
    rw [iff.mpr starts] at run
    exact run

theorem isYamlDirective_other {bytes : Bytes} (h : v.Shows bytes)
    (other : ¬ yamlDirectivePrefix <+: bytes) : isYamlDirective (some v) = .ret false := by
  obtain ⟨more, rfl⟩ := h.split
  have clear : ∀ text, yamlDirectivePrefix <+: text → text.length ≤ bytes.length →
      ¬ text <+: bytes ++ more := fun text begins le start =>
    other (begins.trans ((h.prefix_iff le).mp start))
  have first : isStringWithNewline (some ⟨bytes ++ more, bytes.length⟩) yamlDirective = .ret false := by
    rw [isStringWithNewline]
    split
    · rfl
    · rename_i long
      simp only at long
      rw [strncmp_eq (by simp only [List.length_append]; omega),
        decide_eq_false (clear yamlDirective (List.prefix_append _ _) (by omega))]
      rfl
  rw [isYamlDirective, first]
  simp only [Outcome.ret_bind, Bool.false_eq_true, if_false]
  by_cases long : yamlDirective.length + 1 ≤ bytes.length
  · refine generic_other long (by simp) (clear _ List.prefix_rfl ?_)
    exact Nat.le_trans (by decide) long
  · exact generic_short (by omega)

theorem isBlockMagic_shown {bytes : Bytes} (h : v.Shows bytes) :
    isBlockMagic (some v) = .ret (decide (blockMagic <+: bytes)) := by
  rw [isBlockMagic, h.1]
  split
  · rename_i short
    exact congrArg Outcome.ret (decide_eq_false fun begins =>
      Nat.not_lt_of_le begins.length_le short).symm
  · rename_i long
    rw [h.load (Nat.le_of_not_lt long), Outcome.ret_bind]
    refine congrArg Outcome.ret (decide_eq_decide.mpr ?_)
    rw [List.prefix_iff_eq_take]
    exact eq_comm

end Texts

/-! ## The tree -/

/-- What is found at the end of a gap is not there before, unless the gap is empty. -/
theorem not_prefix_of_gap {tokens : List Bytes} {bytes gap token : Bytes} {idx : Nat}
    (found : LibAsdf.scanTokens bytes tokens = some (gap.length, idx)) (some : gap ≠ [])
    (entry : token ∈ tokens) : ¬ token <+: bytes := by
  intro begins
  obtain ⟨occ, first⟩ := firstMatch_eq_some.mp found
  obtain ⟨t, ht⟩ := List.getElem?_of_mem entry
  have before := first 0 t ⟨Nat.zero_lt_of_lt occ.inside, token, ht, begins⟩
  have pos := List.length_pos_of_ne_nil some
  simp only [Before] at before
  omega

theorem emitTreeStartEvent_stands (h : Stands p.stream done rest) :
    emitTreeStartEvent p = (.event (.treeStart ⟨(done.length : Nat), 0, none⟩), { p with
      tree := { p.tree with start := (done.length : Nat), hasTree := 1 }
      state := .tree }) := by
  rw [emitTreeStartEvent, h.tell_eq]

/-- A parser at the start of its tree. -/
def Parser.atTree (p : Parser σ φ) (stream : σ) (start : Nat) : Parser σ φ :=
  { p with
    stream := stream
    tree := { p.tree with start := start, hasTree := 1 }
    state := .tree }

/-- A tree is found where it begins. -/
theorem treeOrBlock_tree {tree : TreeSection} (h : Stands p.stream done (tree.bytes ++ rest)) :
    ∃ t, (∀ fuel, parseTreeOrBlock (fuel + 1) p = .ret
        (.event (.treeStart ⟨((done ++ tree.gap).length : Nat), 0, none⟩),
          p.atTree t (done ++ tree.gap).length)) ∧
      Stands t (done ++ tree.gap) (tree.text ++ rest) := by
  rw [TreeSection.bytes, List.append_assoc] at h
  obtain ⟨line, behind, member, shape⟩ := tree.begins
  have starts : StartsDirective (tree.text ++ rest) :=
    ⟨line, behind ++ rest, member, by rw [TreeSection.text, shape, List.append_assoc]⟩
  obtain ⟨more, begins⟩ : yamlDirectivePrefix <+: tree.text ++ rest := by
    obtain ⟨major, minor, cr, -, -, -, rfl⟩ := mem_directiveExpression.mp member
    rw [TreeSection.text, shape]
    simp only [List.append_assoc]
    exact List.prefix_append _ _
  have ahead : tree.text ++ rest ≠ [] := by
    rw [← begins]
    exact List.cons_ne_nil _ _
  obtain ⟨v, t, run, stands, -, shown, -⟩ := peek_stands h (Nat.zero_le _)
  by_cases gap : tree.gap = []
  · rw [gap, List.nil_append] at shown stands
    obtain ⟨w, rfl, shows⟩ := shown.some_of_ne ahead
    refine ⟨t, fun fuel => ?_, by rw [gap, List.append_nil]; exact stands⟩
    rw [parseTreeOrBlock, run, Outcome.ret_bind]
    dsimp only
    rw [if_neg (Option.some_ne_none w), isYamlDirective_starts shows starts, Outcome.ret_bind,
      if_pos rfl, emitTreeStartEvent_stands (p := { p with stream := t }) stands, gap,
      List.append_nil]
    rfl
  · -- The token is found behind the gap
    have found : LibAsdf.scanTokens (tree.gap ++ (tree.text ++ rest))
        [yamlDirectivePrefix, blockMagic] = some (tree.gap.length, 0) := by
      rw [← begins, ← List.append_assoc]
      refine firstMatch_append tree.quiet (fun token member => ?_) more
      rw [List.length_append]
      have : token.length ≤ yamlDirectivePrefix.length := by
        simp only [List.mem_cons, List.not_mem_nil, or_false] at member
        rcases member with rfl | rfl <;> decide
      omega
    have held : tree.gap ++ (tree.text ++ rest) ≠ [] := by simp [gap]
    obtain ⟨w, rfl, shows⟩ := shown.some_of_ne held
    have noTree := isYamlDirective_other shows (not_prefix_of_gap found gap List.mem_cons_self)
    have noBlock := isBlockMagic_shown shows
    rw [decide_eq_false (not_prefix_of_gap found gap
      (List.mem_cons_of_mem _ List.mem_cons_self))] at noBlock
    obtain ⟨u, scanned, stands', -, -⟩ := scanTokens_stands (p := { p with stream := t })
      [.yamlDirective, .blockMagic] .yamlDirective stands (by decide) (by
        rw [← begins, List.length_append, List.length_append]
        exact Nat.le_trans (Nat.le_add_right 6 _) (Nat.le_add_left _ _)) found rfl
    obtain ⟨x, u', next, stands'', -, -, shown', -⟩ := next_stands stands' (Nat.zero_le _)
    obtain ⟨x, rfl, shows'⟩ := shown'.some_of_ne ahead
    refine ⟨u', fun fuel => ?_, stands''⟩
    rw [parseTreeOrBlock, run, Outcome.ret_bind]
    dsimp only
    rw [if_neg (Option.some_ne_none w), noTree, Outcome.ret_bind]
    simp only [Bool.false_eq_true, if_false]
    rw [noBlock, Outcome.ret_bind]
    simp only [Bool.false_eq_true, if_false]
    refine Outcome.loop_of_exit ?_ fuel
    rw [parseTreeOrBlockRound, scanned, Outcome.ret_bind]
    dsimp only
    rw [next, Outcome.ret_bind]
    dsimp only
    rw [isYamlDirective_starts shows' starts, Outcome.ret_bind, if_pos rfl,
      emitTreeStartEvent_stands (p := { p with stream := u' }) stands'']
    rfl

/-- The dots of the marker. -/
def documentEndDots : Bytes := [46, 46, 46]

theorem treeFastRound_reads {tree : TreeSection} (h : Stands p.stream done (tree.text ++ rest)) :
    ∃ t, parseTreeFastRound p =
        .ret (.inr (some ((done ++ tree.text).length : Nat), { p with stream := t })) ∧
      Stands t (done ++ tree.text) rest ∧ Moved p.stream tree.text.length t := by
  -- The tree, the newline of the marker, its dots, and the end of their line
  obtain ⟨line, last⟩ : ∃ line, documentEndDots ++ tree.lineEnd = line ++ [newline] ∧
      ∀ b ∈ line, b ≠ newline := by
    rcases tree.ends with eol | eol
    · exact ⟨documentEndDots, by rw [eol], List.all_iff_forall_prop.mp rfl⟩
    · exact ⟨documentEndDots ++ [carriageReturn], by rw [eol]; rfl, List.all_iff_forall_prop.mp rfl⟩
  have shape : tree.text ++ rest =
      tree.body ++ (yamlDocumentEndMarker ++ (tree.lineEnd ++ rest)) := by
    simp only [TreeSection.text, treeText, List.append_assoc]
  have marker : yamlDocumentEndMarker ++ (tree.lineEnd ++ rest) =
      [newline] ++ (line ++ newline :: rest) := by
    rw [show yamlDocumentEndMarker = [newline] ++ documentEndDots from rfl, List.append_assoc,
      ← List.append_assoc documentEndDots, last.1, List.append_assoc]
    rfl
  have found : LibAsdf.scanTokens (tree.body ++ (yamlDocumentEndMarker ++ (tree.lineEnd ++ rest)))
      [yamlDocumentEndMarker, blockMagic] = some (tree.body.length, 0) := by
    rw [← shape]
    refine firstMatch_append tree.whole (fun token member => ?_) rest
    simp only [List.mem_cons, List.not_mem_nil, or_false] at member
    simp only [treeText, List.length_append]
    have : token.length = 4 := by rcases member with rfl | rfl <;> rfl
    have : yamlDocumentEndMarker.length = 4 := rfl
    omega
  rw [shape] at h
  obtain ⟨t, scanned, stands, moved, -⟩ := scanTokens_stands [.yamlDocumentEnd, .blockMagic]
    .yamlDocumentEnd h (by decide) (by
      rw [List.length_append, List.length_append]
      exact Nat.le_trans (Nat.le_add_right 4 _) (Nat.le_add_left _ _)) found rfl
  obtain ⟨v, u, next, stands', moved', seen, shown, -⟩ := next_stands stands (Nat.zero_le _)
  obtain ⟨v, rfl, shows⟩ := shown.some_of_ne (by
    rw [marker]
    exact List.cons_ne_nil _ _)
  have marked : isYamlDocumentEndMarker (some v) = .ret true :=
    isStringWithNewline_line shows (by decide) tree.ends
  rw [marker] at stands' seen
  obtain ⟨w, consumed, stands'', moved''⟩ := consume_stands stands' (by
    rw [seen, List.length_append]
    exact Nat.le_add_right _ _)
  obtain ⟨x, y, read, -, stands₃, moved₃⟩ := readline_stands stands'' last.2
  have all : done ++ tree.body ++ [newline] ++ (line ++ [newline]) = done ++ tree.text := by
    rw [← last.1, TreeSection.text, treeText]
    simp [yamlDocumentEndMarker, documentEndDots, newline]
  have length : tree.body.length + (0 + ([newline].length + (line ++ [newline]).length)) =
      tree.text.length := by
    have := congrArg List.length all
    simp only [List.length_append] at this ⊢
    omega
  have onward := moved.trans (moved'.trans (moved''.trans moved₃))
  rw [length] at onward
  rw [all] at stands₃
  refine ⟨y, ?_, stands₃, onward⟩
  rw [parseTreeFastRound, scanned, Outcome.ret_bind]
  dsimp only
  rw [next, Outcome.ret_bind]
  dsimp only
  rw [marked, Outcome.ret_bind, if_pos rfl, show consume u 1 = _ from consumed, Outcome.ret_bind,
    stands''.calm]
  simp only [Option.isSome_none, Bool.false_eq_true, if_false]
  rw [read, Outcome.ret_bind]
  dsimp only
  rw [stands₃.tell_eq]
  rfl

/-- A parser behind its tree. -/
def Parser.behindTree (p : Parser σ φ) (stream : σ) (treeEnd : Nat) (buf : Option Bytes) : Parser σ φ :=
  { p with
    stream := stream
    tree := { p.tree with «end» := treeEnd, found := true, buf := buf }
    state := .padding }

theorem parseTreeCaptured_reads {tree : TreeSection} (h : Stands p.stream done (tree.text ++ rest))
    (captures : Bool) :
    ∃ t, (∀ fuel, parseTreeCaptured (fuel + 1) captures p = .ret (true, { p with
        stream := t
        tree := { p.tree with
          «end» := ((done ++ tree.text).length : Nat)
          found := true
          buf := if captures then some tree.text else p.tree.buf } })) ∧
      Stands t (done ++ tree.text) rest := by
  cases captures with
  | false =>
    obtain ⟨t, round, stands, -⟩ := treeFastRound_reads h
    refine ⟨streamSetCapture t none, fun fuel => ?_, stands.withCapture none⟩
    rw [parseTreeCaptured]
    simp only [Bool.false_eq_true, if_false]
    rw [parseTreeFast, Outcome.loop_of_exit round]
    rfl
  | true =>
    obtain ⟨t, round, stands, moved⟩ := treeFastRound_reads
      (p := { p with stream := streamSetCapture p.stream (some []) }) (h.withCapture (some []))
    have text : (base t).capture = some tree.text := by
      rw [moved.capture_eq, (h.withCapture (some [])).coming_eq, List.take_left, streamSetCapture,
        base_withBase]
      rfl
    refine ⟨streamSetCapture t none, fun fuel => ?_, stands.withCapture none⟩
    rw [parseTreeCaptured]
    simp only [if_true]
    rw [parseTreeFast, Outcome.loop_of_exit round]
    simp only [Outcome.ret_bind, Outcome.pure_eq, text]

/-- A tree is read to its end, and captured if it is to be buffered. -/
theorem parseTree_reads {tree : TreeSection} (env : Env φ)
    (h : Stands p.stream done (tree.text ++ rest)) (noEvents : p.emitYamlEvents = false)
    (fresh : p.tree.buf = none) :
    ∃ t, (∀ fuel, parseTree env (fuel + 1) p = .ret
        (.event (.treeEnd ⟨p.tree.start, ((done ++ tree.text).length : Nat),
            if p.bufferTree then some tree.text else none⟩),
          p.behindTree t (done ++ tree.text).length (if p.bufferTree then some tree.text else none))) ∧
      Stands t (done ++ tree.text) rest := by
  have captures : capturesTree p = p.bufferTree := by
    rw [capturesTree, noEvents, Bool.false_and, Bool.or_false]
  obtain ⟨t, run, stands⟩ := parseTreeCaptured_reads h p.bufferTree
  rw [fresh] at run
  refine ⟨t, fun fuel => ?_, stands⟩
  rw [parseTree, skipTree, captures, noEvents, if_pos (by simp), run, Outcome.ret_bind]
  dsimp only
  rw [if_neg (by decide)]
  exact if_neg (show ¬ p.emitYamlEvents = true by rw [noEvents]; decide)

end Handlers

end LibAsdf
