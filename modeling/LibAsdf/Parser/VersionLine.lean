import LibAsdf.Parser.Handlers
import LibAsdf.Stream.FilePosition
import Mathlib.Data.List.TakeWhile

/-!
# What the version comments pass on

`parse_version_comment` copies the line behind the expected prefix, less one byte
for the terminator, which is right where the line that the stream reports ends with
a newline alone, or where a memory stream reports one byte past its content.

* `copyVersion`: the copy that `parse_version_comment` makes;
* `fileReadline_look`, `memReadline_look`: the line that a stream reports;
* `version_line_iff`: when the version parser is given the text of the line.
-/

namespace LibAsdf

open StreamOps ParserStream

/-! ## Lines and their ends -/

/-- The first line without its terminator. -/
def lineText : Bytes → Bytes
  | [] => []
  | b :: bytes =>
    if b = newline ∨ b = carriageReturn ∧ bytes.head? = some newline then []
    else b :: lineText bytes

/-- What comes behind the text of a line. -/
inductive LineEnd : Bytes → Prop
  | content : LineEnd []
  | lf (rest : Bytes) : LineEnd (newline :: rest)
  | crlf (rest : Bytes) : LineEnd (carriageReturn :: newline :: rest)

section Lines

variable {bytes expected tail : Bytes} {n : Nat}

theorem lineText_split (bytes : Bytes) : ∃ tail, bytes = lineText bytes ++ tail ∧ LineEnd tail ∧
    newlineIndex (lineText bytes) = none := by
  induction bytes with
  | nil => exact ⟨[], rfl, .content, rfl⟩
  | cons b bytes ih =>
    rw [lineText]
    split
    · rename_i stop
      refine ⟨b :: bytes, rfl, ?_, rfl⟩
      rcases stop with rfl | ⟨rfl, next⟩
      · exact .lf bytes
      · cases bytes with
        | nil => cases next
        | cons c rest =>
          cases next
          exact .crlf rest
    · rename_i stop
      obtain ⟨tail, eq, ends, none⟩ := ih
      refine ⟨tail, congrArg (b :: ·) eq, ends, ?_⟩
      rw [newlineIndex_cons, if_neg fun isNewline => stop (.inl isNewline), none]
      rfl

/-- A prefix without line ends is part of the text. -/
theorem prefix_lineText (clean : ∀ b ∈ expected, b ≠ newline ∧ b ≠ carriageReturn)
    (begins : expected <+: bytes) : expected <+: lineText bytes := by
  induction expected generalizing bytes with
  | nil => exact List.nil_prefix
  | cons b expected ih =>
    cases bytes with
    | nil => cases List.prefix_nil.mp begins
    | cons c bytes =>
      rw [List.cons_prefix_cons] at begins
      obtain ⟨rfl, begins⟩ := begins
      obtain ⟨noNewline, noReturn⟩ := clean b List.mem_cons_self
      rw [lineText, if_neg (not_or.mpr ⟨noNewline, fun h => noReturn h.1⟩), List.cons_prefix_cons]
      exact ⟨rfl, ih (fun c member => clean c (List.mem_cons_of_mem _ member)) begins⟩

theorem newlineIndex_none (clean : ∀ b ∈ bytes, b ≠ newline) : newlineIndex bytes = none := by
  rw [newlineIndex, List.findIdx?_eq_none_iff]
  exact fun b member => beq_eq_false_iff_ne.mpr (clean b member)

/-- Where the first newline or the end is. -/
theorem newlineIndex_lineText (bytes : Bytes) :
    ¬ lineText bytes ++ [carriageReturn, newline] <+: bytes ∧
        (newlineIndex bytes).getD bytes.length = (lineText bytes).length ∨
      lineText bytes ++ [carriageReturn, newline] <+: bytes ∧
        (newlineIndex bytes).getD bytes.length = (lineText bytes).length + 1 := by
  obtain ⟨tail, eq, ends, none⟩ := lineText_split bytes
  generalize lineText bytes = text at eq none
  subst eq
  rw [newlineIndex] at none ⊢
  rw [List.findIdx?_append, none, Option.none_or, List.prefix_append_right_inj]
  cases ends with
  | content => exact .inl ⟨by simp, by simp⟩
  | lf rest => exact .inl ⟨by simp [carriageReturn, newline], by simp [List.findIdx?_cons]⟩
  | crlf rest =>
    exact .inr ⟨by simp, by simp [List.findIdx?_cons, carriageReturn, newline, Nat.add_comm]⟩

theorem lineText_length_le (bytes : Bytes) : (lineText bytes).length ≤ lineLength bytes := by
  obtain ⟨tail, eq, -, none⟩ := lineText_split bytes
  have length := lineLength_of_none none tail
  rw [← eq] at length
  omega

theorem newline_le (bytes : Bytes) : (newlineIndex bytes).getD bytes.length ≤ bytes.length := by
  cases found : newlineIndex bytes with
  | none => exact Nat.le_refl _
  | some idx => exact Nat.le_of_lt (lineLength_of_some found).2

/-- A comparison with less than is needed. -/
theorem strncmp_short {mem str : Bytes} (lt : mem.length < str.length) :
    strncmp mem str = if mem <+: str then .fault .memory else .ret false := by
  induction str generalizing mem with
  | nil => cases lt
  | cons c str ih =>
    cases mem with
    | nil => rfl
    | cons b mem =>
      rw [strncmp, ih (Nat.lt_of_succ_lt_succ lt)]
      by_cases same : b = c
      · simp [same]
      · simp [same]

theorem strndup_eq {mem : Bytes} (le : n ≤ mem.length) :
    strndup mem n = .ret ((mem.take n).takeWhile fun b => b ≠ 0) := by
  induction mem generalizing n with
  | nil =>
    cases Nat.le_zero.mp le
    rfl
  | cons b mem ih =>
    cases n with
    | zero => rfl
    | succ n =>
      have more := ih (Nat.le_of_succ_le_succ le)
      rw [strndup] at more ⊢
      rw [List.take_succ_cons, List.idxOf?_cons, List.takeWhile_cons]
      by_cases zero : b = 0
      · subst zero
        rfl
      · have keep : (b == 0) = false := beq_eq_false_iff_ne.mpr zero
        rw [keep, if_pos (decide_eq_true zero)]
        cases found : (mem.take n).idxOf? 0 with
        | none =>
          simp only [found, Nat.le_of_succ_le_succ le, if_true, Outcome.ret.injEq] at more
          simp only [Option.map_none, Bool.false_eq_true, if_false, ← more]
          exact if_pos le
        | some len =>
          simp only [found, Outcome.ret.injEq] at more
          simp only [Option.map_some, Bool.false_eq_true, if_false, ← more, List.take_succ_cons]

/-- What is copied up to the byte `n` is the text if that is where the text ends. -/
theorem copied_iff (clean : ∀ b ∈ expected, b ≠ newline ∧ b ≠ carriageReturn)
    (begins : expected <+: bytes) (inside : expected.length ≤ n) (le : n ≤ bytes.length) :
    ((bytes.take n).drop expected.length).takeWhile (fun b => b ≠ 0) =
        (lineText bytes).drop expected.length ↔
      0 ∉ (lineText bytes).drop expected.length ∧ (lineText bytes).length = n := by
  obtain ⟨tail, eq, ends, -⟩ := lineText_split bytes
  obtain ⟨body, text⟩ := prefix_lineText clean begins
  have shape : bytes = expected ++ (body ++ tail) := by
    rw [← List.append_assoc, text]
    exact eq
  rw [← text, List.drop_left, List.length_append, List.drop_take, shape, List.drop_left]
  rw [shape, List.length_append, List.length_append] at le
  obtain ⟨m, rfl⟩ := Nat.exists_eq_add_of_le inside
  rw [Nat.add_sub_cancel_left]
  constructor
  · intro same
    have clear : ∀ b ∈ body, b ≠ 0 := by
      intro b member
      rw [← same] at member
      simpa using List.mem_takeWhile_imp member
    refine ⟨fun member => clear 0 member rfl, ?_⟩
    by_contra other
    have copied := List.takeWhile_prefix (fun b => b ≠ (0 : Byte)) (l := (body ++ tail).take m)
    have shorter := copied.length_le
    rw [same, List.length_take, List.length_append] at shorter
    obtain ⟨k, rfl⟩ := Nat.exists_eq_add_of_lt (show body.length < m by omega)
    have more : (body ++ tail).take (body.length + k + 1) = body ++ tail.take (k + 1) := by
      rw [Nat.add_assoc, List.take_length_add_append]
    rw [more, List.takeWhile_append_of_pos fun b member => decide_eq_true (clear b member)] at same
    have stopped := List.append_right_eq_self.mp same
    cases ends with
    | content =>
      rw [List.length_nil] at le
      omega
    | lf rest => cases stopped
    | crlf rest => cases stopped
  · rintro ⟨clear, length⟩
    rw [List.take_left' (by omega), List.takeWhile_eq_self_iff.mpr]
    intro b member
    apply decide_eq_true
    rintro rfl
    exact clear member

end Lines

/-! ## The copy -/

/-- The length of the line as it is reported, and the string that the version parser
is given. -/
structure VersionCopy where
  lineLen : Nat
  text : Bytes

section Copy

variable {σ φ : Type} [ParserStream σ]

/-- `parse_version_comment` before it calls the version parser. -/
def copyVersion (p : Parser σ φ) (expected : Bytes) : Run (Option VersionCopy × Parser σ φ) := do
  let (line, stream) ← readline p.stream
  let p := { p with stream := stream }
  match line with
  | none => return (none, p.setError .unexpectedEof)
  | some v =>
    if v.len < expected.length then
      return (none, p.setError .invalidAsdfHeader)
    if !(← strncmp v.mem expected) then
      return (none, p.setError .invalidAsdfHeader)
    let toCopy := sizeSub (v.len - expected.length) 1
    let versionStr ← strndup (v.mem.drop expected.length) toCopy
    return (some ⟨v.len, versionStr⟩, p)

theorem parseVersionComment_eq (p : Parser σ φ) (expected : Bytes) :
    parseVersionComment p expected = do
      let (copy, p) ← copyVersion p expected
      return (copy.map fun c => versionParse c.text, p) := by
  rw [parseVersionComment, copyVersion]
  cases readline p.stream with
  | fault e => rfl
  | timeout => rfl
  | ret r =>
    obtain ⟨line, stream⟩ := r
    cases line with
    | none => rfl
    | some v =>
      dsimp only [Outcome.ret_bind]
      by_cases short : v.len < expected.length
      · rw [if_pos short, if_pos short]
        rfl
      rw [if_neg short, if_neg short]
      cases strncmp v.mem expected with
      | fault e => rfl
      | timeout => rfl
      | ret same =>
        cases same with
        | false => rfl
        | true =>
          dsimp only [Outcome.ret_bind]
          cases strndup (v.mem.drop expected.length) (sizeSub (v.len - expected.length) 1) <;> rfl

/-- The line is rejected, or just `text` is copied, and its length does not wrap. -/
def Extracts (p : Parser σ φ) (expected text : Bytes) : Prop :=
  ∃ r, copyVersion p expected = .ret r ∧
    ∀ c ∈ r.1, c.text = text ∧ expected.length < c.lineLen

variable {p : Parser σ φ} {expected text : Bytes} {v : View} {s : σ}

theorem not_extracts_of_fault {e : Fault} (read : readline p.stream = .fault e) :
    ¬ Extracts p expected text := by
  rintro ⟨r, copied, -⟩
  rw [copyVersion, read] at copied
  cases copied

theorem extracts_of_rejected {p' : Parser σ φ}
    (rejected : copyVersion p expected = .ret (none, p')) : Extracts p expected text :=
  ⟨_, rejected, fun _ copied => nomatch copied⟩

theorem extracts_of_none (read : readline p.stream = .ret (none, s)) :
    Extracts p expected text := by
  apply extracts_of_rejected
  rw [copyVersion, read]
  rfl

theorem extracts_of_short (read : readline p.stream = .ret (some v, s))
    (short : v.len < expected.length) : Extracts p expected text := by
  apply extracts_of_rejected
  rw [copyVersion, read, Outcome.ret_bind]
  exact if_pos short

theorem extracts_of_other (read : readline p.stream = .ret (some v, s))
    (other : strncmp v.mem expected = .ret false) : Extracts p expected text := by
  by_cases short : v.len < expected.length
  · exact extracts_of_short read short
  · apply extracts_of_rejected
    rw [copyVersion, read, Outcome.ret_bind]
    dsimp only
    rw [if_neg short, other]
    rfl

theorem not_extracts_of_cut {e : Fault} (read : readline p.stream = .ret (some v, s))
    (long : expected.length ≤ v.len) (cut : strncmp v.mem expected = .fault e) :
    ¬ Extracts p expected text := by
  rintro ⟨r, copied, -⟩
  rw [copyVersion, read, Outcome.ret_bind] at copied
  dsimp only at copied
  rw [if_neg (Nat.not_lt.mpr long), cut] at copied
  cases copied

/-- A line that begins as expected. -/
theorem extracts_iff_of_begins (read : readline p.stream = .ret (some v, s))
    (long : expected.length ≤ v.len) (begins : expected <+: v.mem) :
    Extracts p expected text ↔ expected.length < v.len ∧
      strndup (v.mem.drop expected.length) (v.len - expected.length - 1) = .ret text := by
  have compared : strncmp v.mem expected = .ret true := by
    rw [strncmp_eq begins.length_le, decide_eq_true begins]
  have copied : copyVersion p expected =
      strndup (v.mem.drop expected.length) (sizeSub (v.len - expected.length) 1) >>= fun str =>
        .ret (some ⟨v.len, str⟩, { p with stream := s }) := by
    rw [copyVersion, read, Outcome.ret_bind]
    dsimp only
    rw [if_neg (Nat.not_lt.mpr long), compared]
    rfl
  rw [Extracts, copied]
  by_cases wraps : v.len = expected.length
  · refine iff_of_false ?_ fun h => by omega
    rintro ⟨r, done, right⟩
    obtain ⟨str, -, eq⟩ := Outcome.bind_eq_ret.mp done
    cases eq
    exact Nat.lt_irrefl _ (wraps ▸ (right _ rfl).2)
  rw [sizeSub_of_le (by omega)]
  constructor
  · rintro ⟨r, done, right⟩
    obtain ⟨str, dup, eq⟩ := Outcome.bind_eq_ret.mp done
    cases eq
    obtain ⟨rfl, more⟩ := right _ rfl
    exact ⟨more, dup⟩
  · rintro ⟨more, dup⟩
    refine ⟨_, by rw [dup, Outcome.ret_bind], ?_⟩
    rintro _ ⟨⟩
    exact ⟨rfl, more⟩

end Copy

/-! ## Memory streams -/

/-- What a line on a memory stream must be: not the prefix less its last byte, which
is compared with the byte behind the content, and not ended by a carriage return and
a newline. -/
def MemLineOk (bytes expected : Bytes) : Prop :=
  bytes ≠ expected.dropLast ∧ (expected <+: bytes → 0 ∉ (lineText bytes).drop expected.length ∧
    ¬ lineText bytes ++ [carriageReturn, newline] <+: bytes)

section Mem

variable {s : MemStream}

theorem memReadline_none (none : s.remaining = []) (le : s.pos ≤ s.size) :
    memReadline s = .ret (.none, s) := by
  have length := congrArg List.length none
  rw [MemStream.remaining, List.length_drop] at length
  rw [memReadline, sizeSub_of_le le]
  exact if_pos length

/-- A memory stream reports a line without a newline as longer than it is. -/
theorem memReadline_look (capture : s.capture = none) (le : s.pos ≤ s.size)
    (left : s.remaining ≠ []) : ∃ t, memReadline s = .ret
      (some ⟨s.remaining, (newlineIndex s.remaining).getD s.remaining.length + 1⟩, t) ∧
      t.capture = none ∧ t.buf = s.buf ∧
      t.pos = s.pos + ((newlineIndex s.remaining).getD s.remaining.length + 1) := by
  have length : s.remaining.length = s.size - s.pos := List.length_drop
  have pos := List.length_pos_of_ne_nil left
  have shows : (s.view (s.size - s.pos)).Shows s.remaining := by
    refine ⟨length.symm, ?_⟩
    rw [← length]
    exact List.take_length
  have consumed (n : Nat) : memConsume s n = .ret { s with pos := s.pos + n } := by
    rw [memConsume, StreamBase.streamCapture, capture]
    rfl
  rw [memReadline, sizeSub_of_le le, if_neg (by omega), shows.findNewline, Outcome.ret_bind,
    ← length]
  dsimp only
  rw [consumed]
  exact ⟨_, rfl, capture, rfl, rfl⟩

theorem memReadline_behind (behind : s.pos = s.size + 1) : memReadline s = .fault .memory := by
  have none : s.buf.drop s.pos = [] := List.drop_of_length_le (by rw [behind]; exact Nat.le_succ _)
  have wraps : sizeSub s.size s.pos = 2 ^ 64 - 1 := by
    rw [behind, sizeSub, if_neg (Nat.not_succ_le_self _)]
    omega
  rw [memReadline, wraps, if_neg (by decide), View.findNewline, MemStream.view, none]
  rfl

variable {φ : Type} {p : Parser MemStream φ} {expected : Bytes}

theorem mem_extracts_iff (capture : p.stream.capture = none) (le : p.stream.pos ≤ p.stream.size)
    (clean : ∀ b ∈ expected, b ≠ newline ∧ b ≠ carriageReturn) (long : 2 ≤ expected.length) :
    Extracts p expected ((lineText p.stream.remaining).drop expected.length) ↔
      MemLineOk p.stream.remaining expected := by
  have dropped : expected.dropLast.length = expected.length - 1 := List.length_dropLast
  by_cases left : p.stream.remaining = []
  · refine iff_of_true (extracts_of_none (memReadline_none left le)) ?_
    rw [left]
    refine ⟨fun eq => ?_, fun begins => ?_⟩
    · rw [← eq, List.length_nil] at dropped
      omega
    · rw [List.prefix_nil.mp begins, List.length_nil] at long
      omega
  obtain ⟨t, read, -⟩ := memReadline_look capture le left
  generalize p.stream.remaining = bytes at read ⊢
  by_cases begins : expected <+: bytes
  · have text := (prefix_lineText clean begins).length_le
    have whole := begins.length_le
    have differs : bytes ≠ expected.dropLast := by
      rintro rfl
      omega
    have line := newlineIndex_lineText bytes
    have inside := newline_le bytes
    generalize (newlineIndex bytes).getD bytes.length = n at read line inside
    rw [extracts_iff_of_begins read (by dsimp only; omega) begins, MemLineOk]
    dsimp only
    rw [show n + 1 - expected.length - 1 = n - expected.length by omega,
      strndup_eq (by rw [List.length_drop]; omega), ← List.drop_take, Outcome.ret.injEq,
      copied_iff clean begins (by omega) inside]
    constructor
    · rintro ⟨-, clear, length⟩
      refine ⟨differs, fun _ => ⟨clear, fun crlf => ?_⟩⟩
      rcases line with ⟨other, -⟩ | ⟨-, more⟩
      · exact other crlf
      · omega
    · rintro ⟨-, right⟩
      obtain ⟨clear, other⟩ := right begins
      refine ⟨by omega, clear, ?_⟩
      rcases line with ⟨-, same⟩ | ⟨crlf, -⟩
      · exact same.symm
      · exact absurd crlf other
  · rw [MemLineOk, and_iff_left fun h => absurd h begins]
    by_cases fits : expected.length ≤ bytes.length
    · have other : strncmp bytes expected = .ret false := by
        rw [strncmp_eq fits, decide_eq_false begins]
      refine iff_of_true (extracts_of_other read other) ?_
      rintro rfl
      omega
    · have compared := strncmp_short (Nat.not_le.mp fits)
      by_cases part : bytes <+: expected
      · have none : newlineIndex bytes = .none :=
          newlineIndex_none fun b member => (clean b (part.subset member)).1
        rw [if_pos part] at compared
        rw [none, Option.getD_none] at read
        by_cases one : bytes.length + 1 = expected.length
        · have cut : bytes = expected.dropLast := by
            rw [List.dropLast_eq_take, ← one, Nat.add_sub_cancel]
            exact List.prefix_iff_eq_take.mp part
          exact iff_of_false (not_extracts_of_cut read (Nat.le_of_eq one.symm) compared)
            (not_not.mpr cut)
        · refine iff_of_true (extracts_of_short read (by dsimp only; omega)) ?_
          rintro rfl
          omega
      · rw [if_neg part] at compared
        refine iff_of_true (extracts_of_other read compared) ?_
        rintro rfl
        exact part (List.dropLast_prefix _)

end Mem

/-! ## File streams -/

/-- What a line on a file stream must be, of which `room` bytes are in the buffer:
ended there by a newline alone, or cut between a carriage return and its newline. -/
def FileLineOk (bytes expected : Bytes) (room : Nat) : Prop :=
  expected <+: bytes.take room → 0 ∉ (lineText bytes).drop expected.length ∧
    ((lineText bytes).length < room ∧ lineText bytes ++ [newline] <+: bytes ∨
      (lineText bytes).length + 1 = room ∧ lineText bytes ++ [carriageReturn, newline] <+: bytes)

/-- The line as far as it is in the buffer. -/
def FileStream.lineSeen (s : FileStream) : Bytes :=
  s.remaining.take (min (lineLength s.remaining) (lineRoom s))

section File

variable {s : FileStream}

theorem FileHandle.discardLine_rest (f : FileHandle) :
    f.discardLine.rest = f.rest.drop (lineLength f.rest) := by
  rw [rest, rest, List.drop_drop]
  rfl

theorem fileNext_zero (sound : s.Sound) : fileNext s 0 = do
    let t ← if s.bufPos ≥ s.bufAvail then s.fill (s.bufAvail - s.bufPos) else pure s
    return (t.shown, t) := by
  rw [fileNext, sizeSub_of_le sound.pos_le, if_neg fun h => Nat.not_lt_zero _ h.1]
  simp only [Nat.not_lt_zero, if_false, gt_iff_lt, Outcome.pure_eq, Outcome.ret_bind, false_or]

/-- The bytes that a line is looked for in. -/
theorem fileNext_look (sound : s.Sound) (ok : NextOk s 0) : ∃ t, fileNext s 0 = .ret (t.shown, t) ∧
    t.Sound ∧ t.window = s.remaining.take (lineRoom s) ∧ t.remaining = s.remaining ∧
    t.buf.length = s.buf.length ∧ t.bufPos = s.bufPos ∧ t.bufAvail = s.bufPos + lineRoom s := by
  have lower := sound.pos_le
  have upper := sound.avail_le
  have width := sound.window_length
  have next := fileNext_zero sound
  by_cases some : s.bufPos < s.bufAvail
  · have room : lineRoom s = s.bufAvail - s.bufPos := if_pos some
    rw [next, if_neg (Nat.not_le.mpr some), room]
    refine ⟨s, rfl, sound, ?_, rfl, rfl, rfl, by omega⟩
    rw [FileStream.remaining, List.take_left' width]
  · have exhausted : s.bufAvail - s.bufPos = 0 := by omega
    have empty : s.window = [] := List.length_eq_zero_iff.mp (width.trans exhausted)
    have room : lineRoom s = min s.buf.length s.file.rest.length := if_neg some
    obtain ⟨t, filled, -, -, size, pos, avail, bytes, file⟩ := fill_front (s := s)
    rw [next, if_pos (Nat.not_lt.mp some), exhausted, filled, room, FileStream.remaining, empty,
      List.nil_append]
    have front : s.bufPos = 0 ∨ min s.buf.length s.file.rest.length = 0 := by
      rcases ok with none | more | front | none
      · exact absurd rfl none
      · omega
      · exact .inl front
      · rw [none]
        exact .inr (Nat.min_zero _)
    have taken : s.file.rest.take s.buf.length =
        s.file.rest.take (min s.buf.length s.file.rest.length) := by
      rw [← List.take_take, List.take_length]
    have window : t.window = s.file.rest.take (min s.buf.length s.file.rest.length) := by
      rw [FileStream.window, pos, avail, show s.bufAvail + min s.buf.length s.file.rest.length -
        s.bufPos = min s.buf.length s.file.rest.length by omega]
      rcases front with front | none
      · rw [front, List.drop_zero, bytes, taken]
      · rw [none, List.take_zero, List.take_zero]
    refine ⟨t, rfl, ⟨by omega, by omega⟩, window, ?_, size, pos, by omega⟩
    rw [FileStream.remaining, window, file, FileHandle.fread_rest, ← taken, List.take_append_drop]

theorem fileReadline_none (sound : s.Sound) (ok : NextOk s 0)
    (none : s.remaining.take (lineRoom s) = []) : ∃ t, fileReadline s = .ret (.none, t) := by
  obtain ⟨t, next, soundT, window, -⟩ := fileNext_look sound ok
  have shown := shown_window soundT
  rw [window, none] at shown
  rw [fileReadline, next, Outcome.ret_bind]
  cases look : t.shown with
  | none => exact ⟨t, rfl⟩
  | some v =>
    have empty : t.bufAvail - t.bufPos = 0 := by
      rw [← soundT.window_length, window, none, List.length_nil]
    rw [FileStream.shown, sizeSub_of_le soundT.pos_le, empty] at look
    cases look

/-- A file stream reports a line as far as it is in the buffer, and goes behind it. -/
theorem fileReadline_look (sound : s.Sound) (ok : NextOk s 0)
    (left : s.remaining.take (lineRoom s) ≠ []) : ∃ v t, fileReadline s = .ret (some v, t) ∧
      v.Shows s.lineSeen ∧ t.Sound ∧ t.remaining = s.remaining.drop (lineLength s.remaining) ∧
      t.buf.length = s.buf.length ∧ t.bufPos = s.bufPos + s.lineSeen.length ∧
      t.bufAvail = s.bufPos + lineRoom s := by
  obtain ⟨t, next, soundT, window, same, size, pos, avail⟩ := fileNext_look sound ok
  have shown := shown_window soundT
  have lower := soundT.pos_le
  have width := soundT.window_length
  have split : s.remaining = t.window ++ t.file.rest := same.symm
  have room : t.window.length = lineRoom s := by omega
  rw [fileReadline, next, Outcome.ret_bind]
  cases look : t.shown with
  | none =>
    rw [look] at shown
    exact absurd (window.symm.trans shown) left
  | some v =>
    rw [look] at shown
    have shows : v.Shows t.window := shown
    simp only [shows.findNewline, Outcome.ret_bind]
    cases found : newlineIndex t.window with
    | some idx =>
      have inside := (lineLength_of_some found).2
      have length : lineLength s.remaining = idx + 1 := by
        rw [split, lineLength_append_of_some found]
      have seen : s.lineSeen = t.window.take (idx + 1) := by
        rw [FileStream.lineSeen, length, Nat.min_eq_left (by omega), split,
          List.take_append_of_le_length inside]
      have seenLength : s.lineSeen.length = idx + 1 := by
        rw [seen, List.length_take]
        omega
      obtain ⟨base, -, -, consumed⟩ := fileConsume_sound soundT (idx + 1) (by omega)
      dsimp only
      rw [consumed]
      refine ⟨_, _, rfl, ⟨seenLength.symm, ?_⟩, ⟨?_, soundT.avail_le⟩, ?_, size, ?_, avail⟩
      · rw [seen, ← shows.2, List.take_take, shows.1, Nat.min_eq_left (by omega)]
      · dsimp only
        omega
      · rw [FileStream.remaining, FileStream.window_consumed, length, split,
          List.drop_append_of_le_length inside]
      · rw [seenLength, ← pos]
    | none =>
      have length : lineLength s.remaining = t.window.length + lineLength t.file.rest := by
        rw [split, lineLength_of_none found]
      have seen : s.lineSeen = t.window := by
        rw [FileStream.lineSeen, Nat.min_eq_right (by omega), ← window]
      obtain ⟨base, -, -, consumed⟩ := fileConsume_sound soundT v.len (by rw [shows.1]; omega)
      dsimp only
      rw [consumed]
      refine ⟨_, _, rfl, seen ▸ shows, ⟨?_, soundT.avail_le⟩, ?_, size, ?_, avail⟩
      · dsimp only
        rw [shows.1]
        omega
      · have behind := t.window_consumed base v.len
        rw [shows.1, List.drop_length] at behind
        rw [length, split, List.drop_length_add_append, ← FileHandle.discardLine_rest, shows.1]
        exact congrArg (· ++ t.file.discardLine.rest) behind
      · rw [seen, ← shows.1, ← pos]

/-- An exhausted buffer is filled from its start, and read behind its end. -/
theorem fileReadline_exhausted (sound : s.Sound) (full : s.bufAvail = s.buf.length)
    (bad : ¬ NextOk s 0) : fileReadline s = .fault .memory := by
  have lower := sound.pos_le
  simp only [NextOk, not_or, not_not] at bad
  obtain ⟨-, exhausted, front, left⟩ := bad
  obtain ⟨t, filled, -, -, size, pos, avail, -⟩ := fill_front (s := s)
  have some := List.length_pos_of_ne_nil left
  have more : t.bufAvail - t.bufPos = min s.buf.length s.file.rest.length := by omega
  have nothing : t.buf.drop t.bufPos = [] := List.drop_of_length_le (by omega)
  have shown : t.shown = .some ⟨[], min s.buf.length s.file.rest.length⟩ := by
    rw [FileStream.shown, sizeSub_of_le (show t.bufPos ≤ t.bufAvail by omega), more, nothing]
    exact if_pos (by omega)
  have next : fileNext s 0 = .ret (t.shown, t) := by
    rw [fileNext_zero sound, if_pos (Nat.not_lt.mp exhausted),
      show s.bufAvail - s.bufPos = 0 by omega, filled]
    rfl
  have none : View.findNewline ⟨[], min s.buf.length s.file.rest.length⟩ = .fault .memory := by
    rw [View.findNewline, List.take_nil]
    exact if_neg (by dsimp only [List.length_nil]; omega)
  rw [fileReadline, next, Outcome.ret_bind, shown]
  dsimp only
  rw [none]
  rfl

variable {φ : Type} {p : Parser FileStream φ} {expected bytes : Bytes} {room : Nat}

theorem fileLineOk_min : FileLineOk bytes expected (min room bytes.length) ↔
    FileLineOk bytes expected room := by
  have taken : bytes.take (min room bytes.length) = bytes.take room := by
    rw [← List.take_take, List.take_length]
  have lf : lineText bytes ++ [newline] <+: bytes → (lineText bytes).length < bytes.length := by
    intro h
    have le := h.length_le
    rwa [List.length_append] at le
  have crlf : lineText bytes ++ [carriageReturn, newline] <+: bytes →
      (lineText bytes).length + 1 < bytes.length := by
    intro h
    have le := h.length_le
    rwa [List.length_append] at le
  rw [FileLineOk, FileLineOk, taken]
  refine imp_congr_right fun _ => and_congr_right fun _ => or_congr ?_ ?_
  · exact and_congr_left fun h => by have := lf h; omega
  · exact and_congr_left fun h => by have := crlf h; omega

/-- The bytes in the buffer up to the end of the text, and one more. -/
theorem seen_length_iff (bytes : Bytes) (room : Nat) :
    (lineText bytes).length + 1 = min (lineLength bytes) room ↔
      (lineText bytes).length < room ∧ lineText bytes ++ [newline] <+: bytes ∨
        (lineText bytes).length + 1 = room ∧
          lineText bytes ++ [carriageReturn, newline] <+: bytes := by
  obtain ⟨tail, eq, ends, none⟩ := lineText_split bytes
  generalize lineText bytes = text at eq none
  subst eq
  rw [lineLength_of_none none, List.prefix_append_right_inj, List.prefix_append_right_inj]
  cases ends with
  | content =>
    rw [lineLength]
    refine iff_of_false (by omega) ?_
    rintro (⟨-, h⟩ | ⟨-, h⟩) <;> cases List.prefix_nil.mp h
  | lf rest =>
    have one : lineLength (newline :: rest) = 1 := if_pos rfl
    have this : [newline] <+: newline :: rest := List.prefix_append [newline] rest
    have other : ¬ [carriageReturn, newline] <+: newline :: rest := by
      simp [carriageReturn, newline]
    rw [one, and_iff_left this, or_iff_left fun h => other h.2]
    omega
  | crlf rest =>
    have two : lineLength (carriageReturn :: newline :: rest) = 2 := rfl
    have this : [carriageReturn, newline] <+: carriageReturn :: newline :: rest :=
      List.prefix_append [carriageReturn, newline] rest
    have other : ¬ [newline] <+: carriageReturn :: newline :: rest := by
      simp [carriageReturn, newline]
    rw [two, and_iff_left this, or_iff_right fun h => other h.2]
    omega

theorem file_extracts_iff (sound : p.stream.Sound) (ok : NextOk p.stream 0)
    (clean : ∀ b ∈ expected, b ≠ newline ∧ b ≠ carriageReturn) (long : 2 ≤ expected.length) :
    Extracts p expected ((lineText p.stream.remaining).drop expected.length) ↔
      FileLineOk p.stream.remaining expected (lineRoom p.stream) := by
  by_cases left : p.stream.remaining.take (lineRoom p.stream) = []
  · obtain ⟨t, read⟩ := fileReadline_none sound ok left
    refine iff_of_true (extracts_of_none read) fun begins => ?_
    rw [left] at begins
    rw [List.prefix_nil.mp begins, List.length_nil] at long
    omega
  obtain ⟨v, t, read, shows, -⟩ := fileReadline_look sound ok left
  rw [FileStream.lineSeen] at shows
  generalize lineRoom p.stream = room at shows ⊢
  generalize p.stream.remaining = bytes at shows ⊢
  have whole := lineLength_le bytes
  have length : v.len = min (lineLength bytes) room := by
    rw [shows.1, List.length_take]
    omega
  have seen := shows.2
  have inside := shows.len_le
  rw [← length] at seen
  by_cases begins : expected <+: bytes.take room
  · have inText := prefix_lineText clean (begins.trans (List.take_prefix _ _))
    have textLe := lineText_length_le bytes
    have le := begins.length_le
    have textLong := inText.length_le
    rw [List.length_take] at le
    have fits : expected.length ≤ v.len := by omega
    have first : expected <+: v.mem := by
      refine List.IsPrefix.trans ?_ (List.take_prefix v.len v.mem)
      rw [seen, List.prefix_take_iff]
      exact ⟨begins.trans (List.take_prefix _ _), fits⟩
    have ends := seen_length_iff bytes room
    rw [← length] at ends
    rw [extracts_iff_of_begins read fits first, FileLineOk, imp_iff_right begins, ← ends]
    by_cases more : expected.length < v.len
    · have copied : (v.mem.drop expected.length).take (v.len - expected.length - 1) =
          (bytes.take (v.len - 1)).drop expected.length := by
        have shorter := congrArg (List.take (v.len - 1)) seen
        rw [List.take_take, List.take_take, Nat.min_eq_left (Nat.sub_le _ _)] at shorter
        rw [← shorter, List.drop_take, Nat.sub_right_comm]
      rw [strndup_eq (by rw [List.length_drop]; omega), copied, Outcome.ret.injEq,
        copied_iff clean (begins.trans (List.take_prefix _ _)) (by omega) (by omega),
        and_iff_right more]
      refine and_congr_right fun _ => ?_
      omega
    · refine iff_of_false (fun h => more h.1) fun h => ?_
      omega
  · refine iff_of_true ?_ fun h => absurd h begins
    by_cases short : v.len < expected.length
    · exact extracts_of_short read short
    · have other : ¬ expected <+: v.mem := by
        intro first
        have within : expected <+: v.mem.take v.len :=
          List.prefix_take_iff.mpr ⟨first, Nat.not_lt.mp short⟩
        rw [seen, List.prefix_take_iff] at within
        refine begins (List.prefix_take_iff.mpr ⟨within.1, by omega⟩)
      apply extracts_of_other read
      rw [strncmp_eq (by omega), decide_eq_false other]

end File

/-! ## The first two lines -/

/-- A stream at the start of its first or second line. -/
inductive AtLine {σ : Type} [ParserStream σ] (opened : σ) (content : Bytes) : Nat → σ → Prop
  | first : AtLine opened content 0 opened
  | second {line : View} {s : σ} (read : readline opened = .ret (some line, s)) :
      AtLine opened content (lineLength content) s

/-- A second line on a memory stream comes behind a newline. -/
def MemLinesOk (content expected : Bytes) (start : Nat) : Prop :=
  (start = 0 ∨ newlineIndex content ≠ none) ∧ MemLineOk (content.drop start) expected

/-- A second line on a file stream begins in the buffer, which has `size` bytes. -/
def FileLinesOk (size : Nat) (content expected : Bytes) (start : Nat) : Prop :=
  (start = 0 ∨ start < size ∨ content.drop start = []) ∧
    FileLineOk (content.drop start) expected (size - start)

instance (bytes expected : Bytes) : Decidable (MemLineOk bytes expected) :=
  inferInstanceAs (Decidable (_ ∧ _))

instance (bytes expected : Bytes) (room : Nat) : Decidable (FileLineOk bytes expected room) :=
  inferInstanceAs (Decidable (_ → _))

instance (content expected : Bytes) (start : Nat) : Decidable (MemLinesOk content expected start) :=
  inferInstanceAs (Decidable (_ ∧ _))

instance (size : Nat) (content expected : Bytes) (start : Nat) :
    Decidable (FileLinesOk size content expected start) :=
  inferInstanceAs (Decidable (_ ∧ _))

section Both

variable {content expected : Bytes} {start : Nat}

theorem mem_atLine {s : MemStream} (at_line : AtLine (streamFromMemory content) content start s)
    {φ : Type} {p : Parser MemStream φ} (stream : p.stream = s)
    (clean : ∀ b ∈ expected, b ≠ newline ∧ b ≠ carriageReturn) (long : 2 ≤ expected.length) :
    Extracts p expected ((lineText (content.drop start)).drop expected.length) ↔
      MemLinesOk content expected start := by
  cases at_line with
  | first =>
    have here := @mem_extracts_iff φ p expected (by rw [stream]; rfl)
      (by rw [stream]; exact Nat.zero_le _) clean long
    rw [stream] at here
    exact here.trans (and_iff_right (.inl rfl)).symm
  | second read =>
    subst stream
    by_cases left : content = []
    · subst left
      cases read
    obtain ⟨t, reads, capture, buf, pos⟩ :=
      @memReadline_look (streamFromMemory content) rfl (Nat.zero_le _) left
    cases read.symm.trans reads
    have all : (streamFromMemory content).remaining = content := rfl
    have zero : (streamFromMemory content).pos = 0 := rfl
    rw [all, zero, Nat.zero_add] at pos
    have memory : p.stream.buf = content := buf
    cases found : newlineIndex content with
    | some idx =>
      obtain ⟨length, inside⟩ := lineLength_of_some found
      rw [found, Option.getD_some] at pos
      have remaining : p.stream.remaining = content.drop (lineLength content) := by
        rw [MemStream.remaining, memory, pos, length]
      have here := @mem_extracts_iff φ p expected capture
        (by rw [pos, MemStream.size, memory]; exact inside) clean long
      rw [remaining] at here
      refine here.trans (and_iff_right (.inr ?_)).symm
      rw [found]
      nofun
    | none =>
      rw [found, Option.getD_none] at pos
      have whole := lineLength_of_none found []
      have some := List.length_pos_of_ne_nil left
      rw [List.append_nil, lineLength, Nat.add_zero] at whole
      refine iff_of_false (not_extracts_of_fault (memReadline_behind ?_)) ?_
      · rw [pos, MemStream.size, memory]
      · rintro ⟨start | newline, -⟩
        · omega
        · exact newline found

theorem file_atLine {s : FileStream} {buf : Bytes} {isSeekable isWriteable : Bool}
    (at_line : AtLine (streamFromFp content buf isSeekable isWriteable) content start s)
    {φ : Type} {p : Parser FileStream φ} (stream : p.stream = s)
    (clean : ∀ b ∈ expected, b ≠ newline ∧ b ≠ carriageReturn) (long : 2 ≤ expected.length) :
    Extracts p expected ((lineText (content.drop start)).drop expected.length) ↔
      FileLinesOk buf.length content expected start := by
  have sound := FileStream.sound_streamFromFp content buf isSeekable isWriteable
  have fresh : NextOk (streamFromFp content buf isSeekable isWriteable) 0 := .inr (.inr (.inl rfl))
  have all : (streamFromFp content buf isSeekable isWriteable).remaining = content := rfl
  have room : lineRoom (streamFromFp content buf isSeekable isWriteable) =
      min buf.length content.length := rfl
  cases at_line with
  | first =>
    have here := @file_extracts_iff φ p expected (stream ▸ sound) (stream ▸ fresh) clean long
    rw [stream, all, room, fileLineOk_min] at here
    exact here.trans (and_iff_right (.inl rfl)).symm
  | second read =>
    subst stream
    by_cases left : content.take (min buf.length content.length) = []
    · obtain ⟨t, reads⟩ := fileReadline_none sound fresh (by rw [all, room, left])
      cases read.symm.trans reads
    obtain ⟨v, t, reads, -, soundT, remaining, size, pos, avail⟩ :=
      fileReadline_look sound fresh (by rwa [all, room])
    cases read.symm.trans reads
    have zero : (streamFromFp content buf isSeekable isWriteable).bufPos = 0 := rfl
    have seen : (streamFromFp content buf isSeekable isWriteable).lineSeen.length =
        min (lineLength content) (min buf.length content.length) := by
      rw [FileStream.lineSeen, all, room, List.length_take]
      omega
    have some : 0 < (content.take (min buf.length content.length)).length :=
      List.length_pos_of_ne_nil left
    have line : lineLength content ≠ 0 := fun none => by
      rw [lineLength_eq_zero none, List.take_nil] at some
      cases some
    have rest : (content.drop (lineLength content)).length = content.length - lineLength content :=
      List.length_drop
    rw [List.length_take] at some
    rw [seen, zero, Nat.zero_add] at pos
    rw [room, zero, Nat.zero_add] at avail
    rw [all] at remaining
    have size : p.stream.buf.length = buf.length := size
    by_cases inside : lineLength content < min buf.length content.length
    · have more : p.stream.bufPos < p.stream.bufAvail := by omega
      have left : lineRoom p.stream =
          min (buf.length - lineLength content) (content.drop (lineLength content)).length := by
        rw [lineRoom, if_pos more]
        omega
      have here := @file_extracts_iff φ p expected soundT (.inr (.inl more)) clean long
      rw [remaining, left, fileLineOk_min] at here
      exact here.trans (and_iff_right (.inr (.inl (by omega)))).symm
    · by_cases none : content.drop (lineLength content) = []
      · have vacuous (room : Nat) : FileLineOk [] expected room := by
          intro begins
          rw [List.take_nil] at begins
          rw [List.prefix_nil.mp begins, List.length_nil] at long
          omega
        have rest : p.stream.file.rest = [] := by
          rw [none] at remaining
          exact (List.append_eq_nil_iff.mp remaining).2
        have here := @file_extracts_iff φ p expected soundT (.inr (.inr (.inr rest))) clean long
        rw [remaining, none] at here
        rw [FileLinesOk, none]
        exact iff_of_true (here.mpr (vacuous _)) ⟨.inr (.inr rfl), vacuous _⟩
      · have behind := List.length_pos_of_ne_nil none
        have empty : p.stream.window = [] := by
          refine List.length_eq_zero_iff.mp ?_
          rw [soundT.window_length]
          omega
        have bad : ¬ NextOk p.stream 0 := by
          rintro (h | h | h | h)
          · exact h rfl
          · omega
          · omega
          · rw [FileStream.remaining, empty, h] at remaining
            exact none remaining.symm
        refine iff_of_false (not_extracts_of_fault
          (fileReadline_exhausted soundT (by omega) bad)) ?_
        rintro ⟨start | start | start, -⟩
        · exact line start
        · omega
        · exact none start

theorem expected_clean (prefixed : expected = asdfVersionComment ∨ expected = asdfStandardComment) :
    (∀ b ∈ expected, b ≠ newline ∧ b ≠ carriageReturn) ∧ 2 ≤ expected.length := by
  rcases prefixed with rfl | rfl <;> exact ⟨by decide +kernel, by decide⟩

/-- When the version parser is given just the text of the first or the second line. -/
theorem version_line_iff (φ : Type) (content : Bytes) (start : Nat)
    (prefixed : expected = asdfVersionComment ∨ expected = asdfStandardComment) :
    (∀ p : Parser MemStream φ, AtLine (streamFromMemory content) content start p.stream →
      (Extracts p expected ((lineText (content.drop start)).drop expected.length) ↔
        MemLinesOk content expected start)) ∧
    ∀ buf isSeekable isWriteable, ∀ p : Parser FileStream φ,
      AtLine (streamFromFp content buf isSeekable isWriteable) content start p.stream →
      (Extracts p expected ((lineText (content.drop start)).drop expected.length) ↔
        FileLinesOk buf.length content expected start) := by
  obtain ⟨clean, long⟩ := expected_clean prefixed
  exact ⟨fun p at_line => mem_atLine at_line rfl clean long,
    fun buf isSeekable isWriteable p at_line => file_atLine at_line rfl clean long⟩

end Both

/-- `#ASDF 1` and a newline, with a buffer of 16 bytes. -/
theorem version_line_iff_newline :
    Extracts (parserCreate 0 (streamFromMemory (asdfVersionComment ++ [49, newline])) :
        Parser MemStream Unit) asdfVersionComment [49] ∧
      Extracts (parserCreate 0 (streamFromFp (asdfVersionComment ++ [49, newline])
        (List.replicate 16 0) true false) : Parser FileStream Unit) asdfVersionComment [49] := by
  obtain ⟨mem, file⟩ := version_line_iff Unit (asdfVersionComment ++ [49, newline]) 0 (.inl rfl)
  exact ⟨(mem _ .first).mpr (by decide), (file _ _ _ _ .first).mpr (by decide)⟩

/-- A carriage return is copied with the text, and the last byte of a file that does
not end with a newline is lost. -/
theorem line_end_copied :
    (¬ ∀ (content : Bytes) (p : Parser MemStream Unit),
      AtLine (streamFromMemory content) content 0 p.stream →
        Extracts p asdfVersionComment ((lineText content).drop asdfVersionComment.length)) ∧
    ¬ ∀ (content buf : Bytes) (p : Parser FileStream Unit),
      AtLine (streamFromFp content buf true false) content 0 p.stream →
        Extracts p asdfVersionComment ((lineText content).drop asdfVersionComment.length) := by
  obtain ⟨clean, long⟩ := expected_clean (.inl rfl)
  constructor
  · intro all
    have copied := all (asdfVersionComment ++ [49, carriageReturn, newline]) (parserCreate 0 _)
      .first
    exact absurd ((mem_atLine .first rfl clean long).mp copied) (by decide)
  · intro all
    have copied := all (asdfVersionComment ++ [49]) (List.replicate 16 0) (parserCreate 0 _) .first
    exact absurd ((file_atLine .first rfl clean long).mp copied) (by decide)

end LibAsdf
