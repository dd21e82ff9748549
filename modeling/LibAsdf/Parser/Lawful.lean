import LibAsdf.Parser.Basic
import LibAsdf.Stream.FileScan
import LibAsdf.Stream.MemPosition

/-!
# What a parser may rely on

The laws that file streams and memory streams share, in every state that calls
lead to: no call runs for ever, none touches a vector, and the bytes left go
down with each byte consumed. A call may fault; nothing is said of a stream
after that.

* `StreamMeasure`, `LawfulStream`: the laws;
* `streamSeek_ends`: seeking, also on streams that cannot seek;
* the instances for both kinds of stream.
-/

namespace LibAsdf

open StreamOps ParserStream

/-- A run that does not go on for ever; no fault is excluded but a vector access
out of range. -/
abbrev Ends {α : Type} (Q : α → Prop) (x : Run α) : Prop :=
  Outcome.wp (fun e => e ≠ .vector) False Q x

/-- An invariant of a stream kind, the count of the bytes that it may still
give, a bound on that count after a seek, and whether `n` bytes are in view. -/
class StreamMeasure (σ : Type) where
  Good : σ → Prop
  left : σ → Nat
  bound : σ → Nat
  Fed : σ → Nat → Prop

open StreamMeasure

section Laws

variable {σ : Type} [ParserStream σ] [StreamMeasure σ]

/-- What every call keeps: the invariant, whether the stream can seek, the
bound, and an error once there is one. -/
structure Keeps (s s' : σ) : Prop where
  good : Good s'
  seekable : (base s').isSeekable = (base s).isSeekable
  bound : bound s' = bound s
  error : (errorGet s).isSome → (errorGet s').isSome

theorem Keeps.refl {s : σ} (h : Good s) : Keeps s s := ⟨h, rfl, rfl, id⟩

theorem Keeps.trans {s t u : σ} (h : Keeps s t) (h' : Keeps t u) : Keeps s u :=
  ⟨h'.good, h'.seekable.trans h.seekable, h'.bound.trans h.bound, h'.error ∘ h.error⟩

/-- A call that keeps the stream and gives no byte back. -/
structure Onward (s s' : σ) : Prop extends Keeps s s' where
  left_le : left s' ≤ left s

theorem Onward.refl {s : σ} (h : Good s) : Onward s s := ⟨.refl h, Nat.le_refl _⟩

theorem Onward.trans {s t u : σ} (h : Onward s t) (h' : Onward t u) : Onward s u :=
  ⟨h.toKeeps.trans h'.toKeeps, Nat.le_trans h'.left_le h.left_le⟩

/-- What a seek leaves: only one from the start may give bytes back. -/
structure Sought (s : σ) (offset : Int) (whence : Whence) (r : Bool × σ) : Prop where
  keeps : Keeps s r.2
  left_le : left r.2 ≤ max (left s) (bound s)
  cur : whence = .cur → offset ≤ offMax → ((base s).isSeekable → 0 ≤ tell s ∧ 0 ≤ offset) →
    left r.2 ≤ left s
  ends : whence = .end → offset = 0 → left r.2 ≤ left s
  set : whence = .set → (base s).isSeekable → r.1 = true → 0 ≤ tell r.2
  before : whence = .set → (base s).isSeekable → -2 ^ 63 ≤ offset → offset < 0 →
    left r.2 ≤ left s ∧ (r.1 = true → left r.2 = 0)

end Laws

class LawfulStream (σ : Type) [ParserStream σ] extends StreamMeasure σ where
  base_withBase (s : σ) (b : StreamBase) : base (withBase s b) = b
  good_withBase (s : σ) (b : StreamBase) : Good s → Good (withBase s b)
  left_withBase (s : σ) (b : StreamBase) : left (withBase s b) = left s
  bound_withBase (s : σ) (b : StreamBase) : bound (withBase s b) = bound s
  fed_zero (s : σ) : Good s → Fed s 0
  fed_le (s : σ) (n : Nat) : Fed s n → n ≤ left s
  fed_mono (s : σ) {n m : Nat} : m ≤ n → Fed s n → Fed s m
  next_ends (s : σ) (count : Nat) : Good s → Ends (fun r => Onward s r.2 ∧
    ∀ v, r.1 = some v → 0 < v.len ∧ Fed r.2 v.len) (next s count)
  consume_ends (s : σ) (n m : Nat) : Good s → Fed s (n + m) → Ends (fun s' => Keeps s s' ∧
    left s' + n ≤ left s ∧ Fed s' m) (consume s n)
  readline_ends (s : σ) : Good s → Ends (fun r => Onward s r.2 ∧
    (Fed s 1 → r.1 ≠ none ∧ left r.2 < left s)) (readline s)
  scan_ends (s : σ) (tokens : List Bytes) : Good s → tokens ≠ [] → Ends (fun r => Onward s r.2 ∧
    ∀ m, r.1 = some m → ∃ t, tokens[m.2]? = some t ∧ Fed r.2 t.length) (scan s tokens)
  seek_ends (s : σ) (offset : Int) (whence : Whence) : Good s → (base s).isSeekable →
    Ends (Sought s offset whence) (seek s offset whence)
  fyParserSetInput_ends (s : σ) : Good s →
    Ends (fun r => Keeps s r.2) (fyParserSetInput s)
  fyMoved_keeps (s : σ) (pos : Nat) : Good s → Keeps s (fyMoved s pos)

section Derived

variable {σ : Type} [ParserStream σ] [LawfulStream σ]

open LawfulStream

theorem onward_setError {s : σ} (h : Good s) (code : ErrorCode) :
    Onward s (setError s code) where
  good := good_withBase _ _ h
  seekable := by rw [setError, base_withBase]; rfl
  bound := bound_withBase _ _
  error _ := by rw [errorGet, setError, base_withBase]; rfl
  left_le := Nat.le_of_eq (left_withBase _ _)

theorem onward_setCapture {s : σ} (h : Good s) (buf : Option Bytes) :
    Onward s (streamSetCapture s buf) where
  good := good_withBase _ _ h
  seekable := by rw [streamSetCapture, base_withBase]; rfl
  bound := bound_withBase _ _
  error e := by rw [errorGet, streamSetCapture, base_withBase]; exact e
  left_le := Nat.le_of_eq (left_withBase _ _)

theorem streamPeek_ends {s : σ} (h : Good s) (count : Nat) :
    Ends (fun r => Onward s r.2 ∧ ∀ v, r.1 = some v → 0 < v.len ∧ Fed r.2 v.len)
      (streamPeek s count) := by
  refine Outcome.wp_seq (next_ends s count h) fun r hr => ?_
  obtain ⟨v, t⟩ := r
  obtain ⟨onward, fed⟩ := hr
  have good := onward.good
  -- A consume of nothing leaves what the view shows
  cases v with
  | none =>
    refine Outcome.wp_seq (consume_ends t 0 0 good (fed_zero t good)) fun u hu => ?_
    obtain ⟨keeps, le, -⟩ := hu
    exact ⟨onward.trans ⟨keeps, by omega⟩, fun v eq => by cases eq⟩
  | some v =>
    obtain ⟨pos, fed⟩ := fed v rfl
    refine Outcome.wp_seq (consume_ends t 0 v.len good (by rwa [Nat.zero_add])) fun u hu => ?_
    obtain ⟨keeps, le, fed⟩ := hu
    refine ⟨onward.trans ⟨keeps, by omega⟩, fun w eq => ?_⟩
    cases eq
    exact ⟨pos, fed⟩

/-- The loop of a forward seek on a stream that cannot seek. -/
theorem skipRound_ends {s₀ : σ} (r : Nat × σ) (h : Onward s₀ r.2) :
    Ends (Outcome.Round (fun r' => Onward s₀ r'.2 ∧ r'.1 < r.1)
      (fun r' => Onward s₀ r'.2)) (skipRound r) := by
  obtain ⟨toConsume, s⟩ := r
  cases toConsume with
  | zero => exact h
  | succ n =>
    refine Outcome.wp_seq (next_ends s 1 h.good) fun r hr => ?_
    obtain ⟨v, t⟩ := r
    obtain ⟨onward, fed⟩ := hr
    by_cases failed : (errorGet t).isSome
    · simp only [failed, if_true]
      exact h.trans onward
    · simp only [failed]
      cases v with
      | none => exact h.trans onward
      | some v =>
        obtain ⟨pos, fed⟩ := fed v rfl
        have le : (if v.len ≥ n + 1 then n + 1 else v.len) ≤ v.len ∧
            0 < (if v.len ≥ n + 1 then n + 1 else v.len) := by split <;> omega
        refine Outcome.wp_seq (consume_ends t _ 0 onward.good
          (fed_mono t le.1 fed)) fun u hu => ?_
        obtain ⟨keeps, less, -⟩ := hu
        have back : left u ≤ left t := by omega
        exact ⟨h.trans (onward.trans ⟨keeps, back⟩), Nat.sub_lt (Nat.succ_pos n) le.2⟩

/-- Seeking, also where the stream can only read on. -/
theorem streamSeek_ends {s : σ} (h : Good s) (offset : Int) (whence : Whence) :
    Ends (Sought s offset whence) (streamSeek s offset whence) := by
  by_cases can : (base s).isSeekable
  · simp only [streamSeek, can, Bool.not_true, Bool.false_and, if_true]
    exact seek_ends s offset whence h can
  · have fixed : (base s).isSeekable = false := by simpa using can
    have stays : ∀ r : Bool × σ, Onward s r.2 → Sought s offset whence r := fun r onward =>
      ⟨onward.toKeeps, Nat.le_trans onward.left_le (Nat.le_max_left _ _),
        fun _ _ _ => onward.left_le, fun _ _ => onward.left_le,
        fun _ seekable => absurd seekable can, fun _ seekable => absurd seekable can⟩
    rw [streamSeek, fixed]
    split
    · exact stays _ (onward_setError h .system)
    · by_cases forward : 0 ≤ offset
      · simp only [assert, decide_true, forward, if_true, Outcome.ret_bind]
        refine Outcome.wp_mono (Outcome.wp_loop_total (I := fun r => Onward s r.2)
          (fun r => r.1) (fun r hr => skipRound_ends r hr) _ _ (.refl h)
          (Nat.lt_succ_self _)) stays
      · simp only [assert, decide_false, forward]
        exact Fault.noConfusion

end Derived

/-! ## File streams -/

theorem load_ends (mem : Bytes) (off n : Nat) : Ends (fun _ => True) (load mem off n) := by
  unfold load
  split
  · trivial
  · exact Fault.noConfusion

theorem streamCapture_ends (b : StreamBase) (mem : Bytes) (off size : Nat) :
    Ends (fun b' => b'.isSeekable = b.isSeekable ∧ b'.error = b.error)
      (b.streamCapture mem off size) := by
  unfold StreamBase.streamCapture
  cases b.capture with
  | none => exact ⟨rfl, rfl⟩
  | some captured => exact Outcome.wp_seq (load_ends mem off size) fun _ _ => ⟨rfl, rfl⟩

theorem findNewline_ends (v : View) : Ends (fun r => ∀ idx, r = some idx → idx < v.len)
    v.findNewline := by
  unfold View.findNewline
  cases h : newlineIndex (v.mem.take v.len) with
  | none =>
    simp only
    split
    · exact fun _ eq => nomatch eq
    · exact Fault.noConfusion
  | some idx =>
    have := (lineLength_of_some h).2
    rw [List.length_take] at this
    intro i eq
    cases eq
    omega

namespace FileStream

def Good (s : FileStream) : Prop := s.bufPos ≤ s.bufAvail

/-- The bytes to come, by the buffer and the `FILE`, or by `file_pos`. -/
def left (s : FileStream) : Nat :=
  max (s.bufAvail - s.bufPos + s.file.rest.length) (s.file.content.length - s.filePos)

end FileStream

instance : StreamMeasure FileStream where
  Good := FileStream.Good
  left := FileStream.left
  bound s := s.file.content.length
  Fed s n := s.bufPos + n ≤ s.bufAvail

theorem FileHandle.rest_length (f : FileHandle) : f.rest.length = f.content.length - f.pos :=
  List.length_drop

theorem fileNext_ends {s : FileStream} (h : s.Good) (count : Nat) :
    Ends (fun r => Onward s r.2 ∧ (∀ v, r.1 = some v → 0 < v.len ∧
      r.2.bufPos + v.len = r.2.bufAvail) ∧ (s.bufPos + 1 ≤ s.bufAvail → count ≤ offMax →
        r.1 ≠ none)) (fileNext s count) := by
  refine Outcome.wp_mono (Outcome.wp_imp (fileNext_spec h count)
    (fun e he => he.1 ▸ Fault.noConfusion) id) fun r hr => ?_
  obtain ⟨base, filePos, shown, nextTo⟩ | ⟨large, -, rfl⟩ := hr
  · have kept : r.2.bufPos ≤ r.2.bufAvail ∧
        r.2.bufAvail - r.2.bufPos + r.2.file.rest.length =
          s.bufAvail - s.bufPos + s.file.rest.length ∧
        r.2.file.content = s.file.content ∧
        (s.bufPos + 1 ≤ s.bufAvail → r.2.bufPos + 1 ≤ r.2.bufAvail) := by
      have le : s.bufPos ≤ s.bufAvail := h
      cases nextTo with
      | kept enough left bufPos avail file size same =>
        rw [bufPos, avail, file]
        exact ⟨le, rfl, rfl, id⟩
      | shifted short size bufPos avail bytes file =>
        have rest := congrArg List.length
          (s.file.fread_rest (r.2.buf.length - (s.bufAvail - s.bufPos)))
        rw [List.length_drop] at rest
        rw [file, bufPos, rest, avail]
        exact ⟨Nat.zero_le _, by omega, rfl, by omega⟩
      | filled none exhausted size bufPos avail bytes file =>
        have rest := congrArg List.length (s.file.fread_rest s.buf.length)
        rw [List.length_drop] at rest
        rw [file, bufPos, rest, avail]
        exact ⟨by omega, by omega, rfl, by omega⟩
    obtain ⟨pos_le, width, content, fed⟩ := kept
    refine ⟨⟨⟨pos_le, congrArg _ base, congrArg List.length content, fun e => ?_⟩, ?_⟩, ?_, ?_⟩
    · exact (congrArg (fun b : StreamBase => b.error.isSome) base).trans e
    · exact Nat.le_of_eq (by simp only [StreamMeasure.left, FileStream.left, width, content, filePos])
    · intro v eq
      rw [shown, FileStream.shown, sizeSub_of_le pos_le] at eq
      split at eq
      · cases eq
        exact ⟨‹_›, by simp only; omega⟩
      · cases eq
    · intro start _
      have := fed start
      rw [shown, FileStream.shown, sizeSub_of_le pos_le, if_pos (by omega)]
      exact Option.some_ne_none _
  · exact ⟨⟨⟨h, rfl, rfl, fun _ => rfl⟩, Nat.le_refl _⟩, fun _ eq => (nomatch eq),
      fun _ le => absurd le (Nat.not_le_of_lt large)⟩

theorem fileConsume_ends {s : FileStream} (n m : Nat)
    (fed : s.bufPos + (n + m) ≤ s.bufAvail) :
    Ends (fun s' => Keeps s s' ∧ s'.left + n ≤ s.left ∧ s'.bufPos + m ≤ s'.bufAvail ∧
      s'.file = s.file ∧ s'.bufPos = s.bufPos + n ∧ s'.bufAvail = s.bufAvail ∧
        s'.filePos = s.filePos + n) (fileConsume s n) := by
  refine Outcome.wp_seq (streamCapture_ends _ _ _ _) fun base hb => ?_
  have pos : min (s.bufPos + n) s.bufAvail = s.bufPos + n := by omega
  refine ⟨⟨?_, hb.1, rfl, fun e => (congrArg Option.isSome hb.2).trans e⟩, ?_, ?_, rfl,
    pos, rfl, rfl⟩
  · exact Nat.min_le_right _ _
  · simp only [FileStream.left, pos]
    omega
  · simp only [pos]
    omega

theorem fileReadline_ends {s : FileStream} (h : s.Good) :
    Ends (fun r => Onward s r.2 ∧ (s.bufPos + 1 ≤ s.bufAvail → r.1 ≠ none ∧ r.2.left < s.left))
      (fileReadline s) := by
  refine Outcome.wp_seq (fileNext_ends h 0) fun r hr => ?_
  obtain ⟨v, t⟩ := r
  obtain ⟨onward, fed, some⟩ := hr
  cases v with
  | none => exact ⟨onward, fun start => absurd rfl (some start (Nat.zero_le _))⟩
  | some v =>
    have pos : 0 < v.len := (fed v rfl).1
    have all : t.bufPos + v.len = t.bufAvail := (fed v rfl).2
    have fewer : t.left ≤ s.left := onward.left_le
    refine Outcome.wp_seq (findNewline_ends v) fun found inside => ?_
    cases found with
    | some idx =>
      have lt := inside idx rfl
      refine Outcome.wp_seq (fileConsume_ends (s := t) (idx + 1) 0 (by omega))
        fun u hu => ?_
      obtain ⟨keeps, less, -⟩ := hu
      have less : u.left + (idx + 1) ≤ t.left := less
      exact ⟨onward.trans ⟨keeps, Nat.le_of_add_right_le less⟩,
        fun _ => ⟨Option.some_ne_none _, show u.left < s.left by omega⟩⟩
    | none =>
      refine Outcome.wp_seq (fileConsume_ends (s := t) v.len 0 (by omega))
        fun u hu => ?_
      obtain ⟨keeps, less, -, file, bufPos, bufAvail, -⟩ := hu
      -- The rest of the line goes too
      have discarded : ({ u with file := u.file.discardLine } : FileStream).left ≤ u.left := by
        simp only [FileStream.left, FileHandle.discardLine, FileHandle.rest_length]
        omega
      have less : u.left + v.len ≤ t.left := less
      exact ⟨onward.trans ⟨⟨keeps.good, keeps.seekable, keeps.bound, keeps.error⟩,
          Nat.le_trans discarded (Nat.le_of_add_right_le less)⟩,
        fun _ => ⟨Option.some_ne_none _, Nat.lt_of_le_of_lt discarded (by omega)⟩⟩

/-- A scan that starts with a buffer that is not sound does not get past its
first round. -/
theorem fileScanRound_unsound {s : FileStream} {tokens : List Bytes} (h : s.Good)
    (beyond : s.buf.length < s.bufAvail) (pos : 0 < maxTokenLen tokens) :
    ∃ e, e ≠ .vector ∧ fileScanRound tokens s = .fault e := by
  have le : s.bufPos ≤ s.bufAvail := h
  by_cases enough : s.bufAvail - s.bufPos ≥ maxTokenLen tokens
  · have blind : fileScanLook tokens s = .fault .memory := by
      rw [fileScanLook, sizeSub_of_le le, if_pos enough, View.scanTokens, if_neg]
      rintro (inside | empty)
      · simp only [List.length_drop] at inside
        omega
      · rw [empty] at pos
        exact absurd pos (by decide)
    exact ⟨.memory, Fault.noConfusion, by rw [fileScanRound, blind]; rfl⟩
  · have blind : fileScanLook tokens s = .ret none := by
      rw [fileScanLook, sizeSub_of_le le, if_neg enough]
      rfl
    rw [fileScanRound, blind]
    simp only [Outcome.ret_bind, sizeSub_of_le le]
    generalize kept : (if s.bufAvail - s.bufPos < maxTokenLen tokens - 1 then
      s.bufAvail - s.bufPos else maxTokenLen tokens - 1) = preserve
    have preserveLe : preserve ≤ s.bufAvail := by
      split at kept <;> omega
    have tail : load s.buf (sizeSub s.bufAvail preserve) preserve = .fault .memory := by
      rw [load, sizeSub_of_le preserveLe, if_neg (by omega)]
    rw [fileScanRefill]
    cases captured : s.toStreamBase.streamCapture s.buf 0 (sizeSub s.bufAvail preserve) with
    | ret base =>
      rw [Outcome.ret_bind, tail]
      exact ⟨.memory, Fault.noConfusion, rfl⟩
    | fault e =>
      have := streamCapture_ends s.toStreamBase s.buf 0 (sizeSub s.bufAvail preserve)
      rw [captured] at this
      exact ⟨e, this, rfl⟩
    | timeout =>
      have := streamCapture_ends s.toStreamBase s.buf 0 (sizeSub s.bufAvail preserve)
      rw [captured] at this
      exact this.elim

theorem ScanFrame.onward {s s' : FileStream} (frame : ScanFrame s s')
    (remaining : s'.remaining.length ≤ s.remaining.length) (sound : s.Sound)
    (filePos : s.file.content.length - s'.filePos ≤ s.left) : Onward s s' where
  good := frame.sound.pos_le
  seekable := frame.isSeekable
  bound := congrArg List.length frame.content
  error e := (congrArg Option.isSome frame.error).trans e
  left_le := by
    rw [FileStream.remaining, FileStream.remaining, List.length_append, List.length_append,
      sound.window_length, frame.sound.window_length] at remaining
    simp only [StreamMeasure.left, FileStream.left, frame.content] at *
    omega

/-- A buffer smaller than the longest token shows no match. -/
theorem fileScan_small {s : FileStream} {tokens : List Bytes} (sound : s.Sound)
    (small : s.buf.length < maxTokenLen tokens) :
    Outcome.wp (fun _ => False) False (fun r => r.1 = none ∧ r.2.Sound ∧ Onward s r.2)
      (fileScan s tokens) := by
  have le := sound.pos_le
  have upper := sound.avail_le
  have blind : fileScanLook tokens s = .ret none := by
    rw [fileScanLook, sizeSub_of_le le, if_neg (by omega)]
    rfl
  obtain ⟨base, buf, error, seekable, size, -, refill⟩ :=
    fileScanRefill_sound sound (s.bufAvail - s.bufPos) (Nat.le_refl _)
  have kept : (if s.bufAvail - s.bufPos < maxTokenLen tokens - 1 then s.bufAvail - s.bufPos
      else maxTokenLen tokens - 1) = s.bufAvail - s.bufPos := by
    split <;> omega
  have fits := s.file.fread_length (s.buf.length - (s.bufAvail - s.bufPos))
  have rest := congrArg List.length
    (s.file.fread_rest (s.buf.length - (s.bufAvail - s.bufPos)))
  rw [List.length_drop] at rest
  rw [fileScan, if_neg (Nat.ne_of_gt (Nat.zero_lt_of_lt small)), Outcome.loop_succ, fileScanRound,
    blind]
  simp only [Outcome.ret_bind, sizeSub_of_le le, kept, refill, Outcome.pure_eq]
  rw [if_pos (by omega)]
  refine ⟨rfl, ⟨Nat.le_refl _, ?_⟩,
    ⟨Nat.le_refl _, seekable, rfl, fun e => (congrArg Option.isSome error).trans e⟩, ?_⟩
  · simp only [size]
    omega
  simp only [StreamMeasure.left, FileStream.left, FileHandle.fread_content, rest]
  omega

theorem fileScan_ends {s : FileStream} (h : s.Good) (tokens : List Bytes) :
    Ends (fun r => Onward s r.2 ∧ ∀ m, r.1 = some m → ∃ t, tokens[m.2]? = some t ∧
      r.2.bufPos + t.length ≤ r.2.bufAvail) (fileScan s tokens) := by
  by_cases pos : 0 < maxTokenLen tokens
  · by_cases upper : s.bufAvail ≤ s.buf.length
    · have sound : s.Sound := ⟨h, upper⟩
      by_cases fits : maxTokenLen tokens ≤ s.buf.length
      · refine Outcome.wp_mono (Outcome.wp_imp (fileScan_spec pos fits sound)
          (fun _ => False.elim) id) fun r hr => ?_
        have total : s.remaining.length = s.bufAvail - s.bufPos + s.file.rest.length := by
          rw [FileStream.remaining, List.length_append, sound.window_length]
        rcases r with ⟨_ | ⟨p, tokenIdx⟩, s'⟩
        · obtain ⟨frame, -, empty, filePos⟩ := hr
          refine ⟨frame.onward (by rw [empty]; exact Nat.zero_le _) sound ?_,
            fun m eq => by cases eq⟩
          simp only [FileStream.left]
          omega
        · obtain ⟨frame, j, offset, -, -, -, place, filePos, rest, t, ht, starts⟩ := hr
          refine ⟨frame.onward (by rw [rest, List.length_drop]; exact Nat.sub_le _ _) sound ?_,
            fun m eq => ?_⟩
          · simp only [FileStream.left]
            omega
          · cases eq
            have := starts.length_le
            rw [frame.sound.window_length] at this
            have := frame.sound.pos_le
            exact ⟨t, ht, show s'.bufPos + t.length ≤ s'.bufAvail by omega⟩
      · exact Outcome.wp_mono (Outcome.wp_imp (fileScan_small sound (Nat.lt_of_not_le fits))
          (fun _ => False.elim) id) fun r hr => ⟨hr.2.2, fun m eq => by cases hr.1.symm.trans eq⟩
    · obtain ⟨e, other, faults⟩ := fileScanRound_unsound h (Nat.lt_of_not_le upper) pos
      rw [fileScan, if_neg (Nat.ne_of_gt pos), Outcome.loop_succ, faults]
      exact other
  · rw [fileScan, if_pos (by omega)]
    exact ⟨.refl h, fun m eq => by cases eq⟩

/-- A seek of the `FILE` either fails or empties the buffer. -/
theorem seekFile_ends {s : FileStream} (offset : Int) (whence : Whence) :
    s.seekFile offset whence = (false, s) ∨ ∃ s' : FileStream,
      s.seekFile offset whence = (true, s') ∧ Keeps s s' ∧ 0 ≤ s.file.target offset whence ∧
      (s'.left : Int) ≤ s.file.content.length ∧
      (s'.left = 0 ∨ s'.left + s.file.target offset whence = s.file.content.length) ∧
      0 ≤ fileTell s' := by
  unfold FileStream.seekFile
  cases moved : s.file.fseeko offset whence with
  | none => exact .inl rfl
  | some file =>
    obtain ⟨content, pos, le⟩ := FileHandle.fseeko_eq_some moved
    have left : ({ s with file := file, bufAvail := 0, bufPos := 0, filePos := file.pos } :
        FileStream).left = s.file.content.length - file.pos := by
      simp only [FileStream.left, FileHandle.rest_length, content]
      omega
    have told : fileTell { s with file := file, bufAvail := 0, bufPos := 0, filePos := file.pos }
        = file.pos := if_neg (Nat.not_lt_of_le le)
    refine .inr ⟨_, rfl, ⟨Nat.le_refl _, rfl, congrArg List.length content, id⟩, ?_⟩
    rw [left, told]
    omega

theorem fileSeek_ends {s : FileStream} (h : s.Good) (seekable : s.isSeekable) (offset : Int)
    (whence : Whence) : Sought s offset whence (fileSeek s offset whence) := by
  have failed : Sought s offset whence (false, s) :=
    ⟨.refl h, Nat.le_max_left _ _, fun _ _ _ => Nat.le_refl _, fun _ _ => Nat.le_refl _,
      fun _ _ ok => (nomatch ok), fun _ _ _ _ => ⟨Nat.le_refl _, nofun⟩⟩
  cases whence with
  | set =>
    rw [fileSeek]
    obtain eq | ⟨s', eq, keeps, start, le, -, told⟩ := seekFile_ends offset .set
    · rw [eq]
      exact failed
    · rw [eq]
      refine ⟨keeps, Nat.le_trans (Int.ofNat_le.mp le) (Nat.le_max_right _ _),
        fun w => (nomatch w), fun w => (nomatch w), fun _ _ _ => told, fun _ _ _ before => ?_⟩
      exact absurd start (Int.not_le.mpr before)
  | cur =>
    rw [fileSeek]
    split
    · exact failed
    · rename_i inside
      obtain eq | ⟨s', eq, keeps, start, le, at_, -⟩ :=
        seekFile_ends (sizeAdd s.filePos offset) .set
      · rw [eq]
        exact failed
      · rw [eq]
        refine ⟨keeps, Nat.le_trans (Int.ofNat_le.mp le) (Nat.le_max_right _ _),
          fun _ small ok => ?_, fun w => (nomatch w), fun w => (nomatch w), fun w => (nomatch w)⟩
        obtain ⟨told, forward⟩ := ok seekable
        change 0 ≤ fileTell s at told
        change s'.left ≤ s.left
        have here : s.filePos ≤ offMax := by
          unfold fileTell at told
          split at told <;> omega
        have target : (sizeAdd s.filePos offset : Int) = s.filePos + offset := by
          unfold sizeAdd
          rw [Int.emod_eq_of_lt (by omega) (by simp only [offMax] at *; omega)]
          omega
        rw [target, FileHandle.target] at at_
        simp only [FileStream.left] at *
        omega
  | «end» =>
    rw [fileSeek]
    obtain eq | ⟨s', eq, keeps, start, le, at_, -⟩ := seekFile_ends offset .end
    · rw [eq]
      exact failed
    · rw [eq]
      refine ⟨keeps, Nat.le_trans (Int.ofNat_le.mp le) (Nat.le_max_right _ _),
        fun w => (nomatch w), fun _ zero => ?_, fun w => (nomatch w), fun w => (nomatch w)⟩
      subst zero
      rw [FileHandle.target] at at_
      have : s'.left = 0 := by omega
      exact Nat.le_trans (Nat.le_of_eq this) (Nat.zero_le _)

instance : LawfulStream FileStream where
  base_withBase _ _ := rfl
  good_withBase _ _ h := h
  left_withBase _ _ := rfl
  bound_withBase _ _ := rfl
  fed_zero _ h := h
  fed_le s n fed := by
    simp only [StreamMeasure.Fed, StreamMeasure.left, FileStream.left] at *
    omega
  fed_mono s n m le fed := Nat.le_trans (Nat.add_le_add_left le _) fed
  next_ends s count h := Outcome.wp_mono (fileNext_ends h count) fun r hr =>
    ⟨hr.1, fun v eq => ⟨(hr.2.1 v eq).1, Nat.le_of_eq (hr.2.1 v eq).2⟩⟩
  consume_ends s n m _ fed := Outcome.wp_mono (fileConsume_ends n m fed) fun _ hr =>
    ⟨hr.1, hr.2.1, hr.2.2.1⟩
  readline_ends s h := fileReadline_ends h
  scan_ends s tokens h _ := fileScan_ends h tokens
  seek_ends s offset whence h seekable := fileSeek_ends h seekable offset whence
  fyParserSetInput_ends s h := by
    change Ends _ (fileFyParserSetInput s)
    rw [fileFyParserSetInput]
    by_cases seekable : s.isSeekable
    · simp only [assert, seekable, if_true, Outcome.ret_bind]
      split
      · exact .refl h
      · refine ⟨h, rfl, ?_, id⟩
        cases moved : s.file.fseeko ((s.bufPos : Int) - s.bufAvail) .cur with
        | none => rfl
        | some file => exact congrArg List.length (FileHandle.fseeko_eq_some moved).1
    · simp only [assert, seekable]
      exact Fault.noConfusion
  fyMoved_keeps s pos h := ⟨h, rfl, rfl, id⟩

/-! ## Memory streams -/

/-- The position is inside the buffer, at its end, or behind a last line that
has no newline. -/
def MemStream.Good (s : MemStream) : Prop := s.pos ≤ s.size + 1 ∧ s.size ≤ offMax

instance : StreamMeasure MemStream where
  Good := MemStream.Good
  left s := s.size - s.pos
  bound s := s.size
  Fed s n := n = 0 ∨ s.pos + n ≤ s.size

/-- The bytes from behind the end of the buffer. -/
theorem view_past_end {s : MemStream} (h : s.Good) (past : s.size < s.pos) :
    sizeSub s.size s.pos = sizeMax ∧ (s.view (sizeSub s.size s.pos)).mem = [] := by
  have le := h.1
  have large : ¬ s.pos ≤ s.size := by omega
  refine ⟨?_, List.drop_eq_nil_of_le (Nat.le_of_lt past)⟩
  rw [sizeSub, if_neg large, sizeMax]
  omega

theorem memConsume_ends {s : MemStream} (h : s.Good) (n : Nat) (le : s.pos + n ≤ s.size + 1) :
    Ends (fun s' => Keeps s s' ∧ s'.pos = s.pos + n ∧ s'.size = s.size) (memConsume s n) := by
  refine Outcome.wp_seq (streamCapture_ends _ _ _ _) fun base hb => ?_
  exact ⟨⟨⟨le, h.2⟩, hb.1, rfl, fun e => (congrArg Option.isSome hb.2).trans e⟩, rfl, rfl⟩

theorem memReadline_ends {s : MemStream} (h : s.Good) :
    Ends (fun r => Onward s r.2 ∧
      (1 = 0 ∨ s.pos + 1 ≤ s.size → r.1 ≠ none ∧ r.2.size - r.2.pos < s.size - s.pos))
      (memReadline s) := by
  rw [memReadline]
  by_cases inside : s.pos ≤ s.size
  · simp only [sizeSub_of_le inside]
    split
    · exact ⟨.refl h, fun fed => by omega⟩
    · refine Outcome.wp_seq (findNewline_ends _) fun found inLine => ?_
      have lt : found.getD (s.size - s.pos) ≤ s.size - s.pos := by
        cases found with
        | none => exact Nat.le_refl _
        | some idx => exact Nat.le_of_lt (inLine idx rfl)
      refine Outcome.wp_seq (memConsume_ends h (found.getD (s.size - s.pos) + 1) (by omega))
        fun t ht => ?_
      obtain ⟨keeps, pos, size⟩ := ht
      refine ⟨⟨keeps, ?_⟩, fun _ => ⟨Option.some_ne_none _, ?_⟩⟩
      · change t.size - t.pos ≤ s.size - s.pos
        omega
      · simp only
        omega
  · obtain ⟨wraps, nothing⟩ := view_past_end h (Nat.lt_of_not_le inside)
    have blind : (s.view (sizeSub s.size s.pos)).findNewline = .fault .memory := by
      rw [View.findNewline, nothing, List.take_nil, if_neg]
      · rfl
      · change ¬ sizeSub s.size s.pos ≤ 0
        rw [wraps]
        decide
    rw [if_neg (by rw [wraps]; decide), blind]
    exact Fault.noConfusion

theorem memScan_ends {s : MemStream} (h : s.Good) (tokens : List Bytes) (some : tokens ≠ []) :
    Ends (fun r => Onward s r.2 ∧ ∀ m, r.1 = Option.some m → ∃ t, tokens[m.2]? = Option.some t ∧
      (t.length = 0 ∨ r.2.pos + t.length ≤ r.2.size)) (memScan s tokens) := by
  rw [memScan]
  by_cases inside : s.pos ≤ s.size
  · have shows := view_shows s
    have length := remaining_length s
    simp only [sizeSub_of_le inside, shows.scanTokens, Outcome.ret_bind]
    cases found : scanTokens s.remaining tokens with
    | none =>
      refine Outcome.wp_seq (memConsume_ends h (s.size - s.pos) (by omega)) fun t ht => ?_
      obtain ⟨keeps, pos, size⟩ := ht
      refine ⟨⟨keeps, ?_⟩, fun m eq => by cases eq⟩
      change t.size - t.pos ≤ s.size - s.pos
      omega
    | some m =>
      obtain ⟨offset, tokenIdx⟩ := m
      obtain ⟨⟨starts, t, ht, begins⟩, -⟩ := firstMatch_eq_some.mp found
      have width := begins.length_le
      rw [List.length_drop] at width
      refine Outcome.wp_seq (memConsume_ends h offset (by omega)) fun u hu => ?_
      obtain ⟨keeps, pos, size⟩ := hu
      refine ⟨⟨keeps, ?_⟩, fun m eq => ?_⟩
      · change u.size - u.pos ≤ s.size - s.pos
        omega
      · cases eq
        refine ⟨t, ht, .inr ?_⟩
        change u.pos + t.length ≤ u.size
        omega
  · obtain ⟨wraps, nothing⟩ := view_past_end h (Nat.lt_of_not_le inside)
    have blind : (s.view (sizeSub s.size s.pos)).scanTokens tokens = .fault .memory := by
      rw [View.scanTokens, nothing, if_neg]
      rintro (le | empty)
      · change sizeSub s.size s.pos ≤ 0 at le
        rw [wraps] at le
        exact absurd le (by decide)
      · exact some empty
    rw [blind]
    exact Fault.noConfusion

theorem memSeek_ends {s : MemStream} (h : s.Good) (seekable : s.isSeekable) (offset : Int)
    (whence : Whence) : Sought s offset whence (memSeek s offset whence) := by
  have pos : (memSeek s offset whence).2.pos = min (s.newPos offset whence) s.size := by
    change (if s.newPos offset whence > s.size then s.size else s.newPos offset whence) = _
    split <;> omega
  have left : StreamMeasure.left (memSeek s offset whence).2 =
      s.size - min (s.newPos offset whence) s.size := congrArg (s.size - ·) pos
  have small := h.2
  have start := h.1
  refine ⟨⟨⟨?_, small⟩, rfl, rfl, id⟩, ?_, ?_, ?_, fun _ _ _ => Int.natCast_nonneg _, ?_⟩
  · rw [pos]
    exact Nat.le_succ_of_le (Nat.min_le_right _ _)
  · rw [left]
    exact Nat.le_trans (Nat.sub_le _ _) (Nat.le_max_right _ _)
  · intro w le ok
    have forward := (ok seekable).2
    rw [left, w]
    change s.size - min (sizeAdd s.pos offset) s.size ≤ s.size - s.pos
    have : (sizeAdd s.pos offset : Int) = s.pos + offset := by
      rw [sizeAdd, Int.emod_eq_of_lt (by omega) (by simp only [offMax] at *; omega)]
      omega
    omega
  · intro w zero
    rw [left, w, zero]
    change s.size - min (sizeAdd s.size 0) s.size ≤ s.size - s.pos
    have : (sizeAdd s.size 0 : Int) = s.size := by
      rw [sizeAdd, Int.emod_eq_of_lt (by omega) (by simp only [offMax] at *; omega)]
      omega
    omega
  · intro w _ large before
    rw [left, w]
    change s.size - min (sizeAdd 0 offset) s.size ≤ s.size - s.pos ∧
      (_ → s.size - min (sizeAdd 0 offset) s.size = 0)
    have : (sizeAdd 0 offset : Int) = 2 ^ 64 + offset := by
      rw [sizeAdd, ← Int.add_emod_right, Int.emod_eq_of_lt (by omega) (by omega)]
      omega
    simp only [offMax] at small
    omega

theorem memFed_le {s : MemStream} {n : Nat} (fed : StreamMeasure.Fed s n) :
    n ≤ StreamMeasure.left s := by
  simp only [StreamMeasure.Fed, StreamMeasure.left] at *
  omega

theorem memFed_mono {s : MemStream} {n m : Nat} (le : m ≤ n) (fed : StreamMeasure.Fed s n) :
    StreamMeasure.Fed s m := by
  simp only [StreamMeasure.Fed] at *
  omega

theorem memNext_ends {s : MemStream} (h : s.Good) (count : Nat) : Ends (fun r => Onward s r.2 ∧
    ∀ v, r.1 = some v → 0 < v.len ∧ StreamMeasure.Fed r.2 v.len) (memNext s count) := by
  rw [memNext]
  split
  · exact ⟨.refl h, fun v eq => by cases eq⟩
  · refine ⟨.refl h, fun v eq => ?_⟩
    cases eq
    simp only [MemStream.view, StreamMeasure.Fed]
    omega

theorem memConsume_fed {s : MemStream} (h : s.Good) (n m : Nat)
    (fed : StreamMeasure.Fed s (n + m)) : Ends (fun s' => Keeps s s' ∧
      StreamMeasure.left s' + n ≤ StreamMeasure.left s ∧ StreamMeasure.Fed s' m)
      (memConsume s n) := by
  have start := h.1
  refine Outcome.wp_mono (memConsume_ends h n
    (by simp only [StreamMeasure.Fed] at fed; omega)) fun t ht => ?_
  obtain ⟨keeps, pos, size⟩ := ht
  simp only [StreamMeasure.Fed, StreamMeasure.left] at *
  exact ⟨keeps, by omega, by omega⟩

instance : LawfulStream MemStream where
  base_withBase _ _ := rfl
  good_withBase _ _ h := h
  left_withBase _ _ := rfl
  bound_withBase _ _ := rfl
  fed_zero _ _ := .inl rfl
  fed_le _ _ := memFed_le
  fed_mono _ _ _ := memFed_mono
  next_ends _ count h := memNext_ends h count
  consume_ends _ n m h fed := memConsume_fed h n m fed
  readline_ends _ h := memReadline_ends h
  scan_ends _ tokens h some := memScan_ends h tokens some
  seek_ends _ offset whence h seekable := memSeek_ends h seekable offset whence
  fyParserSetInput_ends _ h := .refl h
  fyMoved_keeps _ _ h := .refl h

end LibAsdf
