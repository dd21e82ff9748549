import LibAsdf.Stream.File

/-!
# Positions of a file stream

Over any sequence of `next`, `consume`, `readline` and `seek`, `file_pos` is
the content offset of the next byte, and what is handed out is the content
from there, as long as no step refills an exhausted buffer for nothing or cuts
a line off.

* `fileOp_correct`: one step;
* `fileRun_correct`: every run;
* `file_position_lost`: a run without the condition.
-/

namespace LibAsdf

namespace FileStream

/-- The content from the position on. -/
def ahead (s : FileStream) : Bytes := s.file.content.drop s.filePos

/-- The stream's counters agree with the content and with the `FILE`. -/
structure Coherent (s : FileStream) : Prop where
  sound : s.Sound
  at_file : s.filePos + (s.bufAvail - s.bufPos) = s.file.pos
  remaining_eq : s.remaining = s.ahead

end FileStream

open FileStream

/-- The calls that move the position. -/
inductive FileOp where
  | next (count : Nat)
  | consume (count : Nat)
  | readline
  | seek (offset : Int) (whence : Whence)
  deriving Repr

def fileOp (op : FileOp) (s : FileStream) : Run (Option View × FileStream) :=
  match op with
  | .next count => fileNext s count
  | .consume count => do
    let s ← fileConsume s count
    return (none, s)
  | .readline => fileReadline s
  | .seek offset whence => return (none, (fileSeek s offset whence).2)

/-- Only what is available is consumed. -/
def FileOp.Allowed (s : FileStream) : FileOp → Prop
  | .consume count => count ≤ s.bufAvail - s.bufPos
  | _ => True

instance (s : FileStream) : (op : FileOp) → Decidable (op.Allowed s)
  | .consume count => inferInstanceAs (Decidable (count ≤ s.bufAvail - s.bufPos))
  | .next _ | .readline | .seek _ _ => .isTrue trivial

/-- What a call leaves and hands out when it does right. -/
def FileOp.Correct (s : FileStream) (op : FileOp) (r : Option View × FileStream) : Prop :=
  r.2.Coherent ∧ r.2.file.content = s.file.content ∧
    match op with
    | .next count => r.2.filePos = s.filePos ∧ ∃ bytes, Shown r.1 bytes ∧ bytes <+: s.ahead ∧
        (count ≤ bytes.length ∨ bytes = s.ahead ∨ offMax < count)
    | .consume count => r.2.filePos = s.filePos + count
    | .readline => r.2.filePos = s.filePos + lineLength s.ahead ∧
        ∃ bytes, Shown r.1 bytes ∧ bytes <+: s.ahead.take (lineLength s.ahead)
    | .seek _ _ => True

/-- The call asks for bytes, or the buffer has some, or is empty from its
start on, or the file has none. -/
def NextOk (s : FileStream) (count : Nat) : Prop :=
  count ≠ 0 ∨ s.bufPos < s.bufAvail ∨ s.bufPos = 0 ∨ s.file.rest = []

/-- How many bytes a `readline` looks at. -/
def lineRoom (s : FileStream) : Nat :=
  if s.bufPos < s.bufAvail then s.bufAvail - s.bufPos else min s.buf.length s.file.rest.length

/-- The condition on the stream before a call. -/
def FileOp.StepOk (s : FileStream) : FileOp → Prop
  | .next count => NextOk s count
  | .readline => NextOk s 0 ∧ lineLength s.remaining ≤ lineRoom s
  | _ => True

variable {s : FileStream}

theorem shown_window (sound : s.Sound) : Shown s.shown s.window := by
  have width := sound.window_length
  rw [FileStream.shown, sizeSub_of_le sound.pos_le]
  split
  · exact ⟨width.symm, rfl⟩
  · exact List.length_eq_zero_iff.mp (by omega)

/-- Handing out bytes of the file in order keeps the counters right. -/
theorem coherent_of_remaining {s' : FileStream} (h : s.Coherent) (sound : s'.Sound)
    (same : s'.remaining = s.remaining) (filePos : s'.filePos = s.filePos)
    (content : s'.file.content = s.file.content)
    (at_file : s'.filePos + (s'.bufAvail - s'.bufPos) = s'.file.pos) : s'.Coherent :=
  ⟨sound, at_file, by rw [same, h.remaining_eq, ahead, ahead, filePos, content]⟩

/-- A window that has moved to the front, with what was read behind it. -/
theorem shifted_remaining {s' : FileStream} (sound : s.Sound) {count : Nat}
    (size : s'.buf.length = max s.buf.length count) (bufPos : s'.bufPos = 0)
    (avail : s'.bufAvail = s.bufAvail - s.bufPos +
      min (s'.buf.length - (s.bufAvail - s.bufPos)) s.file.rest.length)
    (bytes : s'.buf.take s'.bufAvail = s.remaining.take s'.buf.length)
    (file : s'.file = (s.file.fread (s'.buf.length - (s.bufAvail - s.bufPos))).2) :
    s'.Sound ∧ s'.window = s.remaining.take s'.buf.length ∧ s'.remaining = s.remaining := by
  have lower := sound.pos_le
  have upper := sound.avail_le
  have width := sound.window_length
  have window : s'.window = s.remaining.take s'.buf.length := by
    rw [← bytes, FileStream.window, bufPos, List.drop_zero, Nat.sub_zero]
  have inside : s.window.length ≤ s'.buf.length := by omega
  have rest : s'.file.rest = s.remaining.drop s'.buf.length := by
    rw [file, FileHandle.fread_rest, FileStream.remaining, List.drop_append,
      List.drop_eq_nil_of_le inside, List.nil_append, width]
  refine ⟨⟨by omega, by omega⟩, window, ?_⟩
  rw [FileStream.remaining, window, rest, List.take_append_drop]

/-- The stream after `next`: the same bytes to come, some of them in view. -/
def NextCorrect (s : FileStream) (count : Nat) (r : Option View × FileStream) : Prop :=
  r.2.Coherent ∧ r.2.file.content = s.file.content ∧ r.2.filePos = s.filePos ∧
    r.2.remaining = s.remaining ∧
    (Shown r.1 r.2.window ∧ (count ≤ r.2.window.length ∨ r.2.window = s.remaining) ∧
        (count = 0 → r.2.window.length = lineRoom s) ∨
      offMax < count ∧ r.1 = none)

theorem fileNext_correct (h : s.Coherent) {count : Nat} (ok : NextOk s count) :
    Outcome.wp (fun _ => False) False (NextCorrect s count) (fileNext s count) := by
  have sound := h.sound
  have lower := sound.pos_le
  have upper := sound.avail_le
  have width := sound.window_length
  have pos := h.at_file
  have total : s.remaining.length = s.window.length + s.file.rest.length := List.length_append
  cases run : fileNext s count with
  | fault e =>
    have spec := fileNext_spec lower count
    rw [run] at spec
    exact spec.2 sound
  | timeout =>
    have spec := fileNext_spec lower count
    rw [run] at spec
    exact spec
  | ret r =>
    obtain ⟨v, s'⟩ := r
    have spec := fileNext_spec lower count
    rw [run] at spec
    rcases spec with ⟨base, filePos, shown, next⟩ | ⟨large, -, refused⟩
    · change NextTo s count s' at next
      simp only at shown filePos
      cases next with
      | kept enough left _ _ _ _ same =>
        cases (same sound).symm
        have room : lineRoom s = s.bufAvail - s.bufPos := if_pos left
        have held : count ≤ s.window.length := by omega
        exact ⟨h, rfl, rfl, rfl,
          .inl ⟨shown ▸ shown_window sound, .inl held, fun _ => width.trans room.symm⟩⟩
      | shifted short size bufPos avail bytes file =>
        obtain ⟨sound', window, same⟩ :=
          shifted_remaining sound size bufPos avail (bytes sound) file
        have content : s'.file.content = s.file.content := by rw [file]; rfl
        have at_file : s'.file.pos = s.file.pos +
            min (s'.buf.length - (s.bufAvail - s.bufPos)) s.file.rest.length := by
          rw [file, FileHandle.fread_pos, FileHandle.fread_length]
        have pos' : s'.filePos + (s'.bufAvail - s'.bufPos) = s'.file.pos := by omega
        refine ⟨coherent_of_remaining h sound' same filePos content pos', content, filePos,
          same, .inl ⟨shown ▸ shown_window sound', ?_, fun _ => by omega⟩⟩
        rcases Nat.le_total s.remaining.length s'.buf.length with le | le
        · exact .inr (by rw [window, List.take_of_length_le le])
        · refine .inl ?_
          simp only [window, List.length_take]
          omega
      | filled none exhausted size bufPos avail bytes file =>
        have front : s.bufPos = 0 ∨ s.file.rest = [] := by
          rcases ok with h | h | h | h
          · exact absurd none h
          · omega
          · exact .inl h
          · exact .inr h
        have empty : s.window = [] := List.length_eq_zero_iff.mp (by omega)
        have content : s'.file.content = s.file.content := by rw [file]; rfl
        have at_file : s'.file.pos = s.file.pos + min s.buf.length s.file.rest.length := by
          rw [file, FileHandle.fread_pos, FileHandle.fread_length]
        have short : s.file.rest = [] → s.file.rest.length = 0 := fun h => by rw [h]; rfl
        have sound' : s'.Sound := by
          refine ⟨by omega, ?_⟩
          rcases front with h | h
          · omega
          · have := short h
            omega
        have window : s'.window = s.file.rest.take s.buf.length := by
          rcases front with h | h
          · rw [← bytes, FileStream.window, bufPos, h, List.drop_zero, avail]
            congr 1
            omega
          · have := short h
            rw [h, List.take_nil]
            exact List.length_eq_zero_iff.mp (by rw [sound'.window_length]; omega)
        have same : s'.remaining = s.remaining := by
          rw [FileStream.remaining, window, file, FileHandle.fread_rest, List.take_append_drop,
            FileStream.remaining, empty, List.nil_append]
        have room : lineRoom s = min s.buf.length s.file.rest.length := if_neg (by omega)
        have pos' : s'.filePos + (s'.bufAvail - s'.bufPos) = s'.file.pos := by omega
        refine ⟨coherent_of_remaining h sound' same filePos content pos', content, filePos,
          same, .inl ⟨shown ▸ shown_window sound', .inl (by omega), fun _ => ?_⟩⟩
        rw [room]
        simp only [window, List.length_take]
    · cases refused
      exact ⟨⟨⟨lower, upper⟩, pos, h.remaining_eq⟩, rfl, rfl, rfl, .inr ⟨large, rfl⟩⟩

/-- Consuming what the window has keeps the counters right. -/
theorem fileConsume_correct (h : s.Coherent) (count : Nat) (le : count ≤ s.bufAvail - s.bufPos) :
    ∃ s', fileConsume s count = .ret s' ∧ s'.Coherent ∧ s'.file = s.file ∧
      s'.filePos = s.filePos + count ∧ s'.remaining = s.remaining.drop count ∧
      s'.bufAvail - s'.bufPos = s.bufAvail - s.bufPos - count := by
  have lower := h.sound.pos_le
  have width := h.sound.window_length
  have pos := h.at_file
  obtain ⟨base, -, -, consumed⟩ := fileConsume_sound h.sound count le
  have rest : { s with toStreamBase := base, bufPos := s.bufPos + count,
                       filePos := s.filePos + count : FileStream }.remaining =
      s.remaining.drop count := by
    rw [remaining, window_consumed, remaining, List.drop_append_of_le_length (by omega)]
  refine ⟨_, consumed, ⟨⟨?_, h.sound.avail_le⟩, ?_, ?_⟩, rfl, rfl, rest, ?_⟩
  · simp only
    omega
  · simp only
    omega
  · rw [rest, h.remaining_eq, ahead, ahead, List.drop_drop]
  · simp only
    omega

theorem lineLength_eq_zero {bytes : Bytes} (h : lineLength bytes = 0) : bytes = [] := by
  cases bytes with
  | nil => rfl
  | cons b bytes =>
    rw [lineLength] at h
    split at h <;> omega

theorem fileReadline_correct (h : s.Coherent) (ok : FileOp.StepOk s .readline) :
    Outcome.wp (fun _ => False) False (FileOp.Correct s .readline) (fileReadline s) := by
  obtain ⟨next, room⟩ := ok
  refine Outcome.wp_seq (fileNext_correct h next) fun r hr => ?_
  obtain ⟨v, s'⟩ := r
  obtain ⟨coherent, content, filePos, same, ⟨shown, -, look⟩ | ⟨absurd', -⟩⟩ := hr
  · simp only at shown filePos same content look coherent
    have look := look trivial
    have line : lineLength s.ahead ≤ s'.window.length := by rw [← h.remaining_eq]; omega
    have begins : s'.window <+: s.ahead := by
      rw [← h.remaining_eq, ← same]
      exact List.prefix_append _ _
    cases v with
    | none =>
      have empty : s'.window = [] := shown
      rw [empty] at line
      have none := lineLength_eq_zero (Nat.le_zero.mp line)
      refine ⟨coherent, content, ?_, [], rfl, List.nil_prefix⟩
      rw [none, lineLength]
      exact filePos
    | some v =>
      have shows : v.Shows s'.window := shown
      have width := coherent.sound.window_length
      simp only [shows.findNewline, Outcome.ret_bind]
      have split : s.ahead = s'.window ++ s'.file.rest := by
        rw [← h.remaining_eq, ← same, remaining]
      cases found : newlineIndex s'.window with
      | some idx =>
        have lt := (lineLength_of_some found).2
        have len : lineLength s.ahead = idx + 1 := by
          rw [split, lineLength_append_of_some found]
        obtain ⟨s'', consumed, coherent', file, filePos', -, -⟩ :=
          fileConsume_correct coherent (idx + 1) (by omega)
        simp only [consumed, Outcome.ret_bind]
        refine ⟨coherent', by rw [file, content], by rw [filePos', len, filePos],
          s.ahead.take (idx + 1), ⟨?_, ?_⟩, len ▸ List.prefix_refl _⟩
        · rw [split, List.length_take, List.length_append, Nat.min_eq_left (by omega)]
        · rw [split, List.take_append_of_le_length (by omega), ← shows.2, List.take_take,
            shows.1, Nat.min_eq_left (by omega)]
      | none =>
        have len : lineLength s.ahead = s'.window.length + lineLength s'.file.rest := by
          rw [split, lineLength_of_none found]
        have ends := lineLength_eq_zero (show lineLength s'.file.rest = 0 by omega)
        obtain ⟨s'', consumed, coherent', file, filePos', -, -⟩ :=
          fileConsume_correct coherent v.len (by rw [shows.1]; omega)
        simp only [consumed, Outcome.ret_bind]
        have still : { s'' with file := s''.file.discardLine : FileStream } = s'' := by
          rw [FileHandle.discardLine, file, ends, lineLength, Nat.add_zero, ← file]
        rw [still]
        have whole : s.ahead.take (lineLength s.ahead) = s'.window := by
          rw [len, ends, lineLength, Nat.add_zero, split, List.take_left]
        refine ⟨coherent', by rw [file, content], ?_, s'.window, shows,
          whole ▸ List.prefix_refl _⟩
        rw [filePos', shows.1, len, ends, lineLength, filePos, Nat.add_zero]
  · exact absurd absurd' (by decide)

theorem seekFile_coherent (h : s.Coherent) (offset : Int) (whence : Whence) :
    (s.seekFile offset whence).2.Coherent ∧
      (s.seekFile offset whence).2.file.content = s.file.content := by
  rw [FileStream.seekFile]
  cases sought : s.file.fseeko offset whence with
  | none => exact ⟨h, rfl⟩
  | some file =>
    have content := (FileHandle.fseeko_eq_some sought).1
    refine ⟨⟨⟨Nat.le_refl _, Nat.zero_le _⟩, rfl, ?_⟩, content⟩
    simp only [remaining, window, Nat.sub_self, List.take_zero, List.nil_append, ahead]
    rfl

theorem fileSeek_coherent (h : s.Coherent) (offset : Int) (whence : Whence) :
    (fileSeek s offset whence).2.Coherent ∧
      (fileSeek s offset whence).2.file.content = s.file.content := by
  cases whence with
  | set => exact seekFile_coherent h _ _
  | «end» => exact seekFile_coherent h _ _
  | cur =>
    simp only [fileSeek]
    split
    · exact ⟨h, rfl⟩
    · exact seekFile_coherent h _ _

/-- One step: a call under its condition does right. -/
theorem fileOp_correct (h : s.Coherent) {op : FileOp} (allowed : op.Allowed s) (ok : op.StepOk s) :
    Outcome.wp (fun _ => False) False (op.Correct s) (fileOp op s) := by
  cases op with
  | next count =>
    refine Outcome.wp_mono (fileNext_correct h ok) fun r hr => ?_
    obtain ⟨coherent, content, filePos, same, shown | ⟨large, null⟩⟩ := hr
    · obtain ⟨shown, enough, -⟩ := shown
      refine ⟨coherent, content, filePos, r.2.window, shown, ?_, ?_⟩
      · rw [← h.remaining_eq, ← same]
        exact List.prefix_append _ _
      · rw [← h.remaining_eq]
        exact enough.imp_right .inl
    · refine ⟨coherent, content, filePos, [], ?_, List.nil_prefix, .inr (.inr large)⟩
      rw [null]
      rfl
  | consume count =>
    obtain ⟨s', consumed, coherent, file, filePos, -, -⟩ := fileConsume_correct h count allowed
    rw [fileOp, consumed]
    exact ⟨coherent, by rw [file], filePos⟩
  | readline => exact fileReadline_correct h ok
  | seek offset whence =>
    obtain ⟨coherent, content⟩ := fileSeek_coherent h offset whence
    exact ⟨coherent, content, trivial⟩

/-! ## Runs -/

/-- The streams that calls reach from a fresh one, each call meeting `ok`. -/
inductive FileRun (ok : FileStream → FileOp → Prop) (content buf : Bytes)
    (isSeekable isWriteable : Bool) : FileStream → Prop
  | start : FileRun ok content buf isSeekable isWriteable
      (streamFromFp content buf isSeekable isWriteable)
  | step {s s' : FileStream} {v : Option View} (op : FileOp) :
      FileRun ok content buf isSeekable isWriteable s → op.Allowed s → ok s op →
      fileOp op s = .ret (v, s') → FileRun ok content buf isSeekable isWriteable s'

variable {content buf : Bytes} {isSeekable isWriteable : Bool}

theorem coherent_streamFromFp : (streamFromFp content buf isSeekable isWriteable).Coherent :=
  ⟨sound_streamFromFp _ _ _ _, rfl, rfl⟩

/-- In every run whose calls meet their condition: the counters are right in
every state reached, and every call made there under its condition returns and
hands out the content from the position on. -/
theorem fileRun_correct (run : FileRun (fun s op => op.StepOk s) content buf isSeekable
      isWriteable s) :
    s.Coherent ∧ s.file.content = content ∧ ∀ op : FileOp, op.Allowed s → op.StepOk s →
      ∃ r, fileOp op s = .ret r ∧ op.Correct s r := by
  have kept : s.Coherent ∧ s.file.content = content := by
    induction run with
    | start => exact ⟨coherent_streamFromFp, rfl⟩
    | step op _ allowed ok result ih =>
      have correct := Outcome.wp_of_ret (fileOp_correct ih.1 allowed ok) result
      exact ⟨correct.1, correct.2.1.trans ih.2⟩
  refine ⟨kept.1, kept.2, fun op allowed ok => ?_⟩
  have correct := fileOp_correct kept.1 allowed ok
  cases result : fileOp op s with
  | ret r => exact ⟨r, rfl, Outcome.wp_of_ret correct result⟩
  | fault e => rw [result] at correct; exact correct.elim
  | timeout => rw [result] at correct; exact correct.elim

theorem fileRun_correct_consumed :
    ∃ s, (do
        let (_, s) ← fileNext (streamFromFp [1, 2, 3] [0, 0] true false) 1
        fileConsume s 1) = .ret s ∧ s.filePos = 1 ∧ s.Coherent :=
  ⟨_, rfl, rfl, (fileRun_correct
    (show FileRun (fun s op => op.StepOk s) [1, 2, 3] [0, 0] true false _ from
      .step (.consume 1)
        (.step (.next 1) .start trivial (.inl (by decide)) rfl) (by decide) trivial rfl)).1⟩

/-- A call for no bytes on an exhausted buffer makes `buf_avail` exceed the
buffer; a line longer than the buffer leaves `file_pos` inside the line. -/
theorem file_position_lost :
    (∃ s, FileRun (fun _ _ => True) [1, 2, 3, 4] [0, 0] true false s ∧
      s.buf.length < s.bufAvail ∧ ¬ s.Coherent) ∧
    (∃ s, FileRun (fun _ _ => True) [97, 98, 99, newline, 100] [0, 0] true false s ∧
      s.filePos = 2 ∧ s.remaining = [100] ∧ ¬ s.Coherent) := by
  constructor
  · refine ⟨_, .step (.next 0) (.step (.consume 2) (.step (.next 1) .start trivial trivial rfl)
      (by decide) trivial rfl) trivial trivial rfl, by decide, fun h => ?_⟩
    exact absurd h.sound.avail_le (by decide)
  · refine ⟨_, .step .readline .start trivial trivial rfl, rfl, rfl, fun h => ?_⟩
    exact absurd h.at_file (by decide)

end LibAsdf
