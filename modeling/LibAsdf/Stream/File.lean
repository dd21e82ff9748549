import LibAsdf.Stream.Basic

/-!
# File streams

The buffered reader over a `FILE`. The buffer is kept with the stale bytes
after `bufAvail`, so its length is `buf_size`. `malloc` succeeds; `realloc`
refuses only requests larger than `PTRDIFF_MAX`.
-/

namespace LibAsdf

/-! ## The `FILE` -/

structure FileHandle where
  content : Bytes
  pos : Nat
  deriving DecidableEq, Repr

namespace FileHandle

def rest (f : FileHandle) : Bytes := f.content.drop f.pos

def fread (f : FileHandle) (n : Nat) : Bytes × FileHandle :=
  (f.rest.take n, { f with pos := f.pos + (f.rest.take n).length })

/-- `fgetc` until a newline or the end. -/
def discardLine (f : FileHandle) : FileHandle :=
  { f with pos := f.pos + lineLength f.rest }

/-- The offset from the start that a `fseeko` names. -/
def target (f : FileHandle) (offset : Int) : Whence → Int
  | .set => offset
  | .cur => f.pos + offset
  | .end => f.content.length + offset

/-- `fseeko`, with `none` where it fails. -/
def fseeko (f : FileHandle) (offset : Int) (whence : Whence) : Option FileHandle :=
  if 0 ≤ f.target offset whence ∧ f.target offset whence ≤ offMax then
    some { f with pos := (f.target offset whence).toNat }
  else none

end FileHandle

/-! ## The stream -/

structure FileStream extends StreamBase where
  file : FileHandle
  buf : Bytes
  bufAvail : Nat
  bufPos : Nat
  filePos : Nat
  deriving DecidableEq, Repr

/-- `asdf_stream_from_fp` on a fresh `FILE`, with the bytes that `malloc` left
in the buffer. -/
def streamFromFp (content buf : Bytes) (isSeekable isWriteable : Bool) : FileStream where
  isSeekable := isSeekable
  isWriteable := isWriteable
  capture := none
  error := none
  file := ⟨content, 0⟩
  buf := buf
  bufAvail := 0
  bufPos := 0
  filePos := 0

namespace FileStream

/-- `realloc` of the buffer; the new bytes are indeterminate, zero here. -/
def resize (s : FileStream) (count : Nat) : FileStream :=
  { s with buf := s.buf ++ List.replicate (count - s.buf.length) 0 }

/-- Move the `bufRemain` bytes from `bufPos` to the start of the buffer. -/
def shift (s : FileStream) (bufRemain : Nat) : Run FileStream := do
  let remaining ← load s.buf s.bufPos bufRemain
  let buf ← store s.buf 0 remaining
  return { s with buf := buf, bufAvail := bufRemain, bufPos := 0 }

/-- Fill the buffer from offset `bufRemain` to its end. -/
def fill (s : FileStream) (bufRemain : Nat) : Run FileStream := do
  let (bytes, file) := s.file.fread (sizeSub s.buf.length bufRemain)
  let buf ← store s.buf bufRemain bytes
  return { s with buf := buf, file := file, bufAvail := s.bufAvail + bytes.length }

/-- What `file_next` hands out from the state it ends in. -/
def shown (s : FileStream) : Option View :=
  let bufRemain := sizeSub s.bufAvail s.bufPos
  if bufRemain > 0 then some ⟨s.buf.drop s.bufPos, bufRemain⟩ else none

end FileStream

def fileNext (s : FileStream) (count : Nat) : Run (Option View × FileStream) :=
  let bufRemain := sizeSub s.bufAvail s.bufPos
  if count > s.buf.length ∧ count > offMax then
    return (none, { s with toStreamBase := s.toStreamBase.setError .outOfMemory })
  else do
    let s := if count > s.buf.length then s.resize count else s
    let s ← if bufRemain < count then s.shift bufRemain else pure s
    let s ← if bufRemain < count ∨ s.bufPos ≥ s.bufAvail then s.fill bufRemain else pure s
    return (s.shown, s)

def fileConsume (s : FileStream) (count : Nat) : Run FileStream := do
  let base ← s.toStreamBase.streamCapture s.buf s.bufPos count
  return { s with
    toStreamBase := base
    bufPos := min (s.bufPos + count) s.bufAvail
    filePos := s.filePos + count }

def fileReadline (s : FileStream) : Run (Option View × FileStream) := do
  match ← fileNext s 0 with
  | (none, s) => return (none, s)
  | (some v, s) =>
    match ← v.findNewline with
    | some idx =>
      let s ← fileConsume s (idx + 1)
      return (some { v with len := idx + 1 }, s)
    | none =>
      -- The line ends past the buffer, or with the file
      let s ← fileConsume s v.len
      return (some v, { s with file := s.file.discardLine })

/-- The refill of `file_scan`: the last `preserve` bytes move to the front. -/
def fileScanRefill (s : FileStream) (preserve : Nat) : Run FileStream := do
  let base ← s.toStreamBase.streamCapture s.buf 0 (sizeSub s.bufAvail preserve)
  let tail ← load s.buf (sizeSub s.bufAvail preserve) preserve
  let buf ← store s.buf 0 tail
  let (bytes, file) := s.file.fread (sizeSub s.buf.length preserve)
  let buf ← store buf preserve bytes
  return { s with
    toStreamBase := base
    buf := buf
    file := file
    filePos := s.filePos + sizeSub s.bufAvail preserve
    bufAvail := preserve + bytes.length }

/-- The look at the buffer that a round of `file_scan` begins with. -/
def fileScanLook (tokens : List Bytes) (s : FileStream) : Run (Option (Nat × Nat)) :=
  let avail := sizeSub s.bufAvail s.bufPos
  if avail ≥ maxTokenLen tokens then (View.mk (s.buf.drop s.bufPos) avail).scanTokens tokens
  else return none

/-- One round of the loop of `file_scan`. -/
def fileScanRound (tokens : List Bytes) (s : FileStream) :
    Run (FileStream ⊕ (Option (Nat × Nat) × FileStream)) := do
  let maxLen := maxTokenLen tokens
  let avail := sizeSub s.bufAvail s.bufPos
  match ← fileScanLook tokens s with
  | some (offset, tokenIdx) =>
    let s' ← fileConsume s offset
    return .inr (some (s.filePos + offset, tokenIdx), s')
  | none =>
    let preserve := if avail < maxLen - 1 then avail else maxLen - 1
    let s ← fileScanRefill s preserve
    if s.bufAvail < maxLen then
      return .inr (none, { s with bufPos := s.bufAvail })
    return .inl { s with bufPos := 0 }

/-- `file_scan`; the result pairs the absolute offset with the token's number.
A round that goes on has read a byte. -/
def fileScan (s : FileStream) (tokens : List Bytes) : Run (Option (Nat × Nat) × FileStream) :=
  if maxTokenLen tokens = 0 then return (none, s)
  else Outcome.loop (fileScanRound tokens) (s.file.rest.length + 2) s

/-- `fseeko`, and the reset of the buffer after it. -/
def FileStream.seekFile (s : FileStream) (offset : Int) (whence : Whence) : Bool × FileStream :=
  match s.file.fseeko offset whence with
  | none => (false, s)
  | some file => (true, { s with file := file, bufAvail := 0, bufPos := 0, filePos := file.pos })

def fileSeek (s : FileStream) (offset : Int) (whence : Whence) : Bool × FileStream :=
  match whence with
  | .cur =>
    let target := sizeAdd s.filePos offset
    if target > offMax then (false, s) else s.seekFile target .set
  | .set => s.seekFile offset .set
  | .end => s.seekFile offset .end

def fileTell (s : FileStream) : Int := if s.filePos > offMax then -1 else s.filePos

instance : StreamOps FileStream where
  base s := s.toStreamBase
  withBase s b := { s with toStreamBase := b }
  next := fileNext
  consume := fileConsume
  readline := fileReadline
  scan := fileScan
  seek s offset whence := .ret (fileSeek s offset whence)
  tell := fileTell

/-! ## What the stream has left -/

namespace FileStream

/-- The bytes between `bufPos` and `bufAvail`. -/
def window (s : FileStream) : Bytes := (s.buf.drop s.bufPos).take (s.bufAvail - s.bufPos)

/-- The bytes that are still to come: the window, then the rest of the file. -/
def remaining (s : FileStream) : Bytes := s.window ++ s.file.rest

structure Sound (s : FileStream) : Prop where
  pos_le : s.bufPos ≤ s.bufAvail
  avail_le : s.bufAvail ≤ s.buf.length

theorem Sound.window_length {s : FileStream} (h : s.Sound) :
    s.window.length = s.bufAvail - s.bufPos := by
  have := h.pos_le
  have := h.avail_le
  rw [window, List.length_take, List.length_drop]
  omega

theorem sound_streamFromFp (content buf : Bytes) (isSeekable isWriteable : Bool) :
    (streamFromFp content buf isSeekable isWriteable).Sound :=
  ⟨Nat.le_refl _, Nat.zero_le _⟩

end FileStream

@[simp] theorem FileHandle.fread_content (f : FileHandle) (n : Nat) :
    (f.fread n).2.content = f.content := rfl

theorem FileHandle.fread_bytes (f : FileHandle) (n : Nat) : (f.fread n).1 = f.rest.take n := rfl

theorem FileHandle.fread_rest (f : FileHandle) (n : Nat) :
    (f.fread n).2.rest = f.rest.drop n := by
  simp only [fread, rest]
  rw [← List.drop_drop, List.length_take]
  rcases Nat.le_total n (f.content.drop f.pos).length with h | h
  · rw [Nat.min_eq_left h]
  · rw [Nat.min_eq_right h, List.drop_length, List.drop_eq_nil_of_le h]

theorem FileHandle.fread_length (f : FileHandle) (n : Nat) :
    (f.fread n).1.length = min n f.rest.length := List.length_take

theorem FileHandle.fseeko_eq_some {f f' : FileHandle} {offset : Int} {whence : Whence}
    (h : f.fseeko offset whence = some f') :
    f'.content = f.content ∧ (f'.pos : Int) = f.target offset whence ∧ f'.pos ≤ offMax := by
  unfold fseeko at h
  split at h
  · cases h
    exact ⟨rfl, by simp only; omega, by simp only; omega⟩
  · cases h

theorem FileHandle.fread_pos (f : FileHandle) (n : Nat) :
    (f.fread n).2.pos = f.pos + (f.fread n).1.length := rfl

/-! ## What each operation does on a sound stream -/

theorem fileConsume_sound {s : FileStream} (sound : s.Sound) (count : Nat)
    (le : count ≤ s.bufAvail - s.bufPos) :
    ∃ base : StreamBase, base.error = s.error ∧ base.isSeekable = s.isSeekable ∧
      fileConsume s count = .ret { s with
        toStreamBase := base
        bufPos := s.bufPos + count
        filePos := s.filePos + count } := by
  have lower := sound.pos_le
  have upper := sound.avail_le
  obtain ⟨base, hb⟩ := s.toStreamBase.streamCapture_of_le s.buf s.bufPos count
    (by omega)
  obtain ⟨hs, -, he, -⟩ := StreamBase.streamCapture_frame hb
  refine ⟨base, he, hs, ?_⟩
  rw [fileConsume, hb]
  have hmin : min (s.bufPos + count) s.bufAvail = s.bufPos + count := by omega
  simp only [Outcome.ret_bind, Outcome.pure_eq, hmin]

theorem FileStream.window_consumed (s : FileStream) (base : StreamBase) (count : Nat) :
    { s with toStreamBase := base, bufPos := s.bufPos + count,
             filePos := s.filePos + count : FileStream }.window = s.window.drop count := by
  simp only [window, List.drop_take, List.drop_drop, Nat.sub_sub]

theorem FileStream.take_window {s : FileStream} (sound : s.Sound) {n : Nat}
    (h : n ≤ s.bufAvail - s.bufPos) :
    (s.buf.drop (s.bufAvail - n)).take n = s.window.drop (s.bufAvail - s.bufPos - n) := by
  have lower := sound.pos_le
  rw [window, List.drop_take, List.drop_drop]
  congr 1
  · omega
  · congr 1
    omega

/-- The refill of a scan keeps the last `preserve` bytes of the window and
reads on behind them. -/
theorem fileScanRefill_sound {s : FileStream} (sound : s.Sound) (preserve : Nat)
    (le : preserve ≤ s.bufAvail - s.bufPos) :
    ∃ (base : StreamBase) (buf : Bytes), base.error = s.error ∧ base.isSeekable = s.isSeekable ∧
      buf.length = s.buf.length ∧
      buf.take (preserve + (s.file.fread (s.buf.length - preserve)).1.length) =
        s.window.drop (s.bufAvail - s.bufPos - preserve) ++
          (s.file.fread (s.buf.length - preserve)).1 ∧
      fileScanRefill s preserve = .ret { s with
        toStreamBase := base
        buf := buf
        file := (s.file.fread (s.buf.length - preserve)).2
        filePos := s.filePos + (s.bufAvail - preserve)
        bufAvail := preserve + (s.file.fread (s.buf.length - preserve)).1.length } := by
  have lower := sound.pos_le
  have upper := sound.avail_le
  have fits := s.file.fread_length (s.buf.length - preserve)
  obtain ⟨base, hb⟩ := s.toStreamBase.streamCapture_of_le s.buf 0 (s.bufAvail - preserve)
    (by omega)
  obtain ⟨hs, -, he, -⟩ := StreamBase.streamCapture_frame hb
  have tail := FileStream.take_window sound le
  have tailLen : ((s.buf.drop (s.bufAvail - preserve)).take preserve).length = preserve := by
    rw [List.length_take, List.length_drop]
    omega
  obtain ⟨moved, hm, movedLen, kept⟩ := store_of_le s.buf 0
    ((s.buf.drop (s.bufAvail - preserve)).take preserve) (by omega)
  obtain ⟨read, hr, readLen, window⟩ := store_of_le moved preserve
    (s.file.fread (s.buf.length - preserve)).1 (by rw [movedLen, fits]; omega)
  rw [Nat.zero_add, tailLen, List.take_zero, List.nil_append] at kept
  refine ⟨base, read, he, hs, readLen.trans movedLen, ?_, ?_⟩
  · rw [window, kept, tail]
  · simp only [fileScanRefill, sizeSub_of_le (show preserve ≤ s.bufAvail by omega),
      sizeSub_of_le (show preserve ≤ s.buf.length by omega), hb, Outcome.ret_bind,
      load_of_le (show s.bufAvail - preserve + preserve ≤ s.buf.length by omega), hm, hr,
      Outcome.pure_eq]

/-- What `file_next` does with the buffer: nothing, where it holds enough;
else it moves the window to the front and reads on behind it, but a call that
asks for no bytes, on an exhausted buffer, reads to the front and adds the
count to `buf_avail`. -/
inductive NextTo (s : FileStream) (count : Nat) (s' : FileStream) : Prop where
  | kept (enough : count ≤ s.bufAvail - s.bufPos) (left : s.bufPos < s.bufAvail)
      (bufPos : s'.bufPos = s.bufPos) (avail : s'.bufAvail = s.bufAvail) (file : s'.file = s.file)
      (size : s.buf.length ≤ s'.buf.length) (same : s.Sound → s' = s)
  | shifted (short : s.bufAvail - s.bufPos < count)
      (size : s'.buf.length = max s.buf.length count) (bufPos : s'.bufPos = 0)
      (avail : s'.bufAvail = s.bufAvail - s.bufPos +
        min (s'.buf.length - (s.bufAvail - s.bufPos)) s.file.rest.length)
      (bytes : s.Sound → s'.buf.take s'.bufAvail = s.remaining.take s'.buf.length)
      (file : s'.file = (s.file.fread (s'.buf.length - (s.bufAvail - s.bufPos))).2)
  | filled (none : count = 0) (exhausted : s.bufPos = s.bufAvail)
      (size : s'.buf.length = s.buf.length) (bufPos : s'.bufPos = s.bufPos)
      (avail : s'.bufAvail = s.bufAvail + min s.buf.length s.file.rest.length)
      (bytes : s'.buf.take (min s.buf.length s.file.rest.length) = s.file.rest.take s.buf.length)
      (file : s'.file = (s.file.fread s.buf.length).2)

theorem resize_buf (s : FileStream) {count : Nat} (h : s.buf.length < count) :
    (s.resize count).buf.length = count ∧
      (s.resize count).buf.take s.buf.length = s.buf := by
  constructor
  · simp only [FileStream.resize, List.length_append, List.length_replicate]
    omega
  · simp only [FileStream.resize, List.take_left]

/-- Moving the window to the front and reading on behind it. -/
theorem shift_fill {s : FileStream} (le : s.bufPos ≤ s.bufAvail)
    (upper : s.bufAvail ≤ s.buf.length) :
    ∃ s₁ s', s.shift (s.bufAvail - s.bufPos) = .ret s₁ ∧
      s₁.fill (s.bufAvail - s.bufPos) = .ret s' ∧
      s'.toStreamBase = s.toStreamBase ∧ s'.filePos = s.filePos ∧
      s'.buf.length = s.buf.length ∧ s'.bufPos = 0 ∧
      s'.bufAvail = s.bufAvail - s.bufPos +
        min (s.buf.length - (s.bufAvail - s.bufPos)) s.file.rest.length ∧
      s'.buf.take s'.bufAvail = s.remaining.take s.buf.length ∧
      s'.file = (s.file.fread (s.buf.length - (s.bufAvail - s.bufPos))).2 := by
  have width := FileStream.Sound.window_length ⟨le, upper⟩
  have fits := s.file.fread_length (s.buf.length - (s.bufAvail - s.bufPos))
  obtain ⟨moved, hm, movedLen, kept⟩ := store_of_le s.buf 0 s.window (by omega)
  obtain ⟨read, hr, readLen, window⟩ := store_of_le moved (s.bufAvail - s.bufPos)
    (s.file.fread (s.buf.length - (s.bufAvail - s.bufPos))).1 (by rw [movedLen, fits]; omega)
  rw [Nat.zero_add, List.take_zero, List.nil_append, width] at kept
  refine ⟨{ s with buf := moved, bufAvail := s.bufAvail - s.bufPos, bufPos := 0 },
    { s with
      buf := read
      file := (s.file.fread (s.buf.length - (s.bufAvail - s.bufPos))).2
      bufAvail := s.bufAvail - s.bufPos +
        (s.file.fread (s.buf.length - (s.bufAvail - s.bufPos))).1.length
      bufPos := 0 }, ?_, ?_, rfl, rfl, readLen.trans movedLen, rfl, ?_, ?_, rfl⟩
  · rw [FileStream.shift, load_of_le (by omega), Outcome.ret_bind]
    change store s.buf 0 s.window >>= _ = _
    rw [hm]
    rfl
  · simp only [FileStream.fill, movedLen, sizeSub_of_le (show s.bufAvail - s.bufPos ≤
      s.buf.length by omega), hr, Outcome.ret_bind, Outcome.pure_eq]
  · simp only [fits]
  · simp only
    have inside : s.window.length ≤ s.buf.length := by omega
    rw [window, kept, FileStream.remaining, List.take_append, List.take_of_length_le inside, width]
    rfl

theorem fill_front {s : FileStream} : ∃ s', s.fill 0 = .ret s' ∧
    s'.toStreamBase = s.toStreamBase ∧ s'.filePos = s.filePos ∧
    s'.buf.length = s.buf.length ∧ s'.bufPos = s.bufPos ∧
    s'.bufAvail = s.bufAvail + min s.buf.length s.file.rest.length ∧
    s'.buf.take (min s.buf.length s.file.rest.length) = s.file.rest.take s.buf.length ∧
    s'.file = (s.file.fread s.buf.length).2 := by
  have fits := s.file.fread_length s.buf.length
  obtain ⟨read, hr, readLen, window⟩ := store_of_le s.buf 0
    (s.file.fread s.buf.length).1 (by rw [fits]; omega)
  rw [Nat.zero_add, List.take_zero, List.nil_append, fits] at window
  refine ⟨{ s with
    buf := read
    file := (s.file.fread s.buf.length).2
    bufAvail := s.bufAvail + (s.file.fread s.buf.length).1.length }, ?_, rfl, rfl, readLen, rfl,
    ?_, window, rfl⟩
  · simp only [FileStream.fill, sizeSub_of_le (Nat.zero_le _), Nat.sub_zero, hr, Outcome.ret_bind,
      Outcome.pure_eq]
  · simp only [fits]

/-- What `file_next` returns, from the state it ends in. Its only fault is a
move of bytes past the end of the buffer. -/
def Nexted (s : FileStream) (count : Nat) (r : Option View × FileStream) : Prop :=
  r.2.toStreamBase = s.toStreamBase ∧ r.2.filePos = s.filePos ∧ r.1 = r.2.shown ∧
      NextTo s count r.2 ∨
    offMax < count ∧ s.buf.length < count ∧
      r = (none, { s with toStreamBase := s.toStreamBase.setError .outOfMemory })

theorem fileNext_spec {s : FileStream} (le : s.bufPos ≤ s.bufAvail) (count : Nat) :
    Outcome.wp (fun e => e = .memory ∧ ¬ s.Sound) False (Nexted s count) (fileNext s count) := by
  by_cases refused : count > s.buf.length ∧ count > offMax
  · simp only [fileNext, if_pos refused]
    exact .inr ⟨refused.2, refused.1, rfl⟩
  simp only [fileNext, if_neg refused, sizeSub_of_le le]
  by_cases short : s.bufAvail - s.bufPos < count
  · -- The window moves to the front of the buffer, which may have grown
    generalize grown : (if count > s.buf.length then s.resize count else s) = s₀
    have same : s₀.toStreamBase = s.toStreamBase ∧ s₀.file = s.file ∧ s₀.filePos = s.filePos ∧
        s₀.bufAvail = s.bufAvail ∧ s₀.bufPos = s.bufPos ∧
        s₀.buf.length = max s.buf.length count ∧ s₀.buf.take s.buf.length = s.buf := by
      subst grown
      split
      · rename_i grows
        obtain ⟨size, prefix'⟩ := resize_buf s grows
        exact ⟨rfl, rfl, rfl, rfl, rfl, by omega, prefix'⟩
      · exact ⟨rfl, rfl, rfl, rfl, rfl, by omega, List.take_length⟩
    obtain ⟨base, file, filePos, avail, pos, size, bytes⟩ := same
    simp only [short, true_or, if_true]
    by_cases upper : s₀.bufAvail ≤ s₀.buf.length
    · obtain ⟨s₁, s', shift, fill, base', filePos', size', pos', avail', bytes', file'⟩ :=
        shift_fill (s := s₀) (by omega) upper
      rw [avail, pos] at shift fill
      rw [shift, Outcome.ret_bind, fill]
      refine .inl ⟨base'.trans base, filePos'.trans filePos, rfl,
        .shifted short (size'.trans size) pos' ?_ ?_ ?_⟩
      · rw [avail', size', avail, pos, file]
      · intro sound
        rw [bytes', size']
        congr 1
        simp only [FileStream.remaining, FileStream.window, avail, pos, file]
        congr 1
        rw [← bytes, List.drop_take, List.take_take]
        congr 1
        have := sound.avail_le
        omega
      · rw [file', size', avail, pos, file]
    · rw [FileStream.shift, load, if_neg (by omega)]
      refine ⟨rfl, fun sound => ?_⟩
      have := sound.avail_le
      omega
  · simp only [short, false_or]
    by_cases left : s.bufPos < s.bufAvail
    · have held : ¬ (if count > s.buf.length then s.resize count else s).bufPos ≥
          (if count > s.buf.length then s.resize count else s).bufAvail := by
        split <;> exact Nat.not_le_of_lt left
      simp only [Outcome.pure_eq, Outcome.ret_bind, if_neg held]
      generalize grown : (if count > s.buf.length then s.resize count else s) = s₀
      have same : s₀.toStreamBase = s.toStreamBase ∧ s₀.file = s.file ∧ s₀.filePos = s.filePos ∧
          s₀.bufAvail = s.bufAvail ∧ s₀.bufPos = s.bufPos ∧ s.buf.length ≤ s₀.buf.length ∧
          (s.Sound → s₀ = s) := by
        subst grown
        split
        · rename_i grows
          have size := (resize_buf s grows).1
          refine ⟨rfl, rfl, rfl, rfl, rfl, by omega, fun sound => ?_⟩
          have := sound.avail_le
          omega
        · exact ⟨rfl, rfl, rfl, rfl, rfl, Nat.le_refl _, fun _ => rfl⟩
      obtain ⟨base, file, filePos, avail, pos, size, eq⟩ := same
      exact .inl ⟨base, filePos, rfl, .kept (by omega) left pos avail file size eq⟩
    · have none : count = 0 := by omega
      have small : ¬ count > s.buf.length := by omega
      have exhausted : s.bufPos ≥ s.bufAvail := by omega
      have empty : s.bufAvail - s.bufPos = 0 := by omega
      obtain ⟨s', fill, base, filePos, size, pos, avail, bytes, file⟩ := fill_front (s := s)
      simp only [if_neg small, Outcome.pure_eq, Outcome.ret_bind, exhausted, if_true, empty, fill]
      exact .inl ⟨base, filePos, rfl, .filled none (by omega) size pos avail bytes file⟩

end LibAsdf
