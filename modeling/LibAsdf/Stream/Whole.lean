import LibAsdf.Stream.Content
import LibAsdf.Stream.FileScan
import LibAsdf.Parser.Text

/-!
# Streams that show all that comes

A memory stream, and a seekable file stream whose buffer has room for the
file: whatever is asked of such a stream, all of the content that is still to
come is seen, and what is passed over is captured.

* `WholeRead`: what such streams do;
* `FileStream.Whole`, `wholeFile`: the calls of a file stream;
* `MemStream.Whole`, `wholeMem`: the calls of a memory stream.
-/

namespace LibAsdf

open StreamOps ReadContent FileStream

/-- Where a seek that is made goes. -/
def seekPlace {σ : Type} [ReadContent σ] (s : σ) (offset : Nat) : Whence → Nat
  | .set => offset
  | .cur => pos s + offset
  | .end => (content s).length + offset

/-- Streams that show all that comes, from any position that is fit to be read. -/
class WholeRead (σ : Type) [StreamOps σ] extends LawfulRead σ where
  /-- fit to be sought in -/
  Fit : σ → Prop
  fit_of_sane (s : σ) : Sane s → Fit s
  isSeekable (s : σ) : Fit s → (base s).isSeekable = true
  length_le (s : σ) : Fit s → (content s).length ≤ offMax
  pos_le (s : σ) : Sane s → pos s ≤ (content s).length
  base_withBase (s : σ) (b : StreamBase) : base (withBase s b) = b
  content_withBase (s : σ) (b : StreamBase) : content (withBase s b) = content s
  pos_withBase (s : σ) (b : StreamBase) : pos (withBase s b) = pos s
  sane_withBase (s : σ) (b : StreamBase) : b.isSeekable = (base s).isSeekable → Sane s →
    Sane (withBase s b)
  next_whole (s : σ) (count : Nat) : Sane s → count ≤ offMax →
    ∃ v t, next s count = .ret (v, t) ∧ Moved s 0 t ∧ inView t = (coming t).length ∧
      Shown v (coming s) ∧ (coming s = [] → v = none)
  readline_whole (s : σ) {idx : Nat} : Sane s → newlineIndex (coming s) = some idx →
    ∃ v t, readline s = .ret (some v, t) ∧ v.Shows ((coming s).take (idx + 1)) ∧
      Moved s (idx + 1) t
  scan_whole (s : σ) (tokens : List Bytes) {offset idx : Nat} : Sane s →
    0 < maxTokenLen tokens → maxTokenLen tokens ≤ (coming s).length →
    scanTokens (coming s) tokens = some (offset, idx) →
    ∃ place t, scan s tokens = .ret (some (place, idx), t) ∧ Moved s offset t ∧
      inView t = (coming t).length
  /-- a scan that finds nothing may leave the position anywhere -/
  scan_lost (s : σ) (tokens : List Bytes) : Sane s →
    maxTokenLen tokens ≤ blockIndexHeader.length → scanTokens (coming s) tokens = none →
    ∃ t, scan s tokens = .ret (none, t) ∧ Fit t ∧ content t = content s ∧ errorGet t = errorGet s
  seek_whole (s : σ) (offset : Nat) (whence : Whence) : Fit s →
    seekPlace s offset whence ≤ (content s).length →
    ∃ t, seek s offset whence = .ret (true, t) ∧ Sane t ∧ content t = content s ∧
      pos t = seekPlace s offset whence ∧ base t = base s

/-! ## File streams -/

/-- The buffer has room for the file, which can be sought in, and for every
token. -/
structure FileStream.Fit (s : FileStream) : Prop where
  room : blockIndexHeader.length ≤ s.buf.length
  fits : s.file.content.length ≤ s.buf.length
  small : s.file.content.length ≤ offMax
  seekable : s.isSeekable = true

/-- The buffer is empty, or has all that is still to come. -/
structure FileStream.Whole (s : FileStream) : Prop extends s.Fit where
  coherent : s.Coherent
  inside : s.filePos ≤ s.file.content.length
  ready : s.bufPos = 0 ∧ s.bufAvail = 0 ∨ s.file.rest = []

/-- What no scan changes. -/
structure FileStream.SameFile (s t : FileStream) : Prop where
  content : t.file.content = s.file.content
  size : t.buf.length = s.buf.length
  error : t.error = s.error
  seekable : t.isSeekable = s.isSeekable

namespace FileStream

variable {s t u : FileStream}

theorem SameFile.trans (h : s.SameFile t) (h' : t.SameFile u) : s.SameFile u :=
  ⟨h'.content.trans h.content, h'.size.trans h.size, h'.error.trans h.error,
    h'.seekable.trans h.seekable⟩

theorem Fit.same (h : s.Fit) (same : s.SameFile t) : t.Fit where
  room := by rw [same.size]; exact h.room
  fits := by rw [same.content, same.size]; exact h.fits
  small := by rw [same.content]; exact h.small
  seekable := same.seekable.trans h.seekable

/-- With nothing left in the file, the buffer has all that comes. -/
theorem Coherent.window_eq (h : s.Coherent) (read : s.file.rest = []) : s.window = coming s := by
  have same := h.remaining_eq
  rw [remaining, read, List.append_nil] at same
  exact same

theorem Coherent.inView_eq (h : s.Coherent) (read : s.file.rest = []) :
    inView s = (coming s).length := by
  rw [← h.window_eq read, h.sound.window_length]
  rfl

/-- A file stream read as one that shows all that comes. -/
abbrev wholeContent : ReadContent FileStream where
  Sane s := s.Whole
  content s := s.file.content
  pos s := s.filePos
  inView s := s.bufAvail - s.bufPos

/-- What a call that goes `n` bytes on leaves. -/
abbrev Passes (s : FileStream) (n : Nat) (t : FileStream) : Prop := @Moved FileStream wholeContent _ s n t

theorem Passes.of_moved {n : Nat} (moved : Moved s n t) (whole : t.Whole) : s.Passes n t :=
  @Moved.mk FileStream wholeContent _ s n t whole moved.content_eq moved.pos_eq moved.error_eq
    moved.seekable_eq moved.capture_eq

theorem Passes.whole {n : Nat} (h : s.Passes n t) : t.Whole :=
  @Moved.sane FileStream wholeContent _ s n t h

theorem Passes.coming_eq {n : Nat} (h : s.Passes n t) : coming t = (coming s).drop n :=
  @Moved.coming_eq FileStream wholeContent _ s t n h

theorem Passes.trans {n m : Nat} (h : s.Passes n t) (h' : t.Passes m u) : s.Passes (n + m) u :=
  @Moved.trans FileStream wholeContent _ s t u n m h h'

theorem length_rest_le (s : FileStream) : s.file.rest.length ≤ s.file.content.length := by
  rw [FileHandle.rest, List.length_drop]
  exact Nat.sub_le _ _

end FileStream

section File

variable {s : FileStream} {tokens : List Bytes}

theorem fileNext_whole (h : s.Whole) {count : Nat} (small : count ≤ offMax) :
    ∃ v t, fileNext s count = .ret (v, t) ∧ s.Passes 0 t ∧ inView t = (coming t).length ∧
      Shown v (coming s) ∧ (coming s = [] → v = none) := by
  have ok : NextOk s count := by
    rcases h.ready with ⟨front, -⟩ | read
    · exact .inr (.inr (.inl front))
    · exact .inr (.inr (.inr read))
  obtain ⟨v, t, run, moved, -, -, shown⟩ := fileNext_moves h.coherent ok small
  have content : t.file.content = s.file.content := moved.content_eq
  have place : t.filePos = s.filePos := moved.pos_eq
  have seekable : t.isSeekable = s.isSeekable := moved.seekable_eq
  have rest := length_rest_le s
  have fits := h.fits
  -- What is not read yet fits behind the window
  obtain ⟨read, size⟩ : t.file.rest = [] ∧ s.buf.length ≤ t.buf.length := by
    have spec := fileNext_spec h.coherent.sound.pos_le count
    rw [run] at spec
    obtain ⟨-, -, -, next⟩ | ⟨large, -⟩ := spec
    · cases next with
      | kept enough left _ _ file size _ =>
        rcases h.ready with ⟨front, empty⟩ | read
        · simp only at *
          omega
        · exact ⟨by rw [file]; exact read, size⟩
      | shifted short size _ _ _ file =>
        simp only at size file
        refine ⟨?_, by omega⟩
        rw [file, FileHandle.fread_rest]
        apply List.drop_eq_nil_of_le
        rcases h.ready with ⟨front, empty⟩ | read
        · omega
        · rw [read]
          exact Nat.zero_le _
      | filled _ _ size _ _ _ file =>
        simp only at size file
        refine ⟨?_, by omega⟩
        rw [file, FileHandle.fread_rest]
        exact List.drop_eq_nil_of_le (by omega)
    · omega
  have coherent : t.Coherent := moved.sane
  have seen := coherent.inView_eq read
  refine ⟨v, t, run, .of_moved moved ⟨⟨?_, ?_, ?_, ?_⟩, coherent, ?_, .inr read⟩, seen, ?_, ?_⟩
  · exact Nat.le_trans h.room size
  · rw [content]
    omega
  · rw [content]
    exact h.small
  · exact seekable.trans h.seekable
  · rw [content, place]
    exact h.inside
  · rw [seen, moved.coming_eq, List.drop_zero, List.take_length] at shown
    exact shown
  · intro nothing
    have spec := fileNext_spec h.coherent.sound.pos_le count
    rw [run] at spec
    have view : t.bufAvail - t.bufPos = 0 := by
      change inView t = 0
      rw [seen, moved.coming_eq, List.drop_zero, nothing, List.length_nil]
    obtain ⟨-, -, same, -⟩ | ⟨large, -⟩ := spec
    · change v = t.shown at same
      rw [same, FileStream.shown, sizeSub_of_le coherent.sound.pos_le, view]
      rfl
    · omega

/-- Bytes in view are passed over. -/
theorem fileConsume_whole (h : s.Whole) {n : Nat} (le : n ≤ inView s) :
    ∃ t, fileConsume s n = .ret t ∧ s.Passes n t ∧ inView t = inView s - n := by
  obtain ⟨t, consumed, moved, view⟩ := fileConsume_moves h.coherent le
  have upper := h.coherent.sound
  obtain ⟨base, error, seekable, eq⟩ := fileConsume_sound upper n le
  change fileConsume s n = _ at consumed
  cases consumed.symm.trans eq
  have inside : n ≤ (coming s).length :=
    Nat.le_trans le (LawfulRead.inView_le s h.coherent)
  have total := length_coming s
  change _ = s.file.content.length - s.filePos at total
  refine ⟨_, eq, .of_moved moved ⟨⟨h.room, h.fits, h.small, seekable.trans h.seekable⟩,
    moved.sane, ?_, ?_⟩, view⟩
  · have := h.inside
    simp only
    omega
  · rcases h.ready with ⟨front, empty⟩ | read
    · have : n = 0 := by
        change n ≤ s.bufAvail - s.bufPos at le
        omega
      exact .inl ⟨by simp only; omega, empty⟩
    · exact .inr read

theorem fileReadline_whole (h : s.Whole) {idx : Nat}
    (ends : newlineIndex (coming s) = some idx) :
    ∃ v t, fileReadline s = .ret (some v, t) ∧ v.Shows ((coming s).take (idx + 1)) ∧
      s.Passes (idx + 1) t := by
  obtain ⟨v, t, run, moved, seen, shown, -⟩ := fileNext_whole h (Nat.zero_le _)
  have lt := (lineLength_of_some ends).2
  have held : coming s ≠ [] := by
    intro empty
    rw [empty] at lt
    exact absurd lt (Nat.not_lt_zero _)
  cases v with
  | none => exact absurd shown held
  | some v =>
    have shows : v.Shows (coming s) := shown
    have ahead : coming t = coming s := moved.coming_eq
    obtain ⟨u, consumed, onward, -⟩ := fileConsume_whole moved.whole
      (show idx + 1 ≤ inView t by rw [seen, ahead]; exact lt)
    have all := moved.trans onward
    rw [Nat.zero_add] at all
    refine ⟨{ v with len := idx + 1 }, u, ?_, ⟨?_, ?_⟩, all⟩
    · rw [fileReadline, run, Outcome.ret_bind]
      dsimp only
      rw [shows.findNewline, ends, Outcome.ret_bind]
      dsimp only
      rw [consumed]
      rfl
    · rw [List.length_take]
      simp only
      omega
    · have width := shows.1
      rw [← shows.2, List.take_take, Nat.min_eq_left (by omega)]

/-- A round that has all that comes in view. -/
theorem fileScanRound_found (h : s.Whole) (seen : inView s = (coming s).length)
    (read : s.file.rest = []) (enough : maxTokenLen tokens ≤ (coming s).length)
    {offset idx : Nat} (found : scanTokens (coming s) tokens = some (offset, idx)) :
    ∃ place t, fileScanRound tokens s = .ret (.inr (some (place, idx), t)) ∧ s.Passes offset t ∧
      inView t = (coming t).length := by
  have window := h.coherent.window_eq read
  have inside : offset < (coming s).length := (firstMatch_eq_some.mp found).1.inside
  obtain ⟨t, consumed, moved, view⟩ := fileConsume_whole h (show offset ≤ inView s by omega)
  have ahead : coming t = (coming s).drop offset := moved.coming_eq
  refine ⟨s.filePos + offset, t, ?_, moved, ?_⟩
  · rw [fileScanRound, fileScanLook_sound h.coherent.sound, window, if_pos enough, found,
      Outcome.ret_bind]
    dsimp only
    rw [consumed]
    rfl
  · rw [view, seen, ahead, List.length_drop]

/-- The refill of a scan of an empty buffer. -/
theorem fileScanRefill_front (h : s.Coherent) (front : s.bufPos = 0) (empty : s.bufAvail = 0) :
    ∃ t, fileScanRefill s 0 = .ret t ∧ Moved s 0 t ∧ s.SameFile t ∧ t.bufPos = 0 ∧
      t.file = (s.file.fread s.buf.length).2 := by
  have pos := h.at_file
  have none : s.window = [] := List.length_eq_zero_iff.mp (by
    rw [h.sound.window_length, empty, Nat.zero_sub])
  obtain ⟨base, buf, error, seekable, size, bytes, refill⟩ :=
    fileScanRefill_sound h.sound 0 (Nat.zero_le _)
  have captured : base.capture = s.capture := by
    have ran := refill
    rw [fileScanRefill, sizeSub_of_le (Nat.zero_le _), empty,
      StreamBase.streamCapture_eq _ (Nat.zero_le _), Outcome.ret_bind] at ran
    obtain ⟨tail, -, ran⟩ := Outcome.bind_eq_ret.mp ran
    obtain ⟨moved, -, ran⟩ := Outcome.bind_eq_ret.mp ran
    obtain ⟨read, -, ran⟩ := Outcome.bind_eq_ret.mp ran
    have same := congrArg (fun t : FileStream => t.capture) (Outcome.ret.inj ran)
    rw [← same]
    cases s.capture <;> simp
  have fits := s.file.fread_length s.buf.length
  rw [none, List.drop_nil, List.nil_append] at bytes
  simp only [Nat.sub_zero, Nat.zero_add, empty, Nat.add_zero] at bytes refill
  refine ⟨_, refill, ⟨⟨⟨?_, ?_⟩, ?_, ?_⟩, rfl, rfl, error, seekable, ?_⟩,
    ⟨rfl, size, error, seekable⟩, front, rfl⟩
  · simp only [front, Nat.zero_le]
  · simp only [size]
    omega
  · simp only [FileHandle.fread_pos, front]
    omega
  · change window _ ++ FileHandle.rest _ = s.ahead
    rw [← h.remaining_eq, FileStream.remaining, none, FileStream.window]
    simp only [front, List.drop_zero, Nat.sub_zero, bytes, List.nil_append]
    rw [FileHandle.fread_rest, FileHandle.fread_bytes, List.take_append_drop]
  · change base.capture = s.capture.map _
    rw [captured]
    cases s.capture <;> simp

theorem fileScan_whole (h : s.Whole) (asked : 0 < maxTokenLen tokens)
    (enough : maxTokenLen tokens ≤ (coming s).length) {offset idx : Nat}
    (found : scanTokens (coming s) tokens = some (offset, idx)) :
    ∃ place t, fileScan s tokens = .ret (some (place, idx), t) ∧ s.Passes offset t ∧
      inView t = (coming t).length := by
  have pos : ¬ maxTokenLen tokens = 0 := Nat.ne_of_gt asked
  rcases h.ready with ⟨front, empty⟩ | read
  · -- The first round fills the empty buffer, the second finds the token
    have pos' := h.coherent.at_file
    have fits := h.fits
    have rest := length_rest_le s
    obtain ⟨t, refill, moved, same, front', file⟩ :=
      fileScanRefill_front h.coherent front empty
    have coherent : t.Coherent := moved.sane
    have read : t.file.rest = [] := by
      rw [file, FileHandle.fread_rest]
      exact List.drop_eq_nil_of_le (by omega)
    have ahead : coming t = coming s := moved.coming_eq
    have whole : t.Whole := ⟨h.toFit.same same, coherent, by
      rw [same.content, show t.filePos = s.filePos from moved.pos_eq]
      exact h.inside, .inr read⟩
    have seen := coherent.inView_eq read
    obtain ⟨place, u, round, onward, view⟩ := fileScanRound_found whole seen read
      (ahead ▸ enough) (ahead ▸ found)
    have all := (Passes.of_moved moved whole).trans onward
    rw [Nat.zero_add] at all
    refine ⟨place, u, ?_, all, view⟩
    have first : fileScanRound tokens s = .ret (.inl t) := by
      have none : s.window = [] := List.length_eq_zero_iff.mp (by
        rw [h.coherent.sound.window_length, empty, Nat.zero_sub])
      have avail : sizeSub s.bufAvail s.bufPos = 0 := by rw [front, empty]; rfl
      have preserve : (if 0 < maxTokenLen tokens - 1 then 0 else maxTokenLen tokens - 1) = 0 := by
        split <;> omega
      have long : ¬ t.bufAvail < maxTokenLen tokens := by
        change t.bufAvail - t.bufPos = _ at seen
        rw [ahead, front', Nat.sub_zero] at seen
        omega
      rw [fileScanRound, fileScanLook_sound h.coherent.sound, none,
        if_neg (show ¬ maxTokenLen tokens ≤ ([] : Bytes).length from Nat.not_le_of_lt asked),
        Outcome.ret_bind]
      dsimp only
      rw [avail, preserve, refill, Outcome.ret_bind, if_neg long, ← front']
      rfl
    rw [fileScan, if_neg pos, Outcome.loop_of_continue first, Outcome.loop_of_exit round]
  · obtain ⟨place, t, round, moved, view⟩ :=
      fileScanRound_found h (h.coherent.inView_eq read) read enough found
    refine ⟨place, t, ?_, moved, view⟩
    rw [fileScan, if_neg pos, Outcome.loop_of_exit round]

theorem fileConsume_same {n : Nat} {t : FileStream} (run : fileConsume s n = .ret t) :
    s.SameFile t := by
  obtain ⟨base, captured, eq⟩ := Outcome.bind_eq_ret.mp run
  obtain ⟨seekable, -, error, -⟩ := StreamBase.streamCapture_frame captured
  cases eq
  exact ⟨rfl, rfl, error, seekable⟩

theorem fileScanRefill_same {preserve : Nat} {t : FileStream}
    (run : fileScanRefill s preserve = .ret t) : s.SameFile t := by
  obtain ⟨base, captured, run⟩ := Outcome.bind_eq_ret.mp run
  obtain ⟨seekable, -, error, -⟩ := StreamBase.streamCapture_frame captured
  obtain ⟨tail, -, run⟩ := Outcome.bind_eq_ret.mp run
  obtain ⟨moved, first, run⟩ := Outcome.bind_eq_ret.mp run
  obtain ⟨read, second, run⟩ := Outcome.bind_eq_ret.mp run
  cases run
  exact ⟨rfl, (length_of_store second).trans (length_of_store first), error, seekable⟩

theorem fileScanRound_same : Outcome.wp (fun _ => True) True (Outcome.Round
    (fun t => s.SameFile t) (fun r => s.SameFile r.2)) (fileScanRound tokens s) := by
  refine Outcome.wp_partial fun r run => ?_
  obtain ⟨found, -, rest⟩ := Outcome.bind_eq_ret.mp run
  cases found with
  | some m =>
    obtain ⟨t, consumed, eq⟩ := Outcome.bind_eq_ret.mp rest
    cases eq
    exact fileConsume_same consumed
  | none =>
    obtain ⟨t, refill, rest⟩ := Outcome.bind_eq_ret.mp rest
    have same := fileScanRefill_same refill
    split at rest
    · cases rest
      exact ⟨same.content, same.size, same.error, same.seekable⟩
    · cases rest
      exact ⟨same.content, same.size, same.error, same.seekable⟩

theorem fileScan_same {r : Option (Nat × Nat) × FileStream} (run : fileScan s tokens = .ret r) :
    s.SameFile r.2 := by
  rw [fileScan] at run
  split at run
  · cases run
    exact ⟨rfl, rfl, rfl, rfl⟩
  · refine Outcome.wp_of_ret
      (Q := fun r : Option (Nat × Nat) × FileStream => s.SameFile r.2)
      (Outcome.wp_loop (F := fun _ => True) (I := fun t => s.SameFile t) (fun t ht => ?_) _ s
        ⟨rfl, rfl, rfl, rfl⟩) run
    refine Outcome.wp_mono fileScanRound_same fun r hr => ?_
    cases r with
    | inl u => exact ht.trans hr
    | inr r => exact ht.trans hr

/-- A scan that finds nothing may leave the position anywhere. -/
theorem fileScan_lost (h : s.Whole) (short : maxTokenLen tokens ≤ blockIndexHeader.length)
    (none : scanTokens (coming s) tokens = none) :
    ∃ t, fileScan s tokens = .ret (.none, t) ∧ t.Fit ∧ content t = content s ∧
      errorGet t = errorGet s := by
  have plain : scanTokens s.remaining tokens = .none := by
    rw [h.coherent.remaining_eq]
    exact none
  obtain ⟨t, run⟩ := fileScan_none h.coherent.sound (Nat.le_trans short h.room) plain
  have same := fileScan_same run
  exact ⟨t, run, h.toFit.same same, same.content, same.error⟩

/-- A seek to a place in the file empties the buffer. -/
theorem fileSeek_whole (h : s.Fit) {offset : Nat} {whence : Whence}
    (inside : seekPlace s offset whence ≤ (content s).length) :
    ∃ t, fileSeek s offset whence = (true, t) ∧ t.Whole ∧ content t = content s ∧
      pos t = seekPlace s offset whence ∧ base t = base s := by
  have small := h.small
  have whole : ∀ place ≤ s.file.content.length, Whole { s with
      file := { s.file with pos := place }, bufAvail := 0, bufPos := 0, filePos := place } :=
    fun place le => ⟨⟨h.room, h.fits, h.small, h.seekable⟩,
      ⟨⟨Nat.le_refl _, Nat.zero_le _⟩, rfl, rfl⟩, le, .inl ⟨rfl, rfl⟩⟩
  have set : ∀ place ≤ s.file.content.length, s.seekFile (place : Nat) .set = (true, { s with
      file := { s.file with pos := place }, bufAvail := 0, bufPos := 0, filePos := place }) := by
    intro place le
    rw [FileStream.seekFile, FileHandle.fseeko, if_pos (by simp only [FileHandle.target]; omega)]
    simp only [FileHandle.target, Int.toNat_natCast]
  cases whence with
  | set => exact ⟨_, set offset inside, whole offset inside, rfl, rfl, rfl⟩
  | cur =>
    have inside : s.filePos + offset ≤ s.file.content.length := inside
    have sum : sizeAdd s.filePos offset = s.filePos + offset := by
      rw [sizeAdd, Int.emod_eq_of_lt (by omega) (by simp only [offMax] at small; omega)]
      omega
    refine ⟨_, ?_, whole _ inside, rfl, rfl, rfl⟩
    rw [fileSeek]
    dsimp only
    rw [sum, if_neg (by omega)]
    exact set _ inside
  | «end» =>
    have inside : s.file.content.length + offset ≤ s.file.content.length := inside
    refine ⟨_, ?_, whole _ inside, rfl, rfl, rfl⟩
    change s.seekFile offset .end = _
    rw [FileStream.seekFile, FileHandle.fseeko, if_pos (by simp only [FileHandle.target]; omega)]
    simp only [FileHandle.target, ← Int.natCast_add, Int.toNat_natCast]

theorem fileSeek_ret (h : s.Fit) {offset : Nat} {whence : Whence}
    (inside : seekPlace s offset whence ≤ (content s).length) :
    ∃ t, seek s offset whence = .ret (true, t) ∧ t.Whole ∧ content t = content s ∧
      pos t = seekPlace s offset whence ∧ base t = base s := by
  obtain ⟨t, sought, rest⟩ := fileSeek_whole h inside
  exact ⟨t, congrArg Outcome.ret sought, rest⟩

end File

theorem FileStream.tell_whole (s : FileStream) (h : s.Whole) (le : s.filePos ≤ offMax) :
    tell s = s.filePos :=
  LawfulRead.tell_eq s h.coherent le

theorem FileStream.next_asked (s : FileStream) (count : Nat) (h : s.Whole) (small : count ≤ offMax) :
    ∃ v t, next s count = .ret (v, t) ∧ s.Passes 0 t ∧ inView s ≤ inView t ∧
      min count (coming s).length ≤ inView t ∧ Shown v ((coming s).take (inView t)) := by
  obtain ⟨v, t, run, moved, seen, shown, -⟩ := fileNext_whole h small
  have ahead : coming t = coming s := moved.coming_eq
  have view : inView t = (coming s).length := by rw [seen, ahead]
  refine ⟨v, t, run, moved, ?_, ?_, ?_⟩
  · rw [view]
    exact LawfulRead.inView_le s h.coherent
  · rw [view]
    exact Nat.min_le_right _ _
  · rw [view, List.take_length]
    exact shown

theorem FileStream.whole_withBase (s : FileStream) (b : StreamBase)
    (same : b.isSeekable = s.isSeekable) (h : s.Whole) :
    Whole { s with toStreamBase := b } where
  room := h.room
  fits := h.fits
  small := h.small
  seekable := same.trans h.seekable
  coherent := ⟨⟨h.coherent.sound.pos_le, h.coherent.sound.avail_le⟩, h.coherent.at_file,
    h.coherent.remaining_eq⟩
  inside := h.inside
  ready := h.ready

/-- A seekable file whose buffer has room for it. -/
abbrev wholeFile : WholeRead FileStream where
  toReadContent := wholeContent
  inView_le s h := LawfulRead.inView_le s h.coherent
  tell_eq := FileStream.tell_whole
  next_moves s count h _ small := FileStream.next_asked s count h small
  consume_moves _ _ h le := fileConsume_whole h le
  Fit s := s.Fit
  fit_of_sane _ h := h.toFit
  isSeekable _ h := h.seekable
  length_le _ h := h.small
  pos_le _ h := h.inside
  base_withBase _ _ := rfl
  content_withBase _ _ := rfl
  pos_withBase _ _ := rfl
  sane_withBase := FileStream.whole_withBase
  next_whole _ _ h small := fileNext_whole h small
  readline_whole _ _ h ends := fileReadline_whole h ends
  scan_whole _ _ _ _ h asked enough found := fileScan_whole h asked enough found
  scan_lost _ _ h short none := fileScan_lost h short none
  seek_whole _ _ _ h inside := fileSeek_ret h inside

/-! ## Memory streams -/

/-- The buffer can be sought in. -/
structure MemStream.Fit (s : MemStream) : Prop where
  small : s.buf.length ≤ offMax
  seekable : s.isSeekable = true

structure MemStream.Whole (s : MemStream) : Prop extends s.Fit where
  inside : s.Inside

namespace MemStream

variable {s t : MemStream} {tokens : List Bytes}

/-- A memory stream that can be sought in. -/
abbrev wholeContent : ReadContent MemStream where
  Sane s := s.Whole
  content s := s.buf
  pos s := s.pos
  inView s := s.size - s.pos

/-- What a call that goes `n` bytes on leaves. -/
abbrev Passes (s : MemStream) (n : Nat) (t : MemStream) : Prop := @Moved MemStream wholeContent _ s n t

theorem Passes.of_moved {n : Nat} (h : s.Whole) (moved : Moved s n t) : s.Passes n t := by
  have content : t.buf = s.buf := moved.content_eq
  have seekable : t.isSeekable = s.isSeekable := moved.seekable_eq
  exact @Moved.mk MemStream wholeContent _ s n t
    ⟨⟨by rw [content]; exact h.small, seekable.trans h.seekable⟩, moved.sane⟩
    moved.content_eq moved.pos_eq moved.error_eq moved.seekable_eq moved.capture_eq

theorem Passes.whole {n : Nat} (h : s.Passes n t) : t.Whole :=
  @Moved.sane MemStream wholeContent _ s n t h

theorem Passes.content_eq {n : Nat} (h : s.Passes n t) : t.buf = s.buf :=
  @Moved.content_eq MemStream wholeContent _ s n t h

theorem Passes.error_eq {n : Nat} (h : s.Passes n t) : errorGet t = errorGet s :=
  @Moved.error_eq MemStream wholeContent _ s n t h

theorem tell_whole (s : MemStream) (_ : s.Whole) (_ : s.pos ≤ offMax) : tell s = s.pos := rfl

theorem inView_whole (s : MemStream) : inView s = (coming s).length := (length_coming s).symm

theorem inView_passes (s : MemStream) (h : s.Whole) : inView s ≤ (coming s).length :=
  LawfulRead.inView_le s h.inside

theorem next_all (s : MemStream) (count : Nat) (h : s.Whole) :
    ∃ v t, next s count = .ret (v, t) ∧ s.Passes 0 t ∧ inView t = (coming t).length ∧
      Shown v (coming s) ∧ (coming s = [] → v = none) := by
  obtain ⟨v, run, shown⟩ := memNext_correct s count
  refine ⟨v, s, run, .of_moved h (.refl h.inside), inView_whole s, shown, fun nothing => ?_⟩
  have ends := List.length_eq_zero_iff.mpr nothing
  rw [length_coming] at ends
  rw [memNext, if_pos (show s.pos ≥ s.size from Nat.le_of_sub_eq_zero ends)] at run
  cases run
  rfl

theorem next_asked (s : MemStream) (count : Nat) (h : s.Whole) :
    ∃ v t, next s count = .ret (v, t) ∧ s.Passes 0 t ∧ inView s ≤ inView t ∧
      min count (coming s).length ≤ inView t ∧ Shown v ((coming s).take (inView t)) := by
  obtain ⟨v, run, shown⟩ := memNext_correct s count
  refine ⟨v, s, run, .of_moved h (.refl h.inside), Nat.le_refl _, ?_, ?_⟩
  · rw [inView_whole]
    exact Nat.min_le_right _ _
  · rw [inView_whole, List.take_length]
    exact shown

theorem consume_whole (s : MemStream) (n : Nat) (h : s.Whole) (le : n ≤ inView s) :
    ∃ t, consume s n = .ret t ∧ s.Passes n t ∧ inView t = inView s - n := by
  obtain ⟨t, run, moved, view⟩ := memConsume_moves h.inside le
  exact ⟨t, run, .of_moved h moved, view⟩

theorem readline_whole (s : MemStream) (h : s.Whole) {idx : Nat}
    (ends : newlineIndex (coming s) = some idx) :
    ∃ v t, readline s = .ret (some v, t) ∧ v.Shows ((coming s).take (idx + 1)) ∧
      s.Passes (idx + 1) t := by
  have pos : s.pos ≤ s.size := h.inside
  have length := remaining_length s
  have same : coming s = s.remaining := rfl
  rw [same] at ends ⊢
  have lt := (lineLength_of_some ends).2
  obtain ⟨t, consumed, moved, -⟩ := consume_whole s (idx + 1) h
    (show idx + 1 ≤ s.size - s.pos by omega)
  change memConsume s (idx + 1) = _ at consumed
  refine ⟨s.view (idx + 1), t, ?_, ⟨?_, rfl⟩, moved⟩
  · change memReadline s = _
    rw [memReadline, sizeSub_of_le pos, if_neg (by omega), (view_shows s).findNewline, ends,
      Outcome.ret_bind]
    simp only [Option.getD_some, consumed, Outcome.ret_bind]
    rfl
  · rw [List.length_take]
    change idx + 1 = _
    omega

theorem scan_whole (s : MemStream) (h : s.Whole) {offset idx : Nat}
    (found : scanTokens (coming s) tokens = some (offset, idx)) :
    ∃ place t, scan s tokens = .ret (some (place, idx), t) ∧ s.Passes offset t ∧
      inView t = (coming t).length := by
  have inside : offset < (coming s).length := (firstMatch_eq_some.mp found).1.inside
  obtain ⟨t, consumed, moved, -⟩ := consume_whole s offset h
    (by rw [inView_whole]; exact Nat.le_of_lt inside)
  change memConsume s offset = _ at consumed
  refine ⟨offset + s.pos, t, ?_, moved, inView_whole t⟩
  change memScan s tokens = _
  rw [memScan, sizeSub_of_le h.inside, (view_shows s).scanTokens, Outcome.ret_bind,
    show scanTokens s.remaining tokens = _ from found]
  dsimp only
  rw [consumed]
  rfl

theorem scan_lost (s : MemStream) (h : s.Whole) (none : scanTokens (coming s) tokens = none) :
    ∃ t, scan s tokens = .ret (.none, t) ∧ t.Fit ∧ content t = content s ∧
      errorGet t = errorGet s := by
  obtain ⟨t, consumed, moved, -⟩ := consume_whole s (s.size - s.pos) h (Nat.le_refl _)
  change memConsume s _ = _ at consumed
  refine ⟨t, ?_, moved.whole.toFit, moved.content_eq, moved.error_eq⟩
  change memScan s tokens = _
  rw [memScan, sizeSub_of_le h.inside, (view_shows s).scanTokens, Outcome.ret_bind,
    show scanTokens s.remaining tokens = _ from none]
  dsimp only
  rw [consumed]
  rfl

theorem seek_whole (s : MemStream) (h : s.Fit) {offset : Nat} {whence : Whence}
    (inside : seekPlace s offset whence ≤ (content s).length) :
    ∃ t, seek s offset whence = .ret (true, t) ∧ t.Whole ∧ content t = content s ∧
      pos t = seekPlace s offset whence ∧ base t = base s := by
  have small : s.buf.length ≤ 2 ^ 63 - 1 := h.small
  have place : s.newPos offset whence = seekPlace s offset whence := by
    cases whence with
    | set =>
      have inside : offset ≤ s.buf.length := inside
      simp only [newPos, seekPlace, sizeAdd]
      omega
    | cur =>
      have inside : s.pos + offset ≤ s.buf.length := inside
      simp only [newPos, seekPlace, sizeAdd]
      change _ = s.pos + offset
      omega
    | «end» =>
      have inside : s.buf.length + offset ≤ s.buf.length := inside
      simp only [newPos, seekPlace, sizeAdd]
      change _ = s.buf.length + offset
      rw [show s.size = s.buf.length from rfl]
      omega
  have upper : seekPlace s offset whence ≤ s.buf.length := inside
  refine ⟨{ s with pos := seekPlace s offset whence }, ?_, ⟨⟨h.small, h.seekable⟩, upper⟩, rfl, rfl,
    rfl⟩
  change Outcome.ret (memSeek s offset whence) = _
  rw [memSeek, place, if_neg (show ¬ seekPlace s offset whence > s.size from Nat.not_lt_of_le upper)]

end MemStream

/-- A memory stream. -/
abbrev wholeMem : WholeRead MemStream where
  toReadContent := MemStream.wholeContent
  inView_le := MemStream.inView_passes
  tell_eq := MemStream.tell_whole
  next_moves s count h _ _ := s.next_asked count h
  consume_moves := MemStream.consume_whole
  Fit s := s.Fit
  fit_of_sane _ h := h.toFit
  isSeekable _ h := h.seekable
  length_le _ h := h.small
  pos_le _ h := h.inside
  base_withBase _ _ := rfl
  content_withBase _ _ := rfl
  pos_withBase _ _ := rfl
  sane_withBase _ _ same h := ⟨⟨h.small, same.trans h.seekable⟩, h.inside⟩
  next_whole s count h _ := s.next_all count h
  readline_whole s _ h ends := s.readline_whole h ends
  scan_whole s _ _ _ h _ _ found := s.scan_whole h found
  scan_lost s _ h _ none := s.scan_lost h none
  seek_whole s _ _ h inside := s.seek_whole h inside

end LibAsdf
