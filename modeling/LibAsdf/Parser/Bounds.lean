import LibAsdf.Parser.Lawful

/-!
# Calls that stay inside their memory

When no call of a stream reads outside an allocation, and what it leaves.

* `StreamBounds`, `BoundedStream`: the laws, beside those of `LawfulStream`;
* the instances for both kinds of stream;
* `streamPeek_safe`, `streamSeek_safe`: the calls that are built on the table.
-/

namespace LibAsdf

open StreamOps ParserStream StreamMeasure LawfulStream

/-- A run without a fault but for vector accesses out of range. -/
abbrev Safely {α : Type} (Q : α → Prop) (x : Run α) : Prop :=
  Outcome.wp (fun e => e = .vector) True Q x

theorem Safely.sure {α : Type} {T : Prop} {Q : α → Prop} {x : Run α}
    (h : Outcome.wp (fun _ => False) T Q x) : Safely Q x :=
  Outcome.wp_imp h (fun _ => False.elim) fun _ => trivial

/-- What ends and is safe has both conclusions. -/
theorem Safely.and {α : Type} {T : Prop} {F : Fault → Prop} {Q R : α → Prop} {x : Run α}
    (safe : Safely R x) (ends : Outcome.wp F T Q x) : Safely (fun a => Q a ∧ R a) x :=
  Outcome.wp_imp (Outcome.wp_both ends safe) (fun _ => And.right) fun _ => trivial

/-- Where a stream's reads stay in its memory. -/
class StreamBounds (σ : Type) where
  /-- a call that asks for bytes, and a seek, stay inside -/
  Sound : σ → Prop
  /-- the position is not behind the content -/
  Inside : σ → Prop
  /-- a call that asks for no bytes stays inside -/
  Ready : σ → Prop
  /-- a newline is that many bytes ahead, as far as a line's end matters -/
  Line : σ → Nat → Prop

open StreamBounds

section Laws

variable {σ : Type} [ParserStream σ] [StreamBounds σ]

/-- What a call leaves that stays inside. -/
structure Stays (s s' : σ) : Prop where
  sound : Sound s'
  inside : Inside s → Inside s'
  capture : (base s').capture.isSome = (base s).capture.isSome

theorem Stays.refl {s : σ} (h : Sound s) : Stays s s := ⟨h, id, rfl⟩

theorem Stays.trans {s t u : σ} (h : Stays s t) (h' : Stays t u) : Stays s u :=
  ⟨h'.sound, h'.inside ∘ h.inside, h'.capture.trans h.capture⟩

theorem Stays.free {s s' : σ} (h : Stays s s') (free : (base s).capture = none) :
    (base s').capture = none :=
  (Option.isSome_eq_isSome.mp h.capture).mpr free

end Laws

class BoundedStream (σ : Type) [ParserStream σ] extends LawfulStream σ, StreamBounds σ where
  good_sound (s : σ) : Sound s → Good s
  sound_inside (s : σ) : Inside s → Sound s
  sound_withBase (s : σ) (b : StreamBase) : b.capture.isSome = (base s).capture.isSome →
    Sound s → Sound (withBase s b)
  inside_withBase (s : σ) (b : StreamBase) : Inside s → Inside (withBase s b)
  ready_fed (s : σ) : Fed s 1 → Ready s
  next_safe (s : σ) (count : Nat) : Sound s → 0 < count ∨ Ready s → Safely (fun r => Stays s r.2 ∧
    ∀ v, r.1 = some v → v.len ≤ v.mem.length ∧ Inside r.2 ∧
      ∀ k < v.len, v.mem[k]? = some newline → Line r.2 k) (next s count)
  next_rest (s : σ) (v : View) (s' : σ) : Sound s →
    next s (sizeAdd 0 (bound s - tell s)) = .ret (some v, s') →
      sizeAdd 0 (bound s - tell s) ≤ v.mem.length
  consume_safe (s : σ) (n : Nat) : Inside s → Fed s n → Safely (fun s' => Stays s s' ∧
    ∀ k, Line s (n + k) → Line s' k) (consume s n)
  consume_zero (s : σ) : Sound s → Safely (Stays s) (consume s 0)
  readline_line (s : σ) (k : Nat) : Inside s → Ready s → Line s k →
    Safely (fun r => Stays s r.2) (readline s)
  readline_free (s : σ) : Inside s → Ready s → (base s).capture = none → Safely (fun r =>
    Sound r.2 ∧ (base r.2).capture = none ∧ ∀ v, r.1 = some v →
      0 < v.len ∧ v.len ≤ v.mem.length + 1) (readline s)
  scan_safe (s : σ) (tokens : List Bytes) : Inside s →
    Safely (fun r => Stays s r.2) (scan s tokens)
  seek_safe (s : σ) (offset : Int) (whence : Whence) : Sound s →
    Safely (fun r => Stays s r.2 ∧ (r.1 = true → Inside r.2)) (seek s offset whence)
  seek_end (s : σ) : Sound s →
    Safely (fun r => r.1 = true → StreamOps.tell r.2 = bound r.2) (seek s 0 .end)
  setInput_safe (s : σ) : Sound s → (base s).isSeekable →
    Safely (fun r => Stays s r.2) (fyParserSetInput s)
  moved_safe (s : σ) (pos : Nat) : Sound s → Stays s (fyMoved s pos)

section Derived

variable {σ : Type} [ParserStream σ] [BoundedStream σ]

open BoundedStream

theorem stays_withBase {s : σ} (h : Sound s) {b : StreamBase}
    (capture : b.capture.isSome = (base s).capture.isSome) : Stays s (withBase s b) where
  sound := sound_withBase s b capture h
  inside := inside_withBase s b
  capture := by rw [base_withBase]; exact capture

theorem stays_setError {s : σ} (h : Sound s) (code : ErrorCode) : Stays s (setError s code) :=
  stays_withBase h rfl

/-- What is shown lies in its memory, and the stream still holds it. -/
theorem streamPeek_safe {s : σ} (h : Sound s) {count : Nat} (ready : 0 < count ∨ Ready s) :
    Safely (fun r => Stays s r.2 ∧ ∀ v, r.1 = some v → v.len ≤ v.mem.length ∧ Inside r.2 ∧
      0 < v.len ∧ Fed r.2 v.len) (streamPeek s count) := by
  have ends := streamPeek_ends (good_sound s h) count
  suffices safe : Safely (fun r => Stays s r.2 ∧ ∀ v, r.1 = some v →
      v.len ≤ v.mem.length ∧ Inside r.2) (streamPeek s count) from
    Outcome.wp_mono (safe.and ends) fun r hr => ⟨hr.2.1, fun v eq =>
      ⟨(hr.2.2 v eq).1, (hr.2.2 v eq).2, hr.1.2 v eq⟩⟩
  refine Outcome.wp_seq (next_safe s count h ready) fun r hr => ?_
  obtain ⟨v, t⟩ := r
  obtain ⟨stays, view⟩ := hr
  refine Outcome.wp_seq (consume_zero t stays.sound) fun u hu => ?_
  exact ⟨stays.trans hu, fun w eq => ⟨(view w eq).1, hu.inside (view w eq).2.1⟩⟩

theorem skipRound_safe {s₀ : σ} (r : Nat × σ) (h : Stays s₀ r.2) :
    Safely (Outcome.Round (fun r' => Stays s₀ r'.2) (fun r' => Stays s₀ r'.2)) (skipRound r) := by
  obtain ⟨toConsume, s⟩ := r
  cases toConsume with
  | zero => exact h
  | succ n =>
    have sound : Sound s := h.sound
    refine Outcome.wp_seq ((next_safe s 1 sound (.inl Nat.one_pos)).and
      (next_ends s 1 (good_sound s sound))) fun r hr => ?_
    obtain ⟨v, t⟩ := r
    obtain ⟨⟨-, fed⟩, stays, view⟩ := hr
    dsimp only
    split
    · exact h.trans stays
    · cases v with
      | none => exact h.trans stays
      | some v =>
        have le : (if v.len ≥ n + 1 then n + 1 else v.len) ≤ v.len := by split <;> omega
        refine Outcome.wp_seq (consume_safe t _ (view v rfl).2.1
          (fed_mono t le (fed v rfl).2)) fun u hu => ?_
        exact h.trans (stays.trans hu.1)

/-- Seeking; backwards from the position only where the stream can seek. -/
theorem streamSeek_safe {s : σ} (h : Sound s) {offset : Int} {whence : Whence}
    (allowed : 0 ≤ offset ∨ whence ≠ .cur) :
    Safely (fun r => Stays s r.2 ∧ ((base s).isSeekable → r.1 = true → Inside r.2))
      (streamSeek s offset whence) := by
  rw [streamSeek]
  split
  · exact ⟨stays_setError h .system, fun _ yes => absurd yes Bool.false_ne_true⟩
  · rename_i goes
    split
    · exact Outcome.wp_mono (seek_safe s offset whence h) fun _ hr => ⟨hr.1, fun _ => hr.2⟩
    · rename_i fixed
      have forward : 0 ≤ offset := by
        rcases allowed with forward | other
        · exact forward
        · simpa [fixed, other] using goes
      rw [assert, if_pos (decide_eq_true forward), Outcome.ret_bind]
      exact Outcome.wp_mono (Outcome.wp_loop (I := fun r => Stays s r.2)
        (fun r hr => skipRound_safe r hr) _ _ (.refl h)) fun _ hr =>
          ⟨hr, fun can => absurd can fixed⟩

end Derived

/-! ## File streams -/

theorem streamCapture_safe (b : StreamBase) {mem : Bytes} {off size : Nat}
    (inside : off + size ≤ mem.length) :
    Safely (fun b' => b'.capture.isSome = b.capture.isSome) (b.streamCapture mem off size) := by
  unfold StreamBase.streamCapture
  cases captured : b.capture with
  | none => exact congrArg Option.isSome captured
  | some bytes =>
    rw [load_of_le inside]
    rfl

/-- Whatever `stream_capture` does, there is a capture buffer after it if there was one. -/
theorem streamCapture_isSome (b : StreamBase) (mem : Bytes) (off size : Nat) :
    Outcome.wp (fun _ => True) True (fun b' => b'.capture.isSome = b.capture.isSome)
      (b.streamCapture mem off size) := by
  unfold StreamBase.streamCapture
  cases captured : b.capture with
  | none => exact congrArg Option.isSome captured
  | some bytes =>
    exact Outcome.wp_seq (Q := fun _ => True) (Outcome.wp_partial fun _ _ => trivial) fun _ _ => rfl

/-- A call that asks for nothing, on an exhausted buffer, reads to its front and counts the
bytes behind its end. -/
def FileStream.Ready (s : FileStream) : Prop :=
  s.bufPos < s.bufAvail ∨ s.bufAvail + min s.buf.length s.file.rest.length ≤ s.buf.length

instance : StreamBounds FileStream where
  Sound := FileStream.Sound
  Inside := FileStream.Sound
  Ready := FileStream.Ready
  Line _ _ := True

theorem fileNext_safe {s : FileStream} (sound : s.Sound) (count : Nat)
    (ready : 0 < count ∨ s.Ready) :
    Outcome.wp (fun _ => False) False (fun r => r.2.Sound ∧
      r.2.capture.isSome = s.capture.isSome ∧
      ∀ v, r.1 = some v → v.len ≤ v.mem.length ∧ count ≤ v.mem.length ∧
        r.2.bufPos + v.len = r.2.bufAvail ∧ 0 < v.len) (fileNext s count) := by
  refine Outcome.wp_mono (Outcome.wp_imp (fileNext_spec sound.pos_le count)
    (fun _ unsound => unsound.2 sound) id) fun r hr => ?_
  obtain ⟨base, -, shown, nextTo⟩ | ⟨-, -, rfl⟩ := hr
  · have lower := sound.pos_le
    have upper := sound.avail_le
    have held : r.2.Sound ∧ r.2.bufPos + count ≤ r.2.buf.length := by
      cases nextTo with
      | kept enough left bufPos avail file size same =>
        rw [same sound]
        exact ⟨sound, by omega⟩
      | shifted short size bufPos avail =>
        exact ⟨⟨by omega, by omega⟩, by omega⟩
      | filled none exhausted size bufPos avail =>
        have room : s.bufAvail + min s.buf.length s.file.rest.length ≤ s.buf.length := by
          rcases ready with some | left | room
          · omega
          · omega
          · exact room
        exact ⟨⟨by omega, by omega⟩, by omega⟩
    refine ⟨held.1, congrArg (fun b : StreamBase => b.capture.isSome) base, fun v eq => ?_⟩
    have lower := held.1.pos_le
    have upper := held.1.avail_le
    rw [shown, FileStream.shown, sizeSub_of_le lower] at eq
    split at eq
    · cases eq
      simp only [List.length_drop]
      omega
    · cases eq
  · exact ⟨⟨sound.pos_le, sound.avail_le⟩, rfl, by rintro v ⟨⟩⟩

theorem fileConsume_safe {s : FileStream} (sound : s.Sound) {n : Nat}
    (fed : s.bufPos + n ≤ s.bufAvail) :
    Safely (fun s' => s'.Sound ∧ s'.capture.isSome = s.capture.isSome) (fileConsume s n) := by
  have upper := sound.avail_le
  refine Outcome.wp_seq (streamCapture_safe s.toStreamBase (by omega)) fun base captured => ?_
  exact ⟨⟨Nat.min_le_right _ _, upper⟩, captured⟩

theorem View.findNewline_safe {v : View} (inside : v.len ≤ v.mem.length) :
    Safely (fun r => ∀ idx, r = some idx → idx < v.len) v.findNewline := by
  have shows : v.Shows (v.mem.take v.len) := ⟨(List.length_take_of_le inside).symm, rfl⟩
  rw [shows.findNewline]
  intro idx eq
  have := (lineLength_of_some eq).2
  rw [List.length_take] at this
  omega

theorem fileReadline_safe {s : FileStream} (sound : s.Sound) (ready : s.Ready) :
    Safely (fun r => r.2.Sound ∧ r.2.capture.isSome = s.capture.isSome ∧
      ∀ v, r.1 = some v → 0 < v.len ∧ v.len ≤ v.mem.length) (fileReadline s) := by
  refine Outcome.wp_seq (Safely.sure (fileNext_safe sound 0 (.inr ready))) fun r hr => ?_
  obtain ⟨v, t⟩ := r
  obtain ⟨sound, captured, view⟩ := hr
  cases v with
  | none => exact ⟨sound, captured, nofun⟩
  | some v =>
    obtain ⟨inside, -, fed, pos⟩ := view v rfl
    refine Outcome.wp_seq (View.findNewline_safe inside) fun found inLine => ?_
    cases found with
    | some idx =>
      have lt := inLine idx rfl
      refine Outcome.wp_seq (fileConsume_safe sound (n := idx + 1) ?_) fun u hu => ?_
      · have within : t.bufPos + v.len = t.bufAvail := fed
        omega
      · refine ⟨hu.1, hu.2.trans captured, fun w eq => ?_⟩
        cases eq
        exact ⟨Nat.succ_pos idx, Nat.le_trans lt inside⟩
    | none =>
      refine Outcome.wp_seq (fileConsume_safe sound (Nat.le_of_eq fed)) fun u hu => ?_
      refine ⟨⟨hu.1.pos_le, hu.1.avail_le⟩, hu.2.trans captured, fun w eq => ?_⟩
      cases eq
      exact ⟨pos, inside⟩

/-- A scan keeps the capture buffer, if there is one. -/
theorem fileScan_capture (s : FileStream) (tokens : List Bytes) :
    Outcome.wp (fun _ => True) True (fun r => r.2.capture.isSome = s.capture.isSome)
      (fileScan s tokens) := by
  have anything : ∀ {α β : Type} {x : Run α} {f : α → Run β} {Q : β → Prop},
      (∀ a, Outcome.wp (fun _ => True) True Q (f a)) →
        Outcome.wp (fun _ => True) True Q (x >>= f) := fun {α} {β} {x} {f} {Q} each =>
    Outcome.wp_seq (Q := fun _ => True) (Outcome.wp_partial fun _ _ => trivial) fun a _ => each a
  rw [fileScan]
  split
  · rfl
  · refine Outcome.wp_loop (I := fun t : FileStream => t.capture.isSome = s.capture.isSome)
      (fun t ht => ?_) _ s rfl
    refine anything fun found => ?_
    cases found with
    | some m =>
      refine Outcome.wp_seq (Outcome.wp_seq (streamCapture_isSome t.toStreamBase t.buf t.bufPos m.1)
        fun base captured => ?_) (Q := fun u : FileStream => u.capture.isSome = s.capture.isSome)
        fun u hu => hu
      exact captured.trans ht
    | none =>
      refine Outcome.wp_seq (Q := fun u : FileStream => u.capture.isSome = s.capture.isSome) ?_
        fun u hu => ?_
      · refine Outcome.wp_seq (streamCapture_isSome t.toStreamBase t.buf 0 _)
          fun base captured => ?_
        exact anything fun tail => anything fun buf => anything fun buf' => captured.trans ht
      · split
        · exact hu
        · exact hu

theorem fileScan_safe {s : FileStream} (sound : s.Sound) (tokens : List Bytes) :
    Safely (fun r => r.2.Sound ∧ r.2.capture.isSome = s.capture.isSome) (fileScan s tokens) := by
  suffices bounded : Safely (fun r => r.2.Sound) (fileScan s tokens) from
    Outcome.wp_mono (bounded.and (fileScan_capture s tokens)) fun _ hr => ⟨hr.2, hr.1⟩
  by_cases fits : maxTokenLen tokens ≤ s.buf.length
  · obtain ⟨r, s', eq, frame⟩ := fileScan_total sound fits
    rw [eq]
    exact frame.sound
  · exact Safely.sure (Outcome.wp_mono (fileScan_small sound (Nat.lt_of_not_le fits))
      fun _ hr => hr.2.1)

theorem seekFile_safe {s : FileStream} (sound : s.Sound) (offset : Int) (whence : Whence) :
    Stays s (s.seekFile offset whence).2 := by
  unfold FileStream.seekFile
  cases s.file.fseeko offset whence with
  | none => exact .refl sound
  | some file => exact ⟨⟨Nat.le_refl _, Nat.zero_le _⟩, fun _ => ⟨Nat.le_refl _, Nat.zero_le _⟩, rfl⟩

theorem fileSeek_safe {s : FileStream} (sound : s.Sound) (offset : Int) (whence : Whence) :
    Stays s (fileSeek s offset whence).2 := by
  cases whence with
  | set => exact seekFile_safe sound _ _
  | cur =>
    rw [fileSeek]
    split
    · exact .refl sound
    · exact seekFile_safe sound _ _
  | «end» => exact seekFile_safe sound _ _

/-- Behind a seek to the end, the stream tells how much the file holds. -/
theorem fileSeek_end {s : FileStream} (went : (fileSeek s 0 .end).1 = true) :
    fileTell (fileSeek s 0 .end).2 = (fileSeek s 0 .end).2.file.content.length := by
  unfold fileSeek FileStream.seekFile at *
  cases moved : s.file.fseeko 0 .end with
  | none =>
    rw [moved] at went
    cases went
  | some file =>
    obtain ⟨content, pos, le⟩ := FileHandle.fseeko_eq_some moved
    rw [FileHandle.target, Int.add_zero] at pos
    simp only [fileTell, if_neg (Nat.not_lt_of_le le), content, pos]

instance : BoundedStream FileStream where
  good_sound _ sound := sound.pos_le
  sound_inside _ sound := sound
  sound_withBase _ _ _ sound := ⟨sound.pos_le, sound.avail_le⟩
  inside_withBase _ _ sound := ⟨sound.pos_le, sound.avail_le⟩
  ready_fed _ fed := .inl fed
  next_safe s count sound ready := Safely.sure (Outcome.wp_mono (fileNext_safe sound count ready)
    fun _ hr => ⟨⟨hr.1, fun _ => hr.1, hr.2.1⟩, fun v eq =>
      ⟨(hr.2.2 v eq).1, hr.1, fun _ _ _ => trivial⟩⟩)
  next_rest s v s' sound next := by
    rcases Nat.eq_zero_or_pos (sizeAdd 0 ((StreamMeasure.bound s : Int) - tell s)) with zero | pos
    · rw [zero]
      exact Nat.zero_le _
    · exact ((Outcome.wp_of_ret (fileNext_safe sound _ (.inl pos)) next).2.2 v rfl).2.1
  consume_safe s n sound fed := Outcome.wp_mono (fileConsume_safe sound fed) fun _ hu =>
    ⟨⟨hu.1, fun _ => hu.1, hu.2⟩, fun _ _ => trivial⟩
  consume_zero s sound := Outcome.wp_mono (fileConsume_safe sound sound.pos_le) fun _ hu =>
    ⟨hu.1, fun _ => hu.1, hu.2⟩
  readline_line s _ sound ready _ := Outcome.wp_mono (fileReadline_safe sound ready) fun _ hr =>
    ⟨hr.1, fun _ => hr.1, hr.2.1⟩
  readline_free s sound ready free := Outcome.wp_mono (fileReadline_safe sound ready) fun r hr =>
    have stays : Stays s r.2 := ⟨hr.1, fun _ => hr.1, hr.2.1⟩
    ⟨hr.1, stays.free free, fun v eq => ⟨(hr.2.2 v eq).1, Nat.le_succ_of_le (hr.2.2 v eq).2⟩⟩
  scan_safe s tokens sound := Outcome.wp_mono (fileScan_safe sound tokens) fun _ hr =>
    ⟨hr.1, fun _ => hr.1, hr.2⟩
  seek_safe s offset whence sound :=
    have stays := fileSeek_safe sound offset whence
    ⟨stays, fun _ => stays.sound⟩
  seek_end s _ := fileSeek_end
  setInput_safe s sound seekable := by
    change Safely _ (fileFyParserSetInput s)
    have can : s.isSeekable = true := seekable
    rw [fileFyParserSetInput, assert, if_pos can, Outcome.ret_bind]
    split
    · exact .refl sound
    · exact ⟨⟨sound.pos_le, sound.avail_le⟩, fun _ => ⟨sound.pos_le, sound.avail_le⟩, rfl⟩
  moved_safe s pos sound :=
    ⟨⟨sound.pos_le, sound.avail_le⟩, fun _ => ⟨sound.pos_le, sound.avail_le⟩, rfl⟩

/-! ## Memory streams -/

/-- Behind the end there is only the position after a last line without a newline, where
nothing is captured. -/
def MemStream.Sound (s : MemStream) : Prop := s.Good ∧ (s.size < s.pos → s.capture = none)

instance : StreamBounds MemStream where
  Sound := MemStream.Sound
  Inside s := s.Inside ∧ s.size ≤ offMax
  Ready _ := True
  Line s k := s.buf[s.pos + k]? = some newline

theorem memSound_inside {s : MemStream} (inside : s.Inside) (small : s.size ≤ offMax) : s.Sound :=
  ⟨⟨Nat.le_succ_of_le inside, small⟩, fun past => absurd inside (Nat.not_le_of_lt past)⟩

theorem memConsume_safe {s : MemStream} {n : Nat}
    (fits : s.pos + n ≤ s.size ∨ s.capture = none) :
    Safely (fun s' => s'.buf = s.buf ∧ s'.pos = s.pos + n ∧
      s'.capture.isSome = s.capture.isSome) (memConsume s n) := by
  rcases fits with le | free
  · exact Outcome.wp_seq (streamCapture_safe s.toStreamBase le) fun base captured =>
      ⟨rfl, rfl, captured⟩
  · have nothing : s.toStreamBase.streamCapture s.buf s.pos n = .ret s.toStreamBase := by
      rw [StreamBase.streamCapture, free]
    rw [memConsume, nothing]
    exact ⟨rfl, rfl, rfl⟩

theorem memReadline_safe {s : MemStream} (inside : s.Inside)
    (fits : newlineIndex s.remaining ≠ none ∨ s.capture = none) :
    Safely (fun r => r.2.buf = s.buf ∧ r.2.capture.isSome = s.capture.isSome ∧
      r.2.pos ≤ s.size + 1 ∧ (newlineIndex s.remaining ≠ none → r.2.pos ≤ s.size) ∧
      ∀ v, r.1 = some v → 0 < v.len ∧ v.len ≤ v.mem.length + 1) (memReadline s) := by
  have le : s.pos ≤ s.size := inside
  have length := remaining_length s
  rw [memReadline, sizeSub_of_le le]
  split
  · exact ⟨rfl, rfl, Nat.le_succ_of_le le, fun _ => le, by rintro v ⟨⟩⟩
  · rw [(view_shows s).findNewline, Outcome.ret_bind]
    have width : (s.view (s.size - s.pos)).mem.length = s.size - s.pos := length
    cases found : newlineIndex s.remaining with
    | none =>
      have free := fits.resolve_left (absurd found)
      refine Outcome.wp_seq (memConsume_safe (.inr free)) fun t ht => ?_
      obtain ⟨buf, pos, capture⟩ := ht
      refine ⟨buf, capture, ?_, fun other => absurd rfl other, fun v eq => ?_⟩
      · simp only [pos, Option.getD_none]
        omega
      · cases eq
        exact ⟨Nat.succ_pos _, Nat.succ_le_succ (Nat.le_of_eq width.symm)⟩
    | some idx =>
      have lt := (lineLength_of_some found).2
      have within : s.pos + (idx + 1) ≤ s.size := by omega
      refine Outcome.wp_seq (memConsume_safe (.inl within)) fun t ht => ?_
      obtain ⟨buf, pos, capture⟩ := ht
      refine ⟨buf, capture, Nat.le_succ_of_le (pos ▸ within), fun _ => pos ▸ within, fun v eq => ?_⟩
      cases eq
      refine ⟨Nat.succ_pos _, Nat.succ_le_succ (Nat.le_of_lt ?_)⟩
      exact Nat.lt_of_lt_of_eq lt (length.trans width.symm)

/-- A newline ahead is one that a search of the remaining bytes finds. -/
theorem newlineIndex_of_line {s : MemStream} {k : Nat} (line : s.buf[s.pos + k]? = some newline) :
    newlineIndex s.remaining ≠ none := by
  intro none
  have ahead : newline ∈ s.remaining :=
    List.mem_of_getElem? (i := k) (by rw [MemStream.remaining, List.getElem?_drop]; exact line)
  rw [newlineIndex, List.findIdx?_eq_none_iff] at none
  exact absurd (none newline ahead) (by decide)

theorem memScan_safe {s : MemStream} (inside : s.Inside) (tokens : List Bytes) :
    Safely (fun r => r.2.buf = s.buf ∧ r.2.capture.isSome = s.capture.isSome ∧
      r.2.pos ≤ s.size) (memScan s tokens) := by
  have le : s.pos ≤ s.size := inside
  have length := remaining_length s
  rw [memScan, sizeSub_of_le le, (view_shows s).scanTokens, Outcome.ret_bind]
  cases found : scanTokens s.remaining tokens with
  | none =>
    refine Outcome.wp_seq (memConsume_safe (.inl ?_)) fun t ht => ⟨ht.1, ht.2.2, ?_⟩
    · omega
    · rw [ht.2.1]
      omega
  | some m =>
    obtain ⟨offset, tokenIdx⟩ := m
    have lt : offset < s.remaining.length := (firstMatch_eq_some.mp found).1.inside
    refine Outcome.wp_seq (memConsume_safe (.inl ?_)) fun t ht => ⟨ht.1, ht.2.2, ?_⟩
    · omega
    · rw [ht.2.1]
      omega

/-- What leaves the content, and the position in it. -/
theorem memStays {s t : MemStream} (small : s.size ≤ offMax) (buf : t.buf = s.buf)
    (capture : t.capture.isSome = s.capture.isSome) (pos : t.pos ≤ s.size) :
    Stays s t ∧ StreamBounds.Inside t := by
  have size : t.size = s.size := congrArg List.length buf
  have inside : t.Inside := by
    rw [MemStream.Inside, size]
    exact pos
  exact ⟨⟨memSound_inside inside (size ▸ small), fun _ => ⟨inside, size ▸ small⟩, capture⟩,
    inside, size ▸ small⟩

/-- What leaves the content and moves nowhere, also behind the end. -/
theorem memStays_behind {s t : MemStream} (sound : s.Sound) (buf : t.buf = s.buf)
    (capture : t.capture.isSome = s.capture.isSome) (pos : t.pos = s.pos) : Stays s t := by
  have size : t.size = s.size := congrArg List.length buf
  refine ⟨⟨?_, fun past => ?_⟩, fun inside => ?_, capture⟩
  · rw [MemStream.Good, size, pos]
    exact sound.1
  · rw [size, pos] at past
    exact (Option.isSome_eq_isSome.mp capture).mpr (sound.2 past)
  · change t.pos ≤ t.size ∧ t.size ≤ offMax
    rw [size, pos]
    exact inside

theorem memNext_safe (s : MemStream) (count : Nat) :
    Safely (fun r => r.2 = s ∧ ∀ v, r.1 = some v → v.len = v.mem.length ∧ s.Inside ∧
      v.mem = s.buf.drop s.pos) (memNext s count) := by
  rw [memNext]
  split
  · exact ⟨rfl, by rintro v ⟨⟩⟩
  · rename_i before
    refine ⟨rfl, fun v eq => ?_⟩
    cases eq
    exact ⟨(remaining_length s).symm, Nat.le_of_lt (Nat.lt_of_not_le before), rfl⟩

/-- What is asked for to read up to the end is what there is. -/
theorem memRest_length {s : MemStream} (inside : s.Inside) (small : s.size ≤ offMax) :
    sizeAdd 0 ((s.size : Int) - s.pos) ≤ (s.buf.drop s.pos).length := by
  have le : s.pos ≤ s.size := inside
  have length : (s.buf.drop s.pos).length = s.size - s.pos := remaining_length s
  rw [sizeAdd, length, Int.emod_eq_of_lt (by omega) (by simp only [offMax] at small; omega)]
  omega

theorem memSeek_end {s : MemStream} (small : s.size ≤ offMax) : (memSeek s 0 .end).2.pos = s.size := by
  have target : sizeAdd s.size 0 = s.size := by
    rw [sizeAdd, Int.add_zero, Int.emod_eq_of_lt (by omega) (by simp only [offMax] at small; omega)]
    exact Int.toNat_natCast _
  change (if s.newPos 0 .end > s.size then s.size else s.newPos 0 .end) = s.size
  rw [MemStream.newPos, target, if_neg (Nat.lt_irrefl _)]

instance : BoundedStream MemStream where
  good_sound _ sound := sound.1
  sound_inside _ inside := memSound_inside inside.1 inside.2
  sound_withBase _ _ capture sound :=
    ⟨sound.1, fun past => (Option.isSome_eq_isSome.mp capture).mpr (sound.2 past)⟩
  inside_withBase _ _ inside := inside
  ready_fed _ _ := trivial
  next_safe s count sound _ := Outcome.wp_mono (memNext_safe s count) fun r hr => by
    obtain ⟨same, view⟩ := hr
    rw [same]
    refine ⟨.refl sound, fun v eq => ?_⟩
    obtain ⟨len, inside, mem⟩ := view v eq
    refine ⟨Nat.le_of_eq len, ⟨inside, sound.1.2⟩, fun k _ here => ?_⟩
    rwa [mem, List.getElem?_drop] at here
  next_rest s v s' sound next := by
    obtain ⟨-, view⟩ := Outcome.wp_of_ret (memNext_safe s _) next
    obtain ⟨-, inside, mem⟩ := view v rfl
    rw [mem]
    exact memRest_length inside sound.1.2
  consume_safe s n inside fed := by
    have le : s.pos ≤ s.size := inside.1
    have within : s.pos + n ≤ s.size := by
      rcases fed with rfl | within
      · exact le
      · exact within
    refine Outcome.wp_mono (memConsume_safe (.inl within)) fun t ht => ?_
    obtain ⟨buf, pos, capture⟩ := ht
    refine ⟨(memStays inside.2 buf capture (pos ▸ within)).1, fun k line => ?_⟩
    change t.buf[t.pos + k]? = some newline
    rw [buf, pos, Nat.add_assoc]
    exact line
  consume_zero s sound := by
    have fits : s.pos + 0 ≤ s.size ∨ s.capture = none := by
      by_cases past : s.size < s.pos
      · exact .inr (sound.2 past)
      · exact .inl (Nat.le_of_not_lt past)
    refine Outcome.wp_mono (memConsume_safe fits) fun t ht => ?_
    obtain ⟨buf, pos, capture⟩ := ht
    exact memStays_behind sound buf capture pos
  readline_line s k inside _ line := by
    have found := newlineIndex_of_line line
    refine Outcome.wp_mono (memReadline_safe inside.1 (.inl found)) fun r hr => ?_
    exact (memStays inside.2 hr.1 hr.2.1 (hr.2.2.2.1 found)).1
  readline_free s inside _ free := by
    refine Outcome.wp_mono (memReadline_safe inside.1 (.inr free)) fun r hr => ?_
    obtain ⟨buf, capture, pos, -, view⟩ := hr
    have size : r.2.size = s.size := congrArg List.length buf
    have none := (Option.isSome_eq_isSome.mp capture).mpr free
    exact ⟨⟨⟨size ▸ pos, size ▸ inside.2⟩, fun _ => none⟩, none, view⟩
  scan_safe s tokens inside := by
    refine Outcome.wp_mono (memScan_safe inside.1 tokens) fun r hr => ?_
    exact (memStays inside.2 hr.1 hr.2.1 hr.2.2).1
  seek_safe s offset whence sound := by
    have inside : (memSeek s offset whence).2.pos ≤ s.size := (memSeek_inside s offset whence).2
    have moved := memStays sound.1.2 (t := (memSeek s offset whence).2) rfl rfl inside
    exact ⟨moved.1, fun _ => moved.2⟩
  seek_end s sound := by
    have atEnd := memSeek_end sound.1.2
    exact fun _ => congrArg Int.ofNat atEnd
  setInput_safe _ sound _ := .refl sound
  moved_safe _ _ sound := .refl sound

end LibAsdf
