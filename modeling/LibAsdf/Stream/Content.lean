import LibAsdf.Stream.FilePosition
import LibAsdf.Stream.MemPosition

/-!
# Streams that are read

What a file stream and a memory stream have in common as readers: a content, a
position in it, and how much of it is in view.

* `ReadContent`, `Moved`: the common reading, and what a call leaves;
* `LawfulRead`: `next`, `consume` and `tell`, for both kinds of stream.
-/

namespace LibAsdf

open StreamOps

/-- A stream as a position in a content. -/
class ReadContent (σ : Type) where
  /-- fit to be read -/
  Sane : σ → Prop
  content : σ → Bytes
  pos : σ → Nat
  /-- how many bytes from the position on are in view -/
  inView : σ → Nat

namespace ReadContent

variable {σ : Type} [ReadContent σ]

/-- The content from the position on. -/
def coming (s : σ) : Bytes := (content s).drop (pos s)

theorem length_coming (s : σ) : (coming s).length = (content s).length - pos s :=
  List.length_drop

variable [StreamOps σ]

/-- What a call that goes `n` bytes on leaves. -/
structure Moved (s : σ) (n : Nat) (t : σ) : Prop where
  sane : Sane t
  content_eq : content t = content s
  pos_eq : pos t = pos s + n
  error_eq : errorGet t = errorGet s
  seekable_eq : (base t).isSeekable = (base s).isSeekable
  capture_eq : (base t).capture = (base s).capture.map (· ++ (coming s).take n)

theorem Moved.coming_eq {s t : σ} {n : Nat} (h : Moved s n t) :
    coming t = (coming s).drop n := by
  rw [coming, h.content_eq, h.pos_eq, coming, List.drop_drop]

theorem Moved.refl {s : σ} (h : Sane s) : Moved s 0 s where
  sane := h
  content_eq := rfl
  pos_eq := rfl
  error_eq := rfl
  seekable_eq := rfl
  capture_eq := by cases (base s).capture <;> simp

theorem Moved.trans {s t u : σ} {n m : Nat} (h : Moved s n t) (h' : Moved t m u) :
    Moved s (n + m) u where
  sane := h'.sane
  content_eq := h'.content_eq.trans h.content_eq
  pos_eq := by rw [h'.pos_eq, h.pos_eq, Nat.add_assoc]
  error_eq := h'.error_eq.trans h.error_eq
  seekable_eq := h'.seekable_eq.trans h.seekable_eq
  capture_eq := by
    rw [h'.capture_eq, h.capture_eq, h.coming_eq, List.take_add]
    cases (base s).capture <;> simp

end ReadContent

open ReadContent

class LawfulRead (σ : Type) [StreamOps σ] extends ReadContent σ where
  inView_le (s : σ) : Sane s → inView s ≤ (coming s).length
  tell_eq (s : σ) : Sane s → pos s ≤ offMax → tell s = pos s
  next_moves (s : σ) (count : Nat) : Sane s → count ≠ 0 → count ≤ offMax →
    ∃ v t, next s count = .ret (v, t) ∧ Moved s 0 t ∧ inView s ≤ inView t ∧
      min count (coming s).length ≤ inView t ∧ Shown v ((coming s).take (inView t))
  consume_moves (s : σ) (n : Nat) : Sane s → n ≤ inView s →
    ∃ t, consume s n = .ret t ∧ Moved s n t ∧ inView t = inView s - n

theorem StreamBase.streamCapture_eq (b : StreamBase) {mem : Bytes} {off size : Nat}
    (h : off + size ≤ mem.length) : b.streamCapture mem off size =
      .ret { b with capture := b.capture.map (· ++ (mem.drop off).take size) } := by
  obtain ⟨isSeekable, isWriteable, capture, error⟩ := b
  cases capture with
  | none => rfl
  | some captured =>
    simp only [streamCapture, load_of_le h]
    rfl

/-! ## File streams -/

instance : ReadContent FileStream where
  Sane s := s.Coherent
  content s := s.file.content
  pos s := s.filePos
  inView s := s.bufAvail - s.bufPos

theorem FileStream.take_coming {s : FileStream} (h : s.Coherent) {n : Nat}
    (le : n ≤ s.bufAvail - s.bufPos) :
    (s.buf.drop s.bufPos).take n = (coming s).take n := by
  change _ = s.ahead.take n
  rw [← h.remaining_eq, remaining, List.take_append_of_le_length, window, List.take_take,
    Nat.min_eq_left le]
  rw [h.sound.window_length]
  exact le

/-- A `next` that may be made leaves the position, and shows what it has in
view. -/
theorem fileNext_moves {s : FileStream} (h : s.Coherent) {count : Nat} (ok : NextOk s count)
    (small : count ≤ offMax) : ∃ v t, fileNext s count = .ret (v, t) ∧ Moved s 0 t ∧
      inView s ≤ inView t ∧ min count (coming s).length ≤ inView t ∧
      Shown v ((coming s).take (inView t)) := by
  have correct := fileNext_correct h ok
  have spec := fileNext_spec h.sound.pos_le count
  cases run : fileNext s count with
  | fault e => rw [run] at correct; exact correct.elim
  | timeout => rw [run] at correct; exact correct.elim
  | ret r =>
    obtain ⟨v, t⟩ := r
    rw [run] at correct spec
    obtain ⟨coherent, content, filePos, same, ⟨shown, enough, -⟩ | ⟨large, -⟩⟩ := correct
    · rcases spec with ⟨base, -, -, next⟩ | ⟨large, -, -⟩
      · simp only at coherent content filePos same shown enough base next
        have width := coherent.sound.window_length
        have begins : (coming s).take (t.bufAvail - t.bufPos) = t.window := by
          change s.ahead.take _ = _
          rw [← h.remaining_eq, ← same, FileStream.remaining, ← width, List.take_left]
        have seen : min count (coming s).length ≤ t.window.length := by
          change min count s.ahead.length ≤ _
          rw [← h.remaining_eq]
          rcases enough with enough | whole
          · omega
          · rw [whole]
            exact Nat.min_le_right _ _
        refine ⟨v, t, rfl, ⟨coherent, content, filePos, ?_, ?_, ?_⟩, ?_, ?_, ?_⟩
        · change t.toStreamBase.error = s.toStreamBase.error
          rw [base]
        · change t.toStreamBase.isSeekable = s.toStreamBase.isSeekable
          rw [base]
        · change t.toStreamBase.capture = s.toStreamBase.capture.map _
          rw [base]
          cases s.toStreamBase.capture <;> simp
        · change s.bufAvail - s.bufPos ≤ t.bufAvail - t.bufPos
          have le := h.sound.pos_le
          cases next with
          | kept _ _ bufPos avail _ _ _ => omega
          | shifted _ _ bufPos avail _ _ => omega
          | filled _ exhausted _ _ _ _ _ => omega
        · change min count (coming s).length ≤ t.bufAvail - t.bufPos
          omega
        · change Shown v ((coming s).take (t.bufAvail - t.bufPos))
          rw [begins]
          exact shown
      · omega
    · omega

theorem fileConsume_moves {s : FileStream} {n : Nat} (h : Sane s) (le : n ≤ inView s) :
    ∃ t, consume s n = .ret t ∧ Moved s n t ∧ inView t = inView s - n := by
  change n ≤ s.bufAvail - s.bufPos at le
  obtain ⟨t, consumed, coherent, file, filePos, -, view⟩ := fileConsume_correct h n le
  have upper := h.sound.avail_le
  have lower := h.sound.pos_le
  refine ⟨t, consumed, ?_, view⟩
  rw [fileConsume, StreamBase.streamCapture_eq _ (show s.bufPos + n ≤ s.buf.length by omega)]
    at consumed
  cases consumed
  refine ⟨coherent, rfl, filePos, rfl, rfl, ?_⟩
  change s.capture.map _ = s.capture.map _
  rw [FileStream.take_coming h le]

instance : LawfulRead FileStream where
  inView_le s h := by
    change s.bufAvail - s.bufPos ≤ s.ahead.length
    rw [← h.remaining_eq, FileStream.remaining, List.length_append, h.sound.window_length]
    exact Nat.le_add_right _ _
  tell_eq s _ le := by
    have le : s.filePos ≤ offMax := le
    change fileTell s = _
    rw [fileTell, if_neg (Nat.not_lt_of_le le)]
    rfl
  next_moves s count h some small := fileNext_moves h (.inl some) small
  consume_moves _ _ := fileConsume_moves

/-! ## Memory streams -/

instance : ReadContent MemStream where
  Sane s := s.Inside
  content s := s.buf
  pos s := s.pos
  inView s := s.size - s.pos

theorem memConsume_moves {s : MemStream} {n : Nat} (h : Sane s) (le : n ≤ inView s) :
    ∃ t, consume s n = .ret t ∧ Moved s n t ∧ inView t = inView s - n := by
  have inside : s.pos + n ≤ s.buf.length := by
    have : s.pos ≤ s.buf.length := h
    have : n ≤ s.buf.length - s.pos := le
    omega
  have consumed : memConsume s n = .ret { s with
      toStreamBase := { s.toStreamBase with
        capture := s.capture.map (· ++ (s.buf.drop s.pos).take n) }
      pos := s.pos + n } := by
    rw [memConsume, StreamBase.streamCapture_eq _ inside]
    rfl
  refine ⟨_, consumed, ⟨inside, rfl, rfl, rfl, rfl, rfl⟩, ?_⟩
  change s.buf.length - (s.pos + n) = s.buf.length - s.pos - n
  omega

instance : LawfulRead MemStream where
  inView_le s h := by
    rw [length_coming]
    exact Nat.le_refl _
  tell_eq s _ _ := rfl
  next_moves s count h _ _ := by
    obtain ⟨v, next, shown⟩ := memNext_correct s count
    have whole : (coming s).take (s.size - s.pos) = s.remaining :=
      List.take_of_length_le (Nat.le_of_eq (length_coming s))
    refine ⟨v, s, next, .refl h, Nat.le_refl _, ?_, ?_⟩
    · rw [length_coming]
      exact Nat.min_le_right _ _
    · change Shown v ((coming s).take (s.size - s.pos))
      rw [whole]
      exact shown
  consume_moves _ _ := memConsume_moves

end LibAsdf
