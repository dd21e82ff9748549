import LibAsdf.Stream.FilePosition

/-!
# Seeking where a stream cannot

`asdf_stream_seek` of a file stream that is not seekable, which reads and consumes
what it passes over.

* `fileNext_shows`: what `next` shows, whatever the position is said to be;
* `Skipped`, `skip_run`: the loop;
* `SeekCorrect`, `seek_correct_iff`: when the call does what it is to do.
-/

namespace LibAsdf

open StreamOps FileStream

variable {s t : FileStream}

/-- What `next` leaves and shows of the bytes to come. -/
structure Showing (s : FileStream) (count : Nat) (r : Option View × FileStream) : Prop where
  base : r.2.toStreamBase = s.toStreamBase
  filePos : r.2.filePos = s.filePos
  sound : r.2.Sound
  remaining : r.2.remaining = s.remaining
  shown : r.1 = r.2.shown
  enough : count ≤ r.2.window.length ∨ r.2.window = s.remaining

theorem fileNext_shows (sound : s.Sound) {count : Nat} (some : count ≠ 0)
    (small : count ≤ offMax) : ∃ r, fileNext s count = .ret r ∧ Showing s count r := by
  have spec := fileNext_spec sound.pos_le count
  cases run : fileNext s count with
  | fault e =>
    rw [run] at spec
    exact absurd sound spec.2
  | timeout =>
    rw [run] at spec
    exact spec.elim
  | ret r =>
    rw [run] at spec
    refine ⟨r, rfl, ?_⟩
    obtain ⟨base, filePos, shown, next⟩ | ⟨large, -⟩ := spec
    · cases next with
      | kept enough _ _ _ _ _ same =>
        have same := same sound
        refine ⟨base, filePos, ?_, by rw [same], shown, .inl ?_⟩
        · rw [same]
          exact sound
        · rw [same, sound.window_length]
          exact enough
      | shifted short size bufPos avail bytes file =>
        obtain ⟨sound', window, remaining⟩ :=
          shifted_remaining sound size bufPos avail (bytes sound) file
        refine ⟨base, filePos, sound', remaining, shown, ?_⟩
        rw [window, List.length_take]
        obtain le | le := Nat.le_total s.remaining.length r.2.buf.length
        · exact .inr (List.take_of_length_le le)
        · exact .inl (by omega)
      | filled none => exact absurd none some
    · exact absurd small (Nat.not_le_of_lt large)

/-- A stream that has gone on by `n` bytes, or as many as there were. -/
structure Skipped (s : FileStream) (n : Nat) (t : FileStream) : Prop where
  sound : t.Sound
  remaining : t.remaining = s.remaining.drop n
  filePos : t.filePos = s.filePos + min n s.remaining.length

/-- Later reads show the bytes from there. -/
theorem Skipped.next {n : Nat} (h : Skipped s n t) {count : Nat} (some : count ≠ 0)
    (small : count ≤ offMax) : ∃ v u bytes, fileNext t count = .ret (v, u) ∧ Shown v bytes ∧
      bytes <+: s.remaining.drop n ∧ (count ≤ bytes.length ∨ bytes = s.remaining.drop n) := by
  obtain ⟨⟨v, u⟩, run, shows⟩ := fileNext_shows h.sound some small
  have shown : v = u.shown := shows.shown
  have remaining : u.remaining = s.remaining.drop n := shows.remaining.trans h.remaining
  refine ⟨v, u, u.window, run, ?_, ?_, ?_⟩
  · rw [shown]
    exact shown_window shows.sound
  · rw [← remaining]
    exact List.prefix_append _ _
  · rw [← h.remaining]
    exact shows.enough

theorem Skipped.refl (sound : s.Sound) : Skipped s 0 s where
  sound
  remaining := rfl
  filePos := by rw [Nat.zero_min, Nat.add_zero]

/-- A round that has an error does not go on. -/
theorem skipRound_of_error {n : Nat} (sound : s.Sound) (error : s.error ≠ none) :
    ∃ t, skipRound (n + 1, s) = .ret (.inr (false, t)) ∧ Skipped s 0 t := by
  obtain ⟨⟨v, t⟩, run, shows⟩ := fileNext_shows sound Nat.one_ne_zero (by decide)
  have base : t.toStreamBase = s.toStreamBase := shows.base
  refine ⟨t, ?_, shows.sound, shows.remaining, ?_⟩
  · have set : (errorGet t).isSome = true := by
      change t.toStreamBase.error.isSome = true
      rw [base]
      exact Option.ne_none_iff_isSome.mp error
    change (fileNext s 1 >>= _) = _
    rw [run, Outcome.ret_bind]
    exact if_pos set
  · rw [Nat.zero_min]
    exact shows.filePos

/-- A round consumes what is in view, and is the last where nothing is to come. -/
theorem skipRound_succ {n : Nat} (sound : s.Sound) (clear : s.error = none) :
    (s.remaining = [] ∧ ∃ t, skipRound (n + 1, s) = .ret (.inr (true, t)) ∧ Skipped s 0 t) ∨
    ∃ count t, 0 < count ∧ count ≤ n + 1 ∧ count ≤ s.remaining.length ∧
      skipRound (n + 1, s) = .ret (.inl (n + 1 - count, t)) ∧ t.error = none ∧ Skipped s count t := by
  obtain ⟨⟨v, t⟩, run, shows⟩ := fileNext_shows sound Nat.one_ne_zero (by decide)
  have base : t.toStreamBase = s.toStreamBase := shows.base
  have sound' : t.Sound := shows.sound
  have remaining : t.remaining = s.remaining := shows.remaining
  have filePos : t.filePos = s.filePos := shows.filePos
  have shown : v = if t.bufAvail - t.bufPos > 0 then
      some ⟨t.buf.drop t.bufPos, t.bufAvail - t.bufPos⟩ else none := by
    rw [← sizeSub_of_le sound'.pos_le]
    exact shows.shown
  have none : ¬ (errorGet t).isSome = true := by
    change ¬ t.toStreamBase.error.isSome = true
    rw [base, clear]
    exact Bool.false_ne_true
  have width := sound'.window_length
  by_cases left : t.bufAvail - t.bufPos > 0
  · right
    rw [if_pos left] at shown
    subst shown
    generalize chosen : (if t.bufAvail - t.bufPos ≥ n + 1 then n + 1 else t.bufAvail - t.bufPos) =
      count
    have bounds : 0 < count ∧ count ≤ n + 1 ∧ count ≤ t.bufAvail - t.bufPos := by
      split at chosen <;> omega
    obtain ⟨base', error, -, consumed⟩ := fileConsume_sound sound' count bounds.2.2
    have inside : count ≤ t.remaining.length := by
      rw [FileStream.remaining, List.length_append]
      omega
    rw [remaining] at inside
    let u : FileStream := { t with
      toStreamBase := base'
      bufPos := t.bufPos + count
      filePos := t.filePos + count }
    refine ⟨count, u, bounds.1, bounds.2.1, inside, ?_, ?_, ?_⟩
    · change (fileNext s 1 >>= _) = _
      rw [run, Outcome.ret_bind]
      refine (if_neg none).trans ?_
      dsimp only
      rw [chosen]
      change (fileConsume t count >>= _) = _
      rw [consumed]
      rfl
    · refine error.trans ?_
      rw [base]
      exact clear
    · refine ⟨⟨?_, sound'.avail_le⟩, ?_, ?_⟩
      · change t.bufPos + count ≤ t.bufAvail
        omega
      · rw [FileStream.remaining, window_consumed, ← remaining, FileStream.remaining,
          List.drop_append_of_le_length (by omega)]
      · rw [Nat.min_eq_left inside]
        exact congrArg (· + count) filePos
  · left
    rw [if_neg left] at shown
    subst shown
    have empty : t.window = [] := List.length_eq_zero_iff.mp (by omega)
    refine ⟨?_, t, ?_, sound', remaining, ?_⟩
    · obtain enough | whole := shows.enough
      · change 1 ≤ t.window.length at enough
        omega
      · exact whole.symm.trans empty
    · change (fileNext s 1 >>= _) = _
      rw [run, Outcome.ret_bind]
      exact if_neg none
    · rw [filePos, Nat.zero_min]
      rfl

theorem Skipped.trans {u : FileStream} {n count : Nat} (h : Skipped s count t)
    (inside : count ≤ s.remaining.length) (le : count ≤ n) (h' : Skipped t (n - count) u) :
    Skipped s n u where
  sound := h'.sound
  remaining := by
    rw [h'.remaining, h.remaining, List.drop_drop, Nat.add_sub_cancel' le]
  filePos := by
    rw [h'.filePos, h.filePos, h.remaining, List.length_drop]
    omega

/-- The loop passes over all the bytes it is to, or all that are to come. -/
theorem skip_run (fuel n : Nat) (sound : s.Sound) (clear : s.error = none) (enough : n < fuel) :
    ∃ t, Outcome.loop skipRound fuel (n, s) = .ret (true, t) ∧ Skipped s n t := by
  induction fuel generalizing n s with
  | zero => exact absurd enough (Nat.not_lt_zero n)
  | succ fuel ih =>
    cases n with
    | zero => exact ⟨s, rfl, .refl sound⟩
    | succ n =>
      rw [Outcome.loop_succ]
      obtain ⟨none, t, round, skipped⟩ |
        ⟨count, t, pos, le, inside, round, clear', skipped⟩ := skipRound_succ (n := n) sound clear
      · rw [round]
        refine ⟨t, rfl, skipped.sound, ?_, ?_⟩
        · rw [skipped.remaining, none, List.drop_nil, List.drop_nil]
        · rw [skipped.filePos, none]
          rfl
      · rw [round]
        obtain ⟨u, rest, skipped'⟩ := ih (n + 1 - count) skipped.sound clear' (by omega)
        exact ⟨u, rest, skipped.trans inside le skipped'⟩

theorem skip_of_error (fuel n : Nat) (sound : s.Sound) (error : s.error ≠ none) :
    ∃ t, Outcome.loop skipRound (fuel + 1) (n + 1, s) = .ret (false, t) ∧ Skipped s 0 t := by
  obtain ⟨t, round, skipped⟩ := skipRound_of_error (n := n) sound error
  refine ⟨t, ?_, skipped⟩
  rw [Outcome.loop_succ, round]
  rfl

/-- Only an advance from where the stream is goes through, by as many bytes as there
are; everything else is an error, and moves nothing. -/
def SeekCorrect (s : FileStream) (offset : Int) (whence : Whence)
    (run : Run (Bool × FileStream)) : Prop :=
  ∃ ok t, run = .ret (ok, t) ∧
    if whence = .cur ∧ 0 ≤ offset then ok = true ∧ Skipped s offset.toNat t
    else ok = false ∧ Skipped s 0 t

/-- The guard of `asdf_stream_seek` lets all other calls through. -/
theorem streamSeek_forward (unseekable : s.isSeekable = false) {offset : Int} {whence : Whence}
    (passes : ¬ (offset < 0 ∧ whence ≠ .cur)) : streamSeek s offset whence =
      assert (0 ≤ offset) >>= fun _ =>
        Outcome.loop skipRound (offset.toNat + 1) (offset.toNat, s) := by
  have base : (base s).isSeekable = false := unseekable
  unfold streamSeek
  rw [base, if_neg, if_neg Bool.false_ne_true]
  rw [Bool.and_eq_true, Bool.and_eq_true, bne_iff_ne, decide_eq_true_iff]
  rintro ⟨⟨-, before⟩, other⟩
  exact passes ⟨before, other⟩

/-- A seek of a stream that cannot seek does what it is to do just if the offset is
negative and not from where the stream is; or if it is not negative, and is from
there unless there is something to pass over and an error already. -/
theorem seek_correct_iff (sound : s.Sound) (unseekable : s.isSeekable = false) (offset : Int)
    (whence : Whence) : SeekCorrect s offset whence (streamSeek s offset whence) ↔
      (offset < 0 ∧ whence ≠ .cur) ∨
        (0 ≤ offset ∧ (whence = .cur ↔ s.error = none ∨ offset = 0)) := by
  by_cases refused : offset < 0 ∧ whence ≠ .cur
  · refine iff_of_true ⟨false, setError s .system, ?_, ?_⟩ (.inl refused)
    · have base : (base s).isSeekable = false := unseekable
      unfold streamSeek
      rw [base, if_pos]
      · rfl
      · rw [decide_eq_true refused.1, bne_iff_ne.mpr refused.2]
        rfl
    · rw [if_neg fun forward => refused.2 forward.1]
      exact ⟨rfl, ⟨sound.pos_le, sound.avail_le⟩, rfl, (Nat.add_zero _).symm.trans
        (congrArg _ (Nat.zero_min _).symm)⟩
  · rw [or_iff_right refused, streamSeek_forward unseekable refused]
    by_cases pos : 0 ≤ offset
    · rw [and_iff_right pos, assert, decide_eq_true pos, if_pos rfl, Outcome.ret_bind]
      by_cases clear : s.error = none ∨ offset = 0
      · -- the loop ends well, whatever `whence` is
        obtain ⟨t, run, skipped⟩ : ∃ t, Outcome.loop skipRound (offset.toNat + 1)
            (offset.toNat, s) = .ret (true, t) ∧ Skipped s offset.toNat t := by
          obtain clear | rfl := clear
          · exact skip_run _ _ sound clear (Nat.lt_succ_self _)
          · exact ⟨s, rfl, .refl sound⟩
        rw [run, iff_true_right clear]
        constructor
        · rintro ⟨ok, t', ⟨⟩, correct⟩
          split at correct
          · rename_i forward
            exact forward.1
          · cases correct.1
        · intro forward
          refine ⟨true, t, rfl, ?_⟩
          rw [if_pos ⟨forward, pos⟩]
          exact ⟨rfl, skipped⟩
      · rw [not_or] at clear
        obtain ⟨n, size⟩ : ∃ n, offset.toNat = n + 1 := ⟨offset.toNat - 1, by omega⟩
        obtain ⟨t, run, skipped⟩ := skip_of_error (offset.toNat) n sound clear.1
        rw [size] at run ⊢
        rw [run, iff_false_right (not_or.mpr clear)]
        constructor
        · rintro ⟨ok, t', ⟨⟩, correct⟩ forward
          rw [if_pos ⟨forward, pos⟩] at correct
          cases correct.1
        · intro other
          refine ⟨false, t, rfl, ?_⟩
          rw [if_neg fun forward => other forward.1]
          exact ⟨rfl, skipped⟩
    · rw [assert, decide_eq_false pos]
      refine iff_of_false ?_ fun h => pos h.1
      rintro ⟨ok, t, ⟨⟩, -⟩

/-- A pipe of four bytes. -/
def pipe : FileStream := streamFromFp [1, 2, 3, 4] [0, 0] false false

theorem seek_correct_iff_forward : SeekCorrect pipe 3 .cur (streamSeek pipe 3 .cur) ↔
    ((3 : Int) < 0 ∧ Whence.cur ≠ .cur) ∨
      ((0 : Int) ≤ 3 ∧ (Whence.cur = .cur ↔ pipe.error = none ∨ (3 : Int) = 0)) :=
  seek_correct_iff (sound_streamFromFp _ _ _ _) rfl 3 .cur

/-- A seek to a place in a pipe goes on from where it is, and does not fail; one back
runs into the assertion. -/
theorem seek_goes_on :
    ¬ SeekCorrect pipe 2 .set (streamSeek pipe 2 .set) ∧
    ¬ SeekCorrect pipe (-1) .cur (streamSeek pipe (-1) .cur) := by
  constructor
  · rintro ⟨ok, t, run, correct⟩
    rw [if_neg fun forward => nomatch forward.1] at correct
    obtain ⟨u, passed⟩ : ∃ u, streamSeek pipe 2 .set = .ret (true, u) := ⟨_, rfl⟩
    cases passed.symm.trans run
    cases correct.1
  · rintro ⟨ok, t, run, -⟩
    cases run

end LibAsdf
