import LibAsdf.Stream.Mem

/-!
# Positions of a memory stream

Over any sequence of calls the position stays inside the buffer and every
access is inside it, as long as no `readline` meets a last line without a
newline and no `seek` aims before the start.

* `memOp_correct_iff`: one step, from a position inside the buffer;
* `memRun_correct`: every run;
* `mem_position_lost`: runs without the condition.
-/

namespace LibAsdf

/-- The calls that a memory stream serves. -/
inductive MemOp where
  | next (count : Nat)
  | consume (count : Nat)
  | readline
  | scan (tokens : List Bytes)
  | seek (offset : Int) (whence : Whence)
  | write (bytes : Bytes)
  deriving Repr

/-- What the calls return. -/
inductive MemReply where
  | done
  | bytes (v : Option View)
  | found (m : Option (Nat × Nat))
  | sought (ok : Bool)
  | wrote (count : Nat)
  deriving DecidableEq, Repr

def memOp (op : MemOp) (s : MemStream) : Run (MemReply × MemStream) :=
  match op with
  | .next count => do
    let (v, s) ← memNext s count
    return (.bytes v, s)
  | .consume count => do
    let s ← memConsume s count
    return (.done, s)
  | .readline => do
    let (v, s) ← memReadline s
    return (.bytes v, s)
  | .scan tokens => do
    let (m, s) ← memScan s tokens
    return (.found m, s)
  | .seek offset whence =>
    let (ok, s) := memSeek s offset whence
    return (.sought ok, s)
  | .write bytes => do
    let (count, s) ← memWrite s bytes
    return (.wrote count, s)

/-- Only what is available is consumed. -/
def MemOp.Allowed (s : MemStream) : MemOp → Prop
  | .consume count => count ≤ s.size - s.pos
  | _ => True

namespace MemStream

/-- The position is inside the buffer, or at its end. -/
def Inside (s : MemStream) : Prop := s.pos ≤ s.size

/-- The position that a seek names, which may be before the start. -/
def seekTarget (s : MemStream) (offset : Int) : Whence → Int
  | .set => offset
  | .cur => s.pos + offset
  | .end => s.size + offset

end MemStream

open MemStream

/-- What a call returns and leaves when it does right. -/
def MemOp.Correct (s : MemStream) (op : MemOp) (r : MemReply × MemStream) : Prop :=
  r.2.Inside ∧
    match op with
    | .next _ => r.2 = s ∧ ∃ v, r.1 = .bytes v ∧ Shown v s.remaining
    | .consume count => r.2.pos = s.pos + count
    | .readline => r.2.pos = s.pos + lineLength s.remaining ∧
        ∃ v, r.1 = .bytes v ∧ Shown v (s.remaining.take (lineLength s.remaining))
    | .scan tokens => r.1 = .found ((scanTokens s.remaining tokens).map
          fun m => (m.1 + s.pos, m.2)) ∧
        r.2.pos = ((scanTokens s.remaining tokens).map fun m => m.1 + s.pos).getD s.size
    | .seek offset whence => s.seekTarget offset whence < 0 →
        r.1 = .sought false ∧ r.2.pos = s.pos
    | .write bytes => ∃ count ≤ bytes.length, r.1 = .wrote count ∧ r.2.pos = s.pos + count ∧
        r.2.buf.take r.2.pos = s.buf.take s.pos ++ bytes.take count

/-- The condition on the stream before a call. -/
def MemOp.StepOk (s : MemStream) : MemOp → Prop
  | .readline => newlineIndex s.remaining ≠ none ∨ s.remaining = []
  | .seek offset whence => 0 ≤ s.seekTarget offset whence
  | _ => True

variable {s : MemStream}

theorem remaining_length (s : MemStream) : s.remaining.length = s.size - s.pos :=
  List.length_drop

theorem view_shows (s : MemStream) : (s.view (s.size - s.pos)).Shows s.remaining := by
  refine ⟨(remaining_length s).symm, ?_⟩
  rw [view, ← remaining_length]
  exact List.take_length

theorem memConsume_of_le (h : s.Inside) (count : Nat) (le : count ≤ s.size - s.pos) :
    ∃ base : StreamBase, memConsume s count =
      .ret { s with toStreamBase := base, pos := s.pos + count } := by
  have inside : s.pos + count ≤ s.buf.length := by
    have : s.pos ≤ s.buf.length := h
    have : count ≤ s.buf.length - s.pos := le
    omega
  obtain ⟨base, captured⟩ := s.toStreamBase.streamCapture_of_le _ _ _ inside
  exact ⟨base, by rw [memConsume, captured]; rfl⟩

/-! ## One step -/

theorem memNext_correct (s : MemStream) (count : Nat) :
    ∃ v, memNext s count = .ret (v, s) ∧ Shown v s.remaining := by
  rw [memNext]
  by_cases ends : s.pos ≥ s.size
  · rw [if_pos ends]
    refine ⟨none, rfl, List.length_eq_zero_iff.mp ?_⟩
    rw [remaining_length]
    omega
  · rw [if_neg ends]
    exact ⟨_, rfl, view_shows s⟩

theorem memScan_correct (h : s.Inside) (tokens : List Bytes) :
    ∃ s', memScan s tokens = .ret ((scanTokens s.remaining tokens).map
        fun m => (m.1 + s.pos, m.2), s') ∧ s'.Inside ∧
      s'.pos = ((scanTokens s.remaining tokens).map fun m => m.1 + s.pos).getD s.size := by
  have length := remaining_length s
  have pos : s.pos ≤ s.size := h
  simp only [memScan, sizeSub_of_le pos, (view_shows s).scanTokens, Outcome.ret_bind]
  cases found : scanTokens s.remaining tokens with
  | some m =>
    obtain ⟨offset, tokenIdx⟩ := m
    have lt : offset < s.remaining.length := (firstMatch_eq_some.mp found).1.inside
    obtain ⟨base, consumed⟩ := memConsume_of_le h offset (by omega)
    simp only [consumed, Outcome.ret_bind]
    refine ⟨_, rfl, ?_, Nat.add_comm _ _⟩
    change s.pos + offset ≤ s.size
    omega
  | none =>
    obtain ⟨base, consumed⟩ := memConsume_of_le h (s.size - s.pos) (Nat.le_refl _)
    simp only [consumed, Outcome.ret_bind]
    have ends : s.pos + (s.size - s.pos) = s.size := by omega
    exact ⟨_, rfl, Nat.le_of_eq ends, ends⟩

theorem memSeek_inside (s : MemStream) (offset : Int) (whence : Whence) :
    (memSeek s offset whence).1 = true ∧ (memSeek s offset whence).2.Inside := by
  refine ⟨rfl, ?_⟩
  change (if s.newPos offset whence > s.size then s.size else s.newPos offset whence) ≤ s.size
  split <;> omega

theorem memWriteInto_correct (h : s.Inside) (bytes : Bytes) :
    ∃ count ≤ bytes.length, ∃ s', memWriteInto s bytes = .ret (count, s') ∧ s'.Inside ∧
      s'.pos = s.pos + count ∧ s'.buf.take s'.pos = s.buf.take s.pos ++ bytes.take count := by
  have pos : s.pos ≤ s.buf.length := h
  simp only [memWriteInto, sizeSub_of_le (show s.pos ≤ s.size from pos)]
  generalize copied : (if s.size - s.pos < bytes.length then s.size - s.pos
    else bytes.length) = count
  have le : count ≤ bytes.length ∧ s.pos + count ≤ s.buf.length := by
    have : s.size = s.buf.length := rfl
    split at copied <;> omega
  have takeLen : (bytes.take count).length = count := by
    rw [List.length_take]
    omega
  obtain ⟨buf, stored, size, front⟩ := store_of_le s.buf s.pos (bytes.take count) (by omega)
  rw [takeLen] at front
  simp only [stored, Outcome.ret_bind]
  refine ⟨count, le.1, _, rfl, ?_, rfl, front⟩
  simp only [Inside, MemStream.size, size]
  exact le.2

theorem memWrite_correct (h : s.Inside) (bytes : Bytes) :
    ∃ count ≤ bytes.length, ∃ s', memWrite s bytes = .ret (count, s') ∧ s'.Inside ∧
      s'.pos = s.pos + count ∧ s'.buf.take s'.pos = s.buf.take s.pos ++ bytes.take count := by
  have pos : s.pos ≤ s.buf.length := h
  simp only [memWrite]
  split
  · split
    · exact ⟨0, Nat.zero_le _, _, rfl, h, rfl, by simp⟩
    · have grown : MemStream.Inside
          { s with buf := s.buf ++ List.replicate bytes.length 0 } := by
        simp only [Inside, MemStream.size, List.length_append]
        omega
      obtain ⟨count, le, s', wrote, inside, pos', front⟩ := memWriteInto_correct grown bytes
      refine ⟨count, le, s', wrote, inside, pos', ?_⟩
      rw [front, List.take_append_of_le_length pos]
  · exact memWriteInto_correct h bytes

theorem memReadline_correct (h : s.Inside) (ok : MemOp.StepOk s .readline) :
    ∃ v s', memReadline s = .ret (v, s') ∧ s'.Inside ∧
      s'.pos = s.pos + lineLength s.remaining ∧
      Shown v (s.remaining.take (lineLength s.remaining)) := by
  have length := remaining_length s
  have pos : s.pos ≤ s.size := h
  simp only [memReadline, sizeSub_of_le pos]
  by_cases ends : s.size - s.pos = 0
  · have empty : s.remaining = [] := List.length_eq_zero_iff.mp (by omega)
    rw [if_pos ends, empty]
    exact ⟨none, s, rfl, h, rfl, rfl⟩
  · rw [if_neg ends]
    cases found : newlineIndex s.remaining with
    | none =>
      rcases ok with ok | ok
      · exact absurd found ok
      · rw [ok] at length
        exact absurd length.symm ends
    | some idx =>
      obtain ⟨line, lt⟩ := lineLength_of_some found
      obtain ⟨base, consumed⟩ := memConsume_of_le h (idx + 1) (by omega)
      simp only [(view_shows s).findNewline, found, Outcome.ret_bind, Option.getD_some, consumed,
        line]
      refine ⟨_, _, rfl, ?_, rfl, ?_, rfl⟩
      · change s.pos + (idx + 1) ≤ s.size
        omega
      · rw [List.length_take]
        change idx + 1 = _
        omega

/-- After a last line without a newline the position is past the buffer. -/
theorem memReadline_past_end (h : s.Inside) (unended : newlineIndex s.remaining = none)
    (some : s.remaining ≠ []) {r : Option View × MemStream} (result : memReadline s = .ret r) :
    ¬ r.2.Inside := by
  have length := remaining_length s
  have pos : s.pos ≤ s.size := h
  have left : s.size - s.pos ≠ 0 := fun zero => some (List.length_eq_zero_iff.mp (by omega))
  simp only [memReadline, sizeSub_of_le pos, if_neg left, (view_shows s).findNewline, unended,
    Outcome.ret_bind, Option.getD_none] at result
  obtain ⟨s', consumed, eq⟩ := Outcome.bind_eq_ret.mp result
  obtain ⟨base, -, eq'⟩ := Outcome.bind_eq_ret.mp consumed
  cases eq
  cases eq'
  change ¬ s.pos + (s.size - s.pos + 1) ≤ s.size
  omega

/-- From a position inside the buffer a call does right exactly under its
condition. -/
theorem memOp_correct_iff (h : s.Inside) {op : MemOp} (allowed : op.Allowed s) :
    (∃ r, memOp op s = .ret r ∧ op.Correct s r) ↔ op.StepOk s := by
  cases op with
  | next count =>
    obtain ⟨v, next, shown⟩ := memNext_correct s count
    rw [memOp, next]
    exact iff_of_true ⟨_, rfl, h, rfl, v, rfl, shown⟩ trivial
  | consume count =>
    obtain ⟨base, consumed⟩ := memConsume_of_le h count allowed
    have : count ≤ s.size - s.pos := allowed
    have : s.pos ≤ s.size := h
    rw [memOp, consumed]
    refine iff_of_true ⟨_, rfl, ?_, rfl⟩ trivial
    change s.pos + count ≤ s.size
    omega
  | readline =>
    constructor
    · rintro ⟨r, result, inside, -⟩
      by_cases empty : s.remaining = []
      · exact .inr empty
      · refine .inl fun unended => ?_
        obtain ⟨⟨v, s'⟩, line, eq⟩ := Outcome.bind_eq_ret.mp result
        cases eq
        exact memReadline_past_end h unended empty line inside
    · intro ok
      obtain ⟨v, s', line, inside, pos, shown⟩ := memReadline_correct h ok
      rw [memOp, line]
      exact ⟨_, rfl, inside, pos, v, rfl, shown⟩
  | scan tokens =>
    obtain ⟨s', scanned, inside, pos⟩ := memScan_correct h tokens
    rw [memOp, scanned]
    exact iff_of_true ⟨_, rfl, inside, rfl, pos⟩ trivial
  | seek offset whence =>
    obtain ⟨succeeds, inside⟩ := memSeek_inside s offset whence
    constructor
    · rintro ⟨r, result, -, correct⟩
      apply Int.not_lt.mp
      intro before
      cases result
      have failed := (correct before).1
      cases failed
    · intro ok
      exact ⟨_, rfl, inside, fun before => absurd ok (Int.not_le.mpr before)⟩
  | write bytes =>
    obtain ⟨count, le, s', wrote, inside, pos, front⟩ := memWrite_correct h bytes
    rw [memOp, wrote]
    exact iff_of_true ⟨_, rfl, inside, count, le, rfl, pos, front⟩ trivial

/-! ## Runs -/

/-- The streams that calls reach, each call meeting `ok`. -/
inductive MemRun (ok : MemStream → MemOp → Prop) (start : MemStream) : MemStream → Prop
  | start : MemRun ok start start
  | step {s s' : MemStream} {reply : MemReply} (op : MemOp) :
      MemRun ok start s → op.Allowed s → ok s op → memOp op s = .ret (reply, s') →
      MemRun ok start s'

/-- In every run whose calls meet their condition the position is inside the
buffer, and every call made there does right exactly under its condition. -/
theorem memRun_correct {start : MemStream} (inside : start.Inside)
    (run : MemRun (fun s op => op.StepOk s) start s) :
    s.Inside ∧ ∀ op : MemOp, op.Allowed s →
      ((∃ r, memOp op s = .ret r ∧ op.Correct s r) ↔ op.StepOk s) := by
  have inside : s.Inside := by
    induction run with
    | start => exact inside
    | step op _ allowed ok result ih =>
      obtain ⟨r, result', correct⟩ := (memOp_correct_iff ih allowed).mpr ok
      rw [result] at result'
      cases result'
      exact correct.1
  exact ⟨inside, fun op allowed => memOp_correct_iff inside allowed⟩

theorem memRun_correct_line :
    ∃ r s, memReadline (streamFromMemory [97, newline, 98]) = .ret (r, s) ∧ s.pos = 2 ∧
      s.Inside :=
  ⟨_, _, rfl, rfl, (memRun_correct
    (show (streamFromMemory [97, newline, 98]).Inside from Nat.zero_le _)
    (.step .readline .start trivial (.inl (by decide)) rfl)).1⟩

/-- A last line without a newline is reported one byte too long and leaves the
position past the buffer; a seek to before the start succeeds, at the end. -/
theorem mem_position_lost :
    (∃ v s, memReadline (streamFromMemory [97, 98]) = .ret (some v, s) ∧
      MemRun (fun _ _ => True) (streamFromMemory [97, 98]) s ∧
      v.len = 3 ∧ s.pos = 3 ∧ s.size = 2) ∧
    (memSeek (streamFromMemory [97, 98]) (-1) .set).1 = true ∧
    (memSeek (streamFromMemory [97, 98]) (-1) .set).2.pos = 2 :=
  ⟨⟨_, _, rfl, .step .readline .start trivial trivial rfl, rfl, rfl, rfl⟩,
    by decide, by decide⟩

end LibAsdf
