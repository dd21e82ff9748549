import LibAsdf.Stream.File
import LibAsdf.Stream.Mem

/-!
# The buffered scan

`file_scan` looks at the part of the remaining content up to one boundary
after another; `mem_scan` looks at all of it at once.

* `fileScan_total`: the loop returns within the rounds it is given;
* `fileScan_spec`: what it returns, in terms of the boundaries;
* `scanRefines_iff`: exactly when it does what the plain scan does.
-/

namespace LibAsdf

namespace FileStream

variable (s : FileStream) (tokens : List Bytes)

/-- How much of the remaining content the scan has looked at after its round
`j`, where that much is left. -/
def scanBound (j : Nat) : Nat :=
  max s.window.length (maxTokenLen tokens - 1) + j * (s.buf.length - (maxTokenLen tokens - 1))

/-- What is found in the part up to boundary `j`. A round with less than the
longest token in the buffer does not look. -/
def foundBy (j : Nat) : Option (Nat × Nat) :=
  if maxTokenLen tokens ≤ s.scanBound tokens j then
    scanTokens (s.remaining.take (s.scanBound tokens j)) tokens
  else none

end FileStream

open FileStream

variable {s : FileStream} {tokens : List Bytes}

/-! ## One round -/

theorem fileScanLook_sound (sound : s.Sound) : fileScanLook tokens s =
    .ret (if maxTokenLen tokens ≤ s.window.length then scanTokens s.window tokens else none) := by
  have width := sound.window_length
  have shows : View.Shows ⟨s.buf.drop s.bufPos, s.window.length⟩ s.window :=
    ⟨rfl, by rw [width]; rfl⟩
  simp only [fileScanLook, sizeSub_of_le sound.pos_le, shows.scanTokens, ← width, ge_iff_le]
  split <;> rfl

theorem scanRound_hit {offset tokenIdx : Nat} (sound : s.Sound)
    (enough : maxTokenLen tokens ≤ s.window.length)
    (found : scanTokens s.window tokens = some (offset, tokenIdx)) :
    ∃ base : StreamBase, base.error = s.error ∧ base.isSeekable = s.isSeekable ∧
      fileScanRound tokens s = .ret (.inr (some (s.filePos + offset, tokenIdx),
        { s with
          toStreamBase := base
          bufPos := s.bufPos + offset
          filePos := s.filePos + offset })) := by
  have width := sound.window_length
  have inside : offset < s.window.length := (firstMatch_eq_some.mp found).1.inside
  obtain ⟨base, he, hs, consumed⟩ := fileConsume_sound sound offset (by omega)
  refine ⟨base, he, hs, ?_⟩
  rw [fileScanRound, fileScanLook_sound sound, if_pos enough, found]
  simp only [Outcome.ret_bind, consumed, Outcome.pure_eq]

/-- How much of the window a round without a match keeps. -/
def FileStream.preserved (s : FileStream) (tokens : List Bytes) : Nat :=
  min s.window.length (maxTokenLen tokens - 1)

/-- The stream after a refill, before its `buf_pos` is set: the buffer holds
what was left from the preserved bytes on. -/
structure Refilled (s : FileStream) (tokens : List Bytes) (s' : FileStream) : Prop where
  error : s'.error = s.error
  isSeekable : s'.isSeekable = s.isSeekable
  content : s'.file.content = s.file.content
  size : s'.buf.length = s.buf.length
  bytes : s'.buf.take s'.bufAvail =
    (s.remaining.drop (s.window.length - s.preserved tokens)).take s.buf.length
  avail : s'.bufAvail =
    min s.buf.length (s.remaining.length - (s.window.length - s.preserved tokens))
  rest : s'.file.rest =
    (s.remaining.drop (s.window.length - s.preserved tokens)).drop s.buf.length
  filePos : s'.filePos = s.filePos + (s.bufAvail - s.preserved tokens)

theorem scanRound_miss (sound : s.Sound) (fits : maxTokenLen tokens ≤ s.buf.length)
    (miss : maxTokenLen tokens ≤ s.window.length → scanTokens s.window tokens = none) :
    ∃ s', Refilled s tokens s' ∧ fileScanRound tokens s = .ret
      (if s'.bufAvail < maxTokenLen tokens then .inr (none, { s' with bufPos := s'.bufAvail })
       else .inl { s' with bufPos := 0 }) := by
  have width := sound.window_length
  have upper := sound.avail_le
  have kept : s.preserved tokens ≤ s.window.length := Nat.min_le_left _ _
  have short : s.preserved tokens ≤ s.buf.length := by omega
  obtain ⟨base, buf, he, hs, hlen, hbytes, refill⟩ :=
    fileScanRefill_sound sound (s.preserved tokens) (by omega)
  have tail : s.remaining.drop (s.window.length - s.preserved tokens) =
      s.window.drop (s.window.length - s.preserved tokens) ++ s.file.rest := by
    rw [remaining, List.drop_append_of_le_length (Nat.sub_le _ _)]
  have tailLen : (s.window.drop (s.window.length - s.preserved tokens)).length =
      s.preserved tokens := by
    rw [List.length_drop]
    omega
  have tailLe := Nat.le_trans (Nat.le_of_eq tailLen) short
  refine ⟨{ s with
    toStreamBase := base
    buf := buf
    file := (s.file.fread (s.buf.length - s.preserved tokens)).2
    filePos := s.filePos + (s.bufAvail - s.preserved tokens)
    bufAvail := s.preserved tokens +
      (s.file.fread (s.buf.length - s.preserved tokens)).1.length },
    ⟨he, hs, FileHandle.fread_content _ _, hlen, ?_, ?_, ?_, rfl⟩, ?_⟩
  · simp only
    rw [hbytes, tail, List.take_append, List.take_of_length_le tailLe, tailLen,
      FileHandle.fread_bytes, width]
  · simp only
    have total : s.remaining.length = s.window.length + s.file.rest.length := List.length_append
    rw [FileHandle.fread_length]
    omega
  · simp only
    rw [tail, List.drop_append, List.drop_eq_nil_of_le tailLe, tailLen, FileHandle.fread_rest,
      List.nil_append]
  · have preserve : (if s.bufAvail - s.bufPos < maxTokenLen tokens - 1 then s.bufAvail - s.bufPos
        else maxTokenLen tokens - 1) = s.preserved tokens := by
      rw [preserved, width]
      split <;> omega
    have looked : fileScanLook tokens s = .ret none := by
      rw [fileScanLook_sound sound]
      split
      · rw [miss (by assumption)]
      · rfl
    simp only [fileScanRound, sizeSub_of_le sound.pos_le, looked, preserve, refill,
      Outcome.ret_bind, Outcome.pure_eq]
    split <;> rfl

/-- The stream with which the next round starts. -/
theorem Refilled.resume {s' : FileStream} (r : Refilled s tokens s') :
    { s' with bufPos := 0 : FileStream }.Sound ∧
      { s' with bufPos := 0 : FileStream }.window = s'.buf.take s'.bufAvail ∧
      { s' with bufPos := 0 : FileStream }.remaining =
        s.remaining.drop (s.window.length - s.preserved tokens) := by
  have size := r.size
  have avail := r.avail
  have window : { s' with bufPos := 0 : FileStream }.window = s'.buf.take s'.bufAvail := by
    simp only [FileStream.window, List.drop_zero, Nat.sub_zero]
  refine ⟨⟨Nat.zero_le _, by simp only; omega⟩, window, ?_⟩
  rw [remaining, window, r.bytes, r.rest, List.take_append_drop]

/-- The stream after a scan that ends without a match. -/
theorem Refilled.exhausted {s' : FileStream} (r : Refilled s tokens s')
    (fits : maxTokenLen tokens ≤ s.buf.length) (short : s'.bufAvail < maxTokenLen tokens) :
    { s' with bufPos := s'.bufAvail : FileStream }.Sound ∧
      { s' with bufPos := s'.bufAvail : FileStream }.remaining = [] := by
  have size := r.size
  have avail := r.avail
  refine ⟨⟨Nat.le_refl _, by simp only; omega⟩, ?_⟩
  have rest : s'.file.rest = [] := by
    rw [r.rest]
    apply List.drop_eq_nil_of_le
    rw [List.length_drop]
    omega
  simp only [remaining, window, Nat.sub_self, List.take_zero, rest, List.append_nil]

/-! ## All rounds -/

/-- What a scan leaves as it is. -/
structure ScanFrame (s₀ s : FileStream) : Prop where
  sound : s.Sound
  error : s.error = s₀.error
  isSeekable : s.isSeekable = s₀.isSeekable
  content : s.file.content = s₀.file.content
  size : s.buf.length = s₀.buf.length

/-- The stream between two rounds, boundary `j` being the last one looked at. -/
structure Scanning (s₀ : FileStream) (tokens : List Bytes) (j : Nat) (s : FileStream) : Prop where
  frame : ScanFrame s₀ s
  enough : maxTokenLen tokens ≤ s.window.length
  full : s.window = s.remaining.take s₀.buf.length
  start : ∃ k, k + (maxTokenLen tokens - 1) = s₀.scanBound tokens j ∧
    s.remaining = s₀.remaining.drop k ∧ s.filePos = s₀.filePos + s₀.bufPos + k
  bufPos : s.bufPos = 0
  miss : ∀ i ≤ j, s₀.foundBy tokens i = none

/-- What a scan returns: the first match that some boundary shows, or nothing
at the end of the content. From the second round on `file_pos` is ahead by the
`buf_pos` that the scan started at. -/
def Scanned (s₀ : FileStream) (tokens : List Bytes) : Option (Nat × Nat) × FileStream → Prop
  | (some (pos, tokenIdx), s) => ScanFrame s₀ s ∧ ∃ j offset,
      s₀.foundBy tokens j = some (offset, tokenIdx) ∧ (∀ i < j, s₀.foundBy tokens i = none) ∧
      maxTokenLen tokens ≤ s₀.remaining.length ∧
      pos = s₀.filePos + (if j = 0 then 0 else s₀.bufPos) + offset ∧ s.filePos = pos ∧
      s.remaining = s₀.remaining.drop offset ∧
      ∃ p, tokens[tokenIdx]? = some p ∧ p <+: s.window
  | (none, s) => ScanFrame s₀ s ∧
      (maxTokenLen tokens ≤ s₀.remaining.length → ∀ i, s₀.foundBy tokens i = none) ∧
      s.remaining = [] ∧
      s.filePos + min s₀.remaining.length (maxTokenLen tokens - 1) =
        s₀.filePos + s₀.bufPos + s₀.remaining.length

theorem scanBound_succ (s : FileStream) (tokens : List Bytes) (j : Nat) :
    s.scanBound tokens (j + 1) =
      s.scanBound tokens j + (s.buf.length - (maxTokenLen tokens - 1)) := by
  rw [scanBound, scanBound, Nat.succ_mul, Nat.add_assoc]

theorem scanBound_mono (s : FileStream) (tokens : List Bytes) {i j : Nat} (h : i ≤ j) :
    s.scanBound tokens i ≤ s.scanBound tokens j :=
  Nat.add_le_add_left (Nat.mul_le_mul_right _ h) _

/-- Boundaries past the end of the content show what the first of them does. -/
theorem foundBy_of_length_le {i j : Nat} (h : i ≤ j)
    (enough : maxTokenLen tokens ≤ s.scanBound tokens i)
    (whole : s.remaining.length ≤ s.scanBound tokens i) :
    s.foundBy tokens j = s.foundBy tokens i := by
  have mono := scanBound_mono s tokens h
  rw [foundBy, foundBy, if_pos (by omega), if_pos enough, List.take_of_length_le whole,
    List.take_of_length_le (by omega)]

section Rounds

variable {s₀ : FileStream} (pos : 0 < maxTokenLen tokens)
  (fits : maxTokenLen tokens ≤ s₀.buf.length)

include pos fits

/-- The window of a round shows what its boundary does. -/
theorem foundBy_succ {j k : Nat} (start : k + (maxTokenLen tokens - 1) = s₀.scanBound tokens j)
    (miss : s₀.foundBy tokens j = none) :
    s₀.foundBy tokens (j + 1) =
      (scanTokens ((s₀.remaining.drop k).take s₀.buf.length) tokens).map
        fun r => (k + r.1, r.2) := by
  have bound : s₀.scanBound tokens (j + 1) = k + s₀.buf.length := by
    rw [scanBound_succ]
    omega
  rw [foundBy, if_pos (by omega), bound]
  refine firstMatch_window (fun p hp => length_le_maxTokenLen hp) ?_
  by_cases look : maxTokenLen tokens ≤ s₀.scanBound tokens j
  · rw [foundBy, if_pos look, ← start] at miss
    exact .inr miss
  · exact .inl (by omega)

theorem scanRound_step {j : Nat} (h : Scanning s₀ tokens j s) :
    Outcome.wp (fun _ => False) False
      (Outcome.Round (fun s' => (∃ j, Scanning s₀ tokens j s') ∧
        s'.file.rest.length < s.file.rest.length) (Scanned s₀ tokens))
      (fileScanRound tokens s) := by
  obtain ⟨k, start, left, filePos⟩ := h.start
  have size := h.frame.size
  have enough := h.enough
  have noPos := h.bufPos
  have windowLen := h.frame.sound.window_length
  have split : s.remaining.length = s.window.length + s.file.rest.length := List.length_append
  have whole : s.remaining.length = s₀.remaining.length - k := by rw [left, List.length_drop]
  have full : s.window.length = min s₀.buf.length s.remaining.length := by
    rw [h.full, List.length_take]
  have next := foundBy_succ pos fits start (h.miss j (Nat.le_refl j))
  rw [← left, ← h.full] at next
  cases found : scanTokens s.window tokens with
  | some r =>
    obtain ⟨offset, tokenIdx⟩ := r
    have inside : offset < s.window.length := (firstMatch_eq_some.mp found).1.inside
    obtain ⟨base, he, hs, round⟩ := scanRound_hit h.frame.sound h.enough found
    have lower := h.frame.sound.pos_le
    have upper := h.frame.sound.avail_le
    rw [round]
    refine ⟨⟨⟨?_, upper⟩, he.trans h.frame.error, hs.trans h.frame.isSeekable, h.frame.content,
      size⟩, j + 1, k + offset, ?_, ?_, ?_, ?_, rfl, ?_, ?_⟩
    · simp only
      omega
    · rw [next, found]
      rfl
    · intro i hi
      exact h.miss i (Nat.le_of_lt_succ hi)
    · omega
    · rw [if_neg (Nat.succ_ne_zero j), filePos]
      omega
    · rw [remaining, window_consumed, ← List.drop_drop, ← left, remaining,
        List.drop_append_of_le_length (Nat.le_of_lt inside)]
    · rw [window_consumed]
      exact (firstMatch_eq_some.mp found).1.begins
  | none =>
    have kept : s.preserved tokens = maxTokenLen tokens - 1 := Nat.min_eq_right (by omega)
    have missed : ∀ i ≤ j + 1, s₀.foundBy tokens i = none := by
      intro i hi
      rcases Nat.lt_or_eq_of_le hi with lt | rfl
      · exact h.miss i (Nat.le_of_lt_succ lt)
      · rw [next, found]
        rfl
    obtain ⟨s', r, round⟩ := scanRound_miss h.frame.sound (by omega) fun _ => found
    have avail := r.avail
    rw [kept] at avail
    rw [round]
    split
    · rename_i short
      obtain ⟨sound, ends⟩ := r.exhausted (by omega) short
      refine ⟨⟨sound, r.error.trans h.frame.error, r.isSeekable.trans h.frame.isSeekable,
        r.content.trans h.frame.content, r.size.trans size⟩, fun _ i => ?_, ends, ?_⟩
      · have bound := scanBound_succ s₀ tokens j
        rcases Nat.le_total i (j + 1) with le | le
        · exact missed i le
        · rw [foundBy_of_length_le le (by omega) (by omega)]
          exact missed (j + 1) (Nat.le_refl _)
      · simp only [r.filePos, kept]
        omega
    · rename_i long
      obtain ⟨sound, window, rest⟩ := r.resume
      have bytes := r.bytes
      rw [kept] at rest bytes
      refine ⟨⟨j + 1, ⟨sound, r.error.trans h.frame.error, r.isSeekable.trans h.frame.isSeekable,
        r.content.trans h.frame.content, r.size.trans size⟩, ?_, ?_,
        ⟨k + (s.window.length - (maxTokenLen tokens - 1)), ?_, ?_, ?_⟩, rfl, missed⟩, ?_⟩
      · rw [window, List.length_take, r.size]
        omega
      · rw [window, rest, bytes, size]
      · rw [scanBound_succ]
        omega
      · rw [rest, left, List.drop_drop]
      · simp only [r.filePos, kept]
        omega
      · simp only [r.rest, kept, List.length_drop]
        omega

omit fits in
/-- The window the scan starts with is its first boundary. -/
theorem foundBy_zero : s₀.foundBy tokens 0 =
    if maxTokenLen tokens ≤ s₀.window.length then scanTokens s₀.window tokens else none := by
  have bound : s₀.scanBound tokens 0 = max s₀.window.length (maxTokenLen tokens - 1) := by
    rw [scanBound, Nat.zero_mul, Nat.add_zero]
  rw [foundBy, bound]
  by_cases look : maxTokenLen tokens ≤ s₀.window.length
  · rw [if_pos (by omega), if_pos look, Nat.max_eq_left (by omega), remaining,
      List.take_left]
  · rw [if_neg (by omega), if_neg look]

/-- The first round, from a stream at any position of its buffer. -/
theorem scanRound_first (sound : s₀.Sound) :
    Outcome.wp (fun _ => False) False
      (Outcome.Round (fun s => (∃ j, Scanning s₀ tokens j s) ∧
        s.file.rest.length ≤ s₀.file.rest.length) (Scanned s₀ tokens))
      (fileScanRound tokens s₀) := by
  have lower := sound.pos_le
  have windowLen := sound.window_length
  have split : s₀.remaining.length = s₀.window.length + s₀.file.rest.length := List.length_append
  have zero : s₀.foundBy tokens 0 = _ := foundBy_zero pos
  have bound : s₀.scanBound tokens 0 = max s₀.window.length (maxTokenLen tokens - 1) := by
    rw [scanBound, Nat.zero_mul, Nat.add_zero]
  cases found : s₀.foundBy tokens 0 with
  | some r =>
    obtain ⟨offset, tokenIdx⟩ := r
    rw [found] at zero
    split at zero
    · rename_i enough
      have inside : offset < s₀.window.length := (firstMatch_eq_some.mp zero.symm).1.inside
      obtain ⟨base, he, hs, round⟩ := scanRound_hit sound enough zero.symm
      rw [round]
      refine ⟨⟨⟨?_, sound.avail_le⟩, he, hs, rfl, rfl⟩, 0, offset, found, ?_, ?_, ?_, rfl, ?_, ?_⟩
      · simp only
        omega
      · intro i hi
        exact absurd hi (Nat.not_lt_zero i)
      · omega
      · rw [if_pos rfl, Nat.add_zero]
      · rw [remaining, window_consumed, remaining,
          List.drop_append_of_le_length (Nat.le_of_lt inside)]
      · rw [window_consumed]
        exact (firstMatch_eq_some.mp zero.symm).1.begins
    · cases zero
  | none =>
    rw [found] at zero
    obtain ⟨s', r, round⟩ := scanRound_miss sound fits fun enough => by
      rw [if_pos enough] at zero
      exact zero.symm
    have kept : s₀.preserved tokens = min s₀.window.length (maxTokenLen tokens - 1) := rfl
    have avail := r.avail
    rw [round]
    split
    · rename_i short
      obtain ⟨sound', ends⟩ := r.exhausted fits short
      refine ⟨⟨sound', r.error, r.isSeekable, r.content, r.size⟩, fun enough i => ?_, ends, ?_⟩
      · rw [foundBy_of_length_le (Nat.zero_le i) (by omega) (by omega), found]
      · simp only [r.filePos]
        omega
    · rename_i long
      obtain ⟨sound', window, rest⟩ := r.resume
      refine ⟨⟨0, ⟨sound', r.error, r.isSeekable, r.content, r.size⟩, ?_, ?_,
        ⟨s₀.window.length - s₀.preserved tokens, ?_, rest, ?_⟩, rfl, ?_⟩, ?_⟩
      · rw [window, List.length_take, r.size]
        omega
      · rw [window, rest, r.bytes]
      · omega
      · simp only [r.filePos]
        omega
      · intro i hi
        rw [Nat.le_zero.mp hi, found]
      · simp only [r.rest, List.length_drop]
        omega

theorem fileScan_spec (sound : s₀.Sound) :
    Outcome.wp (fun _ => False) False (Scanned s₀ tokens) (fileScan s₀ tokens) := by
  rw [fileScan, if_neg (Nat.ne_of_gt pos), Outcome.loop_succ]
  refine Outcome.wp_seq (scanRound_first pos fits sound) fun r hr => ?_
  cases r with
  | inl s =>
    obtain ⟨scanning, le⟩ := hr
    refine Outcome.wp_loop_total (I := fun s => ∃ j, Scanning s₀ tokens j s)
      (fun s => s.file.rest.length) (fun s hs => ?_) _ s scanning ?_
    · obtain ⟨j, hj⟩ := hs
      exact scanRound_step pos fits hj
    · exact Nat.lt_succ_of_le le
  | inr result => exact hr

end Rounds

/-- The scan returns, whatever the tokens. -/
theorem fileScan_total (sound : s.Sound) (fits : maxTokenLen tokens ≤ s.buf.length) :
    ∃ r s', fileScan s tokens = .ret (r, s') ∧ ScanFrame s s' := by
  by_cases pos : 0 < maxTokenLen tokens
  · have spec := fileScan_spec pos fits sound
    cases h : fileScan s tokens with
    | ret result =>
      obtain ⟨r, s'⟩ := result
      rw [h] at spec
      refine ⟨r, s', rfl, ?_⟩
      cases r with
      | none => exact spec.1
      | some r => exact spec.1
    | fault e =>
      rw [h] at spec
      exact spec.elim
    | timeout =>
      rw [h] at spec
      exact spec.elim
  · exact ⟨none, s, by rw [fileScan, if_pos (by omega)]; rfl, sound, rfl, rfl, rfl, rfl⟩

/-! ## Against the plain scan -/

/-- The scan finds what a memory stream over the remaining content finds, and
both streams end at the same place. -/
def ScanRefines (s : FileStream) (tokens : List Bytes) : Prop :=
  ∃ found mem s', memScan (streamFromMemory s.remaining) tokens = .ret (found, mem) ∧
    fileScan s tokens = .ret (found.map fun r => (s.filePos + r.1, r.2), s') ∧
    s'.filePos = s.filePos + mem.pos ∧ s'.remaining = s.remaining.drop mem.pos

/-- Where a token is left to find: enough is left for a round to look, no
boundary cuts the token off while it shows another one, and the match is seen
before a refill or the scan started at the front of the buffer. Where none is
left: what the scan keeps at the end of the content is as long as the part of
the buffer before its start. -/
def ScanExact (s : FileStream) (tokens : List Bytes) : Prop :=
  match scanTokens s.remaining tokens with
  | some r =>
    0 < maxTokenLen tokens ∧ maxTokenLen tokens ≤ s.remaining.length ∧
      (∀ j, s.foundBy tokens j = none ∨ s.foundBy tokens j = some r) ∧
      (s.bufPos = 0 ∨ s.foundBy tokens 0 = some r)
  | none =>
    if maxTokenLen tokens = 0 then s.remaining = []
    else s.bufPos = min s.remaining.length (maxTokenLen tokens - 1)

theorem memScan_fresh (bytes : Bytes) (tokens : List Bytes) :
    memScan (streamFromMemory bytes) tokens =
      .ret (scanTokens bytes tokens, { streamFromMemory bytes with
        pos := ((scanTokens bytes tokens).map Prod.fst).getD bytes.length }) := by
  have shows : ((streamFromMemory bytes).view (sizeSub bytes.length 0)).Shows bytes := by
    rw [sizeSub_of_le (Nat.zero_le _)]
    exact ⟨rfl, List.take_length⟩
  rw [memScan, show sizeSub (streamFromMemory bytes).size (streamFromMemory bytes).pos =
    sizeSub bytes.length 0 from rfl, shows.scanTokens]
  cases scanTokens bytes tokens with
  | none => simp [memConsume, StreamBase.streamCapture, streamFromMemory]
  | some r => simp [memConsume, StreamBase.streamCapture, streamFromMemory]

/-- Any boundary shows only what is there. -/
theorem occurs_of_foundBy {j : Nat} {r : Nat × Nat} (h : s.foundBy tokens j = some r) :
    Occurs tokens (s.remaining.take (s.scanBound tokens j)) r.1 r.2 := by
  rw [foundBy] at h
  split at h
  · exact (firstMatch_eq_some.mp h).1
  · cases h

theorem foundBy_eq_none_of_plain (h : scanTokens s.remaining tokens = none) (j : Nat) :
    s.foundBy tokens j = none := by
  cases found : s.foundBy tokens j with
  | none => rfl
  | some r =>
    exact absurd (occurs_take.mp (occurs_of_foundBy found)).1 (firstMatch_eq_none.mp h _ _)

/-- Once a boundary shows the plain scan's match, every later one does. -/
theorem foundBy_stable {i j : Nat} {r : Nat × Nat}
    (plain : scanTokens s.remaining tokens = some r) (found : s.foundBy tokens j = some r)
    (le : j ≤ i) : s.foundBy tokens i = some r := by
  have look : maxTokenLen tokens ≤ s.scanBound tokens j := by
    rw [foundBy] at found
    split at found
    · assumption
    · cases found
  have mono := scanBound_mono s tokens le
  have first := (firstMatch_eq_some (o := r.1) (t := r.2)).mp plain
  obtain ⟨occ, lt, ends⟩ := occurs_take.mp (occurs_of_foundBy found)
  rw [foundBy, if_pos (Nat.le_trans look mono)]
  refine (firstMatch_eq_some (o := r.1) (t := r.2)).mpr
    ⟨occurs_take.mpr ⟨occ, by omega, fun p hp => Nat.le_trans (ends p hp) mono⟩, ?_⟩
  intro o t h
  exact first.2 o t (occurs_take.mp h).1

/-- Some boundary is past the end of the content. -/
theorem exists_foundBy_eq_plain (fits : maxTokenLen tokens ≤ s.buf.length)
    (pos : 0 < maxTokenLen tokens) (enough : maxTokenLen tokens ≤ s.remaining.length) :
    ∃ j, s.foundBy tokens j = scanTokens s.remaining tokens := by
  have step : 1 ≤ s.buf.length - (maxTokenLen tokens - 1) := by omega
  have far : s.remaining.length ≤ s.scanBound tokens s.remaining.length := by
    have := Nat.mul_le_mul_left s.remaining.length step
    rw [scanBound]
    omega
  exact ⟨s.remaining.length, by
    rw [foundBy, if_pos (Nat.le_trans enough far), List.take_of_length_le far]⟩

/-- An exact scan stops at the first match of the plain one. -/
theorem fileScan_exact (sound : s.Sound) (fits : maxTokenLen tokens ≤ s.buf.length)
    {offset tokenIdx : Nat} (plain : scanTokens s.remaining tokens = some (offset, tokenIdx))
    (exact : ScanExact s tokens) :
    ∃ s', fileScan s tokens = .ret (some (s.filePos + offset, tokenIdx), s') ∧
      s'.filePos = s.filePos + offset ∧ s'.remaining = s.remaining.drop offset := by
  rw [ScanExact, plain] at exact
  obtain ⟨pos, enough, only, skew⟩ := exact
  have spec := fileScan_spec pos fits sound
  obtain ⟨result, s', gives, -⟩ := fileScan_total sound fits
  rw [gives] at spec
  obtain ⟨J, shown⟩ := exists_foundBy_eq_plain fits pos enough
  rw [plain] at shown
  cases result with
  | none =>
    have := spec.2.1 enough J
    rw [shown] at this
    cases this
  | some m =>
    obtain ⟨at', idx⟩ := m
    obtain ⟨-, j, offset', found, before, -, eq, filePos, rest, -⟩ := spec
    have same := only j
    rw [found] at same
    obtain h | h := same
    · cases h
    · cases h
      have unskewed : (if j = 0 then 0 else s.bufPos) = 0 := by
        by_cases first : j = 0
        · exact if_pos first
        · rw [if_neg first]
          rcases skew with h | h
          · exact h
          · rw [before 0 (Nat.pos_of_ne_zero first)] at h
            cases h
      rw [unskewed, Nat.add_zero] at eq
      subst eq
      exact ⟨s', gives, filePos, rest⟩

/-- Where nothing is left to find, nothing is found. -/
theorem fileScan_none (sound : s.Sound) (fits : maxTokenLen tokens ≤ s.buf.length)
    (plain : scanTokens s.remaining tokens = none) :
    ∃ s', fileScan s tokens = .ret (none, s') := by
  obtain ⟨result, s', gives, -⟩ := fileScan_total sound fits
  cases result with
  | none => exact ⟨s', gives⟩
  | some m =>
    by_cases pos : 0 < maxTokenLen tokens
    · have spec := fileScan_spec pos fits sound
      rw [gives] at spec
      obtain ⟨-, j, offset, found, -⟩ := spec
      rw [foundBy_eq_none_of_plain plain j] at found
      cases found
    · rw [fileScan, if_pos (by omega)] at gives
      cases gives

theorem scanRefines_iff (sound : s.Sound) (fits : maxTokenLen tokens ≤ s.buf.length) :
    ScanRefines s tokens ↔ ScanExact s tokens := by
  have inside : ∀ {o t}, scanTokens s.remaining tokens = some (o, t) → o < s.remaining.length :=
    fun h => (firstMatch_eq_some.mp h).1.inside
  simp only [ScanRefines, memScan_fresh, Outcome.ret.injEq, Prod.mk.injEq, ScanExact]
  by_cases zero : maxTokenLen tokens = 0
  · -- Nothing but empty tokens: the file scan gives up at once
    have gives : fileScan s tokens = .ret (none, s) := by rw [fileScan, if_pos zero]; rfl
    cases plain : scanTokens s.remaining tokens with
    | some r =>
      constructor
      · rintro ⟨_, _, _, ⟨rfl, rfl⟩, h, -⟩
        rw [gives] at h
        cases h
      · rintro ⟨pos, -⟩
        omega
    | none =>
      simp only [zero, if_true]
      constructor
      · rintro ⟨_, _, s', ⟨rfl, rfl⟩, h, filePos, -⟩
        rw [gives] at h
        cases h
        refine List.length_eq_zero_iff.mp ?_
        simpa using filePos
      · intro empty
        exact ⟨none, _, s, ⟨rfl, rfl⟩, gives, by simp [empty], by simp [empty]⟩
  · have pos := Nat.pos_of_ne_zero zero
    have spec := fileScan_spec pos fits sound
    obtain ⟨result, s', gives, -⟩ := fileScan_total sound fits
    rw [gives] at spec
    cases plain : scanTokens s.remaining tokens with
    | some r =>
      obtain ⟨offset, tokenIdx⟩ := r
      have lt := inside plain
      constructor
      · rintro ⟨_, _, s'', ⟨rfl, rfl⟩, h, filePos, rest⟩
        rw [gives] at h
        cases h
        obtain ⟨-, j, offset', found, before, enough, at', -, rest', -⟩ := spec
        have lt' : offset' < s.remaining.length :=
          (occurs_take.mp (occurs_of_foundBy found)).1.inside
        have lengths := congrArg List.length (rest.symm.trans rest')
        simp only [List.length_drop, Option.map_some, Option.getD_some] at lengths
        have same : offset' = offset := by omega
        subst same
        refine ⟨pos, enough, fun i => ?_, ?_⟩
        · rcases Nat.lt_or_ge i j with lt | ge
          · exact .inl (before i lt)
          · exact .inr (foundBy_stable plain found ge)
        · by_cases first : j = 0
          · exact .inr (first ▸ found)
          · rw [if_neg first] at at'
            exact .inl (by omega)
      · intro ok
        obtain ⟨s', found, filePos, rest⟩ := fileScan_exact sound fits plain (by
          rw [ScanExact, plain]
          exact ok)
        exact ⟨_, _, s', ⟨rfl, rfl⟩, found, filePos, rest⟩
    | none =>
      simp only [if_neg zero]
      have never := foundBy_eq_none_of_plain plain
      cases result with
      | some m =>
        obtain ⟨-, j, offset, found, -⟩ := spec
        rw [never j] at found
        cases found
      | none =>
        obtain ⟨-, -, rest, filePos⟩ := spec
        constructor
        · rintro ⟨_, _, s'', ⟨rfl, rfl⟩, h, filePos', -⟩
          rw [gives] at h
          cases h
          simp only [Option.map_none, Option.getD_none] at filePos'
          omega
        · intro tail
          refine ⟨none, _, s', ⟨rfl, rfl⟩, gives, ?_, ?_⟩
          · simp only [Option.map_none, Option.getD_none]
            omega
          · simp [rest]

theorem scanRefines_iff_fresh :
    ScanRefines (streamFromFp [5, 7] [0, 0, 0, 0] true false) [[7]] ↔
      ScanExact (streamFromFp [5, 7] [0, 0, 0, 0] true false) [[7]] :=
  scanRefines_iff (sound_streamFromFp _ _ _ _) (by decide)

/-- Two bytes consumed out of a buffer of four: the refill of the scan moves
`file_pos` two bytes too far. -/
theorem scan_refill_skews_position :
    ∃ s, (do
        let (_, s) ← fileNext (streamFromFp [1, 2, 3, 4, 5, 7] [0, 0, 0, 0] true false) 4
        fileConsume s 2) = .ret s ∧
      s.Sound ∧ maxTokenLen [[7]] ≤ s.buf.length ∧ ¬ ScanRefines s [[7]] := by
  refine ⟨_, rfl, ⟨by decide, by decide⟩, by decide, ?_⟩
  rintro ⟨_, _, _, plain, scan, filePos, -⟩
  cases plain
  cases scan

end LibAsdf
