import LibAsdf.Emitter.Replace

/-!
# Writing to memory

Memory streams whose allocations may be refused, and `asdf_write_to_mem` on a
buffer of the caller or one that it allocates.

* `MallocEnv`: which requests for memory are granted, and what is in new memory;
* `MallocStream`, `mallocWrite`: the stream, with the growth of its buffer;
* `asdfWriteToMem`: the call;
* `Room`, `malloc_follower`: how much of the buffer is used, and when a write is
  short.
-/

namespace LibAsdf

/-! ## Memory -/

/-- Which requests are granted, by their number; what is in memory that has not been
written to; and the size of a page. -/
structure MallocEnv where
  grants : Nat → Bool
  junk : Byte
  pageSize : Nat

namespace MallocEnv

variable (m : MallocEnv)

/-- A request for `n` bytes. -/
def grant (k n : Nat) : Bool := m.grants k && n ≤ offMax

def fresh (n : Nat) : Bytes := List.replicate n m.junk

/-- `realloc`, where it is granted. -/
def resize (buf : Bytes) (n : Nat) : Bytes := buf.take n ++ m.fresh (n - buf.length)

end MallocEnv

/-- A memory stream, and the requests for memory so far. -/
structure MallocStream extends MemStream where
  memory : MallocEnv
  requests : Nat

/-- A memory stream over a buffer. -/
def mallocStream (m : MallocEnv) (isResizeable : Bool) (buf : Bytes) (requests : Nat) :
    MallocStream :=
  { streamFromMemory buf with
    isResizeable := isResizeable
    memory := m
    requests := requests }

/-- `mem_write`. -/
def mallocWrite (s : MallocStream) (bytes : Bytes) : Run (Nat × MallocStream) :=
  if s.pos + bytes.length ≥ s.size ∧ s.isResizeable then
    if s.memory.grant s.requests (s.size + bytes.length) then do
      let (n, mem) ← memWriteInto
        { s.toMemStream with buf := s.memory.resize s.buf (s.size + bytes.length) } bytes
      return (n, { s with toMemStream := mem, requests := s.requests + 1 })
    else
      return (0, { s with
        toStreamBase := s.toStreamBase.setError .outOfMemory
        requests := s.requests + 1 })
  else do
    let (n, mem) ← memWriteInto s.toMemStream bytes
    return (n, { s with toMemStream := mem })

instance : FlushStream MallocStream where
  base s := s.toStreamBase
  write := mallocWrite
  tell s := memTell s.toMemStream
  flush s := .ret (true, s)

/-! ## The call -/

/-- What the caller gives: a buffer or the null pointer, and whether there is a
`size`. The size of a buffer is its length. -/
structure MemTarget where
  buf : Option Bytes
  sizeGiven : Bool
  object : ∀ bytes, buf = some bytes → bytes.length ≤ offMax

/-- What the caller has afterwards: what is returned, what is in its buffer, and the
buffer that it is handed, with its size; and whether a buffer that was allocated is
lost. -/
structure MemResult where
  code : Int
  caller : Option Bytes
  handed : Option Bytes
  leaked : Bool
  deriving DecidableEq, Repr

/-- `asdf_file_estimate_blocks_size`: no estimate for blocks that are compressed. -/
def fileEstimateBlocksSize (blocks : List BlockRecord) : Nat :=
  (blocks.map fun block =>
    if block.writeCompressor.isSome then 0
    else
      (if block.header.allocatedSize = 0 then block.header.dataSize else block.header.allocatedSize) +
        blockMagic.length + 2).sum % 2 ^ 64

/-- What is not written of a buffer is set to zero. -/
def zeroRest (buf : Bytes) (offset : Nat) : Bytes :=
  buf.take offset ++ List.replicate (buf.length - offset) 0

section Write

variable {σ : Type} [OpenMem σ]

/-- On a buffer of the caller. -/
def writeToCaller (env : EmitterEnv σ) (m : MallocEnv) (file : EmitterFile) (blocks : BlockFile)
    (buf : Bytes) : Run MemResult := do
  let (code, closed) ← asdfWriteTo env file blocks
    (if m.grants 0 then some (mallocStream m false buf 1) else none)
  let after := (closed.map fun s => if code = 0 then zeroRest s.buf s.pos else s.buf).getD buf
  return ⟨code, some after, none, false⟩

/-- Whether the buffer has too little room for the blocks, once the tree is written. -/
def needsRoom (blocksSize : Nat) (e : Emitter MallocStream) : Bool :=
  e.state = .blocks && e.stream.size - e.stream.pos < blocksSize

/-- The size that the buffer is given then. -/
def roomForBlocks (blocksSize size offset : Nat) : Nat := (size + blocksSize - offset) % 2 ^ 64

/-- Room for the blocks: the emitter goes on (`inl`), or it is over. Where `realloc`
refuses, nothing has set what is returned. -/
def growForBlocks (m : MallocEnv) (blocksSize : Nat) (e : Emitter MallocStream) :
    Emitter MallocStream ⊕ MemResult :=
  if needsRoom blocksSize e then
    let newSize := roomForBlocks blocksSize e.stream.size e.stream.pos
    if !m.grant e.stream.requests newSize then .inr ⟨0, none, none, false⟩
    else if !m.grants (e.stream.requests + 1) then .inr ⟨-1, none, none, true⟩
    else
      let stream := mallocStream m true (m.resize e.stream.buf newSize) (e.stream.requests + 2)
      .inl { e with stream := { stream with
        toMemStream := (memSeek stream.toMemStream e.stream.pos .set).2 } }
  else .inl e

/-- The blocks and their index, and what the caller is handed. -/
def finishWrite (env : EmitterEnv σ) (sizeGiven : Bool) (e : Emitter MallocStream) :
    Run MemResult := do
  let e ← emitterEmit env e
  if e.state = .error then
    return ⟨-1, none, none, true⟩
  if sizeGiven then
    return ⟨0, none, some (zeroRest e.stream.buf e.stream.pos), false⟩
  return ⟨0, none, none, true⟩

/-- The size of the buffer that is allocated at first. -/
def firstSize (m : MallocEnv) (file : EmitterFile) (blocks : BlockFile) : Nat :=
  (m.pageSize * (if file.noBlockIndex then 1 else 2) + fileEstimateBlocksSize blocks.blocks) % 2 ^ 64

/-- On a buffer that is allocated. Where there is no stream, the emitter has none to
write to. -/
def writeAllocated (env : EmitterEnv σ) (m : MallocEnv) (file : EmitterFile) (blocks : BlockFile)
    (sizeGiven : Bool) : Run MemResult :=
  if !m.grant 0 (firstSize m file blocks) then return ⟨-1, none, none, false⟩
  else if !m.grants 1 then
    if (shouldEmit file blocks).1 then .fault .assertion
    else return ⟨-1, none, none, true⟩
  else do
    let e ← emitUntil env .blocks
      (emitterCreate file blocks (mallocStream m true (m.fresh (firstSize m file blocks)) 2))
    match growForBlocks m (fileEstimateBlocksSize blocks.blocks) e with
    | .inr r => return r
    | .inl e => finishWrite env sizeGiven e

/-- `asdf_write_to_mem`. -/
def asdfWriteToMem (env : EmitterEnv σ) (m : MallocEnv) (file : EmitterFile) (blocks : BlockFile)
    (target : MemTarget) : Run MemResult :=
  match target.buf with
  | some buf =>
    if !target.sizeGiven then return ⟨-1, some buf, none, false⟩
    else writeToCaller env m file blocks buf
  | none => writeAllocated env m file blocks target.sizeGiven

end Write

/-! ## Room -/

/-- How much of a buffer is used, and the requests so far. -/
structure Room where
  size : Nat
  requests : Nat
  pos : Nat
  deriving DecidableEq, Repr

/-- What a call leaves of the room, unless it is a write that is short. -/
def Room.step (m : MallocEnv) (isResizeable : Bool) (r : Room) : StreamCall → Option Room
  | .flush => some r
  | .write bytes =>
    if r.pos + bytes.length ≥ r.size ∧ isResizeable then
      if m.grant r.requests (r.size + bytes.length) then
        some ⟨r.size + bytes.length, r.requests + 1, r.pos + bytes.length⟩
      else if bytes = [] then some { r with requests := r.requests + 1 }
      else none
    else if r.pos + bytes.length ≤ r.size then some { r with pos := r.pos + bytes.length }
    else none

def Room.run (m : MallocEnv) (isResizeable : Bool) : Room → List StreamCall → Option Room
  | r, [] => some r
  | r, call :: more => (r.step m isResizeable call).bind fun r => Room.run m isResizeable r more

theorem Room.run_append (m : MallocEnv) (isResizeable : Bool) (r : Room)
    (calls more : List StreamCall) : r.run m isResizeable (calls ++ more) =
      (r.run m isResizeable calls).bind fun r => r.run m isResizeable more := by
  induction calls generalizing r with
  | nil => rfl
  | cons call calls ih =>
    change ((r.step m isResizeable call).bind fun r => Room.run m isResizeable r (calls ++ more)) =
      ((r.step m isResizeable call).bind fun r => Room.run m isResizeable r calls).bind _
    rw [Option.bind_assoc]
    congr 1
    funext r
    exact ih r

theorem Room.run_singleton (m : MallocEnv) (isResizeable : Bool) (r : Room) (call : StreamCall) :
    r.run m isResizeable [call] = r.step m isResizeable call := by
  change ((r.step m isResizeable call).bind fun r => some r) = _
  cases r.step m isResizeable call <;> rfl

def MallocStream.room (t : MallocStream) : Room := ⟨t.size, t.requests, t.pos⟩

/-- A write that is short, on a stream that had the room `r` after `origin`. -/
def Short (m : MallocEnv) (isResizeable : Bool) (origin : List StreamCall) (r : Room)
    (before : List StreamCall) (call : StreamCall) : Prop :=
  ∃ more r', before = origin ++ more ∧ r.run m isResizeable more = some r' ∧
    r'.step m isResizeable call = none

/-- The stream after what has been recorded. -/
structure MallocAt (m : MallocEnv) (isResizeable : Bool) (origin : List StreamCall) (r : Room)
    (s : Recorder) (t : MallocStream) : Prop where
  writeable : t.isWriteable = true
  resizeable : t.isResizeable = isResizeable
  memory : t.memory = m
  small : t.size ≤ offMax
  inside : t.pos ≤ t.size
  room : ∃ more, s.calls = origin ++ more ∧ r.run m isResizeable more = some t.room
  pos : t.pos = s.pos
  bytes : t.buf.take t.pos = s.bytes

/-- None is short, if there is room. -/
theorem clear_short_iff {m : MallocEnv} {isResizeable : Bool} {origin calls : List StreamCall}
    {r : Room} : Outcome.Clear (Short m isResizeable origin r) origin calls ↔
      (r.run m isResizeable calls).isSome = true := by
  induction calls using List.reverseRecOn with
  | nil => exact iff_of_true trivial rfl
  | append_singleton calls call ih =>
    rw [Outcome.clear_append, ih, Room.run_append]
    cases run : r.run m isResizeable calls with
    | none => exact iff_of_false (fun h => nomatch h.1) nofun
    | some r' =>
      change _ ∧ ¬ Short m isResizeable origin r (origin ++ calls) call ∧ True ↔
        (r'.run m isResizeable [call]).isSome = true
      rw [Room.run_singleton]
      have short : Short m isResizeable origin r (origin ++ calls) call ↔
          r'.step m isResizeable call = none := by
        constructor
        · rintro ⟨more, r'', eq, run', short⟩
          cases List.append_cancel_left eq
          cases run.symm.trans run'
          exact short
        · intro short
          exact ⟨calls, r', rfl, run, short⟩
      rw [short]
      constructor
      · rintro ⟨-, some, -⟩
        exact Option.ne_none_iff_isSome.mp some
      · intro some
        exact ⟨rfl, Option.ne_none_iff_isSome.mpr some, trivial⟩

section Calls

variable {m : MallocEnv} {isResizeable : Bool} {origin : List StreamCall} {r : Room} {s : Recorder}
  {t : MallocStream}

theorem MallocAt.short_iff (h : MallocAt m isResizeable origin r s t) {call : StreamCall} :
    Short m isResizeable origin r s.calls call ↔ t.room.step m isResizeable call = none := by
  obtain ⟨more, eq, run⟩ := h.room
  constructor
  · rintro ⟨more', r', eq', run', short⟩
    rw [eq] at eq'
    cases List.append_cancel_left eq'
    cases run.symm.trans run'
    exact short
  · intro short
    exact ⟨more, _, eq, run, short⟩

/-- A call, with the room and the bytes that it leaves. -/
theorem MallocAt.call (h : MallocAt m isResizeable origin r s t) {call : StreamCall}
    {t' : MallocStream} (writeable : t'.isWriteable = true)
    (resizeable : t'.isResizeable = isResizeable) (memory : t'.memory = m) (small : t'.size ≤ offMax)
    (inside : t'.pos ≤ t'.size) (room : t.room.step m isResizeable call = some t'.room)
    (pos : t'.pos = (s.call call).pos) (bytes : t'.buf.take t'.pos = (s.call call).bytes) :
    MallocAt m isResizeable origin r (s.call call) t' where
  writeable
  resizeable
  memory
  small
  inside
  room := by
    obtain ⟨more, eq, run⟩ := h.room
    refine ⟨more ++ [call], ?_, ?_⟩
    · rw [s.calls_call, eq, List.append_assoc]
    · rw [Room.run_append, run]
      exact (Room.run_singleton _ _ _ _).trans room
  pos
  bytes

/-- The copy into a buffer that has the room. -/
theorem memWriteInto_fits {s : MemStream} {bytes : Bytes} (fits : s.pos + bytes.length ≤ s.size) :
    ∃ s', memWriteInto s bytes = .ret (bytes.length, s') ∧ s'.toStreamBase = s.toStreamBase ∧
      s'.isResizeable = s.isResizeable ∧ s'.size = s.size ∧ s'.pos = s.pos + bytes.length ∧
      s'.buf.take s'.pos = s.buf.take s.pos ++ bytes := by
  have pos : s.pos ≤ s.size := Nat.le_trans (Nat.le_add_right _ _) fits
  have enough : ¬ s.size - s.pos < bytes.length := by omega
  unfold memWriteInto
  rw [sizeSub_of_le pos]
  simp only [if_neg enough, List.take_length, Nat.lt_irrefl, if_false]
  obtain ⟨buf, stored, size, front⟩ := store_of_le s.buf s.pos bytes fits
  rw [stored]
  exact ⟨_, rfl, rfl, rfl, size, rfl, front⟩

/-- The copy into a buffer that has not. -/
theorem memWriteInto_short {s : MemStream} {bytes : Bytes} (inside : s.pos ≤ s.size)
    (short : s.size < s.pos + bytes.length) :
    ∃ n s', memWriteInto s bytes = .ret (n, s') ∧ n ≠ bytes.length ∧
      s'.isWriteable = s.isWriteable ∧ s'.isResizeable = s.isResizeable ∧ s'.size = s.size ∧
      s'.pos ≤ s'.size := by
  have less : s.size - s.pos < bytes.length := by omega
  unfold memWriteInto
  rw [sizeSub_of_le inside]
  simp only [if_pos less]
  have size : (bytes.take (s.size - s.pos)).length = s.size - s.pos := by
    rw [List.length_take]
    omega
  obtain ⟨buf, stored, size', -⟩ := store_of_le s.buf s.pos (bytes.take (s.size - s.pos)) (by
    rw [size]
    exact Nat.le_of_eq (Nat.add_sub_cancel' inside))
  rw [stored]
  refine ⟨_, _, rfl, Nat.ne_of_lt less, rfl, rfl, size', ?_⟩
  change s.pos + (s.size - s.pos) ≤ buf.length
  rw [size']
  exact Nat.le_of_eq (Nat.add_sub_cancel' inside)

theorem MallocEnv.length_resize (m : MallocEnv) {buf : Bytes} {n : Nat} (le : buf.length ≤ n) :
    (m.resize buf n).length = n := by
  unfold resize fresh
  rw [List.length_append, List.length_take, List.length_replicate]
  omega

/-- Growth loses nothing. -/
theorem MallocEnv.take_resize (m : MallocEnv) {buf : Bytes} {n k : Nat} (le : k ≤ n)
    (inside : k ≤ buf.length) : (m.resize buf n).take k = buf.take k := by
  unfold resize
  rw [List.take_append_of_le_length, List.take_take, Nat.min_eq_left le]
  rw [List.length_take]
  omega

theorem mallocWrite_of_room (h : MallocAt m isResizeable origin r s t) {bytes : Bytes} {r' : Room}
    (room : t.room.step m isResizeable (.write bytes) = some r') :
    ∃ t', mallocWrite t bytes = .ret (bytes.length, t') ∧
      MallocAt m isResizeable origin r (s.call (.write bytes)) t' := by
  have place : t.pos + bytes.length = (s.call (.write bytes)).pos := by
    rw [s.pos_write, h.pos]
  have front : t.buf.take t.pos ++ bytes = (s.call (.write bytes)).bytes := by
    rw [h.bytes, s.bytes_write]
  have stepped := room
  unfold mallocWrite
  rw [h.resizeable, h.memory]
  unfold Room.step at room
  change (if t.pos + bytes.length ≥ t.size ∧ isResizeable then _ else _) = some r' at room
  by_cases grows : t.pos + bytes.length ≥ t.size ∧ isResizeable
  · rw [if_pos grows] at room ⊢
    change (if m.grant t.requests (t.size + bytes.length) then _ else _) = some r' at room
    by_cases granted : m.grant t.requests (t.size + bytes.length) = true
    · rw [if_pos granted] at room ⊢
      cases room
      have size := m.length_resize (Nat.le_add_right t.buf.length bytes.length)
      have fits : t.pos + bytes.length ≤
          MemStream.size { t.toMemStream with buf := m.resize t.buf (t.size + bytes.length) } := by
        change _ ≤ (m.resize t.buf (t.buf.length + bytes.length)).length
        rw [size]
        exact Nat.add_le_add_right h.inside _
      obtain ⟨mem, written, base, resizeable, size', pos', bytes'⟩ := memWriteInto_fits
        (s := { t.toMemStream with buf := m.resize t.buf (t.size + bytes.length) }) fits
      have total : mem.size = t.size + bytes.length := size'.trans size
      rw [written]
      refine ⟨_, rfl, ?_⟩
      apply h.call
      · exact (congrArg StreamBase.isWriteable base).trans h.writeable
      · exact resizeable.trans h.resizeable
      · rfl
      · change mem.size ≤ offMax
        rw [total]
        exact of_decide_eq_true (Bool.and_eq_true_iff.mp granted).2
      · change mem.pos ≤ mem.size
        rw [total, pos']
        exact Nat.add_le_add_right h.inside _
      · rw [stepped]
        change some (Room.mk _ _ _) = some (Room.mk mem.size (t.requests + 1) mem.pos)
        rw [total, pos']
        rfl
      · exact pos'.trans place
      · refine bytes'.trans ((congrArg (· ++ bytes) ?_).trans front)
        exact m.take_resize (Nat.le_trans h.inside (Nat.le_add_right _ _)) h.inside
    · rw [if_neg granted] at room ⊢
      by_cases none : bytes = []
      · subst none
        cases room
        refine ⟨_, rfl, ?_⟩
        apply h.call
        · exact h.writeable
        · rfl
        · rfl
        · exact h.small
        · exact h.inside
        · exact stepped
        · exact place
        · exact (List.append_nil _).symm.trans front
      · rw [if_neg none] at room
        cases room
  · rw [if_neg grows] at room ⊢
    by_cases fits : t.pos + bytes.length ≤ t.size
    · obtain ⟨mem, written, base, resizeable, size', pos', bytes'⟩ := memWriteInto_fits fits
      rw [written]
      have room : (if t.pos + bytes.length ≤ t.size then
          some { t.room with pos := t.room.pos + bytes.length } else none) = some r' := room
      rw [if_pos fits] at room
      cases room
      refine ⟨_, rfl, ?_⟩
      apply h.call
      · exact (congrArg StreamBase.isWriteable base).trans h.writeable
      · exact resizeable.trans h.resizeable
      · rfl
      · change mem.size ≤ offMax
        rw [size']
        exact h.small
      · change mem.pos ≤ mem.size
        rw [size', pos']
        exact fits
      · rw [stepped]
        change some (Room.mk _ _ _) = some (Room.mk mem.size t.requests mem.pos)
        rw [size', pos']
        rfl
      · exact pos'.trans place
      · exact bytes'.trans front
    · have room : (if t.pos + bytes.length ≤ t.size then
          some { t.room with pos := t.room.pos + bytes.length } else none) = some r' := room
      rw [if_neg fits] at room
      cases room

/-- A stream whose position is inside its buffer can be written to. -/
theorem mallocWrite_returns {t : MallocStream} (inside : t.pos ≤ t.size) (bytes : Bytes) :
    ∃ n t', mallocWrite t bytes = .ret (n, t') ∧ t'.pos ≤ t'.size := by
  unfold mallocWrite
  split
  · split
    · have size := t.memory.length_resize (Nat.le_add_right t.buf.length bytes.length)
      have fits : t.pos + bytes.length ≤ MemStream.size
          { t.toMemStream with buf := t.memory.resize t.buf (t.size + bytes.length) } := by
        change _ ≤ (t.memory.resize t.buf (t.buf.length + bytes.length)).length
        rw [size]
        exact Nat.add_le_add_right inside _
      obtain ⟨mem, written, -, -, size', pos', -⟩ := memWriteInto_fits
        (s := { t.toMemStream with buf := t.memory.resize t.buf (t.size + bytes.length) }) fits
      rw [written]
      refine ⟨_, _, rfl, ?_⟩
      change mem.pos ≤ mem.size
      rw [size', pos']
      exact fits
    · exact ⟨_, _, rfl, inside⟩
  · by_cases fits : t.pos + bytes.length ≤ t.size
    · obtain ⟨mem, written, -, -, size', pos', -⟩ := memWriteInto_fits fits
      rw [written]
      refine ⟨_, _, rfl, ?_⟩
      change mem.pos ≤ mem.size
      rw [size', pos']
      exact fits
    · obtain ⟨n, mem, written, -, -, -, -, inside'⟩ :=
        memWriteInto_short inside (Nat.lt_of_not_le fits)
      rw [written]
      exact ⟨_, _, rfl, inside'⟩

theorem mallocWrite_of_short (h : MallocAt m isResizeable origin r s t) {bytes : Bytes}
    (short : t.room.step m isResizeable (.write bytes) = none) {n : Nat} {t' : MallocStream}
    (written : mallocWrite t bytes = .ret (n, t')) : n ≠ bytes.length := by
  unfold mallocWrite at written
  rw [h.resizeable, h.memory] at written
  unfold Room.step at short
  change (if t.pos + bytes.length ≥ t.size ∧ isResizeable then
    (if m.grant t.requests (t.size + bytes.length) then _ else _) else
    (if t.pos + bytes.length ≤ t.size then _ else _)) = none at short
  split at short
  · rename_i grows
    rw [if_pos grows] at written
    split at short
    · cases short
    · rename_i refused
      rw [if_neg refused] at written
      split at short
      · cases short
      · rename_i some
        cases written
        exact (Nat.ne_of_lt (List.length_pos_of_ne_nil some))
  · rename_i grows
    rw [if_neg grows] at written
    split at short
    · cases short
    · rename_i exceeds
      obtain ⟨n', mem, written', less, -⟩ := memWriteInto_short h.inside (Nat.lt_of_not_le exceeds)
      rw [written'] at written
      cases written
      exact less

end Calls

theorem malloc_follower (m : MallocEnv) (isResizeable : Bool) (origin : List StreamCall) (r : Room) :
    Follower MallocStream (Short m isResizeable origin r) (MallocAt m isResizeable origin r)
      (fun t => t.pos ≤ t.size) where
  ready h := h.inside
  writeable h := h.writeable
  tell := by
    intro s t h
    have small : ¬ s.pos > offMax := by
      rw [← h.pos]
      exact Nat.not_lt.mpr (Nat.le_trans h.inside h.small)
    change (t.pos : Int) = if s.pos > offMax then -1 else (s.pos : Int)
    rw [if_neg small, h.pos]
  goes_on bytes inside := mallocWrite_returns inside bytes
  full := by
    intro s t bytes h fits
    rw [h.short_iff] at fits
    obtain ⟨r', room⟩ := Option.ne_none_iff_exists'.mp fits
    exact mallocWrite_of_room h room
  short := by
    intro s t bytes h short
    rw [h.short_iff] at short
    obtain ⟨n, t', written, inside⟩ := mallocWrite_returns h.inside bytes
    exact ⟨n, t', written, mallocWrite_of_short h short written, inside⟩
  flush := by
    intro s t h
    refine ⟨true, t, rfl, ?_⟩
    exact h.call h.writeable h.resizeable h.memory h.small h.inside rfl
      (h.pos.trans s.pos_flush.symm) (h.bytes.trans s.bytes_flush.symm)
  flushes := by
    rintro before ⟨more, r', -, -, ⟨⟩⟩

end LibAsdf
