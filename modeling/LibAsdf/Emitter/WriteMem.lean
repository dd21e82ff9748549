import LibAsdf.Emitter.Front
import LibAsdf.Emitter.Memory

/-!
# What `asdf_write_to_mem` leaves

* `MemCorrect`: what a write to memory is to do;
* `Provided`: all memory is granted, and nothing is cut off;
* `writeToCaller_correct`: a buffer of the caller;
* `writeAllocated_correct_iff`: a buffer that is allocated;
* `write_to_mem`: when a write to memory does what it is to do.
-/

namespace LibAsdf

open Outcome (Follows Clear)

section Write

variable {σ : Type} [OpenMem σ] {env : EmitterEnv σ} {m : MallocEnv} {file : EmitterFile}
  {blocks : BlockFile} {target : MemTarget} {r : MemResult}

/-- The buffer that the document is to be in. -/
def MemResult.output (r : MemResult) (target : MemTarget) : Option Bytes :=
  match target.buf with
  | some _ => r.caller
  | none => r.handed

/-- Zero is returned only where the buffer holds the document, as it is in a file, and
then zeros; else a buffer that was allocated is not handed over, and not lost. -/
structure MemCorrect (env : EmitterEnv σ) (file : EmitterFile) (blocks : BlockFile)
    (target : MemTarget) (r : MemResult) : Prop where
  written : r.code = 0 → ∃ bytes n, EmitsBytes env file blocks bytes ∧
    r.output target = some (bytes ++ List.replicate n 0)
  as_file : r.code = 0 → ∀ disk content, disk.old = [] →
    asdfWriteToFile env file blocks disk = .ret (0, content) →
      ∃ n, r.output target = some (content ++ List.replicate n 0)
  failed : r.code ≠ 0 → target.buf = none → r.handed = none ∧ r.leaked = false

/-- A file that was empty holds the document. -/
theorem emitsBytes_of_empty (reports : env.yaml.Reports) {disk : TargetFile} {content : Bytes}
    (empty : disk.old = []) (written : asdfWriteToFile env file blocks disk = .ret (0, content)) :
    EmitsBytes env file blocks content := by
  obtain ⟨bytes, emits, rfl⟩ := content_of_write reports written
  rw [empty, List.drop_nil, List.append_nil]
  exact emits

theorem MemCorrect.of_written (reports : env.yaml.Reports)
    (written : r.code = 0 → ∃ bytes n, EmitsBytes env file blocks bytes ∧
      r.output target = some (bytes ++ List.replicate n 0))
    (failed : r.code ≠ 0 → target.buf = none → r.handed = none ∧ r.leaked = false) :
    MemCorrect env file blocks target r where
  written
  as_file := by
    intro zero disk content empty whole
    obtain ⟨bytes, n, emits, output⟩ := written zero
    cases emits.unique (emitsBytes_of_empty reports empty whole)
    exact ⟨n, output⟩
  failed

/-! ## A buffer of the caller -/

theorem mallocAt_start (m : MallocEnv) (isResizeable : Bool) (requests : Nat) {buf : Bytes}
    (small : buf.length ≤ offMax) :
    MallocAt m isResizeable [] ⟨buf.length, requests, 0⟩ ⟨[]⟩
      (mallocStream m isResizeable buf requests) where
  writeable := rfl
  resizeable := rfl
  memory := rfl
  small
  inside := Nat.zero_le _
  room := ⟨[], rfl, rfl⟩
  pos := rfl
  bytes := rfl

/-- The buffer once the rest of it is zero. -/
theorem MallocAt.zeroRest {isResizeable : Bool} {origin : List StreamCall} {room : Room}
    {s : Recorder} {t : MallocStream} (h : MallocAt m isResizeable origin room s t) :
    LibAsdf.zeroRest t.buf t.pos = s.bytes ++ List.replicate (t.buf.length - t.pos) 0 :=
  congrArg (· ++ _) h.bytes

theorem writeToCaller_correct (reports : env.yaml.Reports) {buf : Bytes}
    (given : target.buf = some buf) (run : writeToCaller env m file blocks buf = .ret r) :
    MemCorrect env file blocks target r := by
  obtain ⟨⟨code, closed⟩, written, run⟩ := Outcome.bind_eq_ret.mp run
  cases run
  apply MemCorrect.of_written reports _ (fun _ null => nomatch given.symm.trans null)
  intro zero
  obtain rfl : code = 0 := zero
  have start : ∀ out, (if m.grants 0 then some (mallocStream m false buf 1) else none) = some out →
      MallocAt m false [] ⟨buf.length, 1, 0⟩ ⟨[]⟩ out := by
    intro out eq
    split at eq
    · cases eq
      exact mallocAt_start _ _ _ (target.object buf given)
    · cases eq
  obtain ⟨calls, out, emits, -, rfl, at_⟩ := emits_of_asdfWriteTo reports
    (malloc_follower m false [] _) start written
  refine ⟨writtenBytes calls, out.buf.length - out.pos, ⟨calls, emits, rfl⟩, ?_⟩
  unfold MemResult.output
  rw [given]
  exact congrArg some at_.zeroRest

/-! ## Room for the blocks -/

/-- The room after `asdf_write_to_mem` has looked at it; none if there is not enough
memory, or if what is written is cut off. -/
def Room.grown (m : MallocEnv) (blocksSize : Nat) (state : EmitterState) (r : Room) : Option Room :=
  if state = .blocks && r.size - r.pos < blocksSize then
    if m.grant r.requests (roomForBlocks blocksSize r.size r.pos) && m.grants (r.requests + 1) &&
        r.pos ≤ roomForBlocks blocksSize r.size r.pos then
      some ⟨roomForBlocks blocksSize r.size r.pos, r.requests + 2, r.pos⟩
    else none
  else some r

/-- What is left of a document can be written, in the room that there is. -/
def Finishes (env : EmitterEnv σ) (m : MallocEnv) (e : Emitter Recorder) (r : Room) : Prop :=
  ∃ e' back, emitterEmit env e = .ret e' ∧ e'.state ≠ .error ∧
    e'.stream.calls = e.stream.calls ++ back ∧ (r.run m true back).isSome = true

/-- The document can be written, and there is memory all the way. -/
def Provided (env : EmitterEnv σ) (m : MallocEnv) (file : EmitterFile) (blocks : BlockFile) : Prop :=
  m.grants 1 = true ∧ ∃ e r r',
    emitUntil env .blocks (emitterCreate file blocks (⟨[]⟩ : Recorder)) = .ret e ∧
    Room.run m true ⟨firstSize m file blocks, 2, 0⟩ e.stream.calls = some r ∧
    r.grown m (fileEstimateBlocksSize blocks.blocks) e.state = some r' ∧ Finishes env m e r'

theorem memSeek_set (t : MemStream) {offset : Nat} (small : offset ≤ offMax) :
    (memSeek t offset .set).2 = { t with pos := min offset t.size } := by
  have place : t.newPos offset .set = offset := by
    change sizeAdd 0 offset = offset
    unfold sizeAdd
    rw [Nat.cast_zero, Int.zero_add, Int.emod_eq_of_lt (Int.natCast_nonneg _), Int.toNat_natCast]
    exact Int.ofNat_lt.mpr (Nat.lt_of_le_of_lt small (by decide))
  unfold memSeek
  rw [place]
  dsimp only
  congr 1
  split <;> omega

/-- The stream of the blocks, where `newSize` bytes are granted for the buffer. -/
def resizedStream (m : MallocEnv) (t : MallocStream) (newSize : Nat) : MallocStream :=
  let stream := mallocStream m true (m.resize t.buf newSize) (t.requests + 2)
  { stream with toMemStream := (memSeek stream.toMemStream t.pos .set).2 }

/-- The emitter with it. -/
def Emitter.resized (m : MallocEnv) (blocksSize : Nat) (d : Emitter MallocStream) :
    Emitter MallocStream :=
  { d with stream :=
      resizedStream m d.stream (roomForBlocks blocksSize d.stream.size d.stream.pos) }

theorem MallocEnv.length_resize_eq (m : MallocEnv) (buf : Bytes) (n : Nat) :
    (m.resize buf n).length = n := by
  unfold resize fresh
  rw [List.length_append, List.length_take, List.length_replicate]
  omega

section Resized

variable {t : MallocStream} {newSize : Nat}

theorem resizedStream_buf : (resizedStream m t newSize).buf = m.resize t.buf newSize := rfl

theorem resizedStream_size : (resizedStream m t newSize).size = newSize :=
  m.length_resize_eq _ _

theorem resizedStream_pos (small : t.pos ≤ offMax) :
    (resizedStream m t newSize).pos = min t.pos newSize := by
  unfold resizedStream
  dsimp only
  rw [memSeek_set _ small]
  change min t.pos (m.resize t.buf newSize).length = _
  rw [m.length_resize_eq]

/-- What is before the end of the new buffer is kept. -/
theorem resizedStream_front (small : t.pos ≤ offMax) (inside : t.pos ≤ t.size) :
    (resizedStream m t newSize).buf.take (resizedStream m t newSize).pos =
      (t.buf.take t.pos).take newSize := by
  rw [resizedStream_pos small, resizedStream_buf, List.take_take, Nat.min_comm newSize]
  exact m.take_resize (Nat.min_le_right _ _) (Nat.le_trans (Nat.min_le_left _ _) inside)

end Resized

/-- Room for the blocks is not needed, or it is refused, or there is no stream for
it, or it is there. -/
theorem growForBlocks_cases (m : MallocEnv) (blocksSize : Nat) (d : Emitter MallocStream) :
    needsRoom blocksSize d = false ∧ growForBlocks m blocksSize d = .inl d ∨
    needsRoom blocksSize d = true ∧
      (m.grant d.stream.requests (roomForBlocks blocksSize d.stream.size d.stream.pos) = false ∧
          growForBlocks m blocksSize d = .inr ⟨0, none, none, false⟩ ∨
        m.grant d.stream.requests (roomForBlocks blocksSize d.stream.size d.stream.pos) = true ∧
          (m.grants (d.stream.requests + 1) = false ∧
              growForBlocks m blocksSize d = .inr ⟨-1, none, none, true⟩ ∨
            m.grants (d.stream.requests + 1) = true ∧
              growForBlocks m blocksSize d = .inl (d.resized m blocksSize))) := by
  unfold growForBlocks
  cases needs : needsRoom blocksSize d with
  | false => exact .inl ⟨rfl, rfl⟩
  | true =>
    refine .inr ⟨rfl, ?_⟩
    dsimp only
    cases granted : m.grant d.stream.requests
        (roomForBlocks blocksSize d.stream.size d.stream.pos) with
    | false => exact .inl ⟨rfl, rfl⟩
    | true =>
      refine .inr ⟨rfl, ?_⟩
      cases second : m.grants (d.stream.requests + 1) with
      | false => exact .inl ⟨rfl, rfl⟩
      | true => exact .inr ⟨rfl, rfl⟩

/-! ## The blocks and their index -/

section Finish

variable {origin : List StreamCall} {room : Room} {s : Recorder} {t : MallocStream}

/-- A stream goes on from where it is. -/
theorem MallocAt.restart (h : MallocAt m true origin room s t) :
    MallocAt m true s.calls t.room s t :=
  { h with room := ⟨[], (List.append_nil _).symm, rfl⟩ }

/-- A buffer of another size, on which only what is before its end is kept. -/
theorem MallocAt.resized (h : MallocAt m true origin room s t) {newSize : Nat}
    (small : newSize ≤ offMax) {kept : Recorder} (front : kept.bytes = s.bytes.take newSize) :
    MallocAt m true kept.calls ⟨newSize, t.requests + 2, min t.pos newSize⟩ kept
      (resizedStream m t newSize) := by
  have place : t.pos ≤ offMax := Nat.le_trans h.inside h.small
  have size : (resizedStream m t newSize).size = newSize := resizedStream_size
  have pos : (resizedStream m t newSize).pos = min t.pos newSize := resizedStream_pos place
  refine ⟨rfl, rfl, rfl, ?_, ?_, ⟨[], (List.append_nil _).symm, ?_⟩, ?_, ?_⟩
  · rw [size]
    exact small
  · rw [size, pos]
    exact Nat.min_le_right _ _
  · change some _ = some (Room.mk (resizedStream m t newSize).size (t.requests + 2)
      (resizedStream m t newSize).pos)
    rw [size, pos]
  · rw [pos, h.pos, Nat.min_comm]
    unfold Recorder.pos
    rw [front, List.length_take]
  · rw [resizedStream_front place h.inside, h.bytes, front]

end Finish

/-- Where memory has been allocated and the document is not written, it is lost. -/
def lostResult : MemResult := ⟨-1, none, none, true⟩

def writtenResult (sizeGiven : Bool) (bytes : Bytes) : MemResult :=
  if sizeGiven then ⟨0, none, some bytes, false⟩ else ⟨0, none, none, true⟩

theorem finishWrite_of_error {d : Emitter MallocStream} {sizeGiven : Bool}
    (h : d.state = .error) (done : d.done = true) : finishWrite env sizeGiven d = .ret lostResult := by
  have stopped : emitterEmit env d = .ret d := by
    refine (emitLoop_succ env .end 7 d).trans ?_
    rw [done]
    rfl
  unfold finishWrite
  rw [stopped, Outcome.ret_bind]
  exact if_pos h

theorem finishWrite_cases (reports : env.yaml.Reports) {e : Emitter Recorder}
    {d : Emitter MallocStream} {room : Room} {sizeGiven : Bool}
    (same : SameEmitter (MallocAt m true e.stream.calls room) e d)
    (run : finishWrite env sizeGiven d = .ret r) :
    (∃ e' n, emitterEmit env e = .ret e' ∧ e'.state ≠ .error ∧ Finishes env m e room ∧
        r = writtenResult sizeGiven (e'.stream.bytes ++ List.replicate n 0)) ∨
      ¬ Finishes env m e room ∧ r = lostResult := by
  obtain ⟨d', emitted, run⟩ := Outcome.bind_eq_ret.mp run
  have follows : Follows _ e.stream.calls (·.stream.calls) _ Emitter.GaveUp
      (emitterEmit env e) (emitterEmit env d) :=
    emitLoop_follows reports .end 8 (malloc_follower m true e.stream.calls room) same e.rank_lt
  rw [emitted] at follows
  obtain ⟨e', back, recorded, eq, clear, same'⟩ | ⟨failed, not⟩ := follows.of_ret
  · rw [same'.state] at run
    by_cases failed : e'.state = .error
    · rw [if_pos failed] at run
      cases run
      refine .inr ⟨?_, rfl⟩
      rintro ⟨e'', -, recorded', ok, -⟩
      cases recorded.symm.trans recorded'
      exact ok failed
    · rw [if_neg failed] at run
      refine .inl ⟨e', d'.stream.buf.length - d'.stream.pos, recorded, failed,
        ⟨e', back, recorded, failed, eq, clear_short_iff.mp clear⟩, ?_⟩
      rw [← same'.stream.zeroRest]
      cases sizeGiven with
      | false =>
        cases run
        rfl
      | true =>
        cases run
        rfl
  · rw [if_pos failed.1] at run
    cases run
    refine .inr ⟨?_, rfl⟩
    rintro ⟨e', back, recorded, -, eq, enough⟩
    exact not e' back recorded eq (clear_short_iff.mpr enough)

/-! ## A buffer that is allocated -/

section Allocated

theorem MemCorrect.not_lost (null : target.buf = none) :
    ¬ MemCorrect env file blocks target lostResult := by
  intro h
  have kept : true = false := (h.failed (by decide) null).2
  cases kept

theorem MemCorrect.handed (null : target.buf = none) (h : MemCorrect env file blocks target r)
    (zero : r.code = 0) :
    ∃ bytes n, EmitsBytes env file blocks bytes ∧ r.handed = some (bytes ++ List.replicate n 0) := by
  have output := h.written zero
  unfold MemResult.output at output
  rw [null] at output
  exact output

/-- Without a size, the buffer is not handed over. -/
theorem writtenResult_correct_iff (reports : env.yaml.Reports) (null : target.buf = none) {bytes : Bytes} {n : Nat}
    (emits : EmitsBytes env file blocks bytes) :
    MemCorrect env file blocks target
      (writtenResult target.sizeGiven (bytes ++ List.replicate n 0)) ↔ target.sizeGiven = true := by
  cases sized : target.sizeGiven with
  | false =>
    refine iff_of_false ?_ Bool.false_ne_true
    intro h
    obtain ⟨_, _, -, handed⟩ := h.handed null rfl
    cases handed
  | true =>
    refine iff_of_true (MemCorrect.of_written reports ?_ fun failed _ => absurd rfl failed) rfl
    intro _
    refine ⟨bytes, n, emits, ?_⟩
    unfold MemResult.output
    rw [null]
    rfl

variable {e : Emitter Recorder} {d : Emitter MallocStream}

theorem emission_of_front
    (front : emitUntil env .blocks (emitterCreate file blocks (⟨[]⟩ : Recorder)) = .ret e)
    {e' : Emitter Recorder} (rest : emitterEmit env e = .ret e') :
    emission env file blocks = .ret e' := by
  unfold emission
  rw [emitterEmit_split (begun_create env.yaml file blocks).ends, front]
  exact rest

theorem finishWrite_correct_iff (reports : env.yaml.Reports) (null : target.buf = none)
    (front : emitUntil env .blocks (emitterCreate file blocks (⟨[]⟩ : Recorder)) = .ret e)
    {room : Room} (same : SameEmitter (MallocAt m true e.stream.calls room) e d)
    (run : finishWrite env target.sizeGiven d = .ret r) :
    MemCorrect env file blocks target r ↔ target.sizeGiven = true ∧ Finishes env m e room := by
  obtain ⟨e', n, recorded, ok, finishes, rfl⟩ | ⟨not, rfl⟩ := finishWrite_cases reports same run
  · have emits : EmitsBytes env file blocks e'.stream.bytes :=
      ⟨_, ⟨e', emission_of_front front recorded, ok, rfl⟩, rfl⟩
    rw [writtenResult_correct_iff reports null emits]
    exact (and_iff_left finishes).symm
  · exact iff_of_false (MemCorrect.not_lost null) fun h => not h.2

/-- The end of what has been written before the blocks is cut off: what is handed
over is not the document. -/
theorem cut_not_correct (reports : env.yaml.Reports) (utf8 : env.yaml.Utf8)
    (null : target.buf = none)
    (front : emitUntil env .blocks (emitterCreate file blocks (⟨[]⟩ : Recorder)) = .ret e)
    (state : e.state = .blocks) (some : blocks.blocks ≠ []) {newSize : Nat}
    (cut : newSize < e.stream.pos) {room : Room} {kept : Recorder}
    (keeps : kept.bytes = e.stream.bytes.take newSize)
    (same : SameEmitter (MallocAt m true kept.calls room) { e with stream := kept } d)
    (run : finishWrite env target.sizeGiven d = .ret r) : ¬ MemCorrect env file blocks target r := by
  have begun := emitUntil_begun (begun_create env.yaml file blocks) front
  have going : e.done = false := by
    apply Bool.eq_false_iff.mpr
    intro done
    obtain failed | ended := begun.ends.mp done
    · exact absurd (state.symm.trans failed) nofun
    · exact absurd (state.symm.trans ended) nofun
  have blocks_ne : e.blocks.blocks ≠ [] := by
    rw [begun.blocks]
    exact some
  obtain ⟨e', n, recorded, ok, -, rfl⟩ | ⟨-, rfl⟩ :=
    finishWrite_cases (e := { e with stream := kept }) reports same run
  · intro h
    -- the magic stands where the text goes on
    obtain ⟨rest, behind⟩ := emitterEmit_magic (e := { e with stream := kept }) reports state going
      blocks_ne recorded ok
    have zero : (writtenResult target.sizeGiven (e'.stream.bytes ++ List.replicate n 0)).code = 0 := by
      unfold writtenResult
      split <;> rfl
    obtain ⟨bytes, k, ⟨_, ⟨e'', emitted, ok', rfl⟩, rfl⟩, handed⟩ := h.handed null zero
    rw [emission, emitterEmit_split (begun_create env.yaml file blocks).ends, front] at emitted
    obtain ⟨rest', whole⟩ := emitterEmit_magic reports state going blocks_ne emitted ok'
    unfold writtenResult at handed
    split at handed
    · have handed := Option.some.inj handed
      change _ = Recorder.bytes e''.stream ++ _ at handed
      rw [behind, whole] at handed
      change kept.bytes ++ _ ++ _ = _ at handed
      rw [keeps] at handed
      have text : Utf8Leads e.stream.bytes := by
        have front := begun.front
        rw [state] at front
        exact front.utf8 utf8
      apply absurd cut
      apply Nat.not_lt.mpr
      have behind : e.stream.bytes.drop newSize ++ (blockMagic ++ rest' ++ List.replicate k 0) =
          blockMagic ++ (rest ++ List.replicate n 0) := by
        apply (List.append_cancel_left_eq (e.stream.bytes.take newSize) _ _).mp
        rw [← List.append_assoc, List.take_append_drop, ← List.append_assoc, ← handed,
          List.append_assoc, List.append_assoc]
      exact text.no_magic behind
    · cases handed
  · exact MemCorrect.not_lost null

theorem room_grown (m : MallocEnv) (blocksSize : Nat) (state : d.state = e.state) :
    d.stream.room.grown m blocksSize e.state = if needsRoom blocksSize d then
      if m.grant d.stream.requests (roomForBlocks blocksSize d.stream.size d.stream.pos) &&
          m.grants (d.stream.requests + 1) &&
          d.stream.pos ≤ roomForBlocks blocksSize d.stream.size d.stream.pos then
        some ⟨roomForBlocks blocksSize d.stream.size d.stream.pos, d.stream.requests + 2, d.stream.pos⟩
      else none
    else some d.stream.room := by
  rw [← state]
  rfl

/-- More room is needed just for blocks. -/
theorem blocks_of_needsRoom (needs : needsRoom (fileEstimateBlocksSize blocks.blocks) d = true) :
    d.state = .blocks ∧ blocks.blocks ≠ [] := by
  obtain ⟨state, less⟩ := Bool.and_eq_true_iff.mp needs
  refine ⟨of_decide_eq_true state, ?_⟩
  intro none
  rw [none] at less
  exact absurd (of_decide_eq_true less) (Nat.not_lt_zero _)

/-- What comes after the tree. -/
def writeBlocks (env : EmitterEnv σ) (m : MallocEnv) (blocks : BlockFile) (sizeGiven : Bool)
    (d : Emitter MallocStream) : Run MemResult :=
  match growForBlocks m (fileEstimateBlocksSize blocks.blocks) d with
  | .inr r => return r
  | .inl e => finishWrite env sizeGiven e

theorem writeBlocks_correct_iff (reports : env.yaml.Reports) (utf8 : env.yaml.Utf8)
    (null : target.buf = none)
    (front : emitUntil env .blocks (emitterCreate file blocks (⟨[]⟩ : Recorder)) = .ret e)
    {start : Room} (same : SameEmitter (MallocAt m true [] start) e d)
    (run : writeBlocks env m blocks target.sizeGiven d = .ret r) :
    MemCorrect env file blocks target r ↔ target.sizeGiven = true ∧ ∃ room,
      d.stream.room.grown m (fileEstimateBlocksSize blocks.blocks) e.state = some room ∧
        Finishes env m e room := by
  have only {room : Room} (grown : d.stream.room.grown m (fileEstimateBlocksSize blocks.blocks)
      e.state = some room) : (∃ room, d.stream.room.grown m (fileEstimateBlocksSize blocks.blocks)
      e.state = some room ∧ Finishes env m e room) ↔ Finishes env m e room := by
    constructor
    · rintro ⟨room', grown', finishes⟩
      cases grown.symm.trans grown'
      exact finishes
    · exact fun finishes => ⟨room, grown, finishes⟩
  have never (grown : d.stream.room.grown m (fileEstimateBlocksSize blocks.blocks) e.state = none) :
      ¬ (target.sizeGiven = true ∧ ∃ room, d.stream.room.grown m
        (fileEstimateBlocksSize blocks.blocks) e.state = some room ∧ Finishes env m e room) := by
    rintro ⟨-, room, some, -⟩
    cases grown.symm.trans some
  have grown := room_grown m (fileEstimateBlocksSize blocks.blocks) same.state
  unfold writeBlocks at run
  obtain ⟨needs, eq⟩ | ⟨needs, ⟨refused, eq⟩ | ⟨granted, ⟨no_stream, eq⟩ | ⟨stream, eq⟩⟩⟩ :=
    growForBlocks_cases m (fileEstimateBlocksSize blocks.blocks) d
  · rw [eq] at run
    rw [needs] at grown
    rw [only grown]
    exact finishWrite_correct_iff reports null front
      ⟨same.file, same.blocks, same.state, same.done, same.stream.restart⟩ run
  · rw [eq] at run
    cases run
    rw [needs, refused] at grown
    refine iff_of_false ?_ (never grown)
    intro h
    obtain ⟨_, _, -, handed⟩ := h.handed null rfl
    cases handed
  · rw [eq] at run
    cases run
    rw [needs, granted, no_stream] at grown
    exact iff_of_false (MemCorrect.not_lost null) (never grown)
  · rw [eq] at run
    have run : finishWrite env target.sizeGiven
      (d.resized m (fileEstimateBlocksSize blocks.blocks)) = .ret r := run
    rw [needs, granted, stream] at grown
    have small := of_decide_eq_true (Bool.and_eq_true_iff.mp granted).2
    have same_resized (kept : Recorder) (keeps : kept.bytes = e.stream.bytes.take
        (roomForBlocks (fileEstimateBlocksSize blocks.blocks) d.stream.size d.stream.pos)) :
        SameEmitter _ { e with stream := kept }
          (d.resized m (fileEstimateBlocksSize blocks.blocks)) :=
      ⟨same.file, same.blocks, same.state, same.done, same.stream.resized small keeps⟩
    have pos : d.stream.pos = e.stream.bytes.length := same.stream.pos
    by_cases fits :
        d.stream.pos ≤ roomForBlocks (fileEstimateBlocksSize blocks.blocks) d.stream.size d.stream.pos
    · rw [decide_eq_true fits] at grown
      rw [only grown]
      have resized := same_resized e.stream
        (List.take_of_length_le (by rw [← pos]; exact fits)).symm
      rw [Nat.min_eq_left fits] at resized
      exact finishWrite_correct_iff reports null front resized run
    · rw [decide_eq_false fits] at grown
      refine iff_of_false ?_ (never grown)
      obtain ⟨state, some⟩ := blocks_of_needsRoom needs
      have cut := Nat.lt_of_not_le fits
      have keeps (bytes : Bytes) : Recorder.bytes ⟨[.write bytes]⟩ = bytes := List.append_nil _
      exact cut_not_correct reports utf8 null front (same.state.symm.trans state) some
        (Nat.lt_of_lt_of_eq cut pos) (keeps _) (same_resized _ (keeps _)) run

/-- A write on a buffer that is allocated gets to the blocks as one on a stream that
takes everything; else it has failed. -/
theorem writeAllocated_cases (reports : env.yaml.Reports) {sizeGiven : Bool}
    (granted : m.grant 0 (firstSize m file blocks) = true) (stream : m.grants 1 = true)
    (run : writeAllocated env m file blocks sizeGiven = .ret r) :
    (∃ e d, emitUntil env .blocks (emitterCreate file blocks (⟨[]⟩ : Recorder)) = .ret e ∧
      SameEmitter (MallocAt m true [] ⟨firstSize m file blocks, 2, 0⟩) e d ∧
      Room.run m true ⟨firstSize m file blocks, 2, 0⟩ e.stream.calls = some d.stream.room ∧
      writeBlocks env m blocks sizeGiven d = .ret r) ∨
    r = lostResult ∧ ∀ e, emitUntil env .blocks (emitterCreate file blocks (⟨[]⟩ : Recorder)) = .ret e →
      Room.run m true ⟨firstSize m file blocks, 2, 0⟩ e.stream.calls = none := by
  unfold writeAllocated at run
  rw [granted, stream] at run
  obtain ⟨d, front, run⟩ := Outcome.bind_eq_ret.mp run
  have small := of_decide_eq_true (Bool.and_eq_true_iff.mp granted).2
  have fresh : (m.fresh (firstSize m file blocks)).length = firstSize m file blocks :=
    List.length_replicate
  rw [← fresh] at small
  have start := mallocAt_start m true 2 small
  rw [fresh] at start
  have follows : Follows _ [] (·.stream.calls) (SameEmitter (MallocAt m true []
      ⟨firstSize m file blocks, 2, 0⟩)) Emitter.GaveUp
      (emitUntil env .blocks (emitterCreate file blocks ⟨[]⟩)) (emitUntil env .blocks
        (emitterCreate file blocks (mallocStream m true (m.fresh (firstSize m file blocks)) 2))) :=
    emitLoop_follows reports .blocks 8 (malloc_follower m true [] _)
      ⟨rfl, rfl, rfl, rfl, start⟩ (Emitter.rank_lt _)
  rw [front] at follows
  obtain ⟨e, -, recorded, -, -, same⟩ | ⟨failed, not⟩ := follows.of_ret
  · obtain ⟨more, eq, room⟩ := same.stream.room
    rw [List.nil_append] at eq
    rw [← eq] at room
    exact .inl ⟨e, d, recorded, same, room, run⟩
  · refine .inr ⟨?_, ?_⟩
    · have none : needsRoom (fileEstimateBlocksSize blocks.blocks) d = false := by
        unfold needsRoom
        rw [failed.1]
        rfl
      have run : writeBlocks env m blocks sizeGiven d = .ret r := run
      unfold writeBlocks growForBlocks at run
      rw [none] at run
      cases (finishWrite_of_error failed.1 failed.2).symm.trans run
      rfl
    · intro e recorded
      have short := not e e.stream.calls recorded rfl
      rw [clear_short_iff, Option.not_isSome_iff_eq_none] at short
      exact short

/-- A buffer that is allocated: the write does what it is to do just if there is a
size, and memory all the way, or none at first. -/
theorem writeAllocated_correct_iff (reports : env.yaml.Reports) (utf8 : env.yaml.Utf8)
    (null : target.buf = none) (run : writeAllocated env m file blocks target.sizeGiven = .ret r) :
    MemCorrect env file blocks target r ↔ m.grant 0 (firstSize m file blocks) = false ∨
      target.sizeGiven = true ∧ Provided env m file blocks := by
  cases granted : m.grant 0 (firstSize m file blocks) with
  | false =>
    unfold writeAllocated at run
    rw [granted] at run
    cases run
    exact iff_of_true (MemCorrect.of_written reports nofun fun _ _ => ⟨rfl, rfl⟩) (.inl rfl)
  | true =>
    rw [or_iff_right (by decide)]
    cases stream : m.grants 1 with
    | false =>
      unfold writeAllocated at run
      rw [granted, stream] at run
      have run : (if (shouldEmit file blocks).1 then (.fault .assertion : Run MemResult)
        else .ret lostResult) = .ret r := run
      split at run
      · cases run
      · cases run
        refine iff_of_false (MemCorrect.not_lost null) ?_
        rintro ⟨-, given, -⟩
        cases stream.symm.trans given
    | true =>
      obtain ⟨e, d, recorded, same, room, run⟩ | ⟨rfl, not⟩ :=
        writeAllocated_cases reports granted stream run
      · rw [writeBlocks_correct_iff reports utf8 null recorded same run]
        apply and_congr_right
        intro _
        constructor
        · rintro ⟨room', grown, finishes⟩
          exact ⟨stream, e, _, room', recorded, room, grown, finishes⟩
        · rintro ⟨-, e', r₁, r₂, recorded', room', grown, finishes⟩
          cases recorded.symm.trans recorded'
          cases room.symm.trans room'
          exact ⟨r₂, grown, finishes⟩
      · refine iff_of_false (MemCorrect.not_lost null) ?_
        rintro ⟨-, -, e, r₁, r₂, recorded, room, -, -⟩
        cases (not e recorded).symm.trans room

end Allocated

/-- A write to memory does what it is to do on a buffer of the caller. One that
allocates does if there is a size and memory all the way, and the room that is made
for the blocks is not less than what is written; or if there is no memory at first. -/
theorem write_to_mem (reports : env.yaml.Reports) (utf8 : env.yaml.Utf8)
    (run : asdfWriteToMem env m file blocks target = .ret r) :
    MemCorrect env file blocks target r ↔ target.buf ≠ none ∨
      m.grant 0 (firstSize m file blocks) = false ∨
        target.sizeGiven = true ∧ Provided env m file blocks := by
  unfold asdfWriteToMem at run
  cases given : target.buf with
  | some buf =>
    rw [given] at run
    refine iff_of_true ?_ (.inl (Option.some_ne_none buf))
    dsimp only at run
    split at run
    · cases run
      exact MemCorrect.of_written reports nofun fun _ null => nomatch given.symm.trans null
    · exact writeToCaller_correct reports given run
  | none =>
    rw [given] at run
    rw [writeAllocated_correct_iff reports utf8 given run]
    exact (or_iff_right (not_not.mpr rfl)).symm

end Write

/-! ## Text that is cut off -/

/-- All memory is granted. -/
def granting (pageSize : Nat) : MallocEnv := ⟨fun _ => true, 170, pageSize⟩

def nullTarget (sizeGiven : Bool) : MemTarget := ⟨none, sizeGiven, nofun⟩

theorem write_to_mem_empty :
    MemCorrect emptyEnv emptyDocument noBlocks (nullTarget true)
        ⟨0, none, some (versionLine ++ standardLine ++ List.replicate 95 0), false⟩ ↔
      (nullTarget true).buf ≠ none ∨
        (granting 64).grant 0 (firstSize (granting 64) emptyDocument noBlocks) = false ∨
          (nullTarget true).sizeGiven = true ∧
            Provided emptyEnv (granting 64) emptyDocument noBlocks :=
  write_to_mem rfl nofun (by decide +kernel :
    asdfWriteToMem emptyEnv (granting 64) emptyDocument noBlocks (nullTarget true) =
      .ret ⟨0, none, some (versionLine ++ standardLine ++ List.replicate 95 0), false⟩)

/-- A tree of 120 bytes, in three pieces. -/
def longTree : YamlText := ⟨List.replicate 3 (List.replicate 40 97), true⟩

def longEnv : EmitterEnv MemStream :=
  ⟨⟨none, 32, [], none⟩, ⟨[some (List.replicate 10 7)]⟩,
    ⟨some longTree, fun _ => ⟨[], true⟩, true⟩⟩

def longDocument : EmitterFile := { emptyDocument with tree := some ⟨some false⟩ }

/-- A block of ten bytes. -/
def oneBlock : BlockFile := ⟨true, none, [BlockRecord.fresh.borrow (some 0) 10]⟩

/-- The bytes of the document. -/
def longBytes : Bytes :=
  versionLine ++ standardLine ++ longTree.pieces.flatten ++
    (blockMagic ++ Endian.beBytes 2 blockHeaderSize ++ List.replicate 8 0 ++ Endian.beBytes 8 10 ++
      Endian.beBytes 8 10 ++ Endian.beBytes 8 10 ++ List.replicate 16 0 ++ List.replicate 10 7) ++
    (blockIndexHeader ++ [newline])

/-- Zero is returned where there is no `size`, and no buffer handed over; and where
all but 23 bytes of a tree longer than its pages are cut off. -/
theorem text_cut_off :
    (asdfWriteToMem emptyEnv (granting 4096) emptyDocument noBlocks (nullTarget false) =
        .ret ⟨0, none, none, true⟩ ∧
      ¬ MemCorrect emptyEnv emptyDocument noBlocks (nullTarget false)
        ⟨0, none, none, true⟩) ∧
    asdfWriteToMem longEnv (granting 32) longDocument oneBlock (nullTarget true) =
      .ret ⟨0, none, some (longBytes.take 23 ++ longBytes.drop 153), false⟩ ∧
    ¬ MemCorrect longEnv longDocument oneBlock (nullTarget true)
      ⟨0, none, some (longBytes.take 23 ++ longBytes.drop 153), false⟩ := by
  refine ⟨⟨by decide +kernel, ?_⟩, by decide +kernel, ?_⟩
  · intro h
    obtain ⟨_, _, -, handed⟩ := h.handed rfl rfl
    cases handed
  · intro h
    obtain ⟨n, output⟩ := h.as_file rfl ⟨none, true, 1000⟩ longBytes rfl (by decide +kernel)
    have size : (longBytes.take 23 ++ longBytes.drop 153).length =
        longBytes.length + (List.replicate n (0 : Byte)).length :=
      (congrArg List.length (Option.some.inj output)).trans List.length_append
    have less : (longBytes.take 23 ++ longBytes.drop 153).length < longBytes.length := by
      decide +kernel
    omega

end LibAsdf
