import LibAsdf.Emitter.Failures
import LibAsdf.Emitter.WriteMem

/-!
# Failures of the output

When `asdf_write_to_file`, `asdf_write_to_fp` and `asdf_write_to_mem` hide one.

* `NoSilentMemFailure`: where zero is returned, the output has the whole document;
* `RoomRefused`, `Taken`, `writeAllocated_code_iff`: when a write to memory returns
  zero;
* `no_silent_failure`: the three calls.
-/

namespace LibAsdf

section Silent

variable {σ : Type} [OpenMem σ] {env : EmitterEnv σ} {m : MallocEnv} {file : EmitterFile}
  {blocks : BlockFile} {target : MemTarget} {r : MemResult}

/-- The blocks need more room, and there is no memory for it. -/
def BlocksRefused (m : MallocEnv) (blocksSize : Nat) (state : EmitterState) (r : Room) : Prop :=
  state = .blocks ∧ r.size - r.pos < blocksSize ∧
    m.grant r.requests (roomForBlocks blocksSize r.size r.pos) = false

/-- There is no memory for the room that the blocks of a document need. -/
def RoomRefused (env : EmitterEnv σ) (m : MallocEnv) (file : EmitterFile) (blocks : BlockFile) :
    Prop :=
  m.grant 0 (firstSize m file blocks) = true ∧ m.grants 1 = true ∧ ∃ e r,
    emitUntil env .blocks (emitterCreate file blocks (⟨[]⟩ : Recorder)) = .ret e ∧
    Room.run m true ⟨firstSize m file blocks, 2, 0⟩ e.stream.calls = some r ∧
    BlocksRefused m (fileEstimateBlocksSize blocks.blocks) e.state r

/-- What is left of what has been written in a buffer of `size` bytes. -/
def Recorder.kept (s : Recorder) (size : Nat) : Recorder :=
  if s.pos ≤ size then s else ⟨[.write (s.bytes.take size)]⟩

/-- The room after `asdf_write_to_mem` has looked at it, also if what is written is cut
off; none if there is not enough memory. -/
def Room.extended (m : MallocEnv) (blocksSize : Nat) (state : EmitterState) (r : Room) :
    Option Room :=
  if state = .blocks && r.size - r.pos < blocksSize then
    if m.grant r.requests (roomForBlocks blocksSize r.size r.pos) && m.grants (r.requests + 1) then
      some ⟨roomForBlocks blocksSize r.size r.pos, r.requests + 2,
        min r.pos (roomForBlocks blocksSize r.size r.pos)⟩
    else none
  else some r

/-- Every write of the document is taken, whether or not what comes before the blocks
is cut off. -/
def Taken (env : EmitterEnv σ) (m : MallocEnv) (file : EmitterFile) (blocks : BlockFile) : Prop :=
  m.grant 0 (firstSize m file blocks) = true ∧ m.grants 1 = true ∧ ∃ e r r',
    emitUntil env .blocks (emitterCreate file blocks (⟨[]⟩ : Recorder)) = .ret e ∧
    Room.run m true ⟨firstSize m file blocks, 2, 0⟩ e.stream.calls = some r ∧
    r.extended m (fileEstimateBlocksSize blocks.blocks) e.state = some r' ∧
    Finishes env m { e with stream := e.stream.kept r'.size } r'

/-- Where zero is returned, every byte of the document is in the output, with zeros
behind it. -/
def NoSilentMemFailure (env : EmitterEnv σ) (file : EmitterFile) (blocks : BlockFile)
    (target : MemTarget) (r : MemResult) : Prop :=
  r.code = 0 → ∃ bytes n, EmitsBytes env file blocks bytes ∧
    r.output target = some (bytes ++ List.replicate n 0)

/-! ## What is returned -/

theorem Recorder.kept_of_le {s : Recorder} {size : Nat} (fits : s.pos ≤ size) : s.kept size = s :=
  if_pos fits

theorem Recorder.bytes_kept (s : Recorder) (size : Nat) :
    (s.kept size).bytes = s.bytes.take size := by
  unfold kept
  split
  · rename_i fits
    exact (List.take_of_length_le fits).symm
  · exact List.append_nil _

variable {e : Emitter Recorder} {d : Emitter MallocStream}

theorem finishWrite_code_iff (reports : env.yaml.Reports) {room : Room} {sizeGiven : Bool}
    (same : SameEmitter (MallocAt m true e.stream.calls room) e d)
    (run : finishWrite env sizeGiven d = .ret r) : r.code = 0 ↔ Finishes env m e room := by
  obtain ⟨e', n, -, -, finishes, rfl⟩ | ⟨not, rfl⟩ := finishWrite_cases reports same run
  · refine iff_of_true ?_ finishes
    unfold writtenResult
    split <;> rfl
  · exact iff_of_false (by decide) not

theorem room_extended (m : MallocEnv) (blocksSize : Nat) (state : d.state = e.state) :
    d.stream.room.extended m blocksSize e.state = if needsRoom blocksSize d then
      if m.grant d.stream.requests (roomForBlocks blocksSize d.stream.size d.stream.pos) &&
          m.grants (d.stream.requests + 1) then
        some ⟨roomForBlocks blocksSize d.stream.size d.stream.pos, d.stream.requests + 2,
          min d.stream.pos (roomForBlocks blocksSize d.stream.size d.stream.pos)⟩
      else none
    else some d.stream.room := by
  rw [← state]
  rfl

theorem blocksRefused_iff {blocksSize : Nat} (state : d.state = e.state) :
    BlocksRefused m blocksSize e.state d.stream.room ↔ needsRoom blocksSize d = true ∧
      m.grant d.stream.requests (roomForBlocks blocksSize d.stream.size d.stream.pos) = false := by
  unfold needsRoom
  rw [Bool.and_eq_true_iff, decide_eq_true_iff, decide_eq_true_iff, state, and_assoc]
  rfl

/-- Zero is returned where the room for the blocks is refused, and where what is left
of the document is taken. -/
theorem writeBlocks_code_iff (reports : env.yaml.Reports) {start : Room} {sizeGiven : Bool}
    (same : SameEmitter (MallocAt m true [] start) e d)
    (run : writeBlocks env m blocks sizeGiven d = .ret r) :
    r.code = 0 ↔ BlocksRefused m (fileEstimateBlocksSize blocks.blocks) e.state d.stream.room ∨
      ∃ room, d.stream.room.extended m (fileEstimateBlocksSize blocks.blocks) e.state = some room ∧
        Finishes env m { e with stream := e.stream.kept room.size } room := by
  have extended := room_extended m (fileEstimateBlocksSize blocks.blocks) same.state
  rw [blocksRefused_iff same.state]
  unfold writeBlocks at run
  obtain ⟨needs, eq⟩ | ⟨needs, ⟨refused, eq⟩ | ⟨granted, ⟨no_stream, eq⟩ | ⟨stream, eq⟩⟩⟩ :=
    growForBlocks_cases m (fileEstimateBlocksSize blocks.blocks) d
  · rw [eq] at run
    rw [needs] at extended
    have all : e.stream.kept d.stream.room.size = e.stream :=
      Recorder.kept_of_le (same.stream.pos ▸ same.stream.inside)
    rw [needs, extended, finishWrite_code_iff reports
      ⟨same.file, same.blocks, same.state, same.done, same.stream.restart⟩ run]
    constructor
    · intro finishes
      refine .inr ⟨_, rfl, ?_⟩
      rw [all]
      exact finishes
    · rintro (⟨⟨⟩, -⟩ | ⟨room, ⟨⟩, finishes⟩)
      rw [all] at finishes
      exact finishes
  · rw [eq] at run
    cases run
    exact iff_of_true rfl (.inl ⟨needs, refused⟩)
  · rw [eq] at run
    cases run
    rw [needs, granted, no_stream] at extended
    refine iff_of_false (by decide) ?_
    rintro (⟨-, refused⟩ | ⟨room, some, -⟩)
    · cases granted.symm.trans refused
    · cases extended.symm.trans some
  · rw [eq] at run
    have run : finishWrite env sizeGiven
      (d.resized m (fileEstimateBlocksSize blocks.blocks)) = .ret r := run
    rw [needs, granted, stream] at extended
    have small := of_decide_eq_true (Bool.and_eq_true_iff.mp granted).2
    let kept := e.stream.kept
      (roomForBlocks (fileEstimateBlocksSize blocks.blocks) d.stream.size d.stream.pos)
    rw [extended, finishWrite_code_iff (e := { e with stream := kept }) (d := d.resized m _) reports
      ⟨same.file, same.blocks, same.state, same.done,
        same.stream.resized small (e.stream.bytes_kept _)⟩ run]
    constructor
    · exact fun finishes => .inr ⟨_, rfl, finishes⟩
    · rintro (⟨-, refused⟩ | ⟨room, ⟨⟩, finishes⟩)
      · cases granted.symm.trans refused
      · exact finishes

/-- A write on a buffer that is allocated returns zero where the room for the blocks
is refused, and where every write is taken. -/
theorem writeAllocated_code_iff (reports : env.yaml.Reports) {sizeGiven : Bool}
    (run : writeAllocated env m file blocks sizeGiven = .ret r) :
    r.code = 0 ↔ RoomRefused env m file blocks ∨ Taken env m file blocks := by
  have run' := run
  unfold writeAllocated at run
  cases granted : m.grant 0 (firstSize m file blocks) with
  | false =>
    rw [granted] at run
    cases run
    refine iff_of_false (by decide) ?_
    rintro (⟨given, -⟩ | ⟨given, -⟩) <;> cases granted.symm.trans given
  | true =>
    cases stream : m.grants 1 with
    | false =>
      rw [granted, stream] at run
      have run : (if (shouldEmit file blocks).1 then (.fault .assertion : Run MemResult)
        else .ret lostResult) = .ret r := run
      split at run
      · cases run
      · cases run
        refine iff_of_false (by decide) ?_
        rintro (⟨-, given, -⟩ | ⟨-, given, -⟩) <;> cases stream.symm.trans given
    | true =>
      obtain ⟨e, d, recorded, same, room, run⟩ | ⟨rfl, not⟩ :=
        writeAllocated_cases reports granted stream run'
      · rw [writeBlocks_code_iff reports same run]
        apply or_congr
        · constructor
          · exact fun refused => ⟨granted, stream, e, _, recorded, room, refused⟩
          · rintro ⟨-, -, e', r', recorded', room', refused⟩
            cases recorded.symm.trans recorded'
            cases room.symm.trans room'
            exact refused
        · constructor
          · rintro ⟨r', extended, finishes⟩
            exact ⟨granted, stream, e, _, r', recorded, room, extended, finishes⟩
          · rintro ⟨-, -, e', r₁, r₂, recorded', room', extended, finishes⟩
            cases recorded.symm.trans recorded'
            cases room.symm.trans room'
            exact ⟨r₂, extended, finishes⟩
      · refine iff_of_false (by decide) ?_
        rintro (⟨-, -, e, r', recorded, room, -⟩ | ⟨-, -, e, r', -, recorded, room, -⟩) <;>
          cases (not e recorded).symm.trans room

/-! ## When a failure is hidden -/

/-- Where the room is refused, there is not memory all the way. -/
theorem RoomRefused.not_provided (refused : RoomRefused env m file blocks) :
    ¬ Provided env m file blocks := by
  rintro ⟨-, e, r, r', recorded, room, grown, -⟩
  obtain ⟨-, -, e', r'', recorded', room', state, less, refused⟩ := refused
  cases recorded.symm.trans recorded'
  cases room.symm.trans room'
  unfold Room.grown at grown
  rw [state, decide_eq_true less, refused] at grown
  cases grown

theorem writeAllocated_silent_iff (reports : env.yaml.Reports) (utf8 : env.yaml.Utf8)
    (null : target.buf = none) (run : writeAllocated env m file blocks target.sizeGiven = .ret r) :
    NoSilentMemFailure env file blocks target r ↔ ¬ RoomRefused env m file blocks ∧
      (Taken env m file blocks → target.sizeGiven = true ∧ Provided env m file blocks) := by
  have code_iff := writeAllocated_code_iff reports run
  have correct_iff := writeAllocated_correct_iff reports utf8 null run
  -- what is left to say of a write that returns zero is that it is correct
  have correct (zero : r.code = 0) (given : m.grant 0 (firstSize m file blocks) = true)
      (silent : NoSilentMemFailure env file blocks target r) :
      target.sizeGiven = true ∧ Provided env m file blocks := by
    obtain none | provided :=
      correct_iff.mp (MemCorrect.of_written reports silent fun failed _ => absurd zero failed)
    · cases given.symm.trans none
    · exact provided
  constructor
  · intro silent
    constructor
    · intro refused
      exact refused.not_provided (correct (code_iff.mpr (.inl refused)) refused.1 silent).2
    · intro taken
      exact correct (code_iff.mpr (.inr taken)) taken.1 silent
  · rintro ⟨not_refused, provided⟩ zero
    obtain refused | taken := code_iff.mp zero
    · exact absurd refused not_refused
    · exact (correct_iff.mpr (.inr (provided taken))).written zero

theorem writeToMem_silent_iff (reports : env.yaml.Reports) (utf8 : env.yaml.Utf8)
    (run : asdfWriteToMem env m file blocks target = .ret r) :
    NoSilentMemFailure env file blocks target r ↔ target.buf ≠ none ∨
      ¬ RoomRefused env m file blocks ∧
        (Taken env m file blocks → target.sizeGiven = true ∧ Provided env m file blocks) := by
  unfold asdfWriteToMem at run
  cases given : target.buf with
  | some buf =>
    rw [given] at run
    refine iff_of_true ?_ (.inl (Option.some_ne_none buf))
    dsimp only at run
    split at run
    · cases run
      exact nofun
    · exact (writeToCaller_correct reports given run).written
  | none =>
    rw [given] at run
    rw [writeAllocated_silent_iff reports utf8 given run]
    exact (or_iff_right (not_not.mpr rfl)).symm

/-- No failure is hidden where a write fails as well; where no flush fails, and not
the close; where nothing is left to be flushed, for a file that stays open; and in
memory, on a buffer of the caller, or where the room for the blocks is not refused and
what is taken is handed over, with nothing of it cut off. -/
theorem no_silent_failure (reports : env.yaml.Reports) (utf8 : env.yaml.Utf8) (c : Stdio) :
    (∀ r, asdfWriteToFileStdio env file blocks c = .ret r →
      (NoSilentFailure env file blocks r ↔ ∀ calls, Emits env file blocks calls →
        ¬ Outcome.Clear (WriteFails c) [] calls ∨
          Outcome.Clear (CallFails c) [] (calls ++ [.flush]))) ∧
    (∀ r, asdfWriteToFp env file blocks c = .ret r →
      (NoSilentFailure env file blocks r ↔ ∀ calls, Emits env file blocks calls →
        ¬ Outcome.Clear (WriteFails c) [] calls ∨
          Outcome.Clear (CallFails c) [] calls ∧ heldBack c 0 [] calls = [])) ∧
    ∀ r, asdfWriteToMem env m file blocks target = .ret r →
      (NoSilentMemFailure env file blocks target r ↔ target.buf ≠ none ∨
        ¬ RoomRefused env m file blocks ∧
          (Taken env m file blocks → target.sizeGiven = true ∧ Provided env m file blocks)) :=
  ⟨fun _ => writeToFile_silent_iff reports, fun _ => writeToFp_silent_iff reports,
    fun _ => writeToMem_silent_iff reports utf8⟩

end Silent

/-- A disk that is full when the second line is flushed. -/
def fullDisk : Stdio where
  fails n := n = 7
  sends _ := 0
  accepts _ := 0
  counts _ := 0

theorem no_silent_failure_empty :
    (∀ r, asdfWriteToFileStdio emptyEnv emptyDocument noBlocks fullDisk = .ret r →
      (NoSilentFailure emptyEnv emptyDocument noBlocks r ↔
        ∀ calls, Emits emptyEnv emptyDocument noBlocks calls →
          ¬ Outcome.Clear (WriteFails fullDisk) [] calls ∨
            Outcome.Clear (CallFails fullDisk) [] (calls ++ [.flush]))) ∧
    (∀ r, asdfWriteToFp emptyEnv emptyDocument noBlocks fullDisk = .ret r →
      (NoSilentFailure emptyEnv emptyDocument noBlocks r ↔
        ∀ calls, Emits emptyEnv emptyDocument noBlocks calls →
          ¬ Outcome.Clear (WriteFails fullDisk) [] calls ∨
            Outcome.Clear (CallFails fullDisk) [] calls ∧ heldBack fullDisk 0 [] calls = [])) ∧
    ∀ r, asdfWriteToMem emptyEnv (granting 64) emptyDocument noBlocks (nullTarget true) = .ret r →
      (NoSilentMemFailure emptyEnv emptyDocument noBlocks (nullTarget true) r ↔
        (nullTarget true).buf ≠ none ∨ ¬ RoomRefused emptyEnv (granting 64) emptyDocument noBlocks ∧
          (Taken emptyEnv (granting 64) emptyDocument noBlocks → (nullTarget true).sizeGiven = true ∧
            Provided emptyEnv (granting 64) emptyDocument noBlocks)) :=
  no_silent_failure (show emptyEnv.yaml.Reports from rfl) nofun fullDisk

/-- Zero is returned where a flush has failed, and where there is no memory for the
blocks and nothing is handed over. -/
theorem failures_hidden :
    (asdfWriteToFileStdio emptyEnv emptyDocument noBlocks fullDisk =
        .ret (0, some ⟨versionLine, [], 9, true⟩) ∧
      ¬ NoSilentFailure emptyEnv emptyDocument noBlocks (0, some ⟨versionLine, [], 9, true⟩)) ∧
    asdfWriteToMem longEnv ⟨fun n => n ≠ 4, 170, 32⟩ longDocument oneBlock (nullTarget true) =
      .ret ⟨0, none, none, false⟩ ∧
    ¬ NoSilentMemFailure longEnv longDocument oneBlock (nullTarget true) ⟨0, none, none, false⟩ := by
  refine ⟨⟨by decide +kernel, ?_⟩, by decide +kernel, ?_⟩
  · intro silent
    obtain ⟨_, ⟨⟩, unfailed, -⟩ := silent rfl
    cases unfailed
  · intro silent
    obtain ⟨_, _, -, output⟩ := silent rfl
    cases output

end LibAsdf
