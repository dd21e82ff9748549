import LibAsdf.Emitter.Recorder
import LibAsdf.Parser.BlockVectors

/-!
# Writing to a file that exists

`asdf_write_to_file` opens its file with `r+b`, and does not cut it.

* `TargetFile`, `asdfWriteToFile`: the file and the call;
* `outFile_follower`: what is in the file as it is written;
* `Replaces`, `write_replaces`: when nothing is left of what was there.
-/

namespace LibAsdf

instance : FlushStream OutFile where
  flush s := .ret (s.isWriteable, if s.isWriteable then s else
    { s with toStreamBase := s.toStreamBase.setError .streamReadOnly })

/-- The file of a name: what is in it, if it exists, whether it can be opened, and
how many bytes it may hold. -/
structure TargetFile where
  content : Option Bytes
  opens : Bool
  limit : Nat

/-- What is in it before. -/
def TargetFile.old (target : TargetFile) : Bytes := target.content.getD []

/-- `asdf_stream_from_file` of a file to be written. -/
def streamFromFile (target : TargetFile) : Option OutFile :=
  if target.opens then
    some { streamFromFp target.old [] true true with limit := target.limit }
  else none

section Write

variable {σ : Type} [OpenMem σ]

/-- `asdf_write_to_file`: what it returns, and what is in the file then. -/
def asdfWriteToFile (env : EmitterEnv σ) (file : EmitterFile) (blocks : BlockFile)
    (target : TargetFile) : Run (Int × Bytes) := do
  let (code, closed) ← asdfWriteTo env file blocks (streamFromFile target)
  return (code, (closed.map (·.file.content)).getD target.old)

/-- The file is full. -/
def Full (limit : Nat) (before : List StreamCall) : StreamCall → Prop
  | .write bytes => bytes ≠ [] ∧ limit < (writtenBytes before).length + bytes.length
  | .flush => False

theorem overwrite_zero (old bytes : Bytes) :
    overwrite old 0 bytes = bytes ++ old.drop bytes.length := by
  unfold overwrite padTo
  rw [List.take_zero, Nat.zero_sub, List.replicate_zero, Nat.zero_add]
  rfl

/-- Writes go on where the last has ended. -/
theorem overwrite_overwrite (old bytes more : Bytes) :
    overwrite (overwrite old 0 bytes) bytes.length more = overwrite old 0 (bytes ++ more) := by
  rw [overwrite_zero, overwrite_zero, overwrite, padTo_of_le, List.take_left, ← List.drop_drop,
    List.drop_left, List.drop_drop, List.append_assoc, List.length_append]
  · rw [List.append_assoc]
  · rw [List.length_append]
    exact Nat.le_add_right _ _

theorem fileWrite_of_writeable {s : OutFile} (writeable : s.isWriteable = true) (bytes : Bytes) :
    fileWrite s bytes = if (s.file.fwrite s.limit bytes).1 ≠ bytes.length then
        ((s.file.fwrite s.limit bytes).1, { s with
          toStreamBase := s.toStreamBase.setError .system
          file := (s.file.fwrite s.limit bytes).2 })
      else ((s.file.fwrite s.limit bytes).1, { s with
        file := (s.file.fwrite s.limit bytes).2
        filePos := s.filePos + (s.file.fwrite s.limit bytes).1 }) := by
  simp only [fileWrite, writeable, Bool.not_true, Bool.false_eq_true, if_false]

theorem fwrite_fits {f : FileHandle} {limit : Nat} {bytes : Bytes}
    (fits : bytes = [] ∨ f.pos + bytes.length ≤ limit) :
    (f.fwrite limit bytes).1 = bytes.length := by
  have count : min bytes.length (limit - f.pos) = bytes.length := by
    obtain rfl | fits := fits
    · exact Nat.zero_min _
    · omega
  unfold FileHandle.fwrite
  dsimp only
  rw [count]
  split
  · rename_i none
    exact none.symm
  · rfl

theorem fwrite_exceeds {f : FileHandle} {limit : Nat} {bytes : Bytes} (some : bytes ≠ [])
    (full : limit < f.pos + bytes.length) : (f.fwrite limit bytes).1 ≠ bytes.length := by
  have pos := List.length_pos_of_ne_nil some
  unfold FileHandle.fwrite
  dsimp only
  split
  · exact Nat.ne_of_lt pos
  · dsimp only
    omega

/-- The file as it is after what has been recorded. -/
structure OutFileAt (target : TargetFile) (s : Recorder) (t : OutFile) : Prop where
  writeable : t.isWriteable = true
  filePos : t.filePos = s.pos
  pos : t.file.pos = s.pos
  limit : t.limit = target.limit
  content : t.file.content = overwrite target.old 0 s.bytes

theorem outFile_follower (target : TargetFile) : Follower OutFile (Full target.limit)
    (OutFileAt target) (fun t => t.isWriteable = true) where
  ready h := h.writeable
  writeable h := h.writeable
  tell := by
    intro s t h
    change fileTell t.toFileStream = if s.pos > offMax then -1 else (s.pos : Int)
    rw [fileTell, h.filePos]
  goes_on := by
    intro t bytes writeable
    refine ⟨_, _, rfl, ?_⟩
    change (fileWrite t bytes).2.isWriteable = true
    rw [fileWrite_of_writeable writeable]
    split
    · exact writeable
    · exact writeable
  full := by
    intro s t bytes h fits
    have room : bytes = [] ∨ t.file.pos + bytes.length ≤ t.limit := by
      by_cases none : bytes = []
      · exact .inl none
      · refine .inr (Nat.le_of_not_lt fun exceeds => fits ⟨none, ?_⟩)
        rw [h.pos, h.limit] at exceeds
        exact exceeds
    have count := fwrite_fits room
    have plain : fileWrite t bytes = (bytes.length, { t with
        file := (t.file.fwrite t.limit bytes).2
        filePos := t.filePos + bytes.length }) := by
      rw [fileWrite_of_writeable h.writeable, if_neg (not_not.mpr count), count]
    refine ⟨_, congrArg Outcome.ret plain, ?_⟩
    obtain ⟨rfl, same⟩ | ⟨-, -, moved⟩ := fwrite_full count
    · rw [same]
      refine ⟨h.writeable, ?_, ?_, h.limit, ?_⟩
      · rw [s.pos_write]
        exact h.filePos
      · rw [s.pos_write]
        exact h.pos
      · rw [s.bytes_write, List.append_nil]
        exact h.content
    · rw [moved]
      refine ⟨h.writeable, ?_, ?_, h.limit, ?_⟩
      · rw [s.pos_write]
        exact congrArg (· + bytes.length) h.filePos
      · rw [s.pos_write]
        exact congrArg (· + bytes.length) h.pos
      · change overwrite t.file.content t.file.pos bytes = _
        rw [h.content, h.pos, s.bytes_write]
        exact overwrite_overwrite _ _ _
  short := by
    intro s t bytes h full
    have exceeds : t.limit < t.file.pos + bytes.length := by
      rw [h.pos, h.limit]
      exact full.2
    have short := fwrite_exceeds full.1 exceeds
    have plain : fileWrite t bytes = ((t.file.fwrite t.limit bytes).1, { t with
        toStreamBase := t.toStreamBase.setError .system
        file := (t.file.fwrite t.limit bytes).2 }) := by
      rw [fileWrite_of_writeable h.writeable, if_pos short]
    exact ⟨_, _, congrArg Outcome.ret plain, short, h.writeable⟩
  flush := by
    intro s t h
    refine ⟨true, t, ?_, ?_⟩
    · change Outcome.ret (t.isWriteable, if t.isWriteable then t else _) = _
      rw [h.writeable]
      rfl
    · exact ⟨h.writeable, h.filePos.trans s.pos_flush.symm, h.pos.trans s.pos_flush.symm, h.limit,
        h.content.trans (by rw [s.bytes_flush])⟩
  flushes _ := id

/-! ## What is in the file -/

/-- A document and its bytes: the version comments, the tree, the blocks and their
index. -/
def EmitsBytes (env : EmitterEnv σ) (file : EmitterFile) (blocks : BlockFile) (bytes : Bytes) :
    Prop :=
  ∃ calls, Emits env file blocks calls ∧ writtenBytes calls = bytes

theorem EmitsBytes.unique {env : EmitterEnv σ} {file : EmitterFile} {blocks : BlockFile}
    {bytes bytes' : Bytes} (h : EmitsBytes env file blocks bytes)
    (h' : EmitsBytes env file blocks bytes') : bytes = bytes' := by
  obtain ⟨calls, emits, rfl⟩ := h
  obtain ⟨calls', emits', rfl⟩ := h'
  rw [emits.unique emits']

variable {env : EmitterEnv σ} {file : EmitterFile} {blocks : BlockFile} {target : TargetFile}
  {content : Bytes}

theorem outFileAt_open {stream : OutFile} (opened : streamFromFile target = some stream) :
    OutFileAt target ⟨[]⟩ stream := by
  unfold streamFromFile at opened
  split at opened
  · cases opened
    refine ⟨rfl, rfl, rfl, rfl, ?_⟩
    rw [overwrite_zero]
    rfl
  · cases opened

/-- What a write that succeeds leaves is the document, and then what there was
behind it. -/
theorem content_of_write (reports : env.yaml.Reports)
    (written : asdfWriteToFile env file blocks target = .ret (0, content)) :
    ∃ bytes, EmitsBytes env file blocks bytes ∧
      content = bytes ++ target.old.drop bytes.length := by
  obtain ⟨⟨code, closed⟩, run, written⟩ := Outcome.bind_eq_ret.mp written
  cases written
  obtain ⟨calls, out, emits, -, rfl, at_⟩ := emits_of_asdfWriteTo reports
    (outFile_follower target) (fun _ => outFileAt_open) run
  exact ⟨writtenBytes calls, ⟨calls, emits, rfl⟩, at_.content.trans (overwrite_zero _ _)⟩

/-- The file is the document just if what there was is no longer than it. -/
theorem write_replaces (reports : env.yaml.Reports)
    (written : asdfWriteToFile env file blocks target = .ret (0, content)) :
    EmitsBytes env file blocks content ↔
      ∃ bytes, EmitsBytes env file blocks bytes ∧ target.old.length ≤ bytes.length := by
  obtain ⟨bytes, emits, rfl⟩ := content_of_write reports written
  constructor
  · intro whole
    have same := whole.unique emits
    refine ⟨bytes, emits, ?_⟩
    have none := congrArg List.length same
    rw [List.length_append, List.length_drop] at none
    omega
  · rintro ⟨bytes', emits', le⟩
    cases emits.unique emits'
    rw [List.drop_eq_nil_iff.mpr le, List.append_nil]
    exact emits

end Write

/-- A document of the version comments. -/
def emptyDocument : EmitterFile where
  emitEmpty := true
  emitEmptyTree := false
  noEmitEmptyTree := false
  noBlockChecksum := false
  noBlockIndex := false
  historyEntries := false
  stream := false
  tree := none
  document := none

def noBlocks : BlockFile := ⟨true, none, []⟩

/-- Nothing is read, and there is no text of the library. -/
def emptyEnv : EmitterEnv MemStream := ⟨⟨none, 4096, [], none⟩, ⟨[]⟩, ⟨none, fun _ => ⟨[], true⟩, true⟩⟩

theorem write_replaces_empty :
    EmitsBytes emptyEnv emptyDocument noBlocks (versionLine ++ standardLine) ↔
      ∃ bytes, EmitsBytes emptyEnv emptyDocument noBlocks bytes ∧
        (⟨some [35], true, 4096⟩ : TargetFile).old.length ≤ bytes.length :=
  write_replaces rfl (by decide +kernel :
    asdfWriteToFile emptyEnv emptyDocument noBlocks ⟨some [35], true, 4096⟩ =
      .ret (0, versionLine ++ standardLine))

/-- A file of the version comments and a block. -/
def oldFile : Bytes := versionLine ++ standardLine ++ emptyBlock

/-- A document without blocks is written over a file with one: the block is still
there, and is read. -/
theorem old_block_read :
    asdfWriteToFile emptyEnv emptyDocument noBlocks ⟨some oldFile, true, 4096⟩ =
      .ret (0, oldFile) ∧
    ¬ EmitsBytes emptyEnv emptyDocument noBlocks oldFile ∧
    ∃ p : Parser MemStream Unit, Outcome.Calls (parserStep ⟨fyamlOf none, .stc, 4096⟩ 100) 100
      (fun _ => True) (parserCreate 0 (streamFromMemory oldFile))
      [some (.asdfVersion (versionParse asdfVersionDefault)),
        some (.standardVersion (versionParse asdfStandardDefault)),
        some (.block (.empty 0 33))] p := by
  refine ⟨by decide +kernel, ?_, ?_⟩
  · intro whole
    have written : EmitsBytes emptyEnv emptyDocument noBlocks (versionLine ++ standardLine) :=
      ⟨_, ⟨_, rfl, by decide, rfl⟩, by decide +kernel⟩
    exact absurd (whole.unique written) (by decide)
  · obtain ⟨p, -, calls⟩ := Outcome.Calls.of_results
      (parserStep ⟨fyamlOf none, .stc, 4096⟩ 100) 100 (fun _ => true)
      (fun _ _ => trivial) (parserCreate 0 (streamFromMemory oldFile)) 3
      [some (.asdfVersion (versionParse asdfVersionDefault)),
        some (.standardVersion (versionParse asdfStandardDefault)),
        some (.block (.empty 0 33))] (by decide +kernel)
    exact ⟨p, calls⟩

end LibAsdf
