import LibAsdf.Emitter.Replace

/-!
# Output that fails

A `FILE` behind a buffer, any of whose calls may fail, as it is written by
`asdf_write_to_file` and `asdf_write_to_fp`.

* `Stdio`, `StdioFile`: what the C library does with each call;
* `fileWriteStdio`, `fileFlushStdio`, `fileCloseStdio`: the stream;
* `stdio_follower`: what has gone out, and whether a call has failed;
* `NoSilentFailure`, `writeToFile_silent_iff`, `writeToFp_silent_iff`: when a
  failure is not reported.
-/

namespace LibAsdf

/-! ## The C library -/

/-- What happens at each call, by its number: whether it fails, how much leaves the
buffer, how much is accepted where it fails, and what `fwrite` returns then. -/
structure Stdio where
  fails : Nat → Bool
  sends : Nat → Nat
  accepts : Nat → Nat
  counts : Nat → Nat

/-- A `FILE`: the bytes that the system has accepted, the ones in the buffer, the
calls so far and whether one has failed. -/
structure StdioFile where
  accepted : Bytes
  pending : Bytes
  calls : Nat
  failed : Bool
  deriving DecidableEq, Repr

namespace StdioFile

variable (c : Stdio) (f : StdioFile)

/-- A call that fails; what is not accepted is dropped. -/
def fail (bytes : Bytes) : StdioFile :=
  ⟨f.accepted ++ (f.pending ++ bytes).take (c.accepts f.calls), [], f.calls + 1, true⟩

def fwrite (bytes : Bytes) : Nat × StdioFile :=
  if c.fails f.calls ∧ bytes ≠ [] then
    (min (c.counts f.calls) (bytes.length - 1), f.fail c bytes)
  else
    let all := f.pending ++ bytes
    (bytes.length, { f with
      accepted := f.accepted ++ all.take (c.sends f.calls)
      pending := all.drop (c.sends f.calls)
      calls := f.calls + 1 })

/-- `fflush`, and `fclose`. -/
def fflush : Bool × StdioFile :=
  if c.fails f.calls then (false, f.fail c [])
  else (true, { f with
    accepted := f.accepted ++ f.pending
    pending := []
    calls := f.calls + 1 })

end StdioFile

/-! ## The stream -/

/-- A file stream that is written to. -/
structure StdioStream extends StreamBase where
  stdio : Stdio
  file : StdioFile
  filePos : Nat

/-- `file_write`. -/
def fileWriteStdio (s : StdioStream) (bytes : Bytes) : Nat × StdioStream :=
  if !s.isWriteable then
    (0, { s with toStreamBase := s.toStreamBase.setError .streamReadOnly })
  else
    let (count, file) := s.file.fwrite s.stdio bytes
    if count ≠ bytes.length then
      (count, { s with toStreamBase := s.toStreamBase.setError .system, file := file })
    else (count, { s with file := file, filePos := s.filePos + count })

/-- `file_flush`. -/
def fileFlushStdio (s : StdioStream) : Bool × StdioStream :=
  if !s.isWriteable then
    (false, { s with toStreamBase := s.toStreamBase.setError .streamReadOnly })
  else
    let (ok, file) := s.file.fflush s.stdio
    if !ok then (false, { s with toStreamBase := s.toStreamBase.setError .system, file := file })
    else (true, { s with file := file })

/-- `file_close` of a stream that closes its file. What `fclose` returns is not
looked at. -/
def fileCloseStdio (s : StdioStream) : StdioFile := (s.file.fflush s.stdio).2

instance : FlushStream StdioStream where
  base s := s.toStreamBase
  write s bytes := .ret (fileWriteStdio s bytes)
  tell s := if s.filePos > offMax then -1 else s.filePos
  flush s := .ret (fileFlushStdio s)

def stdioStream (c : Stdio) : StdioStream where
  isSeekable := true
  isWriteable := true
  capture := none
  error := none
  stdio := c
  file := ⟨[], [], 0, false⟩
  filePos := 0

section Write

variable {σ : Type} [OpenMem σ]

/-- `asdf_write_to_file`, where the file can be opened. -/
def asdfWriteToFileStdio (env : EmitterEnv σ) (file : EmitterFile) (blocks : BlockFile) (c : Stdio) :
    Run (Int × Option StdioFile) := do
  let (code, closed) ← asdfWriteTo env file blocks (some (stdioStream c))
  return (code, closed.map fileCloseStdio)

/-- `asdf_write_to_fp`, which leaves the file open. -/
def asdfWriteToFp (env : EmitterEnv σ) (file : EmitterFile) (blocks : BlockFile) (c : Stdio) :
    Run (Int × Option StdioFile) := do
  let (code, closed) ← asdfWriteTo env file blocks (some (stdioStream c))
  return (code, closed.map (·.file))

end Write

/-! ## What has gone out -/

/-- A call that fails. -/
def CallFails (c : Stdio) (before : List StreamCall) : StreamCall → Prop
  | .write bytes => c.fails before.length = true ∧ bytes ≠ []
  | .flush => c.fails before.length = true

/-- A call whose failure the emitter sees. -/
def WriteFails (c : Stdio) (before : List StreamCall) : StreamCall → Prop
  | .write bytes => c.fails before.length = true ∧ bytes ≠ []
  | .flush => False

/-- What is in the buffer after calls of which none fails. -/
def heldBack (c : Stdio) : Nat → Bytes → List StreamCall → Bytes
  | _, pending, [] => pending
  | n, pending, .write bytes :: more => heldBack c (n + 1) ((pending ++ bytes).drop (c.sends n)) more
  | n, _, .flush :: more => heldBack c (n + 1) [] more

theorem heldBack_append (c : Stdio) (n : Nat) (pending : Bytes) (calls more : List StreamCall) :
    heldBack c n pending (calls ++ more) =
      heldBack c (n + calls.length) (heldBack c n pending calls) more := by
  induction calls generalizing n pending with
  | nil => rfl
  | cons call calls ih =>
    cases call with
    | write bytes =>
      refine (ih _ _).trans ?_
      rw [Nat.add_assoc n 1, Nat.add_comm 1]
      rfl
    | flush =>
      refine (ih _ _).trans ?_
      rw [Nat.add_assoc n 1, Nat.add_comm 1]
      rfl

/-- The file after what has been recorded. -/
structure StdioAt (c : Stdio) (s : Recorder) (t : StdioStream) : Prop where
  writeable : t.isWriteable = true
  stdio : t.stdio = c
  filePos : t.filePos = s.pos
  calls : t.file.calls = s.calls.length
  failed : t.file.failed = false ↔ Outcome.Clear (CallFails c) [] s.calls
  bytes : t.file.failed = false → t.file.accepted ++ t.file.pending = s.bytes
  pending : t.file.failed = false → t.file.pending = heldBack c 0 [] s.calls

theorem clear_snoc {fails : List StreamCall → StreamCall → Prop} {calls : List StreamCall}
    {call : StreamCall} : Outcome.Clear fails [] (calls ++ [call]) ↔
      Outcome.Clear fails [] calls ∧ ¬ fails calls call := by
  rw [Outcome.clear_append, List.nil_append]
  exact and_congr_right fun _ => and_iff_left trivial

section Calls

variable {c : Stdio} {s : Recorder} {t : StdioStream}

/-- A call that fails leaves the file in step, but for its bytes. -/
theorem stdioAt_fail (h : StdioAt c s t) (call : StreamCall) (fails : CallFails c s.calls call)
    {t' : StdioStream} {bytes : Bytes} (file : t'.file = t.file.fail c bytes)
    (writeable : t'.isWriteable = true) (stdio : t'.stdio = c)
    (filePos : t'.filePos = (s.call call).pos) : StdioAt c (s.call call) t' where
  writeable
  stdio
  filePos
  calls := by
    rw [file, s.calls_call, List.length_append]
    exact congrArg (· + 1) h.calls
  failed := by
    rw [file, s.calls_call, clear_snoc]
    exact iff_of_false nofun fun clear => clear.2 fails
  bytes := by
    rw [file]
    exact nofun
  pending := by
    rw [file]
    exact nofun

/-- A call that does not fail. -/
theorem stdioAt_succeed (h : StdioAt c s t) (call : StreamCall)
    (succeeds : ¬ CallFails c s.calls call) {t' : StdioStream} (calls : t'.file.calls = t.file.calls + 1)
    (failed : t'.file.failed = t.file.failed) (writeable : t'.isWriteable = true)
    (stdio : t'.stdio = c) (filePos : t'.filePos = (s.call call).pos)
    (bytes : t'.file.accepted ++ t'.file.pending =
      t.file.accepted ++ t.file.pending ++ writtenBytes [call])
    (pending : t'.file.pending = heldBack c s.calls.length t.file.pending [call]) :
    StdioAt c (s.call call) t' where
  writeable
  stdio
  filePos
  calls := by
    rw [calls, h.calls, s.calls_call, List.length_append]
    rfl
  failed := by
    rw [failed, h.failed, s.calls_call, clear_snoc]
    exact (and_iff_left succeeds).symm
  bytes := by
    intro none
    rw [failed] at none
    rw [bytes, h.bytes none]
    exact (writtenBytes_append s.calls [call]).symm
  pending := by
    intro none
    rw [failed] at none
    rw [pending, h.pending none, s.calls_call, heldBack_append, Nat.zero_add]

theorem fileWriteStdio_of_writeable (writeable : t.isWriteable = true) (bytes : Bytes) :
    fileWriteStdio t bytes = if (t.file.fwrite t.stdio bytes).1 ≠ bytes.length then
        ((t.file.fwrite t.stdio bytes).1, { t with
          toStreamBase := t.toStreamBase.setError .system
          file := (t.file.fwrite t.stdio bytes).2 })
      else ((t.file.fwrite t.stdio bytes).1, { t with
        file := (t.file.fwrite t.stdio bytes).2
        filePos := t.filePos + (t.file.fwrite t.stdio bytes).1 }) := by
  unfold fileWriteStdio
  rw [writeable]
  rfl

theorem fileFlushStdio_of_writeable (writeable : t.isWriteable = true) :
    fileFlushStdio t = if (t.file.fflush t.stdio).1 then
        (true, { t with file := (t.file.fflush t.stdio).2 })
      else (false, { t with
        toStreamBase := t.toStreamBase.setError .system
        file := (t.file.fflush t.stdio).2 }) := by
  unfold fileFlushStdio
  rw [writeable]
  dsimp only
  cases (t.file.fflush t.stdio).1 <;> rfl

theorem fwrite_fails {f : StdioFile} {bytes : Bytes} (fails : c.fails f.calls = true)
    (some : bytes ≠ []) : (f.fwrite c bytes).1 ≠ bytes.length ∧
      (f.fwrite c bytes).2 = f.fail c bytes := by
  have pos := List.length_pos_of_ne_nil some
  unfold StdioFile.fwrite
  rw [if_pos ⟨fails, some⟩]
  refine ⟨?_, rfl⟩
  dsimp only
  omega

theorem fwrite_succeeds {f : StdioFile} {bytes : Bytes}
    (succeeds : ¬ (c.fails f.calls = true ∧ bytes ≠ [])) :
    f.fwrite c bytes = (bytes.length, { f with
      accepted := f.accepted ++ (f.pending ++ bytes).take (c.sends f.calls)
      pending := (f.pending ++ bytes).drop (c.sends f.calls)
      calls := f.calls + 1 }) := if_neg succeeds

end Calls

theorem stdio_follower (c : Stdio) : Follower StdioStream (WriteFails c) (StdioAt c)
    (fun t => t.isWriteable = true) where
  ready h := h.writeable
  writeable h := h.writeable
  tell := by
    intro s t h
    change (if t.filePos > offMax then -1 else (t.filePos : Int)) =
      if s.pos > offMax then -1 else (s.pos : Int)
    rw [h.filePos]
  goes_on := by
    intro t bytes writeable
    refine ⟨_, _, rfl, ?_⟩
    change (fileWriteStdio t bytes).2.isWriteable = true
    rw [fileWriteStdio_of_writeable writeable]
    split
    · exact writeable
    · exact writeable
  full := by
    intro s t bytes h succeeds
    have wrote : t.file.fwrite t.stdio bytes = _ := fwrite_succeeds (by
      rw [h.stdio, h.calls]
      exact succeeds)
    have plain : fileWriteStdio t bytes = (bytes.length, { t with
        file := (t.file.fwrite t.stdio bytes).2
        filePos := t.filePos + bytes.length }) := by
      rw [fileWriteStdio_of_writeable h.writeable, wrote]
      exact if_neg (not_not.mpr rfl)
    refine ⟨_, congrArg Outcome.ret plain, ?_⟩
    rw [wrote]
    apply stdioAt_succeed h (.write bytes) succeeds
    · rfl
    · rfl
    · exact h.writeable
    · exact h.stdio
    · rw [s.pos_write]
      exact congrArg (· + bytes.length) h.filePos
    · change t.file.accepted ++ (t.file.pending ++ bytes).take _ ++
        (t.file.pending ++ bytes).drop _ = t.file.accepted ++ t.file.pending ++ (bytes ++ [])
      rw [List.append_assoc, List.take_append_drop, List.append_nil, List.append_assoc]
    · change (t.file.pending ++ bytes).drop (t.stdio.sends t.file.calls) =
        (t.file.pending ++ bytes).drop (c.sends s.calls.length)
      rw [h.stdio, h.calls]
  short := by
    intro s t bytes h fails
    have refused : t.stdio.fails t.file.calls = true := by
      rw [h.stdio, h.calls]
      exact fails.1
    obtain ⟨short, left⟩ := fwrite_fails refused fails.2
    have plain : fileWriteStdio t bytes = ((t.file.fwrite t.stdio bytes).1, { t with
        toStreamBase := t.toStreamBase.setError .system
        file := (t.file.fwrite t.stdio bytes).2 }) := by
      rw [fileWriteStdio_of_writeable h.writeable, if_pos short]
    exact ⟨_, _, congrArg Outcome.ret plain, short, h.writeable⟩
  flush := by
    intro s t h
    have flushed := fileFlushStdio_of_writeable h.writeable
    unfold StdioFile.fflush at flushed
    rw [h.stdio, h.calls] at flushed
    by_cases fails : c.fails s.calls.length = true
    · rw [if_pos fails] at flushed
      refine ⟨false, _, congrArg Outcome.ret flushed, ?_⟩
      apply stdioAt_fail h .flush fails
      · rfl
      · exact h.writeable
      · rfl
      · rw [s.pos_flush]
        exact h.filePos
    · rw [if_neg fails] at flushed
      refine ⟨true, _, congrArg Outcome.ret flushed, ?_⟩
      apply stdioAt_succeed h .flush fails
      · exact congrArg (· + 1) h.calls.symm
      · rfl
      · exact h.writeable
      · rfl
      · rw [s.pos_flush]
        exact h.filePos
      · exact (List.append_nil _).trans (List.append_nil _).symm
      · rfl
  flushes _ := id

/-! ## Failures that are not reported -/

section Silent

variable {σ : Type} [OpenMem σ] {env : EmitterEnv σ} {file : EmitterFile} {blocks : BlockFile}
  {c : Stdio} {calls : List StreamCall}

/-- Where zero is returned, no call has failed, and every byte of the document has
gone out. -/
def NoSilentFailure (env : EmitterEnv σ) (file : EmitterFile) (blocks : BlockFile)
    (r : Int × Option StdioFile) : Prop :=
  r.1 = 0 → ∃ f, r.2 = some f ∧ f.failed = false ∧ f.pending = [] ∧
    EmitsBytes env file blocks f.accepted

theorem stdioAt_start (c : Stdio) : StdioAt c ⟨[]⟩ (stdioStream c) where
  writeable := rfl
  stdio := rfl
  filePos := rfl
  calls := rfl
  failed := iff_of_true rfl trivial
  bytes _ := rfl
  pending _ := rfl

theorem fileCloseStdio_failed {t : StdioStream} (h : StdioAt c ⟨calls⟩ t) :
    (fileCloseStdio t).failed = false ↔ Outcome.Clear (CallFails c) [] (calls ++ [.flush]) := by
  rw [clear_snoc]
  unfold fileCloseStdio StdioFile.fflush
  rw [h.stdio, h.calls]
  by_cases fails : c.fails calls.length = true
  · rw [if_pos fails]
    exact iff_of_false nofun fun clear => clear.2 fails
  · rw [if_neg fails]
    exact h.failed.trans (and_iff_left fails).symm

/-- What is left in the buffer goes out as the file is closed. -/
theorem fileCloseStdio_bytes {t : StdioStream} (h : StdioAt c ⟨calls⟩ t)
    (clear : (fileCloseStdio t).failed = false) :
    (fileCloseStdio t).pending = [] ∧ (fileCloseStdio t).accepted = writtenBytes calls := by
  have before := (clear_snoc.mp ((fileCloseStdio_failed h).mp clear))
  have bytes := h.bytes (h.failed.mpr before.1)
  have succeeds : ¬ c.fails calls.length = true := before.2
  unfold fileCloseStdio StdioFile.fflush
  rw [h.stdio, h.calls, if_neg succeeds]
  exact ⟨rfl, bytes⟩

/-- What is not reported, given what is left of a file once the emitter is done. -/
theorem silent_iff {close : StdioStream → StdioFile} {Done : List StreamCall → Prop}
    (done : ∀ calls t, StdioAt c ⟨calls⟩ t →
      ((close t).failed = false ∧ (close t).pending = [] ↔ Done calls))
    (bytes : ∀ calls t, StdioAt c ⟨calls⟩ t → Done calls → (close t).accepted = writtenBytes calls)
    (reports : env.yaml.Reports) {code : Int} {closed : Option StdioStream}
    (written : asdfWriteTo env file blocks (some (stdioStream c)) = .ret (code, closed)) :
    NoSilentFailure env file blocks (code, closed.map close) ↔ ∀ calls, Emits env file blocks calls →
      ¬ Outcome.Clear (WriteFails c) [] calls ∨ Done calls := by
  have start : ∀ out, some (stdioStream c) = some out → StdioAt c ⟨[]⟩ out := by
    rintro out ⟨⟩
    exact stdioAt_start c
  constructor
  · intro silent calls emits
    by_cases clear : Outcome.Clear (WriteFails c) [] calls
    · have zero := (asdfWriteTo_eq_zero_iff reports (stdio_follower c) (stdioAt_start c) emits
        written).mpr clear
      obtain ⟨f, last, unfailed, none, -⟩ := silent zero
      obtain rfl : code = 0 := zero
      obtain ⟨calls', out, emits', -, rfl, at_⟩ := emits_of_asdfWriteTo reports (stdio_follower c)
        start written
      cases emits.unique emits'
      cases last
      exact .inr ((done calls out at_).mp ⟨unfailed, none⟩)
    · exact .inl clear
  · intro condition zero
    obtain rfl : code = 0 := zero
    obtain ⟨calls, out, emits, clear, rfl, at_⟩ := emits_of_asdfWriteTo reports (stdio_follower c)
      start written
    have held := (condition calls emits).resolve_left (not_not.mpr clear)
    obtain ⟨unfailed, none⟩ := (done calls out at_).mpr held
    exact ⟨_, rfl, unfailed, none, calls, emits, (bytes calls out at_ held).symm⟩

/-- `asdf_write_to_file` hides no failure just if, where the document can be
written, some write fails, or no flush does and not the close. -/
theorem writeToFile_silent_iff (reports : env.yaml.Reports) {r : Int × Option StdioFile}
    (run : asdfWriteToFileStdio env file blocks c = .ret r) :
    NoSilentFailure env file blocks r ↔ ∀ calls, Emits env file blocks calls →
      ¬ Outcome.Clear (WriteFails c) [] calls ∨
        Outcome.Clear (CallFails c) [] (calls ++ [.flush]) := by
  obtain ⟨⟨code, closed⟩, written, run⟩ := Outcome.bind_eq_ret.mp run
  cases run
  apply silent_iff _ _ reports written
  · intro calls t at_
    rw [← fileCloseStdio_failed at_]
    exact and_iff_left_of_imp fun unfailed => (fileCloseStdio_bytes at_ unfailed).1
  · intro calls t at_ clear
    exact (fileCloseStdio_bytes at_ ((fileCloseStdio_failed at_).mpr clear)).2

/-- `asdf_write_to_fp` hides no failure just if, where the document can be written,
some write fails, or no flush does and nothing is left in the buffer. -/
theorem writeToFp_silent_iff (reports : env.yaml.Reports) {r : Int × Option StdioFile}
    (run : asdfWriteToFp env file blocks c = .ret r) :
    NoSilentFailure env file blocks r ↔ ∀ calls, Emits env file blocks calls →
      ¬ Outcome.Clear (WriteFails c) [] calls ∨
        Outcome.Clear (CallFails c) [] calls ∧ heldBack c 0 [] calls = [] := by
  obtain ⟨⟨code, closed⟩, written, run⟩ := Outcome.bind_eq_ret.mp run
  cases run
  apply silent_iff _ _ reports written
  · intro calls t at_
    rw [← at_.failed]
    exact and_congr_right fun unfailed => by rw [at_.pending unfailed]
  · rintro calls t at_ ⟨clear, none⟩
    have unfailed := at_.failed.mpr clear
    have bytes := at_.bytes unfailed
    rw [at_.pending unfailed, none, List.append_nil] at bytes
    exact bytes

end Silent

end LibAsdf
