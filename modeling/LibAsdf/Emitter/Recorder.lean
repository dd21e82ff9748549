import LibAsdf.Base.Follow
import LibAsdf.Emitter.Basic

/-!
# What the emitter asks of its stream

The emitter on a stream that takes everything, which records the calls, and the
same on a stream whose writes may be short.

* `Recorder`: the stream that records;
* `Follower`: a stream that is in step with the record as long as no write is
  short;
* `writeAll_follows`, …, `emitterEmit_follows`: the emitter, function by function.
-/

namespace LibAsdf

inductive StreamCall where
  | write (bytes : Bytes)
  | flush
  deriving DecidableEq, Repr

/-- The bytes of the writes. -/
def writtenBytes : List StreamCall → Bytes
  | [] => []
  | .write bytes :: more => bytes ++ writtenBytes more
  | .flush :: more => writtenBytes more

theorem writtenBytes_append (calls more : List StreamCall) :
    writtenBytes (calls ++ more) = writtenBytes calls ++ writtenBytes more := by
  induction calls with
  | nil => rfl
  | cons call calls ih =>
    cases call with
    | write bytes =>
      change bytes ++ writtenBytes (calls ++ more) = _
      rw [ih, ← List.append_assoc]
      rfl
    | flush => exact ih

/-- A stream that takes what it is given. -/
structure Recorder where
  calls : List StreamCall
  deriving DecidableEq, Repr

namespace Recorder

def bytes (s : Recorder) : Bytes := writtenBytes s.calls

def pos (s : Recorder) : Nat := s.bytes.length

def call (s : Recorder) (c : StreamCall) : Recorder := ⟨s.calls ++ [c]⟩

theorem calls_call (s : Recorder) (c : StreamCall) : (s.call c).calls = s.calls ++ [c] := rfl

theorem bytes_write (s : Recorder) (bytes : Bytes) :
    (s.call (.write bytes)).bytes = s.bytes ++ bytes := by
  unfold Recorder.bytes call
  rw [writtenBytes_append]
  exact congrArg _ (List.append_nil bytes)

theorem bytes_flush (s : Recorder) : (s.call .flush).bytes = s.bytes := by
  unfold Recorder.bytes call
  rw [writtenBytes_append]
  exact List.append_nil _

theorem pos_write (s : Recorder) (bytes : Bytes) :
    (s.call (.write bytes)).pos = s.pos + bytes.length := by
  unfold pos
  rw [bytes_write, List.length_append]

theorem pos_flush (s : Recorder) : (s.call .flush).pos = s.pos := by
  unfold pos
  rw [bytes_flush]

end Recorder

instance : FlushStream Recorder where
  base _ := ⟨true, true, none, none⟩
  write s bytes := .ret (bytes.length, s.call (.write bytes))
  tell s := if s.pos > offMax then -1 else s.pos
  flush s := .ret (true, s.call .flush)

/-- A stream that is in step with a recorder (`R`), until a write fails. After that
it can still be written to (`Ready`). -/
structure Follower (ω : Type) [FlushStream ω] (fails : List StreamCall → StreamCall → Prop)
    (R : Recorder → ω → Prop) (Ready : ω → Prop) : Prop where
  ready {s : Recorder} {t : ω} : R s t → Ready t
  writeable {s : Recorder} {t : ω} : R s t → (OutStream.base t).isWriteable = true
  tell {s : Recorder} {t : ω} : R s t → OutStream.tell t = OutStream.tell s
  goes_on {t : ω} (bytes : Bytes) : Ready t → ∃ n t', OutStream.write t bytes = .ret (n, t') ∧ Ready t'
  full {s : Recorder} {t : ω} {bytes : Bytes} : R s t → ¬ fails s.calls (.write bytes) →
    ∃ t', OutStream.write t bytes = .ret (bytes.length, t') ∧ R (s.call (.write bytes)) t'
  short {s : Recorder} {t : ω} {bytes : Bytes} : R s t → fails s.calls (.write bytes) →
    ∃ n t', OutStream.write t bytes = .ret (n, t') ∧ n ≠ bytes.length ∧ Ready t'
  flush {s : Recorder} {t : ω} : R s t →
    ∃ ok t', FlushStream.flush t = .ret (ok, t') ∧ R (s.call .flush) t'
  flushes (before : List StreamCall) : ¬ fails before .flush

/-- The recorder follows itself. -/
theorem recorder_follower :
    Follower Recorder (fun _ _ => False) (fun s t => t = s) (fun _ => True) where
  ready _ := trivial
  writeable _ := rfl
  tell := congrArg OutStream.tell
  goes_on bytes _ := ⟨_, _, rfl, trivial⟩
  full := by
    rintro s t bytes rfl -
    exact ⟨_, rfl, rfl⟩
  short _ never := never.elim
  flush := by
    rintro s t rfl
    exact ⟨true, _, rfl, rfl⟩
  flushes _ := id

open Outcome (Follows Grows Clear)

/-! ## Writes -/

section Writes

variable {ω : Type} [FlushStream ω] {fails : List StreamCall → StreamCall → Prop}
  {R : Recorder → ω → Prop} {Ready : ω → Prop} {s : Recorder} {t : ω}

/-- Results that are the same, and streams that are in step. -/
def SameResult {α : Type} (R : Recorder → ω → Prop) (a : α × Recorder) (b : α × ω) : Prop :=
  b.1 = a.1 ∧ R a.2 b.2

/-- Results of what may fail, with something besides. -/
def SameResults {α : Type} (R : Recorder → ω → Prop) (a : Bool × α × Recorder)
    (b : Bool × α × ω) : Prop :=
  b.1 = a.1 ∧ b.2.1 = a.2.1 ∧ R a.2.2 b.2.2

theorem write_follows (law : Follower ω fails R Ready) (h : R s t) (bytes : Bytes) :
    Follows fails s.calls (·.2.calls) (fun a b => a.1 = bytes.length ∧ SameResult R a b)
      (fun b => b.1 ≠ bytes.length ∧ Ready b.2) (OutStream.write s bytes)
      (OutStream.write t bytes) := by
  refine ⟨[.write bytes], rfl, ?_, ?_⟩
  · rintro ⟨clear, -⟩
    obtain ⟨t', written, related⟩ := law.full h clear
    exact ⟨_, written, rfl, rfl, related⟩
  · intro some
    have fails : fails s.calls (.write bytes) := by
      by_contra clear
      exact some ⟨clear, trivial⟩
    obtain ⟨n, t', written, short, ready⟩ := law.short h fails
    exact ⟨_, written, short, ready⟩

theorem flush_follows (law : Follower ω fails R Ready) (h : R s t) :
    Follows fails s.calls (·.2.calls) (fun a b => R a.2 b.2) (fun _ => False)
      (FlushStream.flush s) (FlushStream.flush t) := by
  refine ⟨[.flush], rfl, ?_, ?_⟩
  · intro _
    obtain ⟨ok, t', flushed, related⟩ := law.flush h
    exact ⟨_, flushed, related⟩
  · intro some
    exact absurd ⟨law.flushes _, trivial⟩ some

/-- Writes one after another end with the first that is short. -/
theorem writeAll_follows (parts : List Bytes) (law : Follower ω fails R Ready) (h : R s t) :
    Follows fails s.calls (·.2.calls) (SameResult R) (fun b => b.1 = false ∧ Ready b.2)
      (writeAll s parts) (writeAll t parts) := by
  induction parts generalizing ω fails R Ready s t with
  | nil => exact .ret ⟨rfl, h⟩ rfl
  | cons bytes more ih =>
    apply (write_follows law h bytes).bind
    · rintro a ⟨⟩
      dsimp only
      rw [if_neg (not_not.mpr rfl)]
      exact (ih recorder_follower rfl).grows
    · rintro ⟨_, s'⟩ ⟨_, t'⟩ ⟨rfl, rfl, related⟩
      simp only [ne_eq, not_true_eq_false, if_false]
      exact ih law related
    · rintro ⟨n, t'⟩ ⟨short, ready⟩
      exact ⟨(false, t'), if_pos short, rfl, ready⟩

theorem fyOutput_goes_on (pieces : List Bytes) (law : Follower ω fails R Ready) (ready : Ready t) :
    ∃ ok t', fyOutput t pieces = .ret (ok, t') ∧ Ready t' := by
  induction pieces generalizing t with
  | nil => exact ⟨true, t, rfl, ready⟩
  | cons piece more ih =>
    obtain ⟨n, t', written, ready⟩ := law.goes_on piece ready
    obtain ⟨ok, t'', rest, ready⟩ := ih ready
    refine ⟨n = piece.length && ok, t'', ?_, ready⟩
    rw [fyOutput, written, Outcome.ret_bind]
    dsimp only
    rw [rest]
    rfl

/-- The pieces of a document are all written, also behind one that was not taken
whole. -/
theorem fyOutput_follows (pieces : List Bytes) (law : Follower ω fails R Ready) (h : R s t) :
    Follows fails s.calls (·.2.calls) (SameResult R) (fun b => b.1 = false ∧ Ready b.2)
      (fyOutput s pieces) (fyOutput t pieces) := by
  induction pieces generalizing ω fails R Ready s t with
  | nil => exact .ret ⟨rfl, h⟩ rfl
  | cons piece more ih =>
    apply (write_follows law h piece).bind
    · rintro a ⟨⟩
      apply (ih recorder_follower rfl).grows.bind
      exact fun _ _ => Outcome.grows_ret rfl
    · rintro ⟨_, s'⟩ ⟨_, t'⟩ ⟨rfl, rfl, related⟩
      apply (ih law related).bind
      · exact fun _ _ => Outcome.grows_ret rfl
      · rintro ⟨_, s'⟩ ⟨ok, t'⟩ ⟨rfl, related⟩
        exact .ret ⟨rfl, related⟩ rfl
      · rintro ⟨_, t'⟩ ⟨rfl, ready⟩
        exact ⟨_, rfl, Bool.and_false _, ready⟩
    · rintro ⟨n, t'⟩ ⟨short, ready⟩
      obtain ⟨ok, t'', rest, ready⟩ := fyOutput_goes_on more law ready
      refine ⟨(n = piece.length && ok, t''), ?_, ?_, ready⟩
      · dsimp only
        rw [rest]
        rfl
      · dsimp only
        rw [decide_eq_false short, Bool.false_and]

theorem fyEmitDocument_follows (text : YamlText) (law : Follower ω fails R Ready) (h : R s t) :
    Follows fails s.calls (·.2.calls) (SameResult R) (fun b => b.1 = false ∧ Ready b.2)
      (fyEmitDocument true text s) (fyEmitDocument true text t) := by
  apply (fyOutput_follows text.pieces law h).bind
  · exact fun _ _ => Outcome.grows_ret rfl
  · rintro ⟨_, s'⟩ ⟨ok, t'⟩ ⟨rfl, related⟩
    exact .ret ⟨rfl, related⟩ rfl
  · rintro ⟨_, t'⟩ ⟨rfl, ready⟩
    exact ⟨_, rfl, Bool.and_false _, ready⟩

theorem paddingLoop_succ (fuel n : Nat) (out : ω) :
    Outcome.loop paddingRound (fuel + 1) (n + 1, out) =
      OutStream.write out (List.replicate (if n + 1 > 512 then 512 else n + 1) 0) >>= fun r =>
        if r.1 ≠ (if n + 1 > 512 then 512 else n + 1) then .ret (false, r.2)
        else Outcome.loop paddingRound fuel (n + 1 - (if n + 1 > 512 then 512 else n + 1), r.2) := by
  rw [Outcome.loop_succ]
  simp only [paddingRound]
  generalize (if n + 1 > 512 then 512 else n + 1) = chunk
  cases OutStream.write out (List.replicate chunk (0 : Byte)) with
  | ret r =>
    obtain ⟨k, out'⟩ := r
    simp only [Outcome.ret_bind]
    by_cases whole : k = chunk
    · simp only [whole, ne_eq, not_true_eq_false, if_false, Outcome.pure_eq, Outcome.ret_bind]
    · simp only [whole, ne_eq, not_false_eq_true, if_true, Outcome.pure_eq, Outcome.ret_bind]
  | fault e => rfl
  | timeout => rfl

/-- The padding is written until a chunk is short. -/
theorem paddingLoop_follows (fuel remaining : Nat) (law : Follower ω fails R Ready) (h : R s t) :
    Follows fails s.calls (·.2.calls) (SameResult R) (fun b => b.1 = false ∧ Ready b.2)
      (Outcome.loop paddingRound fuel (remaining, s))
      (Outcome.loop paddingRound fuel (remaining, t)) := by
  induction fuel generalizing ω fails R Ready s t remaining with
  | zero => exact .inl rfl
  | succ fuel ih =>
    cases remaining with
    | zero => exact .ret ⟨rfl, h⟩ rfl
    | succ n =>
      rw [paddingLoop_succ, paddingLoop_succ]
      generalize (if n + 1 > 512 then 512 else n + 1) = chunk
      have size : (List.replicate chunk (0 : Byte)).length = chunk := List.length_replicate
      apply (write_follows law h _).bind
      · rintro a ⟨⟩
        rw [if_neg (not_not.mpr size)]
        exact (ih _ recorder_follower rfl).grows
      · rintro ⟨_, s'⟩ ⟨_, t'⟩ ⟨rfl, rfl, related⟩
        simp only [size, ne_eq, not_true_eq_false, if_false]
        exact ih _ law related
      · rintro ⟨k, t'⟩ ⟨short, ready⟩
        rw [size] at short
        exact ⟨_, if_pos short, rfl, ready⟩

/-! ## A block -/

theorem writeData_follows (block : BlockRecord) (stored : BlockStored)
    (law : Follower ω fails R Ready) (h : R s t) :
    Follows fails s.calls (·.2.2.calls) (SameResults R) (fun b => b.1 = false)
      (writeData block s stored) (writeData block t stored) := by
  rw [writeData, writeData, law.tell h]
  apply (writeAll_follows _ law h).bind
  · rintro ⟨ok, s'⟩ -
    cases ok with
    | false => exact Outcome.grows_ret rfl
    | true =>
      apply (paddingLoop_follows _ _ recorder_follower rfl).grows.bind
      exact fun _ _ => Outcome.grows_ret rfl
  · rintro ⟨_, s'⟩ ⟨ok, t'⟩ ⟨rfl, related⟩
    cases ok with
    | false => exact .ret ⟨rfl, rfl, related⟩ rfl
    | true =>
      apply (paddingLoop_follows _ _ law related).bind
      · exact fun _ _ => Outcome.grows_ret rfl
      · rintro ⟨_, s'⟩ ⟨ok, t'⟩ ⟨rfl, related⟩
        exact .ret ⟨rfl, rfl, related⟩ rfl
      · rintro ⟨_, t'⟩ ⟨rfl, -⟩
        exact ⟨_, rfl, rfl⟩
  · rintro ⟨_, t'⟩ ⟨rfl, -⟩
    exact ⟨_, rfl, rfl⟩

theorem writeStored_follows (md5 : Option Md5) (checksum : Bool) (block : BlockRecord)
    (stored : BlockStored) (law : Follower ω fails R Ready) (h : R s t) :
    Follows fails s.calls (·.2.2.calls) (SameResults R) (fun b => b.1 = false)
      (writeStored md5 checksum block s stored) (writeStored md5 checksum block t stored) := by
  rw [writeStored, writeStored, law.tell h]
  apply (writeAll_follows _ law h).bind
  · rintro ⟨ok, s'⟩ -
    cases ok with
    | false => exact Outcome.grows_ret rfl
    | true =>
      apply (writeAll_follows _ recorder_follower rfl).grows.bind
      rintro ⟨ok, s''⟩ -
      cases ok with
      | false => exact Outcome.grows_ret rfl
      | true => exact (writeData_follows _ stored recorder_follower rfl).grows
  · rintro ⟨_, s'⟩ ⟨ok, t'⟩ ⟨rfl, related⟩
    cases ok with
    | false => exact .ret ⟨rfl, rfl, related⟩ rfl
    | true =>
      apply (writeAll_follows _ law related).bind
      · rintro ⟨ok, s''⟩ -
        cases ok with
        | false => exact Outcome.grows_ret rfl
        | true => exact (writeData_follows _ stored recorder_follower rfl).grows
      · rintro ⟨_, s''⟩ ⟨ok, t''⟩ ⟨rfl, related⟩
        cases ok with
        | false => exact .ret ⟨rfl, rfl, related⟩ rfl
        | true => exact writeData_follows _ stored law related
      · rintro ⟨_, t''⟩ ⟨rfl, -⟩
        exact ⟨_, rfl, rfl⟩
  · rintro ⟨_, t'⟩ ⟨rfl, -⟩
    exact ⟨_, rfl, rfl⟩

variable {σ : Type} [OpenMem σ]

theorem blockInfoWrite_follows (file : WriterFile σ) (heap : Heap) (block : BlockRecord)
    (checksum : Bool) (law : Follower ω fails R Ready) (h : R s t) :
    Follows fails s.calls (·.2.2.calls) (SameResults R) (fun b => b.1 = false)
      (blockInfoWrite file heap block s checksum) (blockInfoWrite file heap block t checksum) := by
  unfold blockInfoWrite
  rw [law.writeable h, recorder_follower.writeable (rfl : s = s)]
  apply Follows.seq_same
  intro _
  apply Follows.seq_same
  intro src
  cases src with
  | none => exact .ret ⟨rfl, rfl, h⟩ rfl
  | some src =>
    apply Follows.seq_same
    intro stored
    cases stored with
    | none => exact .ret ⟨rfl, rfl, h⟩ rfl
    | some stored => exact writeStored_follows _ _ _ _ law h

theorem emitFlushed_follows (env : EmitterEnv σ) (checksum : Bool) (blocks : List BlockRecord)
    (law : Follower ω fails R Ready) (h : R s t) :
    Follows fails s.calls (·.2.2.calls) (SameResults R) (fun b => b.1 = false)
      (emitFlushed env checksum blocks s) (emitFlushed env checksum blocks t) := by
  induction blocks generalizing ω fails R Ready s t with
  | nil => exact .ret ⟨rfl, rfl, h⟩ rfl
  | cons block more ih =>
    apply (blockInfoWrite_follows _ _ block checksum law h).bind
    · rintro ⟨ok, block', s'⟩ -
      cases ok with
      | false => exact Outcome.grows_ret rfl
      | true =>
        apply (flush_follows recorder_follower rfl).grows.bind
        intro r _
        apply (ih recorder_follower rfl).grows.bind
        exact fun _ _ => Outcome.grows_ret rfl
    · rintro ⟨_, _, s'⟩ ⟨ok, block', t'⟩ ⟨rfl, rfl, related⟩
      cases ok with
      | false => exact .ret ⟨rfl, rfl, related⟩ rfl
      | true =>
        apply (flush_follows law related).bind
        · intro r _
          apply (ih recorder_follower rfl).grows.bind
          exact fun _ _ => Outcome.grows_ret rfl
        · rintro ⟨_, s'⟩ ⟨_, t'⟩ related
          apply (ih law related).bind
          · exact fun _ _ => Outcome.grows_ret rfl
          · rintro ⟨_, _, s'⟩ ⟨ok, blocks, t'⟩ ⟨rfl, rfl, related⟩
            exact .ret ⟨rfl, rfl, related⟩ rfl
          · rintro ⟨_, blocks, t'⟩ rfl
            exact ⟨_, rfl, rfl⟩
        · exact fun _ never => never.elim
    · rintro ⟨_, block', t'⟩ rfl
      exact ⟨_, rfl, rfl⟩

/-! ## The states -/

theorem emitVersion_follows (comment version : Bytes) (state : EmitterState)
    (law : Follower ω fails R Ready) (h : R s t) :
    Follows fails s.calls (·.2.calls) (SameResult R) (fun b => b.1 = .error)
      (emitVersion comment version state s) (emitVersion comment version state t) := by
  apply (writeAll_follows _ law h).bind
  · rintro ⟨ok, s'⟩ -
    cases ok with
    | false => exact Outcome.grows_ret rfl
    | true =>
      apply (flush_follows recorder_follower rfl).grows.bind
      exact fun _ _ => Outcome.grows_ret rfl
  · rintro ⟨_, s'⟩ ⟨ok, t'⟩ ⟨rfl, related⟩
    cases ok with
    | false => exact .ret ⟨rfl, related⟩ rfl
    | true =>
      apply (flush_follows law related).bind
      · exact fun _ _ => Outcome.grows_ret rfl
      · exact fun _ _ related => .ret ⟨rfl, related⟩ rfl
      · exact fun _ never => never.elim
  · rintro ⟨_, t'⟩ ⟨rfl, -⟩
    exact ⟨_, rfl, rfl⟩

/-- The library reports what was not taken whole. -/
def YamlEmitter.Reports (yaml : YamlEmitter) : Prop := yaml.reports = true

theorem emitTree_follows {yaml : YamlEmitter} (reports : yaml.Reports) (file : EmitterFile)
    (law : Follower ω fails R Ready) (h : R s t) :
    Follows fails s.calls (·.2.2.calls) (fun a b => b.1 = a.1 ∧ b.2.1 = a.2.1 ∧ R a.2.2 b.2.2)
      (fun b => b.1 = .error) (emitTree yaml file s) (emitTree yaml file t) := by
  unfold emitTree
  rw [reports]
  obtain ⟨should, file⟩ := shouldEmitTree file
  cases should with
  | false => exact .ret ⟨rfl, rfl, h⟩ rfl
  | true =>
    dsimp only
    obtain ⟨tree, file⟩ := fileTreeDocument file
    cases tree with
    | none => exact .ret ⟨rfl, rfl, h⟩ rfl
    | some root =>
      cases yaml.tree with
      | none => exact .ret ⟨rfl, rfl, h⟩ rfl
      | some text =>
        apply (fyEmitDocument_follows text law h).bind
        · exact fun _ _ => Outcome.grows_ret rfl
        · rintro ⟨_, s'⟩ ⟨ok, t'⟩ ⟨rfl, related⟩
          exact .ret ⟨rfl, rfl, related⟩ rfl
        · rintro ⟨_, t'⟩ ⟨rfl, -⟩
          exact ⟨_, rfl, rfl⟩

theorem emitBlocksState_follows (env : EmitterEnv σ) (file : EmitterFile) (blocks : BlockFile)
    (law : Follower ω fails R Ready) (h : R s t) :
    Follows fails s.calls (·.2.2.calls) (fun a b => b.1 = a.1 ∧ b.2.1 = a.2.1 ∧ R a.2.2 b.2.2)
      (fun b => b.1 = .error) (emitBlocksState env file blocks s)
      (emitBlocksState env file blocks t) := by
  apply (emitFlushed_follows _ _ _ law h).bind
  · exact fun _ _ => Outcome.grows_ret rfl
  · rintro ⟨_, _, s'⟩ ⟨ok, infos, t'⟩ ⟨rfl, rfl, related⟩
    exact .ret ⟨rfl, rfl, related⟩ rfl
  · rintro ⟨_, infos, t'⟩ rfl
    exact ⟨_, rfl, rfl⟩

theorem emitBlockIndex_follows {yaml : YamlEmitter} (reports : yaml.Reports) (file : EmitterFile)
    (blocks : BlockFile) (law : Follower ω fails R Ready) (h : R s t) :
    Follows fails s.calls (·.2.calls) (SameResult R) (fun b => b.1 = .error)
      (emitBlockIndex yaml file blocks s) (emitBlockIndex yaml file blocks t) := by
  unfold emitBlockIndex
  rw [reports]
  split
  · exact .ret ⟨rfl, h⟩ rfl
  · cases blockOffsets blocks.blocks with
    | none => exact .ret ⟨rfl, h⟩ rfl
    | some offsets =>
      apply (writeAll_follows _ law h).bind
      · rintro ⟨ok, s'⟩ -
        cases ok with
        | false => exact Outcome.grows_ret rfl
        | true =>
          apply (fyEmitDocument_follows _ recorder_follower rfl).grows.bind
          exact fun _ _ => Outcome.grows_ret rfl
      · rintro ⟨_, s'⟩ ⟨ok, t'⟩ ⟨rfl, related⟩
        cases ok with
        | false => exact .ret ⟨rfl, related⟩ rfl
        | true =>
          apply (fyEmitDocument_follows _ law related).bind
          · exact fun _ _ => Outcome.grows_ret rfl
          · rintro ⟨_, s'⟩ ⟨ok, t'⟩ ⟨rfl, related⟩
            exact .ret ⟨rfl, related⟩ rfl
          · rintro ⟨_, t'⟩ ⟨rfl, -⟩
            exact ⟨_, rfl, rfl⟩
      · rintro ⟨_, t'⟩ ⟨rfl, -⟩
        exact ⟨_, rfl, rfl⟩

/-! ## The emitter -/

/-- Emitters that differ in their streams, which are in step. -/
structure SameEmitter (R : Recorder → ω → Prop) (e : Emitter Recorder) (d : Emitter ω) : Prop where
  file : d.file = e.file
  blocks : d.blocks = e.blocks
  state : d.state = e.state
  done : d.done = e.done
  stream : R e.stream d.stream

theorem emitState_follows {env : EmitterEnv σ} (reports : env.yaml.Reports)
    (law : Follower ω fails R Ready) {e : Emitter Recorder} {d : Emitter ω}
    (h : SameEmitter R e d) :
    Follows fails e.stream.calls (·.2.stream.calls)
      (fun a b => b.1 = a.1 ∧ SameEmitter R a.2 b.2) (fun b => b.1 = .error)
      (emitState env e) (emitState env d) := by
  obtain ⟨_, _, _, _, s⟩ := e
  obtain ⟨file, blocks, state, done, t⟩ := d
  obtain ⟨rfl, rfl, rfl, rfl, related⟩ := h
  cases state with
  | initial => exact .ret ⟨rfl, rfl, rfl, rfl, rfl, related⟩ rfl
  | asdfVersion =>
    apply (emitVersion_follows _ _ _ law related).bind
    · exact fun _ _ => Outcome.grows_ret rfl
    · rintro ⟨_, s'⟩ ⟨next, t'⟩ ⟨rfl, related⟩
      exact .ret ⟨rfl, rfl, rfl, rfl, rfl, related⟩ rfl
    · rintro ⟨_, t'⟩ rfl
      exact ⟨_, rfl, rfl⟩
  | standardVersion =>
    apply (emitVersion_follows _ _ _ law related).bind
    · exact fun _ _ => Outcome.grows_ret rfl
    · rintro ⟨_, s'⟩ ⟨next, t'⟩ ⟨rfl, related⟩
      exact .ret ⟨rfl, rfl, rfl, rfl, rfl, related⟩ rfl
    · rintro ⟨_, t'⟩ rfl
      exact ⟨_, rfl, rfl⟩
  | tree =>
    apply (emitTree_follows reports file law related).bind
    · exact fun _ _ => Outcome.grows_ret rfl
    · rintro ⟨_, _, s'⟩ ⟨next, file', t'⟩ ⟨rfl, rfl, related⟩
      exact .ret ⟨rfl, rfl, rfl, rfl, rfl, related⟩ rfl
    · rintro ⟨_, file', t'⟩ rfl
      exact ⟨_, rfl, rfl⟩
  | blocks =>
    apply (emitBlocksState_follows env file blocks law related).bind
    · exact fun _ _ => Outcome.grows_ret rfl
    · rintro ⟨_, _, s'⟩ ⟨next, blocks', t'⟩ ⟨rfl, rfl, related⟩
      exact .ret ⟨rfl, rfl, rfl, rfl, rfl, related⟩ rfl
    · rintro ⟨_, blocks', t'⟩ rfl
      exact ⟨_, rfl, rfl⟩
  | blockIndex =>
    apply (emitBlockIndex_follows reports file blocks law related).bind
    · exact fun _ _ => Outcome.grows_ret rfl
    · rintro ⟨_, s'⟩ ⟨next, t'⟩ ⟨rfl, related⟩
      exact .ret ⟨rfl, rfl, rfl, rfl, rfl, related⟩ rfl
    · rintro ⟨_, t'⟩ rfl
      exact ⟨_, rfl, rfl⟩
  | «end» => exact .ret ⟨rfl, rfl, rfl, rfl, rfl, related⟩ rfl
  | error => exact .ret ⟨rfl, rfl, rfl, rfl, rfl, related⟩ rfl

/-- An emitter that has given up. -/
def Emitter.GaveUp (d : Emitter ω) : Prop := d.state = .error ∧ d.done = true

theorem emitOne_follows {env : EmitterEnv σ} (reports : env.yaml.Reports)
    (law : Follower ω fails R Ready) {e : Emitter Recorder} {d : Emitter ω}
    (h : SameEmitter R e d) :
    Follows fails e.stream.calls (·.stream.calls) (SameEmitter R) Emitter.GaveUp
      (emitOne env e) (emitOne env d) := by
  apply (emitState_follows reports law h).bind
  · exact fun _ _ => Outcome.grows_ret rfl
  · rintro ⟨_, e'⟩ ⟨next, d'⟩ ⟨rfl, same⟩
    refine .ret ⟨same.file, same.blocks, rfl, ?_, same.stream⟩ rfl
    change (d'.done || _ || _) = (e'.done || _ || _)
    rw [same.done]
  · rintro ⟨_, d'⟩ rfl
    refine ⟨_, rfl, rfl, ?_⟩
    change (d'.done || true || _) = true
    rw [Bool.or_true, Bool.true_or]

/-! ## Rounds -/

/-- How far it is to the end. -/
def EmitterState.rank : EmitterState → Nat
  | .initial => 7
  | .asdfVersion => 6
  | .standardVersion => 5
  | .tree => 4
  | .blocks => 3
  | .blockIndex => 2
  | .end => 1
  | .error => 1

def Emitter.rank (e : Emitter ω) : Nat := if e.done then 0 else e.state.rank

theorem emitVersion_next {comment version : Bytes} {next : EmitterState} {out : ω}
    {r : EmitterState × ω} (run : emitVersion comment version next out = .ret r) :
    r.1 = next ∨ r.1 = .error := by
  obtain ⟨⟨ok, out'⟩, -, run⟩ := Outcome.bind_eq_ret.mp run
  cases ok with
  | false =>
    cases run
    exact .inr rfl
  | true =>
    obtain ⟨flushed, -, run⟩ := Outcome.bind_eq_ret.mp run
    cases run
    exact .inl rfl

theorem emitTree_next {yaml : YamlEmitter} {file : EmitterFile} {out : ω}
    {r : EmitterState × EmitterFile × ω} (run : emitTree yaml file out = .ret r) :
    r.1 = .blocks ∨ r.1 = .error := by
  unfold emitTree at run
  dsimp only at run
  split at run
  · cases run
    exact .inl rfl
  · split at run
    · obtain ⟨⟨ok, out'⟩, -, run⟩ := Outcome.bind_eq_ret.mp run
      cases run
      cases ok with
      | false => exact .inr rfl
      | true => exact .inl rfl
    · cases run
      exact .inr rfl

theorem emitBlocksState_next {env : EmitterEnv σ} {file : EmitterFile} {blocks : BlockFile} {out : ω}
    {r : EmitterState × BlockFile × ω} (run : emitBlocksState env file blocks out = .ret r) :
    r.1 = .blockIndex ∨ r.1 = .error := by
  obtain ⟨⟨ok, infos, out'⟩, -, run⟩ := Outcome.bind_eq_ret.mp run
  cases run
  cases ok with
  | false => exact .inr rfl
  | true => exact .inl rfl

theorem emitBlockIndex_next {yaml : YamlEmitter} {file : EmitterFile} {blocks : BlockFile} {out : ω}
    {r : EmitterState × ω} (run : emitBlockIndex yaml file blocks out = .ret r) :
    r.1 = .end ∨ r.1 = .error := by
  unfold emitBlockIndex at run
  split at run
  · cases run
    exact .inl rfl
  · split at run
    · cases run
      exact .inr rfl
    · obtain ⟨⟨ok, out'⟩, -, run⟩ := Outcome.bind_eq_ret.mp run
      cases ok with
      | false =>
        cases run
        exact .inr rfl
      | true =>
        obtain ⟨⟨ok, out''⟩, -, run⟩ := Outcome.bind_eq_ret.mp run
        cases run
        cases ok with
        | false => exact .inr rfl
        | true => exact .inl rfl

/-- At first it is only looked at what there is to write. -/
theorem emitState_initial (env : EmitterEnv σ) (e : Emitter ω) (initial : e.state = .initial) :
    ∃ file, emitState env e = .ret (.asdfVersion, { e with file := file }) ∨
      emitState env e = .ret (.end, { e with file := file }) := by
  obtain ⟨should, file, eq⟩ : ∃ should file, shouldEmit e.file e.blocks = (should, file) :=
    ⟨_, _, rfl⟩
  refine ⟨file, ?_⟩
  unfold emitState
  rw [initial]
  dsimp only
  rw [eq]
  cases should with
  | false => exact .inr rfl
  | true => exact .inl rfl

/-- Every state goes on, or is one that ends the emitter. -/
theorem emitState_next {env : EmitterEnv σ} {e : Emitter ω} {r : EmitterState × Emitter ω}
    (run : emitState env e = .ret r) :
    r.1 = .error ∨ r.1 = .end ∨ r.1.rank < e.state.rank := by
  obtain ⟨file, blocks, state, done, out⟩ := e
  cases state with
  | initial =>
    obtain ⟨file', eq | eq⟩ := emitState_initial env ⟨file, blocks, .initial, done, out⟩ rfl
    · cases eq.symm.trans run
      exact .inr (.inr (by decide : EmitterState.asdfVersion.rank < 7))
    · cases eq.symm.trans run
      exact .inr (.inl rfl)
  | asdfVersion =>
    obtain ⟨r', version, run⟩ := Outcome.bind_eq_ret.mp run
    cases run
    obtain next | failed := emitVersion_next version
    · rw [next]
      exact .inr (.inr (Nat.lt_succ_self _))
    · exact .inl failed
  | standardVersion =>
    obtain ⟨r', version, run⟩ := Outcome.bind_eq_ret.mp run
    cases run
    obtain next | failed := emitVersion_next version
    · rw [next]
      exact .inr (.inr (Nat.lt_succ_self _))
    · exact .inl failed
  | tree =>
    obtain ⟨r', tree, run⟩ := Outcome.bind_eq_ret.mp run
    cases run
    obtain next | failed := emitTree_next tree
    · rw [next]
      exact .inr (.inr (Nat.lt_succ_self _))
    · exact .inl failed
  | blocks =>
    obtain ⟨r', emitted, run⟩ := Outcome.bind_eq_ret.mp run
    cases run
    obtain next | failed := emitBlocksState_next emitted
    · rw [next]
      exact .inr (.inr (Nat.lt_succ_self _))
    · exact .inl failed
  | blockIndex =>
    obtain ⟨r', index, run⟩ := Outcome.bind_eq_ret.mp run
    cases run
    obtain next | failed := emitBlockIndex_next index
    · exact .inr (.inl next)
    · exact .inl failed
  | «end» =>
    cases run
    exact .inr (.inl rfl)
  | error =>
    cases run
    exact .inl rfl

theorem emitOne_rank {env : EmitterEnv σ} {e e' : Emitter ω} (going : e.done = false)
    (run : emitOne env e = .ret e') : e'.rank < e.rank := by
  obtain ⟨r, state, run⟩ := Outcome.bind_eq_ret.mp run
  cases run
  have pos : 0 < e.state.rank := by cases e.state <;> decide
  have here : e.rank = e.state.rank := by
    unfold Emitter.rank
    rw [going]
    rfl
  rw [here]
  unfold Emitter.rank
  obtain failed | ended | next := emitState_next state
  · rw [failed, if_pos]
    · exact pos
    · simp only [decide_true, Bool.or_true, Bool.true_or]
  · rw [ended, if_pos]
    · exact pos
    · simp only [decide_true, Bool.or_true]
  · split
    · exact pos
    · exact next

theorem emitLoop_succ (env : EmitterEnv σ) (target : EmitterState) (fuel : Nat) (e : Emitter ω) :
    Outcome.loop (emitRound env target) (fuel + 1) e =
      if e.done || e.state = target then .ret e
      else emitOne env e >>= Outcome.loop (emitRound env target) fuel := by
  rw [Outcome.loop_succ, emitRound]
  split
  · rfl
  · cases emitOne env e <;> rfl

/-- The emitter on a stream whose writes may be short: it ends as on one that takes
everything, or it has given up. -/
theorem emitLoop_follows {env : EmitterEnv σ} (reports : env.yaml.Reports) (target : EmitterState)
    (fuel : Nat) (law : Follower ω fails R Ready) {e : Emitter Recorder} {d : Emitter ω}
    (h : SameEmitter R e d) (enough : e.rank < fuel) :
    Follows fails e.stream.calls (·.stream.calls) (SameEmitter R) Emitter.GaveUp
      (Outcome.loop (emitRound env target) fuel e) (Outcome.loop (emitRound env target) fuel d) := by
  induction fuel generalizing ω fails R Ready e d with
  | zero => exact absurd enough (Nat.not_lt_zero _)
  | succ fuel ih =>
    rw [emitLoop_succ, emitLoop_succ, h.done, h.state]
    split
    · exact .ret h rfl
    · rename_i going
      have going : e.done = false := by
        cases done : e.done with
        | false => rfl
        | true =>
          rw [done] at going
          exact absurd rfl going
      have fewer {e' : Emitter Recorder} (run : emitOne env e = .ret e') : e'.rank < fuel :=
        Nat.lt_of_lt_of_le (emitOne_rank going run) (Nat.le_of_lt_succ enough)
      apply (emitOne_follows reports law h).with_runs.bind
      · intro e' run
        exact (ih recorder_follower (⟨rfl, rfl, rfl, rfl, rfl⟩ : SameEmitter (fun s t => t = s) e' e')
          (fewer run)).grows
      · rintro e' d' ⟨same, run, -⟩
        exact ih law same (fewer run)
      · rintro d' ⟨failed, done⟩
        have pos : 0 < e.rank := by
          unfold Emitter.rank
          rw [going]
          cases e.state <;> decide
        obtain ⟨n, rfl⟩ : ∃ n, fuel = n + 1 := ⟨fuel - 1, by omega⟩
        refine ⟨d', ?_, failed, done⟩
        rw [emitLoop_succ, done]
        rfl

omit [FlushStream ω] in
theorem Emitter.rank_lt (e : Emitter ω) : e.rank < 8 := by
  unfold Emitter.rank
  split
  · exact Nat.succ_pos _
  · cases e.state <;> decide

/-- A state does not say whether the emitter is done. -/
theorem emitState_done {env : EmitterEnv σ} {e : Emitter ω} {r : EmitterState × Emitter ω}
    (run : emitState env e = .ret r) : r.2.done = e.done := by
  obtain ⟨file, blocks, state, done, out⟩ := e
  cases state with
  | initial =>
    cases run
    rfl
  | asdfVersion | standardVersion | tree | blocks | blockIndex =>
    obtain ⟨r', -, run⟩ := Outcome.bind_eq_ret.mp run
    cases run
    rfl
  | «end» | error =>
    cases run
    rfl

/-- More rounds than it takes make no difference. -/
theorem emitLoop_fuel {env : EmitterEnv σ} {target : EmitterState} {n k : Nat} {e : Emitter ω}
    (enough : e.rank < n) (enough' : e.rank < k) :
    Outcome.loop (emitRound env target) n e = Outcome.loop (emitRound env target) k e := by
  induction n generalizing k e with
  | zero => exact absurd enough (Nat.not_lt_zero _)
  | succ n ih =>
    obtain ⟨k, rfl⟩ : ∃ k', k = k' + 1 := ⟨k - 1, by omega⟩
    rw [emitLoop_succ, emitLoop_succ]
    split
    · rfl
    · rename_i going
      have going : e.done = false := by
        cases done : e.done with
        | false => rfl
        | true =>
          rw [done] at going
          exact absurd rfl going
      cases one : emitOne env e with
      | ret e' =>
        have fewer := emitOne_rank going one
        exact ih (by omega) (by omega)
      | fault f => rfl
      | timeout => rfl

/-- An emitter is done at its end, and where it has given up. -/
def Emitter.EndsDone (e : Emitter ω) : Prop := e.done = true ↔ e.state = .error ∨ e.state = .end

theorem emitOne_endsDone {env : EmitterEnv σ} {e e' : Emitter ω} (going : e.done = false)
    (run : emitOne env e = .ret e') : e'.EndsDone := by
  obtain ⟨r, state, run⟩ := Outcome.bind_eq_ret.mp run
  cases run
  have kept : r.2.done = e.done := emitState_done state
  change (r.2.done || decide (r.1 = .error) || decide (r.1 = .end)) = true ↔ r.1 = .error ∨ r.1 = .end
  rw [kept, going, Bool.false_or, Bool.or_eq_true, decide_eq_true_iff, decide_eq_true_iff]

/-- The emitter may stop before the blocks, and go on. -/
theorem emitterEmit_split {env : EmitterEnv σ} {e : Emitter ω} (ends : e.EndsDone) :
    emitterEmit env e = emitUntil env .blocks e >>= emitterEmit env := by
  have split (fuel : Nat) : ∀ {e : Emitter ω}, e.EndsDone → e.rank < fuel →
      Outcome.loop (emitRound env .end) fuel e =
        Outcome.loop (emitRound env .blocks) fuel e >>= emitterEmit env := by
    induction fuel with
    | zero => exact fun _ enough => absurd enough (Nat.not_lt_zero _)
    | succ fuel ih =>
      intro e ends enough
      by_cases stops : (e.done || e.state = .blocks) = true
      · have stopped : Outcome.loop (emitRound env .blocks) (fuel + 1) e = .ret e := by
          rw [emitLoop_succ, if_pos stops]
        rw [stopped, Outcome.ret_bind]
        exact emitLoop_fuel enough e.rank_lt
      · rw [Bool.or_eq_true, not_or] at stops
        obtain ⟨going, other⟩ := stops
        have going : e.done = false := Bool.eq_false_iff.mpr going
        have before : ¬ (e.done || e.state = .end) = true := by
          rw [going, Bool.false_or]
          intro ended
          rw [ends.mpr (.inr (of_decide_eq_true ended))] at going
          cases going
        have before' : ¬ (e.done || e.state = .blocks) = true := by
          rw [going, Bool.false_or]
          exact other
        rw [emitLoop_succ, emitLoop_succ, if_neg before, if_neg before']
        cases one : emitOne env e with
        | ret e' =>
          have fewer := Nat.lt_of_lt_of_le (emitOne_rank going one) (Nat.le_of_lt_succ enough)
          exact ih (emitOne_endsDone going one) fewer
        | fault f => rfl
        | timeout => rfl
  exact split 8 ends e.rank_lt

end Writes

/-! ## Emissions -/

section Emission

variable {σ ω : Type} [OpenMem σ] [FlushStream ω] {env : EmitterEnv σ} {file : EmitterFile}
  {blocks : BlockFile} {fails : List StreamCall → StreamCall → Prop} {R : Recorder → ω → Prop}
  {Ready : ω → Prop}

/-- What the emitter asks of a stream that takes everything. -/
def emission (env : EmitterEnv σ) (file : EmitterFile) (blocks : BlockFile) : Run (Emitter Recorder) :=
  emitterEmit env (emitterCreate file blocks ⟨[]⟩)

/-- A document that can be written, with the calls that it takes. -/
def Emits (env : EmitterEnv σ) (file : EmitterFile) (blocks : BlockFile) (calls : List StreamCall) :
    Prop :=
  ∃ e, emission env file blocks = .ret e ∧ e.state ≠ .error ∧ e.stream.calls = calls

theorem Emits.unique {calls calls' : List StreamCall} (h : Emits env file blocks calls)
    (h' : Emits env file blocks calls') : calls = calls' := by
  obtain ⟨e, run, -, rfl⟩ := h
  obtain ⟨e', run', -, rfl⟩ := h'
  cases run.symm.trans run'
  rfl

theorem emitterEmit_follows (reports : env.yaml.Reports) (law : Follower ω fails R Ready) {out : ω}
    (start : R ⟨[]⟩ out) :
    Follows fails [] (·.stream.calls) (SameEmitter R) Emitter.GaveUp
      (emission env file blocks) (emitterEmit env (emitterCreate file blocks out)) :=
  emitLoop_follows reports .end 8 law ⟨rfl, rfl, rfl, rfl, start⟩ (Emitter.rank_lt _)

/-- Where a stream is written to without an error, the document can be written and no
write was short. -/
theorem emits_of_emitterEmit (reports : env.yaml.Reports) (law : Follower ω fails R Ready)
    {out : ω} (start : R ⟨[]⟩ out) {d : Emitter ω}
    (run : emitterEmit env (emitterCreate file blocks out) = .ret d) (ok : d.state ≠ .error) :
    ∃ calls, Emits env file blocks calls ∧ Clear fails [] calls ∧ R ⟨calls⟩ d.stream := by
  have follows : Follows fails [] (·.stream.calls) (SameEmitter R) Emitter.GaveUp
      (emission env file blocks) _ := emitterEmit_follows reports law start
  rw [run] at follows
  obtain ⟨e, more, recorded, eq, all, same⟩ | ⟨failed, -⟩ := follows.of_ret
  · rw [same.state] at ok
    have stream := same.stream
    rw [show e.stream = ⟨more⟩ from congrArg Recorder.mk eq] at stream
    exact ⟨more, ⟨e, recorded, ok, eq⟩, all, stream⟩
  · exact absurd failed.1 ok

/-- A document that can be written is written where no write is short; else the
emitter gives up. -/
theorem emitterEmit_of_emits (reports : env.yaml.Reports) (law : Follower ω fails R Ready) {out : ω}
    (start : R ⟨[]⟩ out) {calls : List StreamCall} (emits : Emits env file blocks calls) :
    ∃ d, emitterEmit env (emitterCreate file blocks out) = .ret d ∧
      (d.state ≠ .error ↔ Clear fails [] calls) ∧ (Clear fails [] calls → R ⟨calls⟩ d.stream) := by
  obtain ⟨e, recorded, ok, rfl⟩ := emits
  have follows : Follows fails [] (·.stream.calls) (SameEmitter R) Emitter.GaveUp
      (emission env file blocks) _ := emitterEmit_follows reports law start
  rw [recorded] at follows
  obtain ⟨more, eq, clear, not⟩ := follows
  rw [List.nil_append] at eq
  change e.stream.calls = more at eq
  rw [eq]
  by_cases all : Clear fails [] more
  · obtain ⟨d, run, same⟩ := clear all
    have stream := same.stream
    rw [show e.stream = ⟨more⟩ from congrArg Recorder.mk eq] at stream
    exact ⟨d, run, iff_of_true (by rw [same.state]; exact ok) all, fun _ => stream⟩
  · obtain ⟨d, run, failed, -⟩ := not all
    exact ⟨d, run, iff_of_false (not_not.mpr failed) all, fun h => absurd h all⟩

/-- What a write that returns zero has done. -/
theorem emits_of_asdfWriteTo (reports : env.yaml.Reports) (law : Follower ω fails R Ready)
    {stream : Option ω} (start : ∀ out, stream = some out → R ⟨[]⟩ out) {closed : Option ω}
    (run : asdfWriteTo env file blocks stream = .ret (0, closed)) :
    ∃ calls out, Emits env file blocks calls ∧ Clear fails [] calls ∧ closed = some out ∧
      R ⟨calls⟩ out := by
  cases stream with
  | none => cases run
  | some out =>
    obtain ⟨d, emitted, run⟩ := Outcome.bind_eq_ret.mp run
    have ok : d.state ≠ .error := by
      intro failed
      rw [failed] at run
      cases run
    rw [if_neg ok] at run
    cases run
    obtain ⟨calls, emits, clear, at_⟩ := emits_of_emitterEmit reports law (start out rfl) emitted ok
    exact ⟨calls, _, emits, clear, rfl, at_⟩

/-- A write of a document that can be written returns zero just if no write to the
stream is short. -/
theorem asdfWriteTo_eq_zero_iff (reports : env.yaml.Reports) (law : Follower ω fails R Ready)
    {out : ω} (start : R ⟨[]⟩ out) {calls : List StreamCall} (emits : Emits env file blocks calls)
    {r : Int × Option ω} (run : asdfWriteTo env file blocks (some out) = .ret r) :
    r.1 = 0 ↔ Clear fails [] calls := by
  obtain ⟨d, emitted, iff, -⟩ := emitterEmit_of_emits reports law start emits
  obtain ⟨d', emitted', run⟩ := Outcome.bind_eq_ret.mp run
  cases emitted.symm.trans emitted'
  cases run
  rw [← iff]
  by_cases failed : d.state = .error
  · rw [if_pos failed]
    exact iff_of_false (by decide : (-1 : Int) ≠ 0) (not_not.mpr failed)
  · rw [if_neg failed]
    exact iff_of_true rfl failed

end Emission

end LibAsdf
