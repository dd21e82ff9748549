import LibAsdf.Block.Emit
import LibAsdf.Parser.Text

/-!
# The emitter

The states that a file goes through as it is written. The pieces of YAML text
that the YAML library hands to `fy_emitter_stream_output` are given.

* `YamlEmitter`, `fyEmitDocument`: the YAML library;
* `EmitterFile`, `shouldEmitTree`, `shouldEmit`: whether there is anything to write;
* `emitAsdfVersion`, …, `emitBlockIndex`: the states;
* `emitOne`, `emitUntil`, `emitterEmit`: the emitter;
* `asdfWriteTo`: what is common to the calls that write.
-/

namespace LibAsdf

/-- A stream that is written to and flushed. -/
class FlushStream (ω : Type) extends OutStream ω where
  flush : ω → Run (Bool × ω)

def asdfVersionDefault : Bytes := [49, 46, 48, 46, 48]

def asdfStandardDefault : Bytes := [49, 46, 54, 46, 48]

/-! ## The YAML library -/

/-- The text of a document, as it is handed over, and whether the library gets to
its end. -/
structure YamlText where
  pieces : List Bytes
  whole : Bool
  deriving DecidableEq, Repr

/-- What is used of the YAML library. -/
structure YamlEmitter where
  /-- the tree, once `emit_prepare_tree` is done with it; `none` where that fails -/
  tree : Option YamlText
  /-- the sequence of these numbers -/
  index : List Nat → YamlText
  /-- whether a document whose text was not taken whole is reported -/
  reports : Bool

section Emitter

variable {ω : Type} [FlushStream ω]

/-- The calls of `fy_emitter_stream_output`, and whether all were served. -/
def fyOutput (out : ω) : List Bytes → Run (Bool × ω)
  | [] => return (true, out)
  | piece :: more => do
    let (n, out) ← OutStream.write out piece
    let (ok, out) ← fyOutput out more
    return (n = piece.length && ok, out)

/-- `fy_emit_document`. -/
def fyEmitDocument (reports : Bool) (text : YamlText) (out : ω) : Run (Bool × ω) := do
  let (ok, out) ← fyOutput out text.pieces
  return (text.whole && (ok || !reports), out)

/-! ## What there is to write -/

/-- The root of a tree, if any, and what `fy_node_mapping_is_empty` says of it. -/
structure TreeRoot where
  empty : Option Bool
  deriving DecidableEq, Repr

/-- `asdf_file_t` and its configuration, as far as the emitter looks at them. -/
structure EmitterFile where
  emitEmpty : Bool
  emitEmptyTree : Bool
  noEmitEmptyTree : Bool
  noBlockChecksum : Bool
  noBlockIndex : Bool
  historyEntries : Bool
  stream : Bool
  tree : Option TreeRoot
  /-- what is found or made where `tree` is not there yet -/
  document : Option TreeRoot
  deriving DecidableEq, Repr

/-- `asdf_file_tree_document`. -/
def fileTreeDocument (file : EmitterFile) : Option TreeRoot × EmitterFile :=
  match file.tree with
  | some root => (some root, file)
  | none => (file.document, { file with tree := file.document })

/-- `asdf_emitter_should_emit_tree`. -/
def shouldEmitTree (file : EmitterFile) : Bool × EmitterFile :=
  let emitEmpty := file.emitEmptyTree && !file.noEmitEmptyTree
  if file.historyEntries then (true, file)
  else if file.tree.isNone && !file.stream && !emitEmpty then (false, file)
  else
    match fileTreeDocument file with
    | (none, file) => (false, file)
    | (some root, file) =>
      match root.empty with
      | none => if !emitEmpty then (false, file) else (true, { file with tree := some ⟨some true⟩ })
      | some empty => if !emitEmpty && empty then (false, file) else (true, file)

/-- `asdf_emitter_should_emit`. -/
def shouldEmit (file : EmitterFile) (blocks : BlockFile) : Bool × EmitterFile :=
  let (tree, file) := shouldEmitTree file
  (tree || !blocks.blocks.isEmpty || file.emitEmpty, file)

/-! ## The states -/

/-- `asdf_emitter_state_t`. -/
inductive EmitterState where
  | initial
  | asdfVersion
  | standardVersion
  | tree
  | blocks
  | blockIndex
  | «end»
  | error
  deriving DecidableEq, Repr

/-- What the emitter uses besides its own state. -/
structure EmitterEnv (σ : Type) where
  writer : WriterFile σ
  heap : Heap
  yaml : YamlEmitter

/-- `asdf_emitter_t`. -/
structure Emitter (ω : Type) where
  file : EmitterFile
  blocks : BlockFile
  state : EmitterState
  done : Bool
  stream : ω

def emitterCreate (file : EmitterFile) (blocks : BlockFile) (stream : ω) : Emitter ω where
  file
  blocks
  state := .initial
  done := false
  stream

/-- A version comment. What the flush returns is not looked at. -/
def emitVersion (comment version : Bytes) (next : EmitterState) (out : ω) :
    Run (EmitterState × ω) := do
  let (ok, out) ← writeAll out [comment, version, [newline]]
  if !ok then
    return (.error, out)
  let (_, out) ← FlushStream.flush out
  return (next, out)

def emitAsdfVersion (out : ω) : Run (EmitterState × ω) :=
  emitVersion asdfVersionComment asdfVersionDefault .standardVersion out

def emitStandardVersion (out : ω) : Run (EmitterState × ω) :=
  emitVersion asdfStandardComment asdfStandardDefault .tree out

def emitTree (yaml : YamlEmitter) (file : EmitterFile) (out : ω) :
    Run (EmitterState × EmitterFile × ω) :=
  let (should, file) := shouldEmitTree file
  if !should then return (.blocks, file, out)
  else
    let (tree, file) := fileTreeDocument file
    match tree, yaml.tree with
    | some _, some text => do
      let (ok, out) ← fyEmitDocument yaml.reports text out
      return (if ok then .blocks else .error, file, out)
    | _, _ => return (.error, file, out)

variable {σ : Type} [OpenMem σ]

/-- The loop of `emit_blocks`, which does not look at what a flush returns. -/
def emitFlushed (env : EmitterEnv σ) (checksum : Bool) :
    List BlockRecord → ω → Run (Bool × List BlockRecord × ω)
  | [], out => return (true, [], out)
  | block :: more, out => do
    let (ok, block, out) ← blockInfoWrite env.writer env.heap block out checksum
    if !ok then
      return (false, block :: more, out)
    let (_, out) ← FlushStream.flush out
    let (ok, more, out) ← emitFlushed env checksum more out
    return (ok, block :: more, out)

def emitBlocksState (env : EmitterEnv σ) (file : EmitterFile) (blocks : BlockFile) (out : ω) :
    Run (EmitterState × BlockFile × ω) := do
  let blocks := ensureBlocks blocks
  let (ok, infos, out) ← emitFlushed env (!file.noBlockChecksum) blocks.blocks out
  return (if ok then .blockIndex else .error, { blocks with blocks := infos }, out)

/-- `emit_block_index`; `none` where a block has no header. -/
def blockOffsets (blocks : List BlockRecord) : Option (List Nat) :=
  if blocks.all (0 ≤ ·.headerPos) then some (blocks.map (·.headerPos.toNat)) else none

def emitBlockIndex (yaml : YamlEmitter) (file : EmitterFile) (blocks : BlockFile) (out : ω) :
    Run (EmitterState × ω) :=
  if file.noBlockIndex || blocks.blocks.isEmpty then return (.end, out)
  else
    match blockOffsets blocks.blocks with
    | none => return (.error, out)
    | some offsets => do
      let (ok, out) ← writeAll out [blockIndexHeader, [newline]]
      if !ok then
        return (.error, out)
      let (ok, out) ← fyEmitDocument yaml.reports (yaml.index offsets) out
      return (if ok then .end else .error, out)

/-! ## The emitter -/

/-- What a state does, and the state after it. -/
def emitState (env : EmitterEnv σ) (e : Emitter ω) : Run (EmitterState × Emitter ω) :=
  match e.state with
  | .initial =>
    let (should, file) := shouldEmit e.file e.blocks
    return (if should then .asdfVersion else .end, { e with file := file })
  | .asdfVersion => do
    let (next, out) ← emitAsdfVersion e.stream
    return (next, { e with stream := out })
  | .standardVersion => do
    let (next, out) ← emitStandardVersion e.stream
    return (next, { e with stream := out })
  | .tree => do
    let (next, file, out) ← emitTree env.yaml e.file e.stream
    return (next, { e with file := file, stream := out })
  | .blocks => do
    let (next, blocks, out) ← emitBlocksState env e.file e.blocks e.stream
    return (next, { e with blocks := blocks, stream := out })
  | .blockIndex => do
    let (next, out) ← emitBlockIndex env.yaml e.file e.blocks e.stream
    return (next, { e with stream := out })
  | .end => return (.end, e)
  | .error => return (.error, e)

/-- `asdf_emitter_emit_one`. -/
def emitOne (env : EmitterEnv σ) (e : Emitter ω) : Run (Emitter ω) := do
  let (next, e) ← emitState env e
  return { e with state := next, done := e.done || next = .error || next = .end }

/-- One round of `asdf_emitter_emit_until`. -/
def emitRound (env : EmitterEnv σ) (target : EmitterState) (e : Emitter ω) :
    Run (Emitter ω ⊕ Emitter ω) :=
  if e.done || e.state = target then return .inr e
  else do
    let e ← emitOne env e
    return .inl e

/-- `asdf_emitter_emit_until`: every round goes on by a state. -/
def emitUntil (env : EmitterEnv σ) (target : EmitterState) (e : Emitter ω) : Run (Emitter ω) :=
  Outcome.loop (emitRound env target) 8 e

/-- `asdf_emitter_emit`. -/
def emitterEmit (env : EmitterEnv σ) (e : Emitter ω) : Run (Emitter ω) :=
  emitUntil env .end e

/-- What `asdf_write_to_file` and `asdf_write_to_fp` do with a stream, if there is
one: what they return, and the stream as it is closed. -/
def asdfWriteTo (env : EmitterEnv σ) (file : EmitterFile) (blocks : BlockFile) (stream : Option ω) :
    Run (Int × Option ω) :=
  match stream with
  | none => return (-1, none)
  | some stream => do
    let e ← emitterEmit env (emitterCreate file blocks stream)
    return (if e.state = .error then -1 else 0, some e.stream)

end Emitter

end LibAsdf
