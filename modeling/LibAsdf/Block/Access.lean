import Mathlib.Data.List.TakeWhile
import LibAsdf.Compression.Open

/-!
# Access to the data of a block

`asdf_block_data` and `asdf_block_data_raw` on one handle, which keeps the raw
data and the decompressed data that it has opened.

* `AccessEnv`, `DataBlock`: the file and the system, the handle;
* `dataCompOpen`, `blockDataImpl`: the functions;
* `opening`, `accessOf`: what is opened, and what is returned, by the record alone;
* `Consistent`, `blockDataImpl_answers`: what a handle keeps, and one call;
* `history_independent`: after any calls, each call is as on a new handle;
* `accessOf_blockData`: a new handle shows what the emitter reads.
-/

namespace LibAsdf

/-- What goes wrong: in the stream, while a compressed block is opened, or where
a null file is looked into. -/
inductive AccessFault where
  | stream (e : Fault)
  | comp (e : CompFault)
  | null
  deriving DecidableEq, Repr

abbrev AccessRun := Outcome AccessFault

/-- The run of a part that has its own faults. -/
def inAccess {ε α : Type} (fault : ε → AccessFault) : Outcome ε α → AccessRun α
  | .ret a => .ret a
  | .fault e => .fault (fault e)
  | .timeout => .timeout

/-- What a pointer shows: bytes, or a destination that is filled from the stored
bytes as it is touched. -/
inductive DataView where
  | bytes (mem : Bytes)
  | filling (codec : Codec) (stored : Bytes) (size : Nat)
  deriving DecidableEq, Repr

/-- A block's file, which may be null, with the stream of its parser, if there is
one; the buffers; and the system. -/
structure AccessEnv (σ : Type) where
  file : Option (Option σ)
  heap : Heap
  comp : CompEnv

/-- `asdf_block_comp_state_t`, with what the destination shows. -/
structure OpenedComp where
  state : CompState
  dest : DataView
  destSize : Nat
  deriving DecidableEq, Repr

/-- `asdf_block_t`; for the data pointer, the bytes that it shows. -/
structure DataBlock where
  info : BlockRecord
  data : Option Bytes
  availSize : Nat
  shouldClose : Bool
  compState : Option OpenedComp
  compression : Option Bytes

/-- The handle that `asdf_block_open` gives. -/
def blockOpenData (info : BlockRecord) : DataBlock where
  info := info
  data := none
  availSize := 0
  shouldClose := false
  compState := none
  compression := none

/-- The pointer that is returned, and what is stored to `*size`. -/
structure Access where
  data : Option DataView
  size : Option Nat
  deriving DecidableEq, Repr

section Calls

variable {σ : Type} [OpenMem σ] (env : AccessEnv σ)

/-- `asdf_block_compression_orig`. -/
def compressionOrig (block : DataBlock) : Bytes × DataBlock :=
  match block.compression with
  | some name => (name, block)
  | none =>
    let name := compressionName block.info.header.compression
    (name, { block with compression := some name })

/-- The destination after `asdf_block_comp_open`. -/
def openedDest (codec : Codec) (block : CompBlock) (state : CompState) : OpenedComp where
  state := state
  dest :=
    if state.lazyMode then .filling codec block.data block.dataSize
    else .bytes (((codec.compressor env.comp.libs).decomp block.data block.dataSize).getD [])
  destSize := block.dataSize

/-- `asdf_block_comp_open`: whether it returns 0. -/
def dataCompOpen (block : DataBlock) : AccessRun (Bool × DataBlock) :=
  let (name, block) := compressionOrig block
  if name = [] then return (true, block)
  else
    match codecGet name with
    | none => return (false, block)
    | some codec =>
      if env.file.isNone then .fault .null
      else do
        let stored : CompBlock := ⟨name, block.info.header.dataSize, block.data.getD []⟩
        let opened ← inAccess .comp (compOpen env.comp stored)
        return (opened.ok, { block with
          compState := opened.state.map (openedDest env codec stored) })

/-- What is returned after the block was opened, or is not compressed. -/
def returnData (raw : Access) (opened : Bool × DataBlock) : Access × DataBlock :=
  if !opened.1 then (⟨none, none⟩, opened.2)
  else
    match opened.2.compState with
    | some comp => (⟨some comp.dest, some comp.destSize⟩, opened.2)
    | none => (raw, opened.2)

/-- Open the compressed data if that is not done. -/
def ensureOpened (block : DataBlock) : AccessRun (Bool × DataBlock) :=
  if block.compState.isNone then dataCompOpen env block else return (true, block)

/-- The data of an earlier call, with its stream open. -/
def cachedData (block : DataBlock) (data : Bytes) (decompress : Bool) :
    AccessRun (Access × DataBlock) := do
  let raw : Access := ⟨some (.bytes data), some block.availSize⟩
  if decompress then
    let opened ← ensureOpened env block
    return returnData raw opened
  return (raw, block)

/-- The handle's view of its data in memory, before that is opened. -/
def viewMemory (block : DataBlock) (data : Bytes) : DataBlock :=
  if block.compState.isNone then
    { block with data := some data, availSize := block.info.dataSize, shouldClose := false }
  else block

/-- Data in memory. -/
def memoryData (block : DataBlock) (addr : Nat) (decompress : Bool) :
    AccessRun (Access × DataBlock) := do
  let data ← inAccess .stream (env.heap.read addr block.info.dataSize)
  let raw : Access := ⟨some (.bytes data), some block.info.dataSize⟩
  if decompress && block.info.dataIsCompressed then
    let opened ← ensureOpened env (viewMemory block data)
    return returnData raw opened
  return (raw, block)

/-- Data in the file. -/
def streamData (block : DataBlock) (stream : σ) (decompress : Bool) :
    AccessRun (Access × DataBlock) := do
  let data ← inAccess .stream (OpenMem.openMem env.comp.pageSize stream
    block.info.dataPos.toNat block.info.header.usedSize)
  let avail := (data.map List.length).getD 0
  let block := { block with data := data, shouldClose := true, availSize := avail }
  let raw : Access := ⟨data.map .bytes, some avail⟩
  if decompress then
    let opened ← dataCompOpen env block
    return returnData raw opened
  return (raw, block)

/-- `asdf_block_data_impl`. -/
def blockDataImpl (block : DataBlock) (decompress : Bool) : AccessRun (Access × DataBlock) :=
  match block.data, block.shouldClose with
  | some data, true => cachedData env block data decompress
  | _, _ =>
    match block.info.data with
    | some addr => memoryData env block addr decompress
    | none =>
      match env.file.join with
      | none => return (⟨none, some 0⟩, block)
      | some stream =>
        if block.info.dataPos < 0 then return (⟨none, some 0⟩, block)
        else streamData env block stream decompress

/-- `asdf_block_data`. -/
def asdfBlockData (block : DataBlock) : AccessRun (Access × DataBlock) :=
  blockDataImpl env block true

/-- `asdf_block_data_raw`. -/
def asdfBlockDataRaw (block : DataBlock) : AccessRun (Access × DataBlock) :=
  blockDataImpl env block false

end Calls

/-! ## What is returned, by the record alone -/

section Spec

variable {σ : Type} [OpenMem σ] (env : AccessEnv σ) (info : BlockRecord)

/-- What the stored bytes of a record are opened as: whether that succeeds, and the
destination, if they are compressed. -/
def opening (data : Bytes) : AccessRun (Bool × Option OpenedComp) :=
  let name := compressionName info.header.compression
  if name = [] then return (true, none)
  else
    match codecGet name with
    | none => return (false, none)
    | some codec =>
      if env.file.isNone then .fault .null
      else do
        let stored : CompBlock := ⟨name, info.header.dataSize, data⟩
        let opened ← inAccess .comp (compOpen env.comp stored)
        return (opened.ok, opened.state.map (openedDest env codec stored))

/-- What is returned for stored bytes that were opened. -/
def returned (raw : Access) (opened : Bool × Option OpenedComp) : Access :=
  if !opened.1 then ⟨none, none⟩
  else
    match opened.2 with
    | some comp => ⟨some comp.dest, some comp.destSize⟩
    | none => raw

def memoryAccess (addr : Nat) (decompress : Bool) : AccessRun Access := do
  let data ← inAccess .stream (env.heap.read addr info.dataSize)
  let raw : Access := ⟨some (.bytes data), some info.dataSize⟩
  if decompress && info.dataIsCompressed then
    let opened ← opening env info data
    return returned raw opened
  return raw

def streamAccess (stream : σ) (decompress : Bool) : AccessRun Access := do
  let data ← inAccess .stream (OpenMem.openMem env.comp.pageSize stream
    info.dataPos.toNat info.header.usedSize)
  let raw : Access := ⟨data.map .bytes, some ((data.map List.length).getD 0)⟩
  if decompress then
    let opened ← opening env info (data.getD [])
    return returned raw opened
  return raw

/-- The access to the data of a block that nothing is kept of. -/
def accessOf (decompress : Bool) : AccessRun Access :=
  match info.data with
  | some addr => memoryAccess env info addr decompress
  | none =>
    match env.file.join with
    | none => return ⟨none, some 0⟩
    | some stream =>
      if info.dataPos < 0 then return ⟨none, some 0⟩
      else streamAccess env info stream decompress

/-- A handle keeps at most the destination that its stored bytes are opened as. -/
def KeepsOpened (block : DataBlock) (data : Bytes) : Prop :=
  ∀ comp, block.compState = some comp → opening env info data = .ret (true, some comp)

/-- What is kept by a handle of a record: its data, where it is in the file and was
opened, and what that data was opened as. -/
structure Consistent (block : DataBlock) : Prop where
  record : block.info = info
  name : ∀ name, block.compression = some name → name = compressionName info.header.compression
  memory : ∀ addr, info.data = some addr → block.shouldClose = false ∧
    (block.compState ≠ none → ∃ data, env.heap.read addr info.dataSize = .ret data ∧
      KeepsOpened env info block data)
  stream : info.data = none →
    (block.data = none ∧ (block.compState ≠ none → ∃ stream, env.file.join = some stream ∧
        ¬ info.dataPos < 0 ∧ OpenMem.openMem env.comp.pageSize stream info.dataPos.toNat
          info.header.usedSize = .ret none ∧ KeepsOpened env info block [])) ∨
    ∃ stream data, env.file.join = some stream ∧ ¬ info.dataPos < 0 ∧
      OpenMem.openMem env.comp.pageSize stream info.dataPos.toNat info.header.usedSize =
        .ret (some data) ∧
      block.data = some data ∧ block.availSize = data.length ∧ block.shouldClose = true ∧
      KeepsOpened env info block data

end Spec

theorem inAccess_eq_ret {ε α : Type} {fault : ε → AccessFault} {x : Outcome ε α} {a : α} :
    inAccess fault x = .ret a ↔ x = .ret a := by
  cases x with
  | ret b =>
    constructor
    · rintro ⟨⟩
      rfl
    · rintro ⟨⟩
      rfl
  | fault | timeout =>
    constructor
    · rintro ⟨⟩
    · rintro ⟨⟩

/-- A block that fails to open keeps nothing. -/
theorem compOpen_failed {env : CompEnv} {block : CompBlock} {r : CompOpened}
    (run : compOpen env block = .ret r) (failed : r.ok = false) : r.state = none := by
  have fails : ∀ {state held}, compFail state held = .ret r → r.state = none := by
    intro state held run
    obtain ⟨held', -, eq⟩ := Outcome.bind_eq_ret.mp run
    cases eq
    rfl
  unfold compOpen at run
  dsimp only at run
  split at run
  · cases run
    rfl
  · split at run
    · cases run
      rfl
    · obtain ⟨⟨state, held⟩, -, run⟩ := Outcome.bind_eq_ret.mp run
      cases state with
      | none => exact fails run
      | some state =>
        dsimp only at run
        split at run
        · exact fails run
        · split at run
          · cases run
            cases failed
          · exact fails run

section Steps

variable {σ : Type} {env : AccessEnv σ} {info : BlockRecord} {block : DataBlock}

/-- What `asdf_block_comp_open` does on a handle: the destination is that of the
stored bytes, and what was kept of them before is the same. -/
theorem dataCompOpen_run {data : Bytes} (same : block.info = info)
    (name : ∀ name, block.compression = some name →
      name = compressionName info.header.compression)
    (stored : block.data.getD [] = data) (kept : KeepsOpened env info block data) :
    dataCompOpen env block = (opening env info data >>= fun opened => .ret (opened.1,
      { block with
        compression := some (compressionName info.header.compression)
        compState := opened.2 })) := by
  obtain ⟨record, mem, avail, close, comp, cached⟩ := block
  dsimp only at same name stored
  subst info
  subst data
  have orig : compressionOrig ⟨record, mem, avail, close, comp, cached⟩ =
      (compressionName record.header.compression,
        ⟨record, mem, avail, close, comp, some (compressionName record.header.compression)⟩) := by
    cases cached with
    | none => rfl
    | some cached =>
      cases name cached rfl
      rfl
  have unopened : ∀ ok, opening env record (mem.getD []) = .ret (ok, none) → comp = none := by
    intro ok run
    cases comp with
    | none => rfl
    | some comp => cases run.symm.trans (kept comp rfl)
  unfold dataCompOpen
  rw [orig]
  dsimp only
  unfold opening at unopened ⊢
  dsimp only at unopened ⊢
  by_cases plain : compressionName record.header.compression = []
  · rw [if_pos plain] at unopened ⊢
    cases unopened true rfl
    rw [if_pos plain]
    rfl
  · rw [if_neg plain] at unopened ⊢
    rw [if_neg plain]
    cases known : codecGet (compressionName record.header.compression) with
    | none =>
      rw [known] at unopened
      cases unopened false rfl
      rfl
    | some codec =>
      dsimp only
      cases env.file with
      | none => rfl
      | some file =>
        dsimp only [Option.isNone]
        cases compOpen env.comp ⟨compressionName record.header.compression, record.header.dataSize,
            mem.getD []⟩ <;> rfl

/-- A destination is only left where opening succeeds. -/
theorem opening_kept {data : Bytes} {opened : Bool × Option OpenedComp}
    (run : opening env info data = .ret opened) {comp : OpenedComp}
    (some : opened.2 = some comp) : opening env info data = .ret (true, .some comp) := by
  obtain ⟨ok, kept⟩ := opened
  cases some
  cases ok with
  | true => exact run
  | false =>
    exfalso
    unfold opening at run
    dsimp only at run
    split at run
    · cases run
    · split at run
      · cases run
      · split at run
        · cases run
        · obtain ⟨r, opens, eq⟩ := Outcome.bind_eq_ret.mp run
          have ok : r.ok = false := congrArg Prod.fst (Outcome.ret.inj eq)
          have state : r.state.map _ = Option.some comp := congrArg Prod.snd (Outcome.ret.inj eq)
          rw [compOpen_failed (inAccess_eq_ret.mp opens) ok] at state
          cases state

/-- A handle after its stored bytes were opened. -/
structure OpensTo (block : DataBlock) (opened : Bool × Option OpenedComp) (block' : DataBlock) :
    Prop where
  record : block'.info = block.info
  name : ∀ name, block'.compression = some name →
    name = compressionName block.info.header.compression
  data : block'.data = block.data
  availSize : block'.availSize = block.availSize
  shouldClose : block'.shouldClose = block.shouldClose
  compState : block'.compState = opened.2

theorem OpensTo.keeps {data : Bytes} {opened : Bool × Option OpenedComp} {block' : DataBlock}
    (h : OpensTo block opened block') (run : opening env info data = .ret opened) :
    KeepsOpened env info block' data := by
  intro comp kept
  exact opening_kept run (h.compState.symm.trans kept)

theorem OpensTo.returnData {opened : Bool × Option OpenedComp} {block' : DataBlock}
    (h : OpensTo block opened block') (raw : Access) :
    returnData raw (opened.1, block') = (returned raw opened, block') := by
  obtain ⟨ok, comp⟩ := opened
  have same : block'.compState = comp := h.compState
  unfold LibAsdf.returnData returned
  cases ok with
  | false => rfl
  | true =>
    dsimp only
    rw [same]
    cases comp <;> rfl

theorem dataCompOpen_opens {data : Bytes} (same : block.info = info)
    (name : ∀ name, block.compression = some name →
      name = compressionName info.header.compression)
    (stored : block.data.getD [] = data) (kept : KeepsOpened env info block data) :
    ∃ f : Bool × Option OpenedComp → DataBlock,
      dataCompOpen env block = (opening env info data >>= fun o => .ret (o.1, f o)) ∧
      ∀ o, opening env info data = .ret o → OpensTo block o (f o) := by
  refine ⟨_, dataCompOpen_run same name stored kept, fun o _ => ?_⟩
  refine ⟨rfl, ?_, rfl, rfl, rfl, rfl⟩
  rintro name' ⟨⟩
  rw [same]

theorem ensureOpened_opens {data : Bytes} (same : block.info = info)
    (name : ∀ name, block.compression = some name →
      name = compressionName info.header.compression)
    (stored : block.compState = none → block.data.getD [] = data)
    (kept : KeepsOpened env info block data) :
    ∃ f : Bool × Option OpenedComp → DataBlock,
      ensureOpened env block = (opening env info data >>= fun o => .ret (o.1, f o)) ∧
      ∀ o, opening env info data = .ret o → OpensTo block o (f o) := by
  unfold ensureOpened
  cases opened : block.compState with
  | none => exact dataCompOpen_opens same name (stored opened) kept
  | some comp =>
    have run := kept comp opened
    refine ⟨fun _ => block, ?_, ?_⟩
    · rw [run]
      rfl
    · intro o run'
      cases run.symm.trans run'
      refine ⟨rfl, ?_, rfl, rfl, rfl, opened⟩
      rw [same]
      exact name

theorem opens_returned {data : Bytes} {f : Bool × Option OpenedComp → DataBlock} (raw : Access)
    (opens : ∀ o, opening env info data = .ret o → OpensTo block o (f o)) :
    ((opening env info data >>= fun o => .ret (o.1, f o)) >>= fun opened =>
        .ret (returnData raw opened)) =
      (opening env info data >>= fun o => .ret (returned raw o, f o)) := by
  cases run : opening env info data with
  | ret o => exact congrArg Outcome.ret ((opens o run).returnData raw)
  | fault e => rfl
  | timeout => rfl

variable [OpenMem σ]

theorem consistent_open : Consistent env info (blockOpenData info) where
  record := rfl
  name := nofun
  memory _ _ := ⟨rfl, fun some => absurd rfl some⟩
  stream _ := .inl ⟨rfl, fun some => absurd rfl some⟩

/-- One call: it answers by the record alone, and leaves the handle as it should be. -/
structure CallAnswers (env : AccessEnv σ) (info : BlockRecord) (answer : AccessRun Access)
    (x : AccessRun (Access × DataBlock)) : Prop where
  answer : (x >>= fun r => .ret r.1) = answer
  consistent : ∀ r, x = .ret r → Consistent env info r.2

theorem CallAnswers.ret (access : Access) (h : Consistent env info block) :
    CallAnswers env info (.ret access) (.ret (access, block)) where
  answer := rfl
  consistent r' run := by
    cases run
    exact h

theorem CallAnswers.fault (e : AccessFault) : CallAnswers env info (.fault e) (.fault e) where
  answer := rfl
  consistent r run := by cases run

theorem CallAnswers.timeout : CallAnswers env info .timeout .timeout where
  answer := rfl
  consistent r run := by cases run

/-- A call that opens the data. -/
theorem CallAnswers.opened {data : Bytes} {f : Bool × Option OpenedComp → DataBlock} {raw : Access}
    {x : AccessRun (Bool × DataBlock)}
    (run : x = (opening env info data >>= fun o => .ret (o.1, f o)))
    (opens : ∀ o, opening env info data = .ret o → OpensTo block o (f o))
    (kept : ∀ o, opening env info data = .ret o → Consistent env info (f o)) :
    CallAnswers env info (opening env info data >>= fun o => .ret (returned raw o))
      (x >>= fun opened => .ret (returnData raw opened)) := by
  rw [run, opens_returned raw opens]
  cases o : opening env info data with
  | ret o' => exact .ret _ (kept o' o)
  | fault e => exact .fault e
  | timeout => exact .timeout

/-- The data of an earlier call. -/
theorem cachedData_answers (h : Consistent env info block) {data : Bytes}
    (cached : block.data = some data) (close : block.shouldClose = true) (decompress : Bool) :
    CallAnswers env info (accessOf env info decompress) (cachedData env block data decompress) := by
  have unowned : info.data = none := by
    cases memory : info.data with
    | none => rfl
    | some addr =>
      have := (h.memory addr memory).1
      rw [close] at this
      cases this
  obtain ⟨none, -⟩ | ⟨stream, mem, file, pos, region, same, avail, close, kept⟩ := h.stream unowned
  · rw [cached] at none
    cases none
  · cases cached.symm.trans same
    have answer : accessOf env info decompress = streamAccess env info stream decompress := by
      unfold accessOf
      rw [unowned, file]
      exact if_neg pos
    rw [answer]
    unfold streamAccess cachedData
    rw [region, avail]
    cases decompress with
    | false => exact .ret _ h
    | true =>
      obtain ⟨f, run, opens⟩ := ensureOpened_opens h.record h.name
        (fun _ => by rw [same]; rfl) kept
      apply CallAnswers.opened run opens
      intro o ret
      have opens := opens o ret
      refine ⟨opens.record.trans h.record, ?_, ?_, fun _ => .inr ?_⟩
      · rw [← h.record]
        exact opens.name
      · intro addr memory
        rw [unowned] at memory
        cases memory
      · exact ⟨stream, data, file, pos, region, opens.data.trans same, opens.availSize.trans avail,
          opens.shouldClose.trans close, opens.keeps ret⟩

/-- Only the data fields change, and nothing where the data is opened. -/
theorem viewMemory_eq (block : DataBlock) (data : Bytes) (close : block.shouldClose = false) :
    (viewMemory block data).info = block.info ∧
      (viewMemory block data).compression = block.compression ∧
      (viewMemory block data).shouldClose = false ∧
      (viewMemory block data).compState = block.compState ∧
      (block.compState = none → (viewMemory block data).data = some data) := by
  unfold viewMemory
  cases opened : block.compState with
  | none => exact ⟨rfl, rfl, rfl, rfl, fun _ => rfl⟩
  | some comp => exact ⟨rfl, rfl, close, opened, nofun⟩

/-- Data in memory. -/
theorem memoryData_answers (h : Consistent env info block) {addr : Nat}
    (memory : info.data = some addr) (decompress : Bool) :
    CallAnswers env info (accessOf env info decompress) (memoryData env block addr decompress) := by
  have answer : accessOf env info decompress = memoryAccess env info addr decompress := by
    unfold accessOf
    rw [memory]
  obtain ⟨close, kept⟩ := h.memory addr memory
  rw [answer]
  unfold memoryAccess memoryData
  rw [h.record]
  cases read : env.heap.read addr info.dataSize with
  | fault e => exact .fault _
  | timeout => exact .timeout
  | ret data =>
    have kept : KeepsOpened env info block data := by
      intro comp opened
      obtain ⟨data', read', kept⟩ := kept (by rw [opened]; exact Option.some_ne_none comp)
      cases read.symm.trans read'
      exact kept comp opened
    change CallAnswers env info
      (if (decompress && info.dataIsCompressed) = true then _ else .ret _)
      (if (decompress && info.dataIsCompressed) = true then _ else .ret (_, block))
    by_cases compressed : (decompress && info.dataIsCompressed) = true
    · rw [if_pos compressed, if_pos compressed]
      obtain ⟨record, name, close', comp, stored⟩ := viewMemory_eq block data close
      obtain ⟨f, run, opens⟩ := ensureOpened_opens (record.trans h.record)
        (by rw [name]; exact h.name) (fun none => by rw [stored (comp.symm.trans none)]; rfl)
        (fun c opened => kept c (comp.symm.trans opened))
      apply CallAnswers.opened run opens
      intro o ret
      have opens := opens o ret
      refine ⟨opens.record.trans (record.trans h.record), ?_, ?_, ?_⟩
      · rw [← h.record, ← record]
        exact opens.name
      · intro addr' memory'
        cases memory.symm.trans memory'
        exact ⟨opens.shouldClose.trans close', fun _ => ⟨data, read, opens.keeps ret⟩⟩
      · intro unowned
        rw [memory] at unowned
        cases unowned
    · rw [if_neg compressed, if_neg compressed]
      exact .ret _ h

/-- A handle whose region of the file was opened, or could not be. -/
theorem consistent_region {data : Option Bytes} {stream : σ} (record : block.info = info)
    (name : ∀ name, block.compression = some name →
      name = compressionName info.header.compression)
    (unowned : info.data = none) (file : env.file.join = some stream) (pos : ¬ info.dataPos < 0)
    (region : OpenMem.openMem env.comp.pageSize stream info.dataPos.toNat info.header.usedSize =
      .ret data)
    (same : block.data = data) (avail : block.availSize = (data.map List.length).getD 0)
    (close : block.shouldClose = true) (kept : KeepsOpened env info block (data.getD [])) :
    Consistent env info block where
  record := record
  name := name
  memory addr memory := by
    rw [unowned] at memory
    cases memory
  stream _ := by
    cases data with
    | none => exact .inl ⟨same, fun _ => ⟨stream, file, pos, region, kept⟩⟩
    | some data => exact .inr ⟨stream, data, file, pos, region, same, avail, close, kept⟩

/-- Data in the file. -/
theorem streamData_answers (h : Consistent env info block) (unowned : info.data = none)
    (fresh : block.data = none) {stream : σ} (file : env.file.join = some stream)
    (pos : ¬ info.dataPos < 0) (decompress : Bool) :
    CallAnswers env info (accessOf env info decompress) (streamData env block stream decompress) := by
  have answer : accessOf env info decompress = streamAccess env info stream decompress := by
    unfold accessOf
    rw [unowned, file]
    exact if_neg pos
  rw [answer]
  unfold streamAccess streamData
  rw [h.record]
  cases region : OpenMem.openMem env.comp.pageSize stream info.dataPos.toNat
      info.header.usedSize with
  | fault e => exact .fault _
  | timeout => exact .timeout
  | ret data =>
    have kept : KeepsOpened env info block (data.getD []) := by
      intro comp opened
      obtain ⟨-, kept⟩ | ⟨_, data', _, _, _, cached, _⟩ := h.stream unowned
      · obtain ⟨stream', file', -, region', kept⟩ :=
          kept (by rw [opened]; exact Option.some_ne_none comp)
        cases file.symm.trans file'
        cases region.symm.trans region'
        exact kept comp opened
      · rw [fresh] at cached
        cases cached
    have name := h.name
    cases decompress with
    | false =>
      exact .ret _ (consistent_region rfl name unowned file pos region rfl rfl rfl kept)
    | true =>
      let view : DataBlock := { block with
        info := info
        data := data
        shouldClose := true
        availSize := (data.map List.length).getD 0 }
      have record : view.info = info := rfl
      have kept : KeepsOpened env info view (data.getD []) := kept
      obtain ⟨f, run, opens⟩ := dataCompOpen_opens record name rfl kept
      apply CallAnswers.opened run opens
      intro o ret
      have opens := opens o ret
      refine consistent_region (opens.record.trans record) ?_ unowned file pos region opens.data
        opens.availSize opens.shouldClose (opens.keeps ret)
      rw [← record]
      exact opens.name

theorem blockDataImpl_answers (h : Consistent env info block) (decompress : Bool) :
    CallAnswers env info (accessOf env info decompress) (blockDataImpl env block decompress) := by
  unfold blockDataImpl
  split
  · exact cachedData_answers h ‹_› ‹_› decompress
  · rename_i other
    rw [h.record]
    cases memory : info.data with
    | some addr => exact memoryData_answers h memory decompress
    | none =>
      dsimp only
      cases file : env.file.join with
      | none =>
        have answer : accessOf env info decompress = .ret ⟨none, some 0⟩ := by
          unfold accessOf
          rw [memory, file]
          rfl
        rw [answer]
        exact .ret _ h
      | some stream =>
        dsimp only
        by_cases unplaced : info.dataPos < 0
        · have answer : accessOf env info decompress = .ret ⟨none, some 0⟩ := by
            unfold accessOf
            rw [memory, file]
            exact if_pos unplaced
          rw [if_pos unplaced, answer]
          exact .ret _ h
        · rw [if_neg unplaced]
          have fresh : block.data = none := by
            obtain ⟨none, -⟩ | ⟨_, data, _, _, _, cached, _, close, _⟩ := h.stream memory
            · exact none
            · exact absurd close (other data cached)
          exact streamData_answers h memory fresh file unplaced decompress

/-! ## Calls -/

/-- The states of a handle of a record, after any calls. -/
inductive HandleRun (env : AccessEnv σ) (info : BlockRecord) : DataBlock → Prop
  | opened : HandleRun env info (blockOpenData info)
  | data {block : DataBlock} {r : Access × DataBlock} : HandleRun env info block →
      asdfBlockData env block = .ret r → HandleRun env info r.2
  | raw {block : DataBlock} {r : Access × DataBlock} : HandleRun env info block →
      asdfBlockDataRaw env block = .ret r → HandleRun env info r.2

theorem HandleRun.consistent (run : HandleRun env info block) : Consistent env info block := by
  induction run with
  | opened => exact consistent_open
  | data _ call ih => exact (blockDataImpl_answers ih true).consistent _ call
  | raw _ call ih => exact (blockDataImpl_answers ih false).consistent _ call

/-- What a call returns, without the handle. -/
def accessed (x : AccessRun (Access × DataBlock)) : AccessRun Access := x >>= fun r => .ret r.1

/-- After any calls on a handle, each call returns what it returns on a new one. -/
theorem history_independent (run : HandleRun env info block) :
    accessed (asdfBlockData env block) = accessed (asdfBlockData env (blockOpenData info)) ∧
      accessed (asdfBlockDataRaw env block) =
        accessed (asdfBlockDataRaw env (blockOpenData info)) := by
  have same : ∀ decompress, accessed (blockDataImpl env block decompress) =
      accessed (blockDataImpl env (blockOpenData info) decompress) := by
    intro decompress
    have after := blockDataImpl_answers run.consistent decompress
    have fresh := blockDataImpl_answers (consistent_open : Consistent env info _) decompress
    exact after.answer.trans fresh.answer.symm
  exact ⟨same true, same false⟩

end Steps

/-! ## A system that does what it is asked to -/

/-- The bytes that are shown; `none` where there is an error. -/
def Access.shown (access : Access) : Option Bytes :=
  match access.data, access.size with
  | some (.bytes mem), _ => some mem
  | some (.filling _ _ _), _ => none
  | none, some _ => some []
  | none, none => none

section Granted

variable {σ : Type} {env : AccessEnv σ} {info : BlockRecord}

theorem compressionName_idem (field : Bytes) :
    compressionName (compressionName field) = compressionName field :=
  List.takeWhile_idem

/-- Where every call succeeds and nothing is lazy, the stored bytes are opened as
their decoder has them. -/
theorem opening_granted (file : env.file.isSome = true)
    (granted : ∀ step, env.comp.grant step = true) (eager : env.comp.mode = .eager)
    {data : Bytes}
    (sets : Sets env.comp ⟨compressionName info.header.compression, info.header.dataSize, data⟩) :
    ∃ o, opening env info data = .ret o ∧ ∀ raw : Access, (returned raw o).shown =
      match blockCompOpen env.comp.libs.registry info.header.compression info.header.dataSize
        data with
      | none => none
      | some none => raw.shown
      | some (some dest) => some dest := by
  have idem := compressionName_idem info.header.compression
  unfold opening
  dsimp only
  by_cases plain : compressionName info.header.compression = []
  · refine ⟨_, if_pos plain, fun raw => ?_⟩
    unfold blockCompOpen
    dsimp only
    rw [if_pos plain]
    rfl
  · rw [if_neg plain]
    cases known : codecGet (compressionName info.header.compression) with
    | none =>
      refine ⟨_, rfl, fun raw => ?_⟩
      unfold blockCompOpen
      dsimp only
      rw [if_neg plain, compressorGet_codecGet, known]
      rfl
    | some codec =>
      obtain ⟨f, here⟩ := Option.isSome_iff_exists.mp file
      rw [here]
      dsimp only [Option.isNone]
      let stored : CompBlock := ⟨compressionName info.header.compression, info.header.dataSize, data⟩
      have known' : codecGet (compressionName stored.compression) = some codec :=
        (congrArg codecGet idem).trans known
      have named : compressionName stored.compression ≠ [] := by
        rw [show compressionName stored.compression = _ from idem]
        exact plain
      have opens' : blockCompOpen env.comp.libs.registry stored.compression stored.dataSize
          stored.data = blockCompOpen env.comp.libs.registry info.header.compression
            info.header.dataSize data := by
        unfold blockCompOpen
        rw [show compressionName stored.compression = _ from idem]
      obtain ⟨r, opens, ok⟩ := compOpen_granted granted eager named sets
      rw [opens'] at ok
      obtain run | run := compOpen_sets named known' sets
      · cases opens.symm.trans run
        refine ⟨(true, some (openedDest env codec stored (env.comp.opened stored codec))), ?_,
          fun raw => ?_⟩
        · change (inAccess .comp (compOpen env.comp stored) >>= _) = _
          rw [run]
          rfl
        · have lazyMode : (env.comp.opened stored codec).lazyMode = false := by
            change env.comp.lazyMode stored = false
            unfold CompEnv.lazyMode
            rw [eager]
          obtain ⟨dest, decoded⟩ := Option.isSome_iff_exists.mp ok.symm
          rw [decoded]
          unfold blockCompOpen at decoded
          dsimp only at decoded
          rw [if_neg plain, compressorGet_codecGet, known, Option.map_some] at decoded
          dsimp only at decoded
          split at decoded
          · cases decoded
          · obtain ⟨dest', gives, eq⟩ := Option.map_eq_some_iff.mp decoded
            cases eq
            have shown : (openedDest env codec stored (env.comp.opened stored codec)).dest =
                .bytes dest' := by
              unfold openedDest
              rw [lazyMode]
              exact congrArg (fun d => DataView.bytes (d.getD [])) gives
            unfold returned Access.shown
            dsimp only
            rw [shown]
            rfl
      · cases opens.symm.trans run
        refine ⟨(false, none), ?_, fun raw => ?_⟩
        · change (inAccess .comp (compOpen env.comp stored) >>= _) = _
          rw [run]
          rfl
        · rw [Option.isNone_iff_eq_none.mp (Option.isSome_eq_false_iff.mp ok.symm)]
          rfl

/-- A new handle shows what the emitter reads of the block. -/
theorem accessOf_blockData [OpenMem σ] (file : env.file.isSome = true)
    (granted : ∀ step, env.comp.grant step = true) (eager : env.comp.mode = .eager)
    (sets : ∀ data, Sets env.comp
      ⟨compressionName info.header.compression, info.header.dataSize, data⟩) :
    (accessOf env info true >>= fun access => .ret access.shown) = inAccess .stream
      (blockData ⟨env.file.join, env.comp.pageSize, env.comp.libs.registry, none⟩ env.heap info) := by
  unfold accessOf blockData
  cases memory : info.data with
  | some addr =>
    dsimp only
    unfold memoryAccess
    cases env.heap.read addr info.dataSize with
    | fault e => rfl
    | timeout => rfl
    | ret data =>
      cases compressed : info.dataIsCompressed with
      | false => rfl
      | true =>
        obtain ⟨o, opens, shown⟩ := opening_granted file granted eager (sets data)
        have shown := shown ⟨some (.bytes data), some info.dataSize⟩
        change ((opening env info data >>= fun o => .ret (returned _ o)) >>= fun access =>
          .ret access.shown) = .ret ((blockCompOpen _ _ _ data).map (·.getD data))
        rw [opens]
        apply congrArg Outcome.ret
        rw [shown]
        cases blockCompOpen env.comp.libs.registry info.header.compression info.header.dataSize
            data with
        | none => rfl
        | some dest => cases dest <;> rfl
  | none =>
    dsimp only
    cases env.file.join with
    | none => rfl
    | some stream =>
      dsimp only
      split
      · rfl
      · unfold streamAccess
        cases OpenMem.openMem env.comp.pageSize stream info.dataPos.toNat info.header.usedSize with
        | fault e => rfl
        | timeout => rfl
        | ret data =>
          obtain ⟨o, opens, shown⟩ := opening_granted file granted eager (sets (data.getD []))
          have shown := shown ⟨data.map .bytes, some ((data.map List.length).getD 0)⟩
          change ((opening env info (data.getD []) >>= fun o => .ret (returned _ o)) >>=
            fun access => .ret access.shown) =
              .ret ((blockCompOpen _ _ _ (data.getD [])).map (·.getD (data.getD [])))
          rw [opens]
          apply congrArg Outcome.ret
          rw [shown]
          cases blockCompOpen env.comp.libs.registry info.header.compression info.header.dataSize
              (data.getD []) with
          | none => rfl
          | some dest =>
            cases dest with
            | none => cases data <;> rfl
            | some dest => rfl

end Granted

section Packed

/-- A block of two bytes of the input that bzip2 stores. -/
def packedRecord : BlockRecord :=
  { BlockRecord.fresh with
    dataPos := 1
    header := { BlockRecord.fresh.header with
      compression := Codec.bzp2.field
      usedSize := 2
      dataSize := 2 } }

def packedEnv : AccessEnv FileStream where
  file := some (some (streamFromFp [0, 7, 8] [] true false))
  heap := ⟨[]⟩
  comp := grantingEnv

/-- The raw data, and then the data, of a handle that has opened both. -/
theorem history_independent_packed : ∃ block, HandleRun packedEnv packedRecord block ∧
    block.compState.isSome = true ∧
      accessed (asdfBlockDataRaw packedEnv block) =
        accessed (asdfBlockDataRaw packedEnv (blockOpenData packedRecord)) ∧
      accessed (asdfBlockData packedEnv block) = .ret ⟨some (.bytes [7, 8]), some 2⟩ := by
  have run : HandleRun packedEnv packedRecord _ :=
    .data (r := (_, _)) (.raw (r := (_, _)) .opened rfl) rfl
  have same := history_independent run
  exact ⟨_, run, rfl, same.2, same.1.trans rfl⟩

end Packed

end LibAsdf
