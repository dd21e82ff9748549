import Mathlib.Data.List.Forall2
import LibAsdf.Base.Calls
import LibAsdf.Base.Relate
import LibAsdf.Block.RoundTrip
import LibAsdf.Block.Ownership
import LibAsdf.Parser.Handlers

/-!
# Writing a file's blocks

What `emit_blocks` does to the records of a file, and when their data is the
same afterwards.

* `emitBlocks`: the writer of all blocks;
* `fileBlockData`: `asdf_block_data` on a newly opened block;
* `BlockRecord.Kept`, `sameBlock_iff`: one block, read from the input at
  another place;
* `emitLoop_wrote`: where the blocks go;
* `write_keeps_blocks`: when a write leaves all blocks as they were;
* `moved_block_lost`: a write that does not.
-/

namespace LibAsdf

section Emitter

variable {σ ω : Type} [OpenMem σ] [OutStream ω]

/-- The loop of `emit_blocks`. -/
def emitLoop (env : WriterFile σ) (heap : Heap) (checksum : Bool) :
    List BlockRecord → ω → Run (Bool × List BlockRecord × ω)
  | [], out => return (true, [], out)
  | block :: more, out => do
    let (ok, block, out) ← blockInfoWrite env heap block out checksum
    if !ok then
      return (false, block :: more, out)
    let (ok, more, out) ← emitLoop env heap checksum more out
    return (ok, block :: more, out)

/-- The blocks, once the parser is done. -/
def ensureBlocks (file : BlockFile) : BlockFile :=
  if file.unparsed.isSome && file.blocks.isEmpty then (blockCount file).2 else file

/-- `emit_blocks`. -/
def emitBlocks (env : WriterFile σ) (heap : Heap) (checksum : Bool) (file : BlockFile) (out : ω) :
    Run (Bool × BlockFile × ω) := do
  let file := ensureBlocks file
  let (ok, blocks, out) ← emitLoop env heap checksum file.blocks out
  return (ok, { file with blocks := blocks }, out)

/-- `asdf_block_data` on a handle that has just been opened: `none` where
decompression fails, nothing for the null pointer. -/
def blockData (env : WriterFile σ) (heap : Heap) (info : BlockRecord) : Run (Option Bytes) :=
  match info.data with
  | some addr => do
    let raw ← heap.read addr info.dataSize
    if info.dataIsCompressed then
      return (blockCompOpen env.registry info.header.compression info.header.dataSize raw).map
        (·.getD raw)
    return some raw
  | none =>
    match env.input with
    | none => return some []
    | some stream =>
      if info.dataPos < 0 then return some []
      else do
        let mem ← OpenMem.openMem env.pageSize stream info.dataPos.toNat info.header.usedSize
        let raw := mem.getD []
        return (blockCompOpen env.registry info.header.compression info.header.dataSize raw).map
          (·.getD raw)

/-- The data of a block by its index; `none` where there is no such block. -/
def fileBlockData (env : WriterFile σ) (heap : Heap) (file : BlockFile) (idx : Nat) :
    Run (Option (Option Bytes)) :=
  match (blockCount file).2.blocks[idx]? with
  | none => return none
  | some info => do
    let data ← blockData env heap info
    return some data

end Emitter

/-! ## One block -/

section OneBlock

variable {σ : Type} [OpenMem σ] (env : WriterFile σ) (heap : Heap)

/-- `is_compressed` of a block in the input. -/
def BlockRecord.compressedIn (record : BlockRecord) : Bool :=
  record.header.compression.head? ≠ some 0

/-- What a record's bytes are sourced from is the same with `data_pos` moved to
`pos`: they are in memory; or there is no input; or the input has the same
bytes there, or bytes that decompress to the same, to be compressed anew; or
nothing was sourced, and nothing is there, and nothing is to be compressed. -/
def BlockRecord.Kept (record : BlockRecord) (pos : Nat) : Prop :=
  record.data = none → ∀ stream, env.input = some stream →
    let region := fun pos => OpenMem.openMem env.pageSize stream pos record.header.usedSize
    if record.dataPos < 0 then
      region pos = .ret (some []) ∧ record.writeCompressor = none ∧ record.compressedIn = false
    else
      region pos = region record.dataPos.toNat ∨
      record.writeCompressor ≠ none ∧ record.compressedIn = true ∧
        ∃ before after, region record.dataPos.toNat = .ret (some before) ∧
          region pos = .ret (some after) ∧
          blockCompOpen env.registry record.header.compression record.header.dataSize before =
            blockCompOpen env.registry record.header.compression record.header.dataSize after

/-- The record's data, and what is written for it, are the same. -/
def SameBlock (before after : BlockRecord) : Prop :=
  blockData env heap after = blockData env heap before ∧
    ∀ stored, StoredAs env heap after stored ↔ StoredAs env heap before stored

/-- A record in another place of the output. -/
structure BlockRecord.MovedTo (before : BlockRecord) (pos : Nat) (after : BlockRecord) :
    Prop where
  dataPos : after.dataPos = pos
  data : after.data = before.data
  dataSize : after.dataSize = before.dataSize
  dataIsCompressed : after.dataIsCompressed = before.dataIsCompressed
  writeCompressor : after.writeCompressor = before.writeCompressor
  compression : after.header.compression = before.header.compression
  usedSize : after.header.usedSize = before.header.usedSize
  headerDataSize : after.header.dataSize = before.header.dataSize

variable {env heap} {before after : BlockRecord} {p : Nat} {stored : BlockStored}

theorem StoredAs.unique {stored' : BlockStored} (h : StoredAs env heap before stored)
    (h' : StoredAs env heap before stored') : stored' = stored := by
  obtain ⟨src, source, bytes⟩ := h
  obtain ⟨src', source', bytes'⟩ := h'
  rw [source] at source'
  cases source'
  rw [bytes] at bytes'
  cases bytes'
  rfl

omit [OpenMem σ] in
theorem blockStored_moved (moved : before.MovedTo p after) (src : BlockSource) :
    blockStored env after src = blockStored env before src := by
  simp only [blockStored, moved.writeCompressor, moved.compression, moved.headerDataSize]

/-- Nothing changes for a record that does not look at the input. -/
theorem sameBlock_of_source (moved : before.MovedTo p after)
    (source : blockSource env heap after = blockSource env heap before)
    (data : blockData env heap after = blockData env heap before) :
    SameBlock env heap before after := by
  refine ⟨data, fun stored => ?_⟩
  simp only [StoredAs, source, blockStored_moved moved]

theorem compressionName_eq_nil {field : Bytes} (length : field.length = 4) :
    compressionName field = [] ↔ field.head? = some 0 := by
  cases field with
  | nil => cases length
  | cons b rest =>
    rw [compressionName, List.takeWhile_cons]
    by_cases zero : b = 0
    · simp [zero]
    · simp [zero]

variable (heap) in
/-- What `blockSource` and `blockData` read of a block in the input. -/
theorem blockSource_of_input {record : BlockRecord} {stream : σ} (inFile : record.data = none)
    (input : env.input = some stream) (placed : 0 ≤ record.dataPos) :
    blockSource env heap record = (do
      match ← OpenMem.openMem env.pageSize stream record.dataPos.toNat record.header.usedSize with
      | none => return none
      | some src => return some ⟨some src, record.compressedIn⟩) := by
  simp only [blockSource, inFile, input, placed, if_true]
  rfl

theorem blockSource_of_unplaced {record : BlockRecord} (inFile : record.data = none)
    (unplaced : record.dataPos < 0) : blockSource env heap record = .ret (some ⟨none, false⟩) := by
  simp only [blockSource, inFile, Int.not_le_of_gt unplaced, if_false]
  cases env.input <;> rfl

variable (heap) in
theorem blockData_of_input {record : BlockRecord} {stream : σ} (inFile : record.data = none)
    (input : env.input = some stream) (placed : 0 ≤ record.dataPos) {mem : Option Bytes}
    (region : OpenMem.openMem env.pageSize stream record.dataPos.toNat record.header.usedSize =
      .ret mem) : blockData env heap record = .ret ((blockCompOpen env.registry
        record.header.compression record.header.dataSize (mem.getD [])).map
          (·.getD (mem.getD []))) := by
  simp only [blockData, inFile, input, Int.not_lt_of_ge placed, if_false, region,
    Outcome.ret_bind]
  rfl

theorem blockData_of_unplaced {record : BlockRecord} (inFile : record.data = none)
    (unplaced : record.dataPos < 0) : blockData env heap record = .ret (some []) := by
  simp only [blockData, inFile, unplaced, if_true]
  cases env.input <;> rfl

omit [OpenMem σ] in
theorem blockStored_plain {record : BlockRecord} {src : BlockSource}
    (plain : record.writeCompressor = none ∨ src.data = none) :
    blockStored env record src = .ret (some ⟨src.data.getD [],
      if src.compressed then record.header.compression else noCompression⟩) := by
  unfold blockStored
  split
  · rename_i compressor data named held
    rcases plain with plain | plain
    · rw [named] at plain
      cases plain
    · rw [held] at plain
      cases plain
  · rfl

omit [OpenMem σ] in
/-- A compressor puts its name. -/
theorem blockStored_named {record : BlockRecord} {c : Compressor} {bytes : Bytes}
    {compressed : Bool} {stored : BlockStored} (named : record.writeCompressor = some c)
    (h : blockStored env record ⟨some bytes, compressed⟩ = .ret (some stored)) :
    stored.compression = c.compression ∧ if compressed then
        ∃ dest, blockCompOpen env.registry record.header.compression record.header.dataSize bytes =
          some (some dest) ∧ c.comp dest = some stored.data
      else c.comp bytes = some stored.data := by
  unfold blockStored at h
  rw [named] at h
  dsimp only at h
  cases compressed with
  | false =>
    simp only [Bool.not_false, if_true, Outcome.pure_eq, Outcome.ret.injEq,
      Option.map_eq_some_iff] at h
    obtain ⟨out, comp, rfl⟩ := h
    exact ⟨rfl, comp⟩
  | true =>
    simp only [Bool.not_true, Bool.false_eq_true, if_false] at h
    split at h
    · cases h
    · cases h
    · rename_i dest opened
      simp only [Outcome.pure_eq, Outcome.ret.injEq, Option.map_eq_some_iff] at h
      obtain ⟨out, comp, rfl⟩ := h
      exact ⟨rfl, dest, opened, comp⟩

theorem blockCompOpen_name {registry : List Compressor} {compression : Bytes} {dataSize : Nat}
    {data : Bytes} : blockCompOpen registry compression dataSize data = some none ↔
      compressionName compression = [] := by
  unfold blockCompOpen
  by_cases empty : compressionName compression = []
  · simp only [empty, if_true]
  · simp only [empty, if_false, iff_false]
    cases compressorGet registry (compressionName compression) with
    | none => exact nofun
    | some c =>
      dsimp only
      split
      · exact nofun
      · cases c.decomp data dataSize <;> exact nofun

theorem compressedIn_eq_false {record : BlockRecord} (length : record.header.compression.length = 4) :
    record.compressedIn = false ↔ compressionName record.header.compression = [] := by
  rw [compressionName_eq_nil length]
  simp [BlockRecord.compressedIn]

omit [OpenMem σ] in
theorem MovedTo.placed (moved : before.MovedTo p after) : 0 ≤ after.dataPos := by
  rw [moved.dataPos]
  exact Int.natCast_nonneg _

omit [OpenMem σ] in
theorem MovedTo.place (moved : before.MovedTo p after) : after.dataPos.toNat = p := by
  rw [moved.dataPos]
  exact Int.toNat_natCast _

/-- A record that was in memory and empty: it is taken for a block of the input
once it has a position. -/
theorem sameBlock_iff_of_unplaced (moved : before.MovedTo p after) {stream : σ}
    (inFile : before.data = none) (input : env.input = some stream)
    (unplaced : before.dataPos < 0) (length : before.header.compression.length = 4) :
    SameBlock env heap before after ↔ OpenMem.openMem env.pageSize stream p
      before.header.usedSize = .ret (some []) ∧ before.writeCompressor = none ∧
        before.compressedIn = false := by
  have inFile' : after.data = none := moved.data.trans inFile
  have source := blockSource_of_input heap inFile' input (MovedTo.placed moved)
  rw [MovedTo.place moved, moved.usedSize] at source
  have compressed : after.compressedIn = before.compressedIn := by
    rw [BlockRecord.compressedIn, BlockRecord.compressedIn, moved.compression]
  have first : StoredAs env heap before ⟨[], noCompression⟩ :=
    ⟨_, blockSource_of_unplaced inFile unplaced, blockStored_plain (.inr rfl)⟩
  constructor
  · rintro ⟨-, same⟩
    obtain ⟨src, eq, bytes⟩ := (same _).mpr first
    rw [source] at eq
    obtain ⟨mem, region, eq⟩ := Outcome.bind_eq_ret.mp eq
    cases mem with
    | none => cases eq
    | some mem =>
      cases eq
      rw [blockStored_moved moved] at bytes
      cases named : before.writeCompressor with
      | some c =>
        have name := (blockStored_named named bytes).1
        have := c.named
        rw [← name] at this
        exact absurd rfl this
      | none =>
        rw [blockStored_plain (.inl named), compressed] at bytes
        cases out : before.compressedIn with
        | true =>
          rw [out] at bytes
          have empty : before.header.compression = noCompression :=
            congrArg BlockStored.compression (Option.some.inj (Outcome.ret.inj bytes))
          have := (compressedIn_eq_false length).mpr (by rw [empty]; rfl)
          rw [out] at this
          cases this
        | false =>
          rw [out] at bytes
          have empty : mem = [] :=
            congrArg BlockStored.data (Option.some.inj (Outcome.ret.inj bytes))
          exact ⟨empty ▸ region, rfl, rfl⟩
  · rintro ⟨region, named, out⟩
    have again : StoredAs env heap after ⟨[], noCompression⟩ := by
      refine ⟨⟨some [], false⟩, ?_, ?_⟩
      · rw [source, region, Outcome.ret_bind, compressed, out]
        rfl
      · rw [blockStored_moved moved, blockStored_plain (.inl named)]
        rfl
    refine ⟨?_, fun stored => ⟨fun h => ?_, fun h => ?_⟩⟩
    · have plain : compressionName after.header.compression = [] := by
        rw [moved.compression]
        exact (compressedIn_eq_false length).mp out
      have region' : OpenMem.openMem env.pageSize stream after.dataPos.toNat
          after.header.usedSize = .ret (some []) := by
        rw [MovedTo.place moved, moved.usedSize, region]
      rw [blockData_of_unplaced inFile unplaced,
        blockData_of_input heap inFile' input (MovedTo.placed moved) region',
        blockCompOpen_name.mpr plain]
      rfl
    · rw [again.unique h]
      exact first
    · rw [first.unique h]
      exact again

/-- Bytes in memory stay where they are. -/
theorem sameBlock_of_data (moved : before.MovedTo p after) (held : before.data ≠ none) :
    SameBlock env heap before after := by
  have held' : after.data ≠ none := by
    rw [moved.data]
    exact held
  cases inMemory : before.data with
  | none => exact absurd inMemory held
  | some addr =>
    have inMemory' : after.data = some addr := moved.data.trans inMemory
    apply sameBlock_of_source moved
    · simp only [blockSource, inMemory, inMemory', moved.dataSize, moved.dataIsCompressed]
    · simp only [blockData, inMemory, inMemory', moved.dataSize, moved.dataIsCompressed,
        moved.compression, moved.headerDataSize]

theorem sameBlock_of_no_input (moved : before.MovedTo p after) (input : env.input = none) :
    SameBlock env heap before after := by
  by_cases held : before.data = none
  · have held' : after.data = none := moved.data.trans held
    apply sameBlock_of_source moved
    · simp only [blockSource, held, held', input]
    · simp only [blockData, held, held', input]
  · exact sameBlock_of_data moved held

/-- A record that was read from the input: other bytes are found at its new
place, unless they are the same or decompress to the same. -/
theorem sameBlock_iff_of_placed (moved : before.MovedTo p after) {stream : σ}
    (inFile : before.data = none) (input : env.input = some stream)
    (placed : 0 ≤ before.dataPos) (length : before.header.compression.length = 4)
    (first : StoredAs env heap before stored) :
    let region := fun pos => OpenMem.openMem env.pageSize stream pos before.header.usedSize
    SameBlock env heap before after ↔ region p = region before.dataPos.toNat ∨
      before.writeCompressor ≠ none ∧ before.compressedIn = true ∧
        ∃ old new, region before.dataPos.toNat = .ret (some old) ∧
          region p = .ret (some new) ∧
          blockCompOpen env.registry before.header.compression before.header.dataSize old =
            blockCompOpen env.registry before.header.compression before.header.dataSize new := by
  intro region
  have inFile' : after.data = none := moved.data.trans inFile
  have compressed : after.compressedIn = before.compressedIn := by
    rw [BlockRecord.compressedIn, BlockRecord.compressedIn, moved.compression]
  have source := blockSource_of_input heap inFile input placed
  have source' := blockSource_of_input heap inFile' input (MovedTo.placed moved)
  rw [MovedTo.place moved, moved.usedSize, compressed] at source'
  have data' : ∀ {mem : Option Bytes}, region p = .ret mem → blockData env heap after =
      .ret ((blockCompOpen env.registry before.header.compression before.header.dataSize
        (mem.getD [])).map (·.getD (mem.getD []))) := by
    intro mem found
    rw [← moved.compression, ← moved.headerDataSize]
    apply blockData_of_input heap inFile' input (MovedTo.placed moved)
    rw [MovedTo.place moved, moved.usedSize]
    exact found
  have opened : ∃ old, region before.dataPos.toNat = .ret (some old) ∧
      blockStored env before ⟨some old, before.compressedIn⟩ = .ret (some stored) := by
    obtain ⟨src, eq, bytes⟩ := first
    rw [source] at eq
    obtain ⟨mem, found, eq⟩ := Outcome.bind_eq_ret.mp eq
    cases mem with
    | none => cases eq
    | some old =>
      cases eq
      exact ⟨old, found, bytes⟩
  obtain ⟨old, found, bytes⟩ := opened
  have data := blockData_of_input heap inFile input placed found
  constructor
  · rintro ⟨sameData, same⟩
    obtain ⟨src, eq, bytes'⟩ := (same stored).mpr first
    rw [source'] at eq
    obtain ⟨mem, found', eq⟩ := Outcome.bind_eq_ret.mp eq
    cases mem with
    | none => cases eq
    | some new =>
      cases eq
      rw [blockStored_moved moved] at bytes'
      rw [data' found', data] at sameData
      simp only [Option.getD_some, Outcome.ret.injEq] at sameData
      cases named : before.writeCompressor with
      | none =>
        rw [blockStored_plain (.inl named)] at bytes bytes'
        have eq : new = old := congrArg BlockStored.data
          (Option.some.inj (Outcome.ret.inj (bytes'.trans bytes.symm)))
        rw [eq] at found'
        exact .inl (found'.trans found.symm)
      | some c =>
        by_cases out : before.compressedIn = true
        · rw [out] at bytes bytes'
          obtain ⟨dest, unpacked, -⟩ := (blockStored_named named bytes).2
          obtain ⟨dest', unpacked', -⟩ := (blockStored_named named bytes').2
          refine .inr ⟨nofun, out, old, new, found, found', ?_⟩
          rw [unpacked, unpacked'] at sameData
          rw [unpacked, unpacked']
          exact congrArg some sameData.symm
        · have plain := (compressedIn_eq_false length).mp (Bool.eq_false_iff.mpr out)
          rw [blockCompOpen_name.mpr plain, blockCompOpen_name.mpr plain] at sameData
          have eq : new = old := Option.some.inj sameData
          rw [eq] at found'
          exact .inl (found'.trans found.symm)
  · rintro (there | ⟨named, out, old', new, found', there, unpacks⟩)
    · rw [found] at there
      apply sameBlock_of_source moved
      · rw [source, source', show OpenMem.openMem _ _ p _ = _ from there,
          show OpenMem.openMem _ _ before.dataPos.toNat _ = _ from found]
      · rw [data' there, data]
    · rw [found] at found'
      cases found'
      cases compressor : before.writeCompressor with
      | none => exact absurd compressor named
      | some c =>
        rw [out] at bytes
        obtain ⟨dest, unpacked, -⟩ := (blockStored_named compressor bytes).2
        have again : StoredAs env heap after stored := by
          refine ⟨⟨some new, true⟩, ?_, ?_⟩
          · rw [source', show OpenMem.openMem _ _ p _ = _ from there, Outcome.ret_bind, out]
            rfl
          · rw [blockStored_moved moved, ← bytes]
            simp only [blockStored, compressor, Bool.not_true, Bool.false_eq_true, if_false,
              unpacks]
        refine ⟨?_, fun stored' => ⟨fun h => ?_, fun h => ?_⟩⟩
        · rw [data' there, data]
          simp only [Option.getD_some]
          rw [← unpacks, unpacked]
          rfl
        · rw [again.unique h]
          exact first
        · rw [first.unique h]
          exact again

/-- A block that moves from one write to the next is the same exactly when its
source is. -/
theorem sameBlock_iff (moved : before.MovedTo p after)
    (length : before.header.compression.length = 4) (first : StoredAs env heap before stored) :
    SameBlock env heap before after ↔ before.Kept env p := by
  unfold BlockRecord.Kept
  by_cases held : before.data = none
  · cases input : env.input with
    | none => exact ⟨fun _ _ _ => nofun, fun _ => sameBlock_of_no_input moved input⟩
    | some stream =>
      simp only [held, forall_true_left, Option.some.injEq, forall_eq']
      by_cases unplaced : before.dataPos < 0
      · rw [if_pos unplaced]
        exact sameBlock_iff_of_unplaced moved held input unplaced length
      · rw [if_neg unplaced]
        exact sameBlock_iff_of_placed moved held input (Int.not_lt.mp unplaced) length first
  · exact ⟨fun _ inFile => absurd inFile held, fun _ => sameBlock_of_data moved held⟩

end OneBlock

/-! ## All blocks -/

section Layout

variable {σ : Type} [OpenMem σ] (env : WriterFile σ) (heap : Heap)

/-- The size of the bytes that a record is written as. -/
def storedSize (record : BlockRecord) : Nat :=
  match blockSource env heap record with
  | .ret (some src) =>
    match blockStored env record src with
    | .ret (some stored) => stored.data.length
    | _ => 0
  | _ => 0

/-- Where the blocks go, one after another. -/
def headerOffset (start : Nat) : List BlockRecord → Nat → Nat
  | record :: more, idx + 1 =>
    headerOffset (start + (blockHeaderFullSize +
      record.header.allocated (storedSize env heap record))) more idx
  | _, _ => start

/-- Where the data of a block goes. -/
def dataOffset (start : Nat) (records : List BlockRecord) (idx : Nat) : Nat :=
  headerOffset env heap start records idx + blockHeaderFullSize

variable {env heap} {before after : BlockRecord} {stored : BlockStored} {p : Nat}
  {checksum : Bool}

theorem StoredAs.size (h : StoredAs env heap before stored) :
    storedSize env heap before = stored.data.length := by
  obtain ⟨src, source, bytes⟩ := h
  simp only [storedSize, source, bytes]

omit [OpenMem σ] in
theorem WrittenRecord.moved {md5 : Option Md5}
    (h : WrittenRecord md5 checksum before stored p after) :
    before.MovedTo (p + blockHeaderFullSize) after := by
  obtain ⟨bytes, -, same⟩ := setChecksum_eq before md5 checksum stored.data h.size
  have eq := h.eq
  rw [same] at eq
  subst eq
  exact ⟨rfl, rfl, rfl, rfl, rfl, rfl, rfl, rfl⟩

end Layout

section AllBlocks

variable {σ ω : Type} [OpenMem σ] [OutStream ω] [LawfulOut ω] {env : WriterFile σ} {heap : Heap}
  {checksum : Bool}

open OutContent

/-- Where a write that succeeds has put the records. -/
theorem emitLoop_wrote {blocks blocks' : List BlockRecord} {out out' : ω} (ready : Open out)
    (fits : ∀ record ∈ blocks, record.header.Fits)
    (written : emitLoop env heap checksum blocks out = .ret (true, blocks', out')) :
    blocks'.length = blocks.length ∧ ∀ idx before after, blocks[idx]? = some before →
      blocks'[idx]? = some after → ∃ stored, StoredAs env heap before stored ∧
        WrittenRecord env.md5 checksum before stored
          (headerOffset env heap (pos out) blocks idx) after := by
  induction blocks generalizing out blocks' with
  | nil =>
    cases written
    exact ⟨rfl, fun _ _ _ => nofun⟩
  | cons block more ih =>
    have fit := fits block (List.mem_cons_self)
    simp only [emitLoop] at written
    obtain ⟨⟨ok, block', out₁⟩, first, written⟩ := Outcome.bind_eq_ret.mp written
    cases ok with
    | false => cases written
    | true =>
      obtain ⟨⟨ok, more', out₂⟩, rest, written⟩ := Outcome.bind_eq_ret.mp written
      cases written
      obtain ⟨stored, as, wrote, record⟩ :=
        blockInfoWrite_wrote ready fit.compression fit.checksum first
      have compression := as.length_compression fit.compression
      obtain ⟨length, found⟩ :=
        ih wrote.ready (fun record mem => fits record (List.mem_cons_of_mem _ mem)) rest
      have allocated : block'.header.allocated = block.header.allocated := by
        rw [record.header]
        rfl
      have next : pos out₁ = pos out + (blockHeaderFullSize +
          block.header.allocated (storedSize env heap block)) := by
        rw [wrote.pos_eq, length_blockImage compression record.checksum_length, as.size,
          allocated]
      refine ⟨congrArg Nat.succ length, fun idx before after => ?_⟩
      cases idx with
      | zero =>
        rintro ⟨⟩ ⟨⟩
        exact ⟨stored, as, record⟩
      | succ idx =>
        intro old new
        rw [headerOffset, ← next]
        exact found idx before after old new

/-! ### Writing again -/

/-- Two writes that end alike, with the same output. -/
def SameOut {α : Type} (r r' : Bool × α × ω) : Prop := r'.1 = r.1 ∧ r'.2.2 = r.2.2

variable {before after : BlockRecord} {stored : BlockStored} {p : Nat} {md5 : Option Md5}

omit [LawfulOut ω] in
theorem writeData_same (allocated : after.header.allocatedSize = before.header.allocatedSize)
    (out : ω) (stored : BlockStored) :
    Outcome.Rel SameOut (writeData before out stored) (writeData after out stored) := by
  have padding : (after.setDataPos (OutStream.tell out)).header.allocated stored.data.length =
      (before.setDataPos (OutStream.tell out)).header.allocated stored.data.length := by
    change after.header.allocated _ = before.header.allocated _
    simp only [BlockHeader.allocated, allocated]
  simp only [writeData, padding]
  apply Outcome.Rel.bind (Outcome.Rel.refl (R := Eq) (fun _ => rfl) _)
  rintro ⟨ok, out₁⟩ _ rfl
  cases ok with
  | false => exact .ret ⟨rfl, rfl⟩
  | true =>
    apply Outcome.Rel.bind (Outcome.Rel.refl (R := Eq) (fun _ => rfl) _)
    rintro ⟨ok, out₂⟩ _ rfl
    exact .ret ⟨rfl, rfl⟩

/-- The checksum of a record that has been written is the one it gets. -/
theorem WrittenRecord.setChecksum_header
    (h : WrittenRecord md5 checksum before stored p after) (pos : Int) :
    ((after.setHeaderPos pos).setChecksum md5 checksum stored.data).header =
      ((before.setHeaderPos pos).setChecksum md5 checksum stored.data).header := by
  rw [h.eq]
  unfold BlockRecord.setChecksum
  cases md5 with
  | none => rfl
  | some md5 => cases checksum <;> rfl

omit [LawfulOut ω] in
theorem writeStored_same (h : WrittenRecord md5 checksum before stored p after) (out : ω) :
    Outcome.Rel SameOut (writeStored md5 checksum before out stored)
      (writeStored md5 checksum after out stored) := by
  have header := h.header
  have flags : after.header.flags = before.header.flags := by rw [header]
  have allocated : after.header.allocatedSize = before.header.allocatedSize := by rw [header]
  have dataSize : after.header.dataSize = before.header.dataSize := by rw [header]
  have room : after.header.allocated = before.header.allocated := by rw [header]; rfl
  have sum := h.setChecksum_header (OutStream.tell out)
  have fields : ∀ {record : BlockRecord} {pos : Int}, (record.setHeaderPos pos).header =
      record.header := rfl
  simp only [writeStored, fields, flags, room, dataSize]
  apply Outcome.Rel.bind (Outcome.Rel.refl (R := Eq) (fun _ => rfl) _)
  rintro ⟨ok, out₁⟩ _ rfl
  cases ok with
  | false => exact .ret ⟨rfl, rfl⟩
  | true =>
    simp only [Bool.not_true, Bool.false_eq_true, if_false, sum]
    apply Outcome.Rel.bind (Outcome.Rel.refl (R := Eq) (fun _ => rfl) _)
    rintro ⟨ok, out₂⟩ _ rfl
    cases ok with
    | false => exact .ret ⟨rfl, rfl⟩
    | true =>
      apply writeData_same
      rw [sum]

omit [LawfulOut ω] in
theorem blockInfoWrite_of_stored (as : StoredAs env heap before stored) (out : ω) :
    blockInfoWrite env heap before out checksum = (do
      assert (OutStream.base out).isWriteable
      writeStored env.md5 checksum before out stored) := by
  obtain ⟨src, source, bytes⟩ := as
  simp only [blockInfoWrite, source, Outcome.ret_bind, bytes]

omit [LawfulOut ω] in
/-- Records that are stored as before go out as before. -/
theorem emitLoop_same {blocks blocks' : List BlockRecord}
    (written : List.Forall₂ (fun before after => ∃ stored p, StoredAs env heap before stored ∧
      StoredAs env heap after stored ∧ WrittenRecord env.md5 checksum before stored p after)
      blocks blocks') (out : ω) :
    Outcome.Rel SameOut (emitLoop env heap checksum blocks out)
      (emitLoop env heap checksum blocks' out) := by
  induction written generalizing out with
  | nil => exact .ret ⟨rfl, rfl⟩
  | cons record _ ih =>
    obtain ⟨stored, p, as, as', written⟩ := record
    have first : Outcome.Rel SameOut _ _ := Outcome.Rel.bind
      (Outcome.Rel.refl (R := Eq) (fun _ => rfl)
        (assert (OutStream.base out).isWriteable : Run Unit))
      (fun _ _ _ => writeStored_same written out)
    rw [← blockInfoWrite_of_stored as, ← blockInfoWrite_of_stored as'] at first
    simp only [emitLoop]
    apply Outcome.Rel.bind first
    rintro ⟨_, block, _⟩ ⟨ok, block', out₁⟩ ⟨rfl, rfl⟩
    cases ok with
    | false => exact .ret ⟨rfl, rfl⟩
    | true =>
      apply Outcome.Rel.bind (ih out₁)
      rintro ⟨_, more, _⟩ ⟨ok, more', out₂⟩ ⟨rfl, rfl⟩
      exact .ret ⟨rfl, rfl⟩

end AllBlocks

/-! ## A file's blocks -/

/-- There are no blocks before the parser is done. -/
def BlockFile.Unread (file : BlockFile) : Prop := file.unparsed.isSome → file.blocks = []

section Keeps

variable {σ ω : Type} [OpenMem σ] [OutStream ω] [LawfulOut ω]

open OutContent

/-- What holds of every open file; the headers are in the range of their types. -/
structure BlockFile.Sound (file : BlockFile) : Prop where
  unread : file.Unread
  fits : ∀ record ∈ (blockCount file).2.blocks, record.header.Fits

/-- The payload that is written for the block of an index. -/
def FileStores (env : WriterFile σ) (heap : Heap) (file : BlockFile) (idx : Nat)
    (stored : BlockStored) : Prop :=
  ∃ record, (blockCount file).2.blocks[idx]? = some record ∧ StoredAs env heap record stored

/-- A write has left the file's blocks as they were: their data, what is written
for each of them, and all that a second write puts out. -/
structure KeepsBlocks (env : WriterFile σ) (heap : Heap) (checksum : Bool) (ω : Type)
    [OutStream ω] (file file' : BlockFile) : Prop where
  data : ∀ idx, fileBlockData env heap file' idx = fileBlockData env heap file idx
  payload : ∀ idx stored, FileStores env heap file' idx stored ↔ FileStores env heap file idx stored
  again : ∀ out : ω, Outcome.Rel SameOut (emitBlocks env heap checksum file out)
    (emitBlocks env heap checksum file' out)

theorem ensureBlocks_eq {file : BlockFile} (unread : file.Unread) :
    ensureBlocks file = (blockCount file).2 := by
  unfold ensureBlocks
  by_cases parsed : file.unparsed.isSome = true
  · rw [unread parsed, parsed]
    rfl
  · rw [Bool.eq_false_iff.mpr parsed]
    cases infos : file.unparsed with
    | none =>
      simp only [blockCount, infos]
      rfl
    | some infos' =>
      rw [infos] at parsed
      exact absurd rfl parsed

theorem someData_inj {α : Type} {x y : Run α}
    (h : (do let data ← x; return some data : Run (Option α)) =
      (do let data ← y; return some data)) : x = y := by
  cases x <;> cases y <;> cases h <;> rfl

theorem blockCount_of_parsed {file : BlockFile} (parsed : file.unparsed = none) :
    (blockCount file).2 = file := by
  simp only [blockCount, parsed]

/-- A write that succeeds leaves every block, and makes a second write the same,
exactly if each block that is read from the input is found again at the place
that it went to in the output. -/
theorem write_keeps_blocks {env : WriterFile σ} {heap : Heap} {checksum : Bool}
    {file file' : BlockFile} {out out' : ω} (ready : Open out) (sound : file.Sound)
    (written : emitBlocks env heap checksum file out = .ret (true, file', out'))
    (ω' : Type) [OutStream ω'] : KeepsBlocks env heap checksum ω' file file' ↔
      ∀ idx (record : BlockRecord), (blockCount file).2.blocks[idx]? = some record →
        record.Kept env (dataOffset env heap (pos out) (blockCount file).2.blocks idx) := by
  have parsed := (blockCount_eq file).2
  have fits := sound.fits
  have ensured := ensureBlocks_eq sound.unread
  generalize opened : (blockCount file).2 = file₁ at fits ensured parsed ⊢
  simp only [emitBlocks, ensured] at written
  obtain ⟨⟨ok, blocks', out₁⟩, loop, written⟩ := Outcome.bind_eq_ret.mp written
  cases written
  obtain ⟨length, records⟩ := emitLoop_wrote ready fits loop
  have after : (blockCount { file₁ with blocks := blocks' }).2 = { file₁ with blocks := blocks' } :=
    blockCount_of_parsed parsed
  have same : ∀ (idx : Nat) (before after : BlockRecord), file₁.blocks[idx]? = some before →
      blocks'[idx]? = some after → (SameBlock env heap before after ↔
        before.Kept env (dataOffset env heap (pos out) file₁.blocks idx)) := by
    intro idx before after old new
    obtain ⟨stored, as, record⟩ := records idx before after old new
    exact sameBlock_iff record.moved (fits before (List.mem_of_getElem? old)).compression as
  constructor
  · intro keeps idx before old
    have inside : idx < blocks'.length := by
      rw [length]
      exact (List.getElem?_eq_some_iff.mp old).1
    have new := List.getElem?_eq_getElem inside
    apply (same idx before _ old new).mp
    have data := keeps.data idx
    have payload := keeps.payload idx
    simp only [fileBlockData, FileStores, after, opened, old, new] at data payload
    refine ⟨someData_inj data, fun stored => ?_⟩
    have := payload stored
    simpa only [Option.some.injEq, exists_eq_left'] using this
  · intro kept
    have all : ∀ (idx : Nat) (before after : BlockRecord), file₁.blocks[idx]? = some before →
        blocks'[idx]? = some after → SameBlock env heap before after := by
      intro idx before after old new
      exact (same idx before after old new).mpr (kept idx before old)
    have found : ∀ idx : Nat, file₁.blocks[idx]? = none ∧ blocks'[idx]? = none ∨
        ∃ before after : BlockRecord, file₁.blocks[idx]? = some before ∧
          blocks'[idx]? = some after ∧ SameBlock env heap before after := by
      intro idx
      by_cases inside : idx < blocks'.length
      · have old := List.getElem?_eq_getElem (length ▸ inside : idx < file₁.blocks.length)
        have new := List.getElem?_eq_getElem inside
        exact .inr ⟨_, _, old, new, all idx _ _ old new⟩
      · exact .inl ⟨List.getElem?_eq_none (by omega), List.getElem?_eq_none (by omega)⟩
    constructor
    · intro idx
      simp only [fileBlockData, after, opened]
      rcases found idx with ⟨old, new⟩ | ⟨before, after, old, new, data, -⟩
      · rw [old, new]
      · simp only [old, new, data]
    · intro idx stored
      simp only [FileStores, after, opened]
      rcases found idx with ⟨old, new⟩ | ⟨before, after, old, new, -, payload⟩
      · rw [old, new]
      · simp only [old, new, Option.some.injEq, exists_eq_left']
        exact payload stored
    · intro out'
      have ensured' : ensureBlocks { file₁ with blocks := blocks' } =
          { file₁ with blocks := blocks' } := by
        simp only [ensureBlocks, parsed, Option.isSome_none, Bool.false_and, Bool.false_eq_true,
          if_false]
      have rewritten : List.Forall₂ (fun before after => ∃ stored p,
          StoredAs env heap before stored ∧ StoredAs env heap after stored ∧
            WrittenRecord env.md5 checksum before stored p after) file₁.blocks blocks' := by
        apply List.forall₂_iff_get.mpr
        refine ⟨length.symm, fun idx lt lt' => ?_⟩
        have old : file₁.blocks[idx]? = some (file₁.blocks.get ⟨idx, lt⟩) :=
          List.getElem?_eq_getElem lt
        have new : blocks'[idx]? = some (blocks'.get ⟨idx, lt'⟩) := List.getElem?_eq_getElem lt'
        obtain ⟨stored, as, record⟩ := records idx _ _ old new
        exact ⟨stored, _, as, ((all idx _ _ old new).2 stored).mpr as, record⟩
      simp only [emitBlocks, ensured, ensured']
      apply Outcome.Rel.bind (emitLoop_same rewritten out')
      rintro ⟨_, more, _⟩ ⟨ok, more', out₂⟩ ⟨rfl, rfl⟩
      exact .ret ⟨rfl, rfl⟩

end Keeps

def versionLine : Bytes := [35, 65, 83, 68, 70, 32, 49, 46, 48, 46, 48, 10]

def standardLine : Bytes :=
  [35, 65, 83, 68, 70, 95, 83, 84, 65, 78, 68, 65, 82, 68, 32, 49, 46, 54, 46, 48, 10]

/-- A file of the version lines as they are written, and the sample block. -/
def plainInput : MemStream := streamFromMemory
  (versionLine ++ standardLine ++ blockImage sampleHeader ⟨[1, 2, 3], noCompression⟩)

/-- The record of its block. -/
def plainRecord : BlockRecord :=
  { sampleRecord with headerPos := 33, dataPos := 87, data := none, dataSize := 0 }

def plainEnv : WriterFile MemStream := ⟨some plainInput, 4096, [], none⟩

/-- An output that ends with `lines`. -/
def outputAfter (lines : Bytes) : MemStream :=
  { streamFromMalloc lines with pos := lines.length }

/-- One block in the input, and one appended. -/
def mixedFile : BlockFile := ⟨true, none, [plainRecord, sampleRecord]⟩

set_option maxRecDepth 8000 in
theorem write_keeps_blocks_mixed : ∃ file' out',
    emitBlocks plainEnv sampleHeap true mixedFile (outputAfter (versionLine ++ standardLine)) =
      .ret (true, file', out') ∧
    KeepsBlocks plainEnv sampleHeap true MemStream mixedFile file' := by
  have ready : OutContent.Open (outputAfter (versionLine ++ standardLine)) := ⟨Nat.le_refl _, by decide⟩
  refine ⟨_, _, rfl, (write_keeps_blocks ready ?_ rfl MemStream).mpr ?_⟩
  · refine ⟨nofun, fun record mem => ?_⟩
    have header : record.header = sampleHeader := by
      rcases List.mem_cons.mp mem with rfl | mem
      · rfl
      · rw [List.mem_singleton.mp mem]
        rfl
    rw [header]
    exact sampleHeader_fits
  · intro idx record at_idx
    match idx, at_idx with
    | 0, rfl =>
      rintro - stream ⟨⟩
      exact .inl rfl
    | 1, rfl => exact nofun

/-- Shorter version lines, and the sample block. -/
def movedInput : MemStream :=
  streamFromMemory (withVersions (blockImage sampleHeader ⟨[1, 2, 3], noCompression⟩))

/-- The parser at the end of that file. -/
def movedParser : Parser MemStream Unit where
  flags := 0
  state := .end
  stream := { movedInput with pos := 84 }
  asdfVersion := some (versionParse [49])
  standardVersion := some (versionParse [49])
  yamlParser := none
  tree := ⟨0, 0, none, false, false, 0⟩
  block := {
    infos := ⟨[⟨0, 25, 79, sampleHeader⟩], 4⟩
    index := ⟨[25, -1, -1, -1, -1, -1, -1, -1], 8⟩
    hasIndex := false
    count := 1
    found := 1 }
  done := true

def movedEnv : WriterFile MemStream := ⟨some movedParser.stream, 4096, [], none⟩

/-- The file, with the blocks that the parser has found. -/
def movedFile : BlockFile := ⟨true, some (movedParser.block.infos.items.map .ofInfo), []⟩

set_option maxRecDepth 8000 in
/-- The only block that is read goes elsewhere in the output: its data is not found
again, and the file cannot be written again. -/
theorem moved_block_lost : ∃ file' out' file'' out'',
    Outcome.callMany (parserStep ⟨fyamlOf none, .stc, 4096⟩ 100) 100 (fun _ => true) 4
        (parserCreate 0 movedInput) =
      .ret ([some (.asdfVersion (versionParse [49])), some (.standardVersion (versionParse [49])),
        some (.block ⟨0, 25, 79, sampleHeader⟩), some .end], movedParser) ∧
    emitBlocks movedEnv ⟨[]⟩ true movedFile (outputAfter (versionLine ++ standardLine)) =
      .ret (true, file', out') ∧
    fileBlockData movedEnv ⟨[]⟩ movedFile 0 = .ret (some (some [1, 2, 3])) ∧
    fileBlockData movedEnv ⟨[]⟩ file' 0 = .ret (some (some [])) ∧
    emitBlocks movedEnv ⟨[]⟩ true file' (outputAfter []) = .ret (false, file'', out'') ∧
    ¬ KeepsBlocks movedEnv ⟨[]⟩ true MemStream movedFile file' := by
  refine ⟨_, _, _, _, by decide +kernel, rfl, rfl, rfl, rfl, ?_⟩
  intro keeps
  cases keeps.data 0

end LibAsdf
