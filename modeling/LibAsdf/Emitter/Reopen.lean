import LibAsdf.Block.Checksum
import LibAsdf.Emitter.ReadBack

/-!
# Blocks of a file that is opened again

The data of a block that is in memory as its file is written, and what is given
for it once the parser has read what was written.

* `BlockRecord.Holds`: a block in memory;
* `Writes`, `Opens`, `Rereads`: the file is written, and opened again;
* `Describes.fileBlockData`: the data of a block of the new file;
* `Rereads.same`: it is what the block held.
-/

namespace LibAsdf

/-- A block in memory is to be written with these bytes: as they are, or by a
compressor, and what it makes of them is decompressed to them. -/
structure BlockRecord.Holds (record : BlockRecord) (heap : Heap) (registry : List Compressor)
    (bytes : Bytes) : Prop where
  memory : ∃ addr, record.data = some addr ∧ heap.read addr record.dataSize = .ret bytes
  plain : record.dataIsCompressed = false
  undone : ∀ c, record.writeCompressor = some c → ∀ out, c.comp bytes = some out →
    blockCompOpen registry c.compression record.header.dataSize out = some (some bytes)

/-- A file with these blocks is written anew; the layout is of what is written. -/
def Writes {σ : Type} [OpenMem σ] (env : EmitterEnv σ) (blocks : BlockFile) (content : Bytes)
    (l : Layout) : Prop :=
  ∃ file target e, target.old = [] ∧ asdfWriteToFile env file blocks target = .ret (0, content) ∧
    emission env file blocks = .ret e ∧ Describes env blocks e.blocks.blocks content l

/-- The parser has read all of a file, with this content and layout: the data of one
of the blocks it has found. -/
def Opens (ρ : Type) [ParserStream ρ] [LawfulRead ρ] [OpenMem ρ] [LawfulMem ρ] {φ : Type}
    (penv : Env φ) (content : Bytes) (l : Layout) (registry : List Compressor) (idx : Nat)
    (data : Bytes) : Prop :=
  ∃ (start stream : ρ) (flags : UInt64) (indexed : Bool) (more : Nat) (reader : WriterFile ρ),
    ReadContent.content start = content ∧
    ParsesAs penv flags start (l.results (flags &&& 2 = 2) indexed more) ∧
    reader.input = some stream ∧ reader.registry = registry ∧
    ReadContent.content stream = content ∧ LawfulMem.Mappable stream ∧
    fileBlockData reader ⟨[]⟩ ⟨false, none, l.infos.map .ofInfo⟩ idx = .ret (some (some data))

/-- The bytes of block `written` in memory, and the data of block `opened` after the
file was written and opened again. -/
inductive Rereads (written opened : Nat) (bytes data : Bytes) : Prop
  | intro {σ ρ φ : Type} [OpenMem σ] [ParserStream ρ] [LawfulRead ρ] [OpenMem ρ] [LawfulMem ρ]
      {env : EmitterEnv σ} {blocks : BlockFile} {content : Bytes} {l : Layout}
      {record : BlockRecord} {penv : Env φ} {registry : List Compressor} :
      (ensureBlocks blocks).blocks[written]? = some record →
      record.Holds env.heap registry bytes → Writes env blocks content l →
      content.length ≤ offMax → Opens ρ penv content l registry opened data →
      Rereads written opened bytes data

section Data

variable {σ : Type} [OpenMem σ] {env : EmitterEnv σ} {record : BlockRecord} {bytes : Bytes}
  {registry : List Compressor}

/-- What such a block is stored as is decompressed to its bytes, or is them. -/
theorem BlockRecord.Holds.stored (h : record.Holds env.heap registry bytes) {stored : BlockStored}
    (as : StoredAs env.writer env.heap record stored) :
    (blockCompOpen registry stored.compression record.header.dataSize stored.data).map
      (·.getD stored.data) = some bytes := by
  obtain ⟨addr, data, read⟩ := h.memory
  have source : blockSource env.writer env.heap record = .ret (some ⟨some bytes, false⟩) := by
    unfold blockSource
    rw [data]
    dsimp only
    rw [read, Outcome.ret_bind, h.plain]
    rfl
  obtain ⟨src, source', written⟩ := as
  cases source.symm.trans source'
  cases named : record.writeCompressor with
  | none =>
    rw [blockStored_plain (.inl named)] at written
    cases written
    rfl
  | some c =>
    obtain ⟨compression, comp⟩ := blockStored_named named written
    rw [compression, h.undone c named stored.data comp]
    rfl

/-- A block of a layout lies inside its bytes. -/
theorem Layout.data_inside {l : Layout} {idx : Nat} {info : BlockInfo}
    (entry : l.infos[idx]? = some info) :
    0 ≤ info.dataPos ∧ info.dataPos.toNat + info.header.usedSize ≤ l.bytes.length := by
  have place : l.blockPlace = (l.front ++ l.treeBytes).length := List.length_append.symm
  rw [Layout.infos, place] at entry
  obtain ⟨b, before, after, split, rfl⟩ := exists_of_blockInfos l.tail entry
  refine ⟨Int.natCast_nonneg _, ?_⟩
  have length : l.bytes.length = (before ++ (b.image ++ after)).length := by
    rw [← split, Layout.bytes, Layout.back, List.append_assoc]
  have image := b.image_length
  have used : b.stored.data.length ≤ b.header.allocated b.stored.data.length := by
    rw [b.header.allocated_eq_max]
    exact Nat.le_max_right _ _
  rw [length, List.length_append, List.length_append]
  change before.length + blockHeaderFullSize + b.stored.data.length ≤ _
  omega

variable {ρ : Type} [ParserStream ρ] [LawfulRead ρ] [OpenMem ρ] [LawfulMem ρ]
  {blocks : BlockFile} {records : List BlockRecord} {content : Bytes} {l : Layout}

/-- The data of a block of the new file is what the block held. -/
theorem Describes.fileBlockData (h : Describes env blocks records content l) {idx : Nat}
    (old : (ensureBlocks blocks).blocks[idx]? = some record)
    (holds : record.Holds env.heap registry bytes) (small : content.length ≤ offMax)
    {reader : WriterFile ρ} {stream : ρ} (input : reader.input = some stream)
    (same : reader.registry = registry) (whole : ReadContent.content stream = content)
    (mappable : LawfulMem.Mappable stream) (heap : Heap) :
    LibAsdf.fileBlockData reader heap ⟨false, none, l.infos.map .ofInfo⟩ idx =
      .ret (some (some bytes)) := by
  obtain ⟨lt, -⟩ := List.getElem?_eq_some_iff.mp old
  have written : idx < records.length := h.written.symm ▸ lt
  obtain ⟨info, read⟩ : ∃ info, l.infos[idx]? = some info :=
    ⟨_, List.getElem?_eq_getElem (h.read.symm ▸ written)⟩
  obtain ⟨-, stored, pos, as, kept, -, -, reads, slice⟩ :=
    h.blocks idx _ _ _ old (List.getElem?_eq_getElem written) read
  obtain ⟨placed, inside⟩ := Layout.data_inside read
  rw [h.bytes] at inside
  have opens := LawfulMem.opens reader.pageSize stream info.dataPos.toNat info.header.usedSize
    mappable (by rw [whole]; exact inside) (Nat.le_trans inside small)
  rw [whole, slice] at opens
  obtain ⟨mem, region, shows⟩ : ∃ mem, OpenMem.openMem reader.pageSize stream info.dataPos.toNat
      info.header.usedSize = .ret mem ∧ mem.getD [] = stored.data := by
    obtain opens | ⟨empty, opens⟩ := opens
    · exact ⟨_, opens, rfl⟩
    · refine ⟨none, opens, ?_⟩
      rw [reads.usedSize] at empty
      exact (List.length_eq_zero_iff.mp empty).symm
  have data := @blockData_of_input _ _ reader heap (.ofInfo info) stream rfl input placed mem region
  have size : info.header.dataSize = record.header.dataSize := by
    rw [reads.dataSize, kept]
  have found : (l.infos.map BlockRecord.ofInfo)[idx]? = some (.ofInfo info) := by
    rw [List.getElem?_map, read]
    rfl
  unfold LibAsdf.fileBlockData blockCount
  dsimp only
  rw [found]
  dsimp only
  rw [data, shows, Outcome.ret_bind]
  have comp : (BlockRecord.ofInfo info).header = info.header := rfl
  rw [comp, reads.compression, size, same, holds.stored as]
  rfl

end Data

/-- What is read is what was in memory. -/
theorem Rereads.same {idx : Nat} {bytes data : Bytes} (h : Rereads idx idx bytes data) :
    data = bytes := by
  obtain ⟨old, holds, writes, small, opens⟩ := h
  obtain ⟨file, target, e, -, -, -, describes⟩ := writes
  obtain ⟨start, stream, flags, indexed, more, reader, -, -, input, same, whole, mappable, run⟩ :=
    opens
  have eq := describes.fileBlockData old holds small input same whole mappable ⟨[]⟩
  cases run.symm.trans eq
  rfl

end LibAsdf
