import LibAsdf.Block.Read
import LibAsdf.Block.Write

/-!
# Reading back a written block

* `decode_blockFields`, `readAt_blockImage`: the header in a block's bytes;
* `data_blockImage`: the data and the padding in them;
* `ReadsBack`, `written_block_read`: `asdf_block_info_read` after
  `asdf_block_info_write`;
* `block_round_trip`: just the streams that a block is read back from.
-/

namespace LibAsdf

open Endian (beBytes)

theorem beNat_beBytes (n : Nat) {x : Nat} (lt : x < 256 ^ n) : beNat (beBytes n x) = x := by
  rw [beNat, ← Endian.beNat_eq_foldl, Endian.beNat_beBytes, Nat.mod_eq_of_lt lt]

/-- A field of known width after some bytes of known width. -/
theorem take_drop_field {front field : Bytes} {off n : Nat} (before : front.length = off)
    (width : field.length = n) (rest : Bytes) :
    ((front ++ field ++ rest).drop off).take n = field := by
  rw [List.append_assoc, ← before, List.drop_left, ← width, List.take_left]

theorem decode_blockFields (header : BlockHeader) {written : BlockHeader} {stored : BlockStored}
    (fits : written.Fits) (compression : stored.compression.length = 4)
    (allocated : written.allocated stored.data.length < 2 ^ 64)
    (used : stored.data.length < 2 ^ 64) :
    header.decode (blockFields written stored) = { header with
      flags := written.flags
      compression := stored.compression
      allocatedSize := written.allocated stored.data.length
      usedSize := stored.data.length
      dataSize := written.dataSize
      checksum := written.checksum } := by
  have flags := beNat_beBytes 4 (show written.flags < 256 ^ 4 from fits.flags)
  have allocated' := beNat_beBytes 8
    (show written.allocated stored.data.length < 256 ^ 8 from allocated)
  have used' := beNat_beBytes 8 (show stored.data.length < 256 ^ 8 from used)
  have dataSize := beNat_beBytes 8 (show written.dataSize < 256 ^ 8 from fits.dataSize)
  have word : ∀ {x : Nat}, (beBytes 8 x).length = 8 := Endian.length_beBytes _ _
  have front4 : (beBytes 4 written.flags).length = 4 := Endian.length_beBytes _ _
  have front8 : (beBytes 4 written.flags ++ stored.compression).length = 8 := by
    rw [List.length_append, front4, compression]
  have front16 : (beBytes 4 written.flags ++ stored.compression ++
      beBytes 8 (written.allocated stored.data.length)).length = 16 := by
    rw [List.length_append, front8, word]
  have front24 : (beBytes 4 written.flags ++ stored.compression ++
      beBytes 8 (written.allocated stored.data.length) ++
      beBytes 8 stored.data.length).length = 24 := by
    rw [List.length_append, front16, word]
  have front32 : (beBytes 4 written.flags ++ stored.compression ++
      beBytes 8 (written.allocated stored.data.length) ++ beBytes 8 stored.data.length ++
      beBytes 8 written.dataSize).length = 32 := by
    rw [List.length_append, front24, word]
  have at0 := take_drop_field (List.length_nil (α := Byte)) front4
  have at4 := take_drop_field front4 compression
  have at8 := take_drop_field front8 (word (x := written.allocated stored.data.length))
  have at16 := take_drop_field front16 (word (x := stored.data.length))
  have at24 := take_drop_field front24 (word (x := written.dataSize))
  have at32 := take_drop_field front32 fits.checksum []
  simp only [List.nil_append, List.append_nil, List.append_assoc, List.drop_zero]
    at at0 at4 at8 at16 at24 at32
  simp only [BlockHeader.decode, blockFields, List.append_assoc, at0, at4, at8, at16, at24, at32,
    flags, allocated', used', dataSize]

theorem BlockHeader.allocated_eq_max (header : BlockHeader) (used : Nat) :
    header.allocated used = max header.allocatedSize used := by
  unfold allocated
  split <;> omega

theorem BlockHeader.le_allocated (header : BlockHeader) (used : Nat) :
    used ≤ header.allocated used := by
  rw [allocated_eq_max]
  exact Nat.le_max_right _ _

/-- What the header of a written block reads as. -/
structure ReadsAs (written : BlockHeader) (stored : BlockStored) (info : BlockInfo)
    (pos : Nat) : Prop where
  headerPos : info.headerPos = pos
  dataPos : info.dataPos = (pos + blockHeaderFullSize : Nat)
  flags : info.header.flags = written.flags
  compression : info.header.compression = stored.compression
  allocatedSize : info.header.allocatedSize = max written.allocatedSize stored.data.length
  usedSize : info.header.usedSize = stored.data.length
  dataSize : info.header.dataSize = written.dataSize
  checksum : info.header.checksum = written.checksum

section Image

variable {header : BlockHeader} {stored : BlockStored}

theorem length_blockImage (compression : stored.compression.length = 4)
    (checksum : header.checksum.length = 16) :
    (blockImage header stored).length =
      blockHeaderFullSize + header.allocated stored.data.length := by
  have le := header.le_allocated stored.data.length
  have fields := length_blockFields compression checksum
  have size : blockHeaderFullSize = 54 := rfl
  have size' : blockHeaderSize = 48 := rfl
  have magic : blockMagic.length = 4 := rfl
  simp only [blockImage, List.length_append, fields, Endian.length_beBytes, magic,
    List.length_replicate]
  omega

/-- The bytes of a block, followed by others, hold its header. -/
theorem readAt_blockImage (fits : header.Fits) (compression : stored.compression.length = 4)
    (allocated : header.allocated stored.data.length < 2 ^ 64) (outBlock : BlockInfo) (pos : Nat)
    (rest : Bytes) : headerSizeOf (blockImage header stored ++ rest) = blockHeaderSize ∧
      ReadsAs header stored (outBlock.readAt pos (blockImage header stored ++ rest)) pos := by
  have used := Nat.lt_of_le_of_lt (header.le_allocated stored.data.length) allocated
  have size : headerSizeOf (blockImage header stored ++ rest) = blockHeaderSize := by
    have field := take_drop_field (show blockMagic.length = 4 from rfl)
      (Endian.length_beBytes 2 blockHeaderSize) (blockFields header stored ++ stored.data ++
        List.replicate (header.allocated stored.data.length - stored.data.length) 0 ++ rest)
    rw [headerSizeOf]
    simp only [blockImage, List.append_assoc] at field ⊢
    rw [field]
    rfl
  have fields : ((blockImage header stored ++ rest).drop 6).take blockHeaderSize =
      blockFields header stored := by
    have field := take_drop_field (show (blockMagic ++ beBytes 2 blockHeaderSize).length = 6
      from rfl) (length_blockFields compression fits.checksum) (stored.data ++
        List.replicate (header.allocated stored.data.length - stored.data.length) 0 ++ rest)
    simp only [blockImage, List.append_assoc] at field ⊢
    rw [field]
  have decoded := decode_blockFields { outBlock.header with headerSize := blockHeaderSize } fits
    compression allocated used
  refine ⟨size, ?_⟩
  simp only [BlockInfo.readAt, headerOf, size, fields, decoded]
  exact ⟨rfl, rfl, rfl, rfl, header.allocated_eq_max _, rfl, rfl, rfl⟩

/-- Where the data and the padding are. -/
theorem data_blockImage (compression : stored.compression.length = 4)
    (checksum : header.checksum.length = 16) (front rest : Bytes) :
    ((front ++ blockImage header stored ++ rest).drop (front.length + blockHeaderFullSize)).take
        stored.data.length = stored.data ∧
      ((front ++ blockImage header stored ++ rest).drop
        (front.length + blockHeaderFullSize + stored.data.length)).take
        (header.allocated stored.data.length - stored.data.length) =
          List.replicate (header.allocated stored.data.length - stored.data.length) 0 := by
  have before : (front ++ blockMagic ++ beBytes 2 blockHeaderSize ++
      blockFields header stored).length = front.length + blockHeaderFullSize := by
    simp only [List.length_append, length_blockFields compression checksum]
    rw [Nat.add_assoc, Nat.add_assoc]
    rfl
  have before' : (front ++ blockMagic ++ beBytes 2 blockHeaderSize ++ blockFields header stored ++
      stored.data).length = front.length + blockHeaderFullSize + stored.data.length := by
    rw [List.length_append, before]
  have data := take_drop_field before (Eq.refl stored.data.length)
    (List.replicate (header.allocated stored.data.length - stored.data.length) 0 ++ rest)
  have padding := take_drop_field before' (List.length_replicate (α := Byte)
    (n := header.allocated stored.data.length - stored.data.length) (a := 0)) rest
  simp only [blockImage, List.append_assoc] at data padding ⊢
  exact ⟨data, padding⟩

end Image

section Main

variable {σ ω ρ : Type} [OpenMem σ] [OutStream ω] [LawfulOut ω] [StreamOps ρ] [LawfulRead ρ]

open OutContent ReadContent

/-- A reader at the place where a block was written, with the same bytes up to where
the writer stopped. -/
structure AtBlock (out out' : ω) (stream : ρ) : Prop where
  sane : Sane stream
  place : ReadContent.pos stream = OutContent.pos out
  same : (ReadContent.content stream).take (OutContent.pos out') =
    (OutContent.content out').take (OutContent.pos out')

/-- The block is read as it was written: its header, and the places of its data and of
the zeros behind them. -/
def ReadsBack (file : WriterFile σ) (heap : Heap) (block block' : BlockRecord) (out out' : ω)
    (outBlock : BlockInfo) (stream : ρ) : Prop :=
  ∃ stored info stream', StoredAs file heap block stored ∧
    blockInfoRead outBlock stream = .ret (true, info, stream') ∧
    ReadsAs block'.header stored info (OutContent.pos out) ∧
    block'.header = { block.header with checksum := block'.header.checksum } ∧
    ReadContent.pos stream' = info.dataPos ∧
    ((ReadContent.content stream).drop info.dataPos.toNat).take info.header.usedSize =
      stored.data ∧
    ((ReadContent.content stream).drop (info.dataPos.toNat + info.header.usedSize)).take
        (info.header.allocatedSize - info.header.usedSize) =
      List.replicate (info.header.allocatedSize - info.header.usedSize) 0 ∧
    OutContent.pos out' = info.dataPos + info.header.allocatedSize

section Written

variable {file : WriterFile σ} {heap : Heap} {block block' : BlockRecord} {out out' : ω}
  {checksum : Bool} {stream : ρ}

/-- The block stands where the reader is. -/
theorem coming_written (ready : Open out) (fits : block.header.Fits)
    (written : blockInfoWrite file heap block out checksum = .ret (true, block', out'))
    (here : AtBlock out out' stream) :
    ∃ stored, StoredAs file heap block stored ∧ Wrote out (blockImage block'.header stored) out' ∧
      WrittenRecord file.md5 checksum block stored (OutContent.pos out) block' ∧
      ReadContent.content stream = before out ++ blockImage block'.header stored ++
        (ReadContent.content stream).drop (OutContent.pos out') ∧
      coming stream = blockImage block'.header stored ++
        (ReadContent.content stream).drop (OutContent.pos out') := by
  obtain ⟨stored, as, wrote, record⟩ := blockInfoWrite_wrote ready
    fits.compression fits.checksum written
  have length := length_blockImage (as.length_compression fits.compression) record.checksum_length
  have held : blockImage block'.header stored ≠ [] := by
    intro empty
    rw [empty, List.length_nil] at length
    have size : blockHeaderFullSize = 54 := rfl
    omega
  -- The content is what was before the block, the block, and what comes after
  have split : ReadContent.content stream = before out ++ blockImage block'.header stored ++
      (ReadContent.content stream).drop (OutContent.pos out') := by
    rw [← wrote.take_content held, ← here.same, List.take_append_drop]
  refine ⟨stored, as, wrote, record, split, ?_⟩
  conv_lhs => rw [coming, split, here.place, ← length_before out, List.append_assoc]
  exact List.drop_left

/-- With the magic in view and no error set, a block that was written is read back. -/
theorem written_block_read (ready : Open out) (fits : block.header.Fits)
    (written : blockInfoWrite file heap block out checksum = .ret (true, block', out'))
    (here : AtBlock out out' stream) (view : blockMagic.length ≤ inView stream)
    (calm : errorGet stream = none) (outBlock : BlockInfo) :
    ReadsBack file heap block block' out out' outBlock stream := by
  obtain ⟨stored, as, wrote, record, split, coming_eq⟩ := coming_written ready fits written here
  have compression := as.length_compression fits.compression
  have length := length_blockImage compression record.checksum_length
  have fits' : block'.header.Fits := by
    rw [record.header]
    exact { fits with checksum := record.checksum_length }
  have last := LawfulOut.pos_le out' wrote.ready
  have ends := wrote.pos_eq
  rw [length] at ends
  have header54 : blockHeaderFullSize = 54 := rfl
  have max : offMax < 2 ^ 64 := by decide
  have allocated : block'.header.allocated stored.data.length < 2 ^ 64 := by omega
  have place := here.place
  obtain ⟨size, reads⟩ := readAt_blockImage fits' compression allocated outBlock
    (OutContent.pos out) ((ReadContent.content stream).drop (OutContent.pos out'))
  obtain ⟨data, padding⟩ := data_blockImage compression record.checksum_length (before out)
    ((ReadContent.content stream).drop (OutContent.pos out'))
  rw [← split, length_before] at data padding
  rw [← coming_eq] at size reads
  obtain ⟨stream', read, moved⟩ := blockInfoRead_moves here.sane view calm (by rw [size])
    (by rw [size, coming_eq, List.length_append, length]
        change 6 + 48 ≤ _
        omega)
    (by rw [size, place]
        change _ + (6 + 48) ≤ _
        omega) outBlock
  rw [place] at read
  refine ⟨stored, _, stream', as, read, reads, record.header, ?_, ?_, ?_, ?_⟩
  · rw [moved.pos_eq, reads.dataPos, place, size]
    rfl
  · rw [reads.dataPos, reads.usedSize]
    exact data
  · rw [reads.dataPos, reads.usedSize, reads.allocatedSize, ← BlockHeader.allocated_eq_max]
    exact padding
  · rw [reads.dataPos, reads.allocatedSize, ← BlockHeader.allocated_eq_max, ends]
    push_cast
    omega

/-- With the magic in view, it is all up to the error of the stream. -/
theorem readsBack_iff_calm (ready : Open out) (fits : block.header.Fits)
    (written : blockInfoWrite file heap block out checksum = .ret (true, block', out'))
    (here : AtBlock out out' stream) (view : blockMagic.length ≤ inView stream)
    (outBlock : BlockInfo) :
    ReadsBack file heap block block' out out' outBlock stream ↔ errorGet stream = none := by
  constructor
  · rintro ⟨stored, info, stream', -, read, -⟩
    exact blockInfoRead_calm here.sane view read
  · exact fun calm => written_block_read ready fits written here view calm outBlock

theorem magic_le_coming (ready : Open out) (fits : block.header.Fits)
    (written : blockInfoWrite file heap block out checksum = .ret (true, block', out'))
    (here : AtBlock out out' stream) : blockMagic.length ≤ (coming stream).length := by
  obtain ⟨stored, as, -, record, -, coming_eq⟩ := coming_written ready fits written here
  have length := length_blockImage (as.length_compression fits.compression) record.checksum_length
  have size : blockHeaderFullSize = 54 := rfl
  have magic : blockMagic.length = 4 := rfl
  rw [coming_eq, List.length_append]
  omega

end Written

section File

variable {file : WriterFile σ} {heap : Heap} {block block' : BlockRecord} {out out' : ω}
  {checksum : Bool} {stream : FileStream}

/-- Where some of the magic is not in the buffer, what is read as the size of the header
is not the size of a header. -/
theorem not_readsBack_of_short (ready : Open out) (fits : block.header.Fits)
    (written : blockInfoWrite file heap block out checksum = .ret (true, block', out'))
    (here : AtBlock out out' stream) (short : inView stream < blockMagic.length)
    (outBlock : BlockInfo) : ¬ ReadsBack file heap block block' out out' outBlock stream := by
  obtain ⟨stored, -, -, -, -, coming_eq⟩ := coming_written ready fits written here
  rintro ⟨stored', info, stream', -, read, reads, -⟩
  have place : stream.filePos = OutContent.pos out := here.place
  have short : inView stream < 4 := short
  have dataPos := reads.dataPos
  have size : blockHeaderFullSize = 54 := rfl
  obtain negative | counted := fileBlockInfoRead_short here.sane (Nat.le_of_lt short) read
  · omega
  · -- the first six bytes of a block are always the same
    have front : ∀ k < 4, ∀ rest : Bytes,
        (((blockMagic ++ beBytes 2 blockHeaderSize ++ rest).drop k).take 2) =
          ((blockMagic ++ beBytes 2 blockHeaderSize).drop k).take 2 := by
      intro k lt rest
      have six : (blockMagic ++ beBytes 2 blockHeaderSize).length = 6 := rfl
      rw [List.drop_append_of_le_length (by omega), List.take_append_of_le_length]
      rw [List.length_drop]
      omega
    have other : ∀ k < 4, beNat (((blockMagic ++ beBytes 2 blockHeaderSize).drop k).take 2) ≠ 48 := by
      decide
    rw [coming_eq] at counted
    simp only [blockImage, List.append_assoc] at counted front
    rw [front _ short] at counted
    have differs := other _ short
    omega

end File

section Main

variable {file : WriterFile σ} {heap : Heap} {block block' : BlockRecord} {out out' : ω}
  {checksum : Bool}

/-- A block that was written is read back at its place just if no error is set and, on a
file, the magic is in the buffer already. -/
theorem block_round_trip (ready : Open out) (fits : block.header.Fits)
    (written : blockInfoWrite file heap block out checksum = .ret (true, block', out'))
    (outBlock : BlockInfo) :
    (∀ stream : FileStream, AtBlock out out' stream →
      (ReadsBack file heap block block' out out' outBlock stream ↔
        errorGet stream = none ∧ blockMagic.length ≤ inView stream)) ∧
    ∀ stream : MemStream, AtBlock out out' stream →
      (ReadsBack file heap block block' out out' outBlock stream ↔ errorGet stream = none) := by
  constructor
  · intro stream here
    by_cases view : blockMagic.length ≤ inView stream
    · rw [readsBack_iff_calm ready fits written here view]
      exact (and_iff_left view).symm
    · exact iff_of_false (not_readsBack_of_short ready fits written here (Nat.lt_of_not_le view) _)
        fun h => view h.2
  · intro stream here
    apply readsBack_iff_calm ready fits written here
    exact Nat.le_trans (magic_le_coming ready fits written here)
      (Nat.le_of_eq (length_coming stream))

end Main

end Main

def sampleHeader : BlockHeader where
  headerSize := blockHeaderSize
  flags := 0
  compression := noCompression
  allocatedSize := 5
  usedSize := 3
  dataSize := 3
  checksum := List.replicate 16 0

/-- Three bytes in memory, with room for two more. -/
def sampleRecord : BlockRecord where
  index := 0
  headerPos := -1
  dataPos := -1
  header := sampleHeader
  data := some 0
  dataSize := 3
  dataOwned := false
  dataMmapped := false
  dataIsCompressed := false
  writeCompressor := none

def sampleHeap : Heap := ⟨[some [1, 2, 3]]⟩

def sampleFile : WriterFile MemStream := ⟨none, 4096, [], none⟩

theorem sampleHeader_fits : sampleHeader.Fits :=
  ⟨by decide, by decide, rfl, by decide, by decide, by decide, rfl⟩

/-- The sample block after a first byte. -/
def sampleContent : Bytes := 7 :: blockImage sampleHeader ⟨[1, 2, 3], noCompression⟩

/-- The sample block is written after that byte. -/
theorem sampleRecord_written : ∃ block', blockInfoWrite sampleFile sampleHeap sampleRecord
    { streamFromMalloc [7] with pos := 1 } true =
      .ret (true, block', { streamFromMalloc sampleContent with pos := 60 }) := ⟨_, rfl⟩

theorem block_round_trip_padded :
    ∃ block', blockInfoWrite sampleFile sampleHeap sampleRecord
        { streamFromMalloc [7] with pos := 1 } true =
          .ret (true, block', { streamFromMalloc sampleContent with pos := 60 }) ∧
      ReadsBack sampleFile sampleHeap sampleRecord block'
        ({ streamFromMalloc [7] with pos := 1 } : MemStream)
        { streamFromMalloc sampleContent with pos := 60 } (.blank 0)
        ({ streamFromMemory sampleContent with pos := 1 } : MemStream) := by
  have sane : MemStream.Inside { streamFromMemory sampleContent with pos := 1 } := by
    unfold MemStream.Inside
    decide
  have inside : MemStream.Inside { streamFromMalloc [7] with pos := 1 } := by
    unfold MemStream.Inside
    decide
  have ready : OutContent.Open ({ streamFromMalloc [7] with pos := 1 } : MemStream) :=
    ⟨inside, by decide⟩
  obtain ⟨block', written⟩ := sampleRecord_written
  exact ⟨block', written, ((block_round_trip ready sampleHeader_fits written (.blank 0)).2
    { streamFromMemory sampleContent with pos := 1 } ⟨sane, rfl, rfl⟩).mpr rfl⟩

/-- A file with that content, at the block; nothing is in the buffer. -/
def sampleStream : FileStream :=
  (fileSeek (streamFromFp sampleContent (List.replicate 64 0) true false) 1 .set).2

/-- On a file that is at the block, the magic is taken for the size of the header, and
what was written is not read. -/
theorem block_not_read_at_seek :
    ∃ block', blockInfoWrite sampleFile sampleHeap sampleRecord
        { streamFromMalloc [7] with pos := 1 } true =
          .ret (true, block', { streamFromMalloc sampleContent with pos := 60 }) ∧
      errorGet sampleStream = none ∧
      AtBlock ({ streamFromMalloc [7] with pos := 1 } : MemStream)
        { streamFromMalloc sampleContent with pos := 60 } sampleStream ∧
      ¬ ReadsBack sampleFile sampleHeap sampleRecord block'
        ({ streamFromMalloc [7] with pos := 1 } : MemStream)
        { streamFromMalloc sampleContent with pos := 60 } (.blank 0) sampleStream := by
  obtain ⟨block', written⟩ := sampleRecord_written
  have here : AtBlock ({ streamFromMalloc [7] with pos := 1 } : MemStream)
      { streamFromMalloc sampleContent with pos := 60 } sampleStream :=
    ⟨⟨⟨Nat.le_refl _, Nat.zero_le _⟩, rfl, rfl⟩, rfl, rfl⟩
  have inside : MemStream.Inside { streamFromMalloc [7] with pos := 1 } := by
    unfold MemStream.Inside
    decide
  have ready : OutContent.Open ({ streamFromMalloc [7] with pos := 1 } : MemStream) :=
    ⟨inside, by decide⟩
  exact ⟨block', written, rfl, here,
    not_readsBack_of_short ready sampleHeader_fits written here (by decide) _⟩

end LibAsdf
