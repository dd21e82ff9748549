import LibAsdf.Base.Endian
import LibAsdf.Block.Record
import LibAsdf.Stream.Write

/-!
# Writing a block

`asdf_block_info_write`: where the bytes of a block come from, and what goes
to the output.

* `blockSource`, `blockStored`: the bytes that are stored;
* `blockInfoWrite`: the writer;
* `blockImage`, `blockInfoWrite_wrote`: the bytes of a block.
-/

namespace LibAsdf

open Endian (beBytes)

/-- The checksum library, where the build has it. -/
structure Md5 where
  digest : Bytes → Bytes
  length_eq (bytes : Bytes) : (digest bytes).length = 16

/-- What the writer uses of the `asdf_file_t` and of the build. -/
structure WriterFile (σ : Type) where
  input : Option σ
  pageSize : Nat
  registry : List Compressor
  md5 : Option Md5

/-- `src`, and whether it is compressed. -/
structure BlockSource where
  data : Option Bytes
  compressed : Bool
  deriving DecidableEq, Repr

/-- `write_data`, and the compression field that goes with it. -/
structure BlockStored where
  data : Bytes
  compression : Bytes
  deriving DecidableEq, Repr

def noCompression : Bytes := List.replicate 4 0

section Writer

variable {σ ω : Type} [OpenMem σ] [OutStream ω]

/-- The bytes that the writer starts from; `none` where `open_mem` fails. -/
def blockSource (file : WriterFile σ) (heap : Heap) (block : BlockRecord) :
    Run (Option BlockSource) :=
  match block.data with
  | some addr => do
    let src ← heap.read addr block.dataSize
    return some ⟨some src, block.dataIsCompressed⟩
  | none =>
    match file.input with
    | some stream =>
      if 0 ≤ block.dataPos then do
        match ← OpenMem.openMem file.pageSize stream block.dataPos.toNat block.header.usedSize with
        | none => return none
        | some src => return some ⟨some src, block.header.compression.head? ≠ some 0⟩
      else return some ⟨none, false⟩
    | none => return some ⟨none, false⟩

/-- The bytes actually written; `none` where a compressor fails. A block whose
compression field is empty has no `comp_state` to recompress from. -/
def blockStored (file : WriterFile σ) (block : BlockRecord) (src : BlockSource) :
    Run (Option BlockStored) :=
  match block.writeCompressor, src.data with
  | some compressor, some data =>
    if !src.compressed then
      return (compressor.comp data).map (⟨·, compressor.compression⟩)
    else
      match blockCompOpen file.registry block.header.compression block.header.dataSize data with
      | none => return none
      | some none => .fault .memory
      | some (some dest) => return (compressor.comp dest).map (⟨·, compressor.compression⟩)
  | _, _ => return some ⟨src.data.getD [],
      if src.compressed then block.header.compression else noCompression⟩

/-- One chunk of the padding. -/
def paddingRound : Nat × ω → Run ((Nat × ω) ⊕ (Bool × ω))
  | (0, out) => return .inr (true, out)
  | (remaining, out) => do
    let chunk := if remaining > 512 then 512 else remaining
    let (n, out) ← OutStream.write out (List.replicate chunk 0)
    if n ≠ chunk then
      return .inr (false, out)
    return .inl (remaining - chunk, out)

def writePadding (out : ω) (remaining : Nat) : Run (Bool × ω) :=
  Outcome.loop paddingRound (remaining + 1) (remaining, out)

/-- `allocated_size` as it is written. -/
def BlockHeader.allocated (header : BlockHeader) (used : Nat) : Nat :=
  if header.allocatedSize < used then used else header.allocatedSize

def BlockRecord.setHeaderPos (block : BlockRecord) (pos : Int) : BlockRecord :=
  { block with headerPos := pos }

def BlockRecord.setDataPos (block : BlockRecord) (pos : Int) : BlockRecord :=
  { block with dataPos := pos }

/-- The checksum of the bytes written, unless the build or a flag leaves it. -/
def BlockRecord.setChecksum (block : BlockRecord) (md5 : Option Md5) (checksum : Bool)
    (data : Bytes) : BlockRecord :=
  match md5 with
  | some md5 =>
    if checksum then { block with header := { block.header with checksum := md5.digest data } }
    else block
  | none => block

/-- The data and the padding. -/
def writeData (block : BlockRecord) (out : ω) (stored : BlockStored) :
    Run (Bool × BlockRecord × ω) := do
  let block := block.setDataPos (OutStream.tell out)
  let used := stored.data.length
  let (ok, out) ← writeAll out (if used > 0 then [stored.data] else [])
  if !ok then
    return (false, block, out)
  let (ok, out) ← writePadding out (block.header.allocated used - used)
  return (ok, block, out)

/-- What the writer does once it has the bytes. -/
def writeStored (md5 : Option Md5) (checksum : Bool) (block : BlockRecord) (out : ω)
    (stored : BlockStored) : Run (Bool × BlockRecord × ω) := do
  let block := block.setHeaderPos (OutStream.tell out)
  let used := stored.data.length
  let (ok, out) ← writeAll out [blockMagic, beBytes 2 blockHeaderSize,
    beBytes 4 block.header.flags, stored.compression,
    beBytes 8 (block.header.allocated used), beBytes 8 used, beBytes 8 block.header.dataSize]
  if !ok then
    return (false, block, out)
  let block := block.setChecksum md5 checksum stored.data
  let (ok, out) ← writeAll out [block.header.checksum]
  if !ok then
    return (false, block, out)
  writeData block out stored

/-- `asdf_block_info_write`: whether it succeeded, and the record, whose
positions and checksum it sets. -/
def blockInfoWrite (file : WriterFile σ) (heap : Heap) (block : BlockRecord) (out : ω)
    (checksum : Bool) : Run (Bool × BlockRecord × ω) := do
  assert (OutStream.base out).isWriteable
  match ← blockSource file heap block with
  | none => return (false, block, out)
  | some src =>
    match ← blockStored file block src with
    | none => return (false, block, out)
    | some stored => writeStored file.md5 checksum block out stored

end Writer

/-! ## The bytes of a block -/

/-- The fields after the header size, as they are written. -/
def blockFields (header : BlockHeader) (stored : BlockStored) : Bytes :=
  beBytes 4 header.flags ++ stored.compression ++
    beBytes 8 (header.allocated stored.data.length) ++ beBytes 8 stored.data.length ++
    beBytes 8 header.dataSize ++ header.checksum

/-- A block with its padding, as it is written. -/
def blockImage (header : BlockHeader) (stored : BlockStored) : Bytes :=
  blockMagic ++ beBytes 2 blockHeaderSize ++ blockFields header stored ++ stored.data ++
    List.replicate (header.allocated stored.data.length - stored.data.length) 0

section Written

variable {ω : Type} [OutStream ω] [LawfulOut ω]

open OutContent LawfulOut

theorem paddingRound_wrote {s : ω} (total : Nat) (r : Nat × ω)
    (h : ∃ done, done + r.1 = total ∧ Wrote s (List.replicate done 0) r.2) :
    Outcome.wp (fun _ => False) False (Outcome.Round
      (fun r' => (∃ done, done + r'.1 = total ∧ Wrote s (List.replicate done 0) r'.2) ∧
        r'.1 < r.1)
      (fun r' => r'.1 = true → Wrote s (List.replicate total 0) r'.2)) (paddingRound r) := by
  obtain ⟨remaining, out⟩ := r
  obtain ⟨done, sum, wrote⟩ := h
  simp only at sum wrote
  cases remaining with
  | zero =>
    intro _
    rw [← sum]
    exact wrote
  | succ n =>
    simp only [paddingRound]
    generalize size : (if n + 1 > 512 then 512 else n + 1) = chunk
    have some : 0 < chunk ∧ chunk ≤ n + 1 := by split at size <;> omega
    obtain ⟨k, t, written, full⟩ := write_ends out (List.replicate chunk 0) wrote.ready
    rw [written, Outcome.ret_bind]
    rw [List.length_replicate] at full
    by_cases whole : k = chunk
    · simp only [whole, ne_eq, not_true_eq_false, if_false]
      have step := wrote.trans (full whole)
      rw [List.replicate_append_replicate] at step
      refine ⟨⟨done + chunk, ?_, step⟩, ?_⟩
      · simp only
        omega
      · simp only
        omega
    · simp only [ne_eq, whole, not_false_eq_true, if_true]
      intro failed
      cases failed

theorem writePadding_wrote {s : ω} (h : Open s) (remaining : Nat) :
    Outcome.wp (fun _ => False) False
      (fun r => r.1 = true → Wrote s (List.replicate remaining 0) r.2)
      (writePadding s remaining) := by
  apply Outcome.wp_loop_total (fun r => r.1) (paddingRound_wrote remaining)
  · exact ⟨0, Nat.zero_add _, .refl h⟩
  · exact Nat.lt_succ_self _

/-- Whatever the build and the flag, only the checksum changes. -/
theorem setChecksum_eq (block : BlockRecord) (md5 : Option Md5) (checksum : Bool)
    (data : Bytes) (size : block.header.checksum.length = 16) :
    ∃ bytes : Bytes, bytes.length = 16 ∧ block.setChecksum md5 checksum data =
      { block with header := { block.header with checksum := bytes } } := by
  unfold BlockRecord.setChecksum
  cases md5 with
  | none => exact ⟨_, size, rfl⟩
  | some md5 =>
    cases checksum with
    | true => exact ⟨_, md5.length_eq data, rfl⟩
    | false => exact ⟨_, size, rfl⟩

theorem setChecksum_setHeaderPos (block : BlockRecord) (pos : Int) (md5 : Option Md5)
    (checksum : Bool) (data : Bytes) : (block.setHeaderPos pos).setChecksum md5 checksum data =
      (block.setChecksum md5 checksum data).setHeaderPos pos := by
  unfold BlockRecord.setChecksum
  cases md5 with
  | none => rfl
  | some md5 => cases checksum <;> rfl

/-- What a successful write leaves in the record: the positions and the
checksum. -/
structure WrittenRecord (md5 : Option Md5) (checksum : Bool) (block : BlockRecord)
    (stored : BlockStored) (pos : Nat) (block' : BlockRecord) : Prop where
  eq : block' = ((block.setChecksum md5 checksum stored.data).setHeaderPos pos).setDataPos
    (pos + blockHeaderFullSize : Nat)
  size : block.header.checksum.length = 16

namespace WrittenRecord

variable {md5 : Option Md5} {checksum : Bool} {block block' : BlockRecord}
  {stored : BlockStored} {p : Nat}

theorem headerPos (h : WrittenRecord md5 checksum block stored p block') :
    block'.headerPos = p := by
  rw [h.eq]
  rfl

theorem dataPos (h : WrittenRecord md5 checksum block stored p block') :
    block'.dataPos = (p + blockHeaderFullSize : Nat) := by
  rw [h.eq]
  rfl

theorem checksum_length (h : WrittenRecord md5 checksum block stored p block') :
    block'.header.checksum.length = 16 := by
  obtain ⟨bytes, length, same⟩ := setChecksum_eq block md5 checksum stored.data h.size
  rw [h.eq, same]
  exact length

theorem header (h : WrittenRecord md5 checksum block stored p block') :
    block'.header = { block.header with checksum := block'.header.checksum } := by
  obtain ⟨bytes, -, same⟩ := setChecksum_eq block md5 checksum stored.data h.size
  rw [h.eq, same]
  rfl

end WrittenRecord

theorem length_blockFields {header : BlockHeader} {stored : BlockStored}
    (compression : stored.compression.length = 4) (checksum : header.checksum.length = 16) :
    (blockFields header stored).length = blockHeaderSize := by
  simp only [blockFields, List.length_append, Endian.length_beBytes, compression, checksum]
  rfl

/-- The data and the padding of a block go out one after the other. -/
theorem writeData_wrote {out : ω} (h : Open out) (block : BlockRecord) (stored : BlockStored) :
    Outcome.wp (fun _ => False) False (fun r => r.1 = true →
        Wrote out (stored.data ++ List.replicate
          (block.header.allocated stored.data.length - stored.data.length) 0) r.2.2 ∧
        r.2.1 = block.setDataPos (pos out))
      (writeData block out stored) := by
  have parts : (if stored.data.length > 0 then [stored.data] else []).flatten = stored.data := by
    by_cases some : stored.data.length > 0
    · rw [if_pos some]
      exact List.append_nil _
    · rw [if_neg some]
      exact (List.length_eq_zero_iff.mp (by omega)).symm
  rw [writeData, tell_eq out h]
  apply Outcome.wp_seq (writeAll_wrote h _)
  rintro ⟨ok, out'⟩ wrote
  cases ok with
  | false =>
    intro failed
    cases failed
  | true =>
    have data := wrote rfl
    rw [parts] at data
    apply Outcome.wp_seq (writePadding_wrote data.ready _)
    rintro ⟨ok', out''⟩ padded done
    exact ⟨data.trans (padded done), rfl⟩

theorem writeStored_wrote {out : ω} (h : Open out) (md5 : Option Md5) (checksum : Bool)
    (block : BlockRecord) {stored : BlockStored} (compression : stored.compression.length = 4)
    (size : block.header.checksum.length = 16) :
    Outcome.wp (fun _ => False) False (fun r => r.1 = true →
        Wrote out (blockImage r.2.1.header stored) r.2.2 ∧
        WrittenRecord md5 checksum block stored (pos out) r.2.1)
      (writeStored md5 checksum block out stored) := by
  rw [writeStored, tell_eq out h]
  apply Outcome.wp_seq (writeAll_wrote h _)
  rintro ⟨ok, out₁⟩ wrote
  cases ok with
  | false =>
    intro failed
    cases failed
  | true =>
    have front := wrote rfl
    apply Outcome.wp_seq (writeAll_wrote front.ready _)
    rintro ⟨ok, out₂⟩ wrote'
    cases ok with
    | false =>
      intro failed
      cases failed
    | true =>
      obtain ⟨bytes, length, same⟩ := setChecksum_eq (block.setHeaderPos (pos out)) md5
        checksum stored.data size
      have header := front.trans (wrote' rfl)
      rw [same] at header ⊢
      have place := header.pos_eq
      apply Outcome.wp_mono (writeData_wrote header.ready _ stored)
      rintro ⟨ok, block'', out₃⟩ wrote'' done
      obtain ⟨data, rfl⟩ := wrote'' done
      refine ⟨?_, ?_, size⟩
      · have whole := header.trans data
        simp only [List.flatten_cons, List.flatten_nil, List.append_nil, List.append_assoc]
          at whole
        simp only [blockImage, blockFields, List.append_assoc]
        exact whole
      · have ends : pos out₂ = pos out + blockHeaderFullSize := by
          rw [place]
          simp only [List.flatten_cons, List.flatten_nil, List.length_append, List.length_nil,
            Endian.length_beBytes, compression, length]
          rfl
        rw [← setChecksum_setHeaderPos, same, ends]

end Written

section RoundTrip

variable {σ ω : Type} [OpenMem σ] [OutStream ω] [LawfulOut ω]

open OutContent

/-- The bytes that a record is written as. -/
def StoredAs (file : WriterFile σ) (heap : Heap) (block : BlockRecord)
    (stored : BlockStored) : Prop :=
  ∃ src, blockSource file heap block = .ret (some src) ∧
    blockStored file block src = .ret (some stored)

theorem StoredAs.length_compression {file : WriterFile σ} {heap : Heap} {block : BlockRecord}
    {stored : BlockStored} (h : StoredAs file heap block stored)
    (field : block.header.compression.length = 4) : stored.compression.length = 4 := by
  obtain ⟨src, -, eq⟩ := h
  have named : ∀ {data : Option Bytes} {c : Compressor},
      (Outcome.ret (data.map (BlockStored.mk · c.compression)) : Run _) = .ret (some stored) →
      stored.compression.length = 4 := by
    intro data c eq
    cases data with
    | none => cases eq
    | some data =>
      cases eq
      exact c.length_eq
  have kept : (if src.compressed then block.header.compression else noCompression).length = 4 := by
    split
    · exact field
    · rfl
  unfold blockStored at eq
  split at eq
  · split at eq
    · exact named eq
    · split at eq
      · cases eq
      · cases eq
      · exact named eq
  · cases eq
    exact kept

/-- A write that succeeds has put the block's bytes at the position. -/
theorem blockInfoWrite_wrote {file : WriterFile σ} {heap : Heap} {block block' : BlockRecord}
    {out out' : ω} {checksum : Bool} (ready : Open out)
    (field : block.header.compression.length = 4) (size : block.header.checksum.length = 16)
    (written : blockInfoWrite file heap block out checksum = .ret (true, block', out')) :
    ∃ stored, StoredAs file heap block stored ∧
      Wrote out (blockImage block'.header stored) out' ∧
      WrittenRecord file.md5 checksum block stored (pos out) block' := by
  unfold blockInfoWrite at written
  obtain ⟨_, -, written⟩ := Outcome.bind_eq_ret.mp written
  obtain ⟨src, source, written⟩ := Outcome.bind_eq_ret.mp written
  cases src with
  | none => cases written
  | some src =>
    obtain ⟨stored, bytes, written⟩ := Outcome.bind_eq_ret.mp written
    cases stored with
    | none => cases written
    | some stored =>
      have as : StoredAs file heap block stored := ⟨src, source, bytes⟩
      have wrote := Outcome.wp_of_ret (writeStored_wrote ready file.md5 checksum block
        (as.length_compression field) size) written rfl
      exact ⟨stored, as, wrote⟩

end RoundTrip

end LibAsdf
