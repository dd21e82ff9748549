import LibAsdf.Block.Write

/-!
# Blocks in memory

The calls that build blocks and append them to a file. A block's state is in
the caller's handle and, once appended, also in the file's list.

* `blockDataSet`, `blockDataAlloc`, `blockDataSetCompressed`: the data setters,
  on the handle's record alone;
* `blockAllocatedSizeSet`, `blockCompressionSet`: the setters that write through;
* `blockCreate`, `blockAppend`: a handle's life;
* `blockCall`, `BlockRun`: calls in any order.
-/

namespace LibAsdf

/-- `asdf_block_t`, as far as these calls go. -/
structure BlockHandle where
  info : BlockRecord
  detached : Bool

/-- The blocks of an `asdf_file_t`. While the parser is not done, `unparsed` is
what it is going to find. -/
structure BlockFile where
  writeable : Bool
  unparsed : Option (List BlockRecord)
  blocks : List BlockRecord

structure BlockSession where
  file : BlockFile
  handles : List BlockHandle
  heap : Heap

/-! ## On a record -/

/-- `asdf_block_info_deinit`. -/
def blockInfoDeinit (info : BlockRecord) (heap : Heap) : Run (BlockRecord × Heap) :=
  if info.dataOwned then do
    let heap ← info.data.elim (.ret heap) heap.release
    return ({ info with data := none, dataOwned := false, dataMmapped := false, dataSize := 0 },
      heap)
  else return ({ info with dataSize := 0 }, heap)

/-- The fields that `asdf_block_data_set` assigns. -/
def BlockRecord.borrow (info : BlockRecord) (data : Option Nat) (size : Nat) : BlockRecord :=
  { info with
    data := data
    dataSize := size
    dataOwned := false
    dataIsCompressed := false
    header := { info.header with dataSize := size, usedSize := size } }

/-- The fields that `asdf_block_data_alloc` assigns. -/
def BlockRecord.own (info : BlockRecord) (addr size : Nat) : BlockRecord :=
  { info with
    data := some addr
    dataSize := size
    dataOwned := true
    dataMmapped := true
    dataIsCompressed := false
    header := { info.header with dataSize := size, usedSize := size } }

/-- The fields that `asdf_block_data_set_compressed` assigns. -/
def BlockRecord.borrowCompressed (info : BlockRecord) (data : Option Nat) (size dataSize : Nat)
    (compression : Bytes) : BlockRecord :=
  { info with
    data := data
    dataSize := size
    dataOwned := false
    dataIsCompressed := true
    writeCompressor := none
    header := { info.header with
      dataSize := dataSize
      usedSize := size
      compression := compression } }

def blockDataSet (data : Option Nat) (size : Nat) (info : BlockRecord) (heap : Heap) :
    Run (BlockRecord × Heap) := do
  let (info, heap) ← blockInfoDeinit info heap
  return (info.borrow data size, heap)

/-- The owned buffer that `asdf_block_data_alloc` gives again. -/
def BlockRecord.reusable (info : BlockRecord) (size : Nat) : Bool :=
  info.data.isSome && info.dataOwned && info.dataMmapped && !info.dataIsCompressed &&
    info.dataSize = size

/-- `asdf_block_data_alloc`, with the pointer it returns. -/
def blockDataAlloc (size : Nat) (info : BlockRecord) (heap : Heap) :
    Run (Option Nat × BlockRecord × Heap) :=
  if info.reusable size then return (info.data, info, heap)
  else do
    let (info, heap) ← blockInfoDeinit info heap
    if size > offMax then
      return (none, info, heap)
    let (addr, heap) := heap.alloc (List.replicate (max size 1) 0)
    return (some addr, info.own addr size, heap)

/-- The compression field for a name, four bytes from where it is. -/
def compressionField : Option Bytes → Run Bytes
  | none => return noCompression
  | some mem => do
    let first ← load mem 0 1
    if first = [0] then
      return noCompression
    load mem 0 4

def blockDataSetCompressed (data : Option Nat) (size dataSize : Nat)
    (compression : Option Bytes) (info : BlockRecord) (heap : Heap) :
    Run (BlockRecord × Heap) := do
  let (info, heap) ← blockInfoDeinit info heap
  let field ← compressionField compression
  return (info.borrowCompressed data size dataSize field, heap)

/-- The record of a handle that `asdf_block_create` has just made. -/
def BlockRecord.fresh : BlockRecord where
  index := sizeMax
  headerPos := -1
  dataPos := -1
  header := {
    headerSize := blockHeaderSize
    flags := 0
    compression := noCompression
    allocatedSize := 0
    usedSize := 0
    dataSize := 0
    checksum := List.replicate 16 0 }
  data := none
  dataSize := 0
  dataOwned := false
  dataMmapped := false
  dataIsCompressed := false
  writeCompressor := none

/-! ## On handles and the file -/

namespace BlockSession

def addHandle (s : BlockSession) (info : BlockRecord) (heap : Heap) : BlockSession :=
  { s with handles := s.handles ++ [⟨info, true⟩], heap := heap }

def setInfo (s : BlockSession) (h : Nat) (handle : BlockHandle) (info : BlockRecord)
    (heap : Heap) : BlockSession :=
  { s with handles := s.handles.set h { handle with info := info }, heap := heap }

/-- A setter that goes through to the file's record of an appended block. -/
def writeThrough (s : BlockSession) (h : Nat) (handle : BlockHandle)
    (set : BlockRecord → BlockRecord) : Run BlockSession :=
  let s' := s.setInfo h handle (set handle.info) s.heap
  if !handle.detached && handle.info.index ≠ sizeMax then
    match s.file.blocks[handle.info.index]? with
    | some record =>
      return { s' with file := { s.file with
        blocks := s.file.blocks.set handle.info.index (set record) } }
    | none => .fault .vector
  else return s'

end BlockSession

/-- `asdf_block_create`. -/
def blockCreate (data : Option Nat) (size : Nat) (s : BlockSession) : Run BlockSession :=
  match data with
  | some addr => do
    let (info, heap) ← blockDataSet (some addr) size .fresh s.heap
    return s.addHandle info heap
  | none =>
    if size > 0 then do
      let (addr, info, heap) ← blockDataAlloc size .fresh s.heap
      match addr with
      | some _ => return s.addHandle info heap
      | none => return { s with heap := heap }
    else return s.addHandle .fresh s.heap

/-- `asdf_block_count`: the first call has the parser finish. -/
def blockCount (file : BlockFile) : Nat × BlockFile :=
  match file.unparsed with
  | some infos => (infos.length, { file with unparsed := none, blocks := infos })
  | none => (file.blocks.length, file)

theorem blockCount_eq (file : BlockFile) : (blockCount file).1 = (blockCount file).2.blocks.length ∧
    (blockCount file).2.unparsed = none := by
  unfold blockCount
  cases parsed : file.unparsed with
  | none => exact ⟨rfl, parsed⟩
  | some infos => exact ⟨rfl, rfl⟩

/-- `asdf_block_append`. -/
def blockAppend (h : Nat) (handle : BlockHandle) (s : BlockSession) : BlockSession :=
  if !s.file.writeable || !handle.detached then s
  else
    let (n, file) := blockCount s.file
    if n ≥ offMax then { s with file := file }
    else
      let info := { handle.info with index := n }
      { s with
        file := { file with blocks := file.blocks ++ [info] }
        handles := s.handles.set h ⟨{ info with dataOwned := false }, false⟩ }

def BlockRecord.setAllocatedSize (allocatedSize : Nat) (info : BlockRecord) : BlockRecord :=
  { info with header := { info.header with allocatedSize := allocatedSize } }

def BlockRecord.setWriteCompressor (compressor : Compressor) (info : BlockRecord) : BlockRecord :=
  { info with writeCompressor := some compressor }

def blockAllocatedSizeSet (allocatedSize h : Nat) (handle : BlockHandle) (s : BlockSession) :
    Run BlockSession :=
  s.writeThrough h handle (.setAllocatedSize allocatedSize)

def blockCompressionSet (registry : List Compressor) (compression : Bytes) (h : Nat)
    (handle : BlockHandle) (s : BlockSession) : Run BlockSession :=
  match compressorGet registry compression with
  | some compressor => s.writeThrough h handle (.setWriteCompressor compressor)
  | none => return s

/-! ## Calls -/

inductive BlockOp where
  | create (data : Option Nat) (size : Nat)
  | append (h : Nat)
  | dataSet (h : Nat) (data : Option Nat) (size : Nat)
  | dataAlloc (h size : Nat)
  | dataSetCompressed (h : Nat) (data : Option Nat) (size dataSize : Nat)
      (compression : Option Bytes)
  | allocatedSizeSet (h allocatedSize : Nat)
  | compressionSet (h : Nat) (compression : Bytes)
  deriving DecidableEq, Repr

/-- The handle that a call is on. -/
def BlockOp.handle : BlockOp → Option Nat
  | create _ _ => none
  | append h | dataSet h _ _ | dataAlloc h _ | dataSetCompressed h _ _ _ _
  | allocatedSizeSet h _ | compressionSet h _ => some h

/-- A call on an open handle. -/
def blockCallOn (registry : List Compressor) (op : BlockOp) (h : Nat) (handle : BlockHandle)
    (s : BlockSession) : Run BlockSession :=
  match op with
  | .create _ _ => return s
  | .append _ => return blockAppend h handle s
  | .dataSet _ data size => do
    let (info, heap) ← blockDataSet data size handle.info s.heap
    return s.setInfo h handle info heap
  | .dataAlloc _ size => do
    let (_, info, heap) ← blockDataAlloc size handle.info s.heap
    return s.setInfo h handle info heap
  | .dataSetCompressed _ data size dataSize compression => do
    let (info, heap) ← blockDataSetCompressed data size dataSize compression handle.info s.heap
    return s.setInfo h handle info heap
  | .allocatedSizeSet _ allocatedSize => blockAllocatedSizeSet allocatedSize h handle s
  | .compressionSet _ compression => blockCompressionSet registry compression h handle s

/-- One call; on a null handle nothing happens. -/
def blockCall (registry : List Compressor) (op : BlockOp) (s : BlockSession) :
    Run BlockSession :=
  match op with
  | .create data size => blockCreate data size s
  | op =>
    match op.handle with
    | none => return s
    | some h =>
      match s.handles[h]? with
      | none => return s
      | some handle => blockCallOn registry op h handle s

end LibAsdf
