import LibAsdf.Parser.Basic
import LibAsdf.Stream.Mmap

/-!
# Block records

The records of a file's blocks with the data they stand for: in memory, or in
the input file.

* `Heap`: the buffers that a record's data pointer may name;
* `Compressor`, `blockCompOpen`: the registered compressors;
* `OpenMem`: reading a region of the input;
* `BlockRecord`: `asdf_block_info_t`.
-/

namespace LibAsdf

/-! ## Buffers -/

/-- The buffers by address, `none` where one has been released. -/
structure Heap where
  buffers : List (Option Bytes)
  deriving DecidableEq, Repr

namespace Heap

def lookup (h : Heap) (addr : Nat) : Option Bytes := h.buffers[addr]?.join

/-- The first `size` bytes of a buffer. -/
def read (h : Heap) (addr size : Nat) : Run Bytes :=
  match h.lookup addr with
  | some mem => load mem 0 size
  | none => .fault .memory

/-- A new buffer, and its address. -/
def alloc (h : Heap) (mem : Bytes) : Nat × Heap :=
  (h.buffers.length, ⟨h.buffers ++ [some mem]⟩)

/-- `free` or `munmap`. -/
def release (h : Heap) (addr : Nat) : Run Heap :=
  match h.lookup addr with
  | some _ => .ret ⟨h.buffers.set addr none⟩
  | none => .fault .memory

end Heap

/-! ## Compressors -/

/-- A name without the zeros that fill its field. -/
def compressionName (field : Bytes) : Bytes := field.takeWhile (· ≠ 0)

/-- `asdf_compressor_t`, as it is registered. The name is as the header field holds it; `decomp` is
what `init` and one `decomp` of the whole destination give. -/
structure Compressor where
  compression : Bytes
  comp : Bytes → Option Bytes
  decomp : Bytes → Nat → Option Bytes
  length_eq : compression.length = 4
  named : compressionName compression ≠ []

def compressorGet (registry : List Compressor) (name : Bytes) : Option Compressor :=
  registry.find? fun c => compressionName c.compression = name

/-- `asdf_block_comp_open` of a block with its raw data, from the compression
and the data size of its header: `none` where it fails, `some none` where the
block is not compressed. `mmap` refuses an empty destination, and more than
`PTRDIFF_MAX`. -/
def blockCompOpen (registry : List Compressor) (compression : Bytes) (dataSize : Nat)
    (data : Bytes) : Option (Option Bytes) :=
  let name := compressionName compression
  if name = [] then some none
  else
    match compressorGet registry name with
    | none => none
    | some comp =>
      if dataSize = 0 ∨ dataSize > offMax then none
      else (comp.decomp data dataSize).map some

/-! ## The input -/

/-- `open_mem`: the bytes of a region of the input, as far as it goes. -/
class OpenMem (σ : Type) where
  openMem : (pageSize : Nat) → σ → (offset size : Nat) → Run (Option Bytes)

/-- `file_open_mem`: a map from the start of the page, and `mmap` refuses an
empty one. -/
def fileOpenMem (pageSize : Nat) (s : FileStream) (offset size : Nat) : Run (Option Bytes) := do
  assert s.isSeekable
  let content := s.file.content
  if offset > content.length then
    return none
  let mapSize := min size (content.length - offset)
  if mapSize + offset % pageSize = 0 then
    return none
  return some ((content.drop offset).take mapSize)

def memOpenMem (s : MemStream) (offset size : Nat) : Option Bytes :=
  if offset > s.size then none
  else if size > sizeMax - offset then none
  else some ((s.buf.drop offset).take size)

instance : OpenMem FileStream where
  openMem := fileOpenMem

instance : OpenMem MemStream where
  openMem _ s offset size := .ret (memOpenMem s offset size)

/-- The bytes are those that a mapping shows at its address. -/
theorem fileOpenMem_mapped {page : PageSize} {s : MappedStream} {regions : List Region}
    (h : MappedState page s regions) {start size chosen : Nat} (small : start ≤ offMax)
    (may : Choosable page s.pages (mapLength page s start size) chosen) :
    (fileOpenMem page.bytes s.toFileStream start size = .ret none ∧
      ∃ t, s.fileOpenMem page (some chosen) start size = .ret (none, t)) ∨
    ∃ bytes addr t, fileOpenMem page.bytes s.toFileStream start size = .ret (some bytes) ∧
      s.fileOpenMem page (some chosen) start size = .ret (some (addr, bytes.length), t) ∧
      ∀ i, i < bytes.length → t.byteAt page (addr + i) = bytes[i]? := by
  have cast : sizeAdd 0 (start : Int) = start := by
    unfold sizeAdd
    unfold offMax at small
    omega
  have seekable : assert s.isSeekable = (.ret () : Run Unit) := if_pos h.seekable
  have cases := fileOpenMem_cases h (some chosen) start size
  dsimp only at cases
  rw [cast] at cases
  unfold fileOpenMem
  rw [seekable, Outcome.ret_bind]
  dsimp only
  obtain ⟨t, opens, -, why⟩ | ⟨addr, t, chose, opens, inside, nonempty, opened⟩ := cases
  · refine .inl ⟨?_, t, opens⟩
    by_cases outside : start > s.file.content.length
    · exact if_pos outside
    · obtain beyond | empty | none := why
      · exact absurd beyond outside
      · exact (if_neg outside).trans (if_pos empty)
      · cases none
  · cases Option.some.inj chose
    have width : ((s.file.content.drop start).take
        (min size (s.file.content.length - start))).length = regionAvail s start size := by
      rw [List.length_take, List.length_drop]
      exact Nat.min_eq_left (Nat.min_le_right _ _)
    have opened := opened may
    refine .inr ⟨_, chosen + start % page.bytes, t,
      (if_neg (Nat.not_lt_of_le inside)).trans (if_neg nonempty), ?_, ?_⟩
    · rw [width]
      exact opens
    · intro i lt
      rw [width] at lt
      have byte := (h.opened opened).shows List.mem_cons_self lt
      rw [opened.file] at byte
      exact byte.trans ((List.getElem?_take_of_lt lt).trans List.getElem?_drop).symm

/-! ## Records -/

/-- `asdf_block_info_t`. -/
structure BlockRecord extends BlockInfo where
  data : Option Nat
  dataSize : Nat
  dataOwned : Bool
  dataMmapped : Bool
  dataIsCompressed : Bool
  writeCompressor : Option Compressor

/-- The record of a block that the parser has read. -/
def BlockRecord.ofInfo (info : BlockInfo) : BlockRecord where
  toBlockInfo := info
  data := none
  dataSize := 0
  dataOwned := false
  dataMmapped := false
  dataIsCompressed := false
  writeCompressor := none

/-- The fields are in the range of their types. -/
structure BlockHeader.Fits (header : BlockHeader) : Prop where
  headerSize : header.headerSize < 2 ^ 16
  flags : header.flags < 2 ^ 32
  compression : header.compression.length = 4
  allocatedSize : header.allocatedSize < 2 ^ 64
  usedSize : header.usedSize < 2 ^ 64
  dataSize : header.dataSize < 2 ^ 64
  checksum : header.checksum.length = 16

end LibAsdf
