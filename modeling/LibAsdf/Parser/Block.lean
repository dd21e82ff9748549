import LibAsdf.Parser.Text

/-!
# Block headers

`asdf_block_info_read`, with the header as it is on disk.
-/

namespace LibAsdf

/-- `ASDF_BLOCK_HEADER_SIZE`. -/
def blockHeaderSize : Nat := 48

/-- `ASDF_BLOCK_HEADER_FULL_SIZE`: with the magic and the header size field. -/
def blockHeaderFullSize : Nat := blockHeaderSize + blockMagic.length + 2

structure BlockHeader where
  headerSize : Nat
  flags : Nat
  compression : Bytes
  allocatedSize : Nat
  usedSize : Nat
  dataSize : Nat
  checksum : Bytes
  deriving DecidableEq, Repr

/-- The fields of `asdf_block_info_t` that the parser fills in. -/
structure BlockInfo where
  index : Nat
  headerPos : Int
  dataPos : Int
  header : BlockHeader
  deriving DecidableEq, Repr

/-- `{.index = index}`: everything else is zero. -/
def BlockInfo.blank (index : Nat) : BlockInfo where
  index := index
  headerPos := 0
  dataPos := 0
  header := ⟨0, 0, List.replicate 4 0, 0, 0, 0, List.replicate 16 0⟩

/-- A big-endian integer. -/
def beNat (bytes : Bytes) : Nat := bytes.foldl (fun acc b => acc * 256 + b.toNat) 0

/-- The fields after the header size, from the bytes that hold them. -/
def BlockHeader.decode (header : BlockHeader) (bytes : Bytes) : BlockHeader :=
  { header with
    flags := beNat (bytes.take 4)
    compression := (bytes.drop 4).take 4
    allocatedSize := beNat ((bytes.drop 8).take 8)
    usedSize := beNat ((bytes.drop 16).take 8)
    dataSize := beNat ((bytes.drop 24).take 8)
    checksum := (bytes.drop 32).take 16 }

def BlockHeader.streamed (header : BlockHeader) : Bool := header.flags % 2 = 1

/-- A block without data. -/
def emptyBlock : Bytes := blockMagic ++ [0, 48] ++ List.replicate 48 0

/-- The info of a block without data. -/
def BlockInfo.empty (index : Nat) (headerPos : Int) : BlockInfo :=
  { blank index with
    headerPos := headerPos
    dataPos := headerPos + blockHeaderFullSize
    header := { (blank index).header with headerSize := blockHeaderSize } }

variable {σ : Type} [StreamOps σ]

open StreamOps

/-- The part of `asdf_block_info_read` after the header size. -/
def blockInfoReadFields (headerPos : Int) (outBlock : BlockInfo) (stream : σ) :
    Run (Bool × BlockInfo × σ) := do
  let headerSize := outBlock.header.headerSize
  let (buf, stream) ← next stream headerSize
  match buf with
  | none => return (false, outBlock, setError stream .unexpectedEof)
  | some v =>
    if v.len < headerSize then
      return (false, outBlock, setError stream .unexpectedEof)
    let bytes ← load v.mem 0 blockHeaderSize
    let outBlock := { outBlock with header := outBlock.header.decode bytes }
    let stream ← consume stream headerSize
    if (errorGet stream).isSome then
      return (false, outBlock, stream)
    return (true, { outBlock with headerPos := headerPos, dataPos := tell stream }, stream)

/-- `asdf_block_info_read`: whether it succeeded, and `out_block`, which a
failure may have filled in part. -/
def blockInfoRead (outBlock : BlockInfo) (stream : σ) : Run (Bool × BlockInfo × σ) := do
  let headerPos := tell stream
  let stream ← consume stream blockMagic.length
  if (errorGet stream).isSome then
    return (false, outBlock, stream)
  let (buf, stream) ← next stream 2
  match buf with
  | none => return (false, outBlock, setError stream .invalidBlockHeader)
  | some v =>
    if v.len < 2 then
      return (false, outBlock, setError stream .unexpectedEof)
    let bytes ← load v.mem 0 2
    let outBlock := { outBlock with header := { outBlock.header with headerSize := beNat bytes } }
    if beNat bytes < blockHeaderSize then
      return (false, outBlock, setError stream .invalidBlockHeader)
    let stream ← consume stream 2
    if (errorGet stream).isSome then
      return (false, outBlock, stream)
    blockInfoReadFields headerPos outBlock stream

end LibAsdf
