import LibAsdf.Base.RowMajor
import LibAsdf.Ndarray.Convert
import Mathlib.Logic.Function.Basic

/-!
# Reading arrays

`asdf_ndarray_read_tile_ndim` and the functions around it: the checks, the
strides, the one-dimensional path and the odometer loop. Sizes and offsets are
`UInt64`, as the code computes them.
-/

namespace LibAsdf

/-- The entries of a `uint64_t` array; the code reads those below `ndim`. -/
abbrev Extents := Nat → UInt64

/-- Something in memory: at most `PTRDIFF_MAX` bytes. -/
structure Object where
  bytes : Bytes
  size_le : bytes.length ≤ offMax

/-- `asdf_ndarray_t`: the `ndim` entries of its shape, and what `asdf_ndarray_data`
gives for it (nothing where it fails). -/
structure Ndarray where
  extents : List UInt64
  datatype : ScalarDatatype
  byteorder : Byteorder
  offset : UInt64
  data : Object

def Ndarray.ndim (a : Ndarray) : Nat := a.extents.length

def Ndarray.shape (a : Ndarray) : Extents := fun idx => a.extents.getD idx 0

/-- `asdf_ndarray_err_t`. -/
inductive NdarrayErr where
  | ok
  | outOfBounds
  | oom
  | inval
  | overflow
  | conversion
  deriving DecidableEq, Repr

/-- The product of the first `n` entries. -/
def extentsProduct (shape : Extents) : Nat → UInt64
  | 0 => 1
  | n + 1 => extentsProduct shape n * shape n

/-- `asdf_ndarray_size`. -/
def ndarraySize (a : Ndarray) : UInt64 := if a.ndim = 0 then 0 else extentsProduct a.shape a.ndim

/-- `asdf_ndarray_nbytes`. -/
def ndarrayNbytes (a : Ndarray) : UInt64 :=
  if ndarraySize a = 0 then 0 else ndarraySize a * UInt64.ofNat a.datatype.size

/-- `should_byteswap`. -/
def shouldByteswap (pf : Platform) (elsize : Nat) (byteorder : Byteorder) : Bool :=
  if elsize ≤ 1 then false else pf.host ≠ byteorder

/-- `check_bounds`. -/
def checkBounds (a : Ndarray) (origin shape : Extents) : Bool :=
  (List.range a.ndim).all fun idx => origin idx + shape idx ≤ a.shape idx

/-! ## Strides -/

def int64Max : Nat := 2 ^ 63 - 1

/-- The loop of `asdf_ndarray_read_tile_init_strides`, from dimension `dim` down.
A stride is a product that the check keeps below `INT64_MAX`. -/
def stridesFrom (shape : Extents) : Nat → (Nat → Nat) → Run (Option (Nat → Nat))
  | 0, strides => .ret (some strides)
  | dim + 1, strides =>
    let extent := (shape (dim + 1)).toNat
    let stride := strides (dim + 1)
    if stride = 0 then .fault .division
    else if extent > int64Max / stride then .ret none
    else stridesFrom shape dim (Function.update strides dim (stride * extent))

/-- `asdf_ndarray_read_tile_init_strides`: `none` is `ERR_OUT_OF_BOUNDS`. -/
def readTileInitStrides (shape : Extents) (ndim : Nat) : Run (Option (Nat → Nat)) :=
  stridesFrom shape (ndim - 1) (Function.update (fun _ => 0) (ndim - 1) 1)

/-! ## The main loop -/

/-- What `asdf_ndarray_read_tile_ndim` has found out when it starts to convert.
`newBuf` says that it allocated the tile; `offset` is where the tile's first
element lies in the data. -/
structure TilePlan where
  ndim : Nat
  origin : Extents
  shape : Extents
  strides : Nat → Nat
  srcElsize : Nat
  dstElsize : Nat
  nelems : UInt64
  convert : ConvertFn
  data : Bytes
  tile : Bytes
  newBuf : Bool
  offset : UInt64

/-- The variables of `asdf_ndarray_read_tile_main_loop`; pointers are offsets
into the tile and into the data, and wrap around as addresses do. -/
structure TileLoop where
  dst : Bytes
  dstTmp : UInt64
  src : UInt64
  odometer : Extents

namespace TilePlan

variable (plan : TilePlan)

def innerDim : Nat := plan.ndim - 1

/-- The inner loop, which carries from dimension `dim` down: whether it is
`done`, the odometer and the source pointer. -/
def carry : Nat → Extents → UInt64 → Bool × Extents × UInt64
  | dim, odometer, src =>
    let odometer := Function.update odometer dim (odometer dim + 1)
    let step := UInt64.ofNat (plan.strides dim) * UInt64.ofNat plan.srcElsize
    let src := src + step
    if odometer dim < plan.origin dim + plan.shape dim then (false, odometer, src)
    else
      match dim with
      | 0 => (true, odometer, src)
      | dim' + 1 =>
        carry dim' (Function.update odometer (dim' + 1) (plan.origin (dim' + 1)))
          (src - plan.shape (dim' + 1) * step)

/-- One row: the overflow flag is that of the last one. -/
def mainRound (s : TileLoop) : Run (TileLoop ⊕ Bool × Bytes) := do
  let innerNelem := plan.shape plan.innerDim
  let innerSize := innerNelem * UInt64.ofNat plan.dstElsize
  let (overflow, dst) ←
    plan.convert.run s.dst s.dstTmp.toNat plan.data s.src.toNat innerNelem.toNat
  let (done, odometer, src) := plan.carry (plan.innerDim - 1) s.odometer s.src
  if done then return .inr (overflow, dst)
  else return .inl { dst := dst, dstTmp := s.dstTmp + innerSize, src := src, odometer := odometer }

/-- `asdf_ndarray_read_tile_main_loop`, called with the tile's first row. -/
def mainLoop (fuel : Nat) : Run (Bool × Bytes) :=
  Outcome.loop plan.mainRound fuel
    { dst := plan.tile, dstTmp := 0, src := plan.offset, odometer := plan.origin }

/-- `is_1d`. -/
def is1d : Bool := (List.range plan.innerDim).all fun dim => plan.shape dim = 1

/-- The call of the conversion function on a one-dimensional tile. -/
def fastPath : Run (Bool × Bytes) :=
  plan.convert.run plan.tile 0 plan.data plan.offset.toNat plan.nelems.toNat

end TilePlan

/-! ## Reading a tile -/

/-- What a read returns: the error, what `*dst` points to, and whether that has
been freed. -/
structure ReadResult where
  err : NdarrayErr
  dst : Option Bytes
  freed : Bool
  deriving DecidableEq, Repr

/-- `ASDF_DATATYPE_SOURCE` stands for the array's own datatype. -/
def destDatatype (a : Ndarray) (dstT : ScalarDatatype) : ScalarDatatype :=
  if dstT = .unknown then a.datatype else dstT

def tileNelems (a : Ndarray) (shape : Extents) : UInt64 :=
  if 0 < a.ndim then extentsProduct shape a.ndim else 0

/-- `malloc`, of a size that an object can have. -/
def malloc (size : Nat) : Option Bytes :=
  if size ≤ offMax then some (List.replicate size 0) else none

/-- The buffer for the tile: the caller's, or a new one. -/
def tileBuffer (dst : Option Object) (size : Nat) : Option Bytes :=
  match dst with
  | some buf => some buf.bytes
  | none => malloc size

/-- The element offset of the tile, in bytes. -/
def tileOffset (origin : Extents) (strides : Nat → Nat) (ndim srcElsize : Nat) : UInt64 :=
  if ndim > 1 then
    (List.range (ndim - 1)).foldl (fun offset dim => offset + origin dim * UInt64.ofNat (strides dim))
      (origin (ndim - 1)) * UInt64.ofNat srcElsize
  else origin 0 * UInt64.ofNat srcElsize

/-- An error that leaves `*dst` as it was. -/
def ReadResult.failed (err : NdarrayErr) (dst : Option Object) : ReadResult :=
  { err := err, dst := dst.map Object.bytes, freed := false }

/-- `asdf_ndarray_read_tile_ndim` as far as the choice of the path. -/
def prepareTile (pf : Platform) (a : Ndarray) (origin shape : Extents) (dstT : ScalarDatatype)
    (dst : Option Object) : Run (ReadResult ⊕ TilePlan) :=
  let dstT := destDatatype a dstT
  let srcElsize := a.datatype.size
  let dstElsize := dstT.size
  if srcElsize < 1 ∨ dstElsize < 1 then .ret (.inl (.failed .inval dst))
  else if !checkBounds a origin shape then .ret (.inl (.failed .outOfBounds dst))
  else
    let nelems := tileNelems a shape
    let srcTileSize := UInt64.ofNat srcElsize * nelems
    let tileSize := UInt64.ofNat dstElsize * nelems
    let dataSize := a.data.bytes.length
    if dataSize < srcTileSize.toNat ∨ dataSize < (ndarrayNbytes a).toNat then
      .ret (.inl (.failed .outOfBounds dst))
    else
      match getConvertFn pf a.datatype dstT (shouldByteswap pf srcElsize a.byteorder) with
      | none => .ret (.inl (.failed .conversion dst))
      | some convert =>
        match tileBuffer dst tileSize.toNat with
        | none => .ret (.inl (.failed .oom dst))
        | some tile =>
          if a.ndim = 0 ∨ tileSize = 0 then .ret (.inl { err := .ok, dst := some tile, freed := false })
          else do
            match ← readTileInitStrides a.shape a.ndim with
            | none => return .inl (.failed .outOfBounds dst)
            | some strides =>
              return .inr
                { ndim := a.ndim
                  origin := origin
                  shape := shape
                  strides := strides
                  srcElsize := srcElsize
                  dstElsize := dstElsize
                  nelems := nelems
                  convert := convert
                  data := a.data.bytes
                  tile := tile
                  newBuf := dst.isNone
                  offset := tileOffset origin strides a.ndim srcElsize }

/-- The conversion and the `cleanup` after it. Only the one-dimensional path
tells the cleanup that the error is an overflow. -/
def TilePlan.finish (plan : TilePlan) (fuel : Nat) : Run ReadResult :=
  if plan.is1d then do
    let (overflow, tile) ← plan.fastPath
    return { err := if overflow then .overflow else .ok, dst := some tile, freed := false }
  else do
    let (overflow, tile) ← plan.mainLoop fuel
    return { err := if overflow then .overflow else .ok
             dst := some tile
             freed := overflow && plan.newBuf }

/-- `asdf_ndarray_read_tile_ndim`. -/
def readTileNdim (fuel : Nat) (pf : Platform) (a : Ndarray) (origin shape : Extents)
    (dstT : ScalarDatatype) (dst : Option Object) : Run ReadResult := do
  match ← prepareTile pf a origin shape dstT dst with
  | .inl r => return r
  | .inr plan => plan.finish fuel

/-- `asdf_ndarray_read_all`. -/
def readAll (fuel : Nat) (pf : Platform) (a : Ndarray) (dstT : ScalarDatatype)
    (dst : Option Object) : Run ReadResult :=
  readTileNdim fuel pf a (fun _ => 0) a.shape dstT dst

/-- `asdf_ndarray_read_at`. -/
def readAt (fuel : Nat) (pf : Platform) (a : Ndarray) (indices : Extents) (dstT : ScalarDatatype)
    (dst : Object) : Run ReadResult :=
  if a.ndim = 0 then .ret (.failed .inval (some dst))
  else readTileNdim fuel pf a indices (fun _ => 1) dstT (some dst)

end LibAsdf
