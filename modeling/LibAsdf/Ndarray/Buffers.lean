import LibAsdf.Base.Ledger
import LibAsdf.Ndarray.TileOverflow

/-!
# The buffers of a read

`asdf_ndarray_read_tile_ndim` with what it allocates and releases. Any of its
allocations may fail.

* `readTileBuffers`: the function, and what it holds on return;
* `ReadOwned`: who has the buffers then;
* `readTileBuffers_granted`: with enough memory it reads what `readTileNdim` does;
* `tile_ownership`: when the buffers are left as they are to be.
-/

namespace LibAsdf

open RowMajor

/-- What a read allocates. -/
inductive TileBuffer where
  | tile
  | strides
  | odometer
  deriving DecidableEq, Repr

/-- What `*dst` points to. -/
inductive TilePointer where
  | null
  | caller
  | tile
  deriving DecidableEq, Repr

/-- The buffers that the owner of the pointer is to release. -/
def TilePointer.owned : TilePointer → List TileBuffer
  | tile => [.tile]
  | null | caller => []

/-- A read that has returned: the error, `*dst` with the bytes there, and what is
still allocated. -/
structure OwnedRead where
  err : NdarrayErr
  dst : TilePointer
  bytes : Bytes
  held : Ledger TileBuffer
  deriving DecidableEq, Repr

/-- `*dst` before the call. -/
def TileRead.pointer (t : TileRead) : TilePointer := if t.dst.isSome then .caller else .null

/-- `malloc`: which calls succeed is up to the system. -/
def allocate (grant : TileBuffer → Bool) (buffer : TileBuffer) (held : Ledger TileBuffer) :
    Option (Ledger TileBuffer) :=
  if grant buffer then some (held.acquire buffer) else none

section Read

variable (grant : TileBuffer → Bool) (fuel : Nat) (pf : Platform) (a : Ndarray)
  (dstT : ScalarDatatype) (t : TileRead)

/-- The checks on the arguments. -/
def tileChecks : Except NdarrayErr ConvertFn :=
  if a.datatype.size < 1 ∨ (destDatatype a dstT).size < 1 then .error .inval
  else if !checkBounds a t.origin t.shape then .error .outOfBounds
  else if a.data.bytes.length < (tileSize a t.shape a.datatype).toNat ∨
      a.data.bytes.length < (ndarrayNbytes a).toNat then .error .outOfBounds
  else
    match readConvertFn pf a dstT with
    | none => .error .conversion
    | some convert => .ok convert

/-- The caller's buffer, or a new one: its bytes, `new_buf`, and what is held. -/
def allocateTile : Option (Bytes × Option TileBuffer × Ledger TileBuffer) :=
  match t.dst with
  | some buf => some (buf.bytes, none, [])
  | none =>
    match malloc (tileSize a t.shape (destDatatype a dstT)).toNat, allocate grant .tile [] with
    | some bytes, some held => some (bytes, some .tile, held)
    | _, _ => none

/-- `tile`, as a pointer. -/
def tilePointer (newBuf : Option TileBuffer) : TilePointer := if newBuf.isSome then .tile else .caller

/-- A return with `*dst` as it was. -/
def untouched (err : NdarrayErr) (held : Ledger TileBuffer) : OwnedRead where
  err := err
  dst := t.pointer
  bytes := (t.dst.map Object.bytes).getD []
  held := held

/-- `cleanup`: `overflow` is the variable that only the one-dimensional path sets. -/
def readCleanup (overflow : Bool) (newBuf strides odometer : Option TileBuffer) (r : OwnedRead) :
    Run OwnedRead := do
  let held ← r.held.releaseAny .memory (if !overflow && r.err ≠ .ok then newBuf else none)
  let held ← held.releaseAny .memory strides
  let held ← held.releaseAny .memory odometer
  return { r with held := held }

/-- The conversion, once the strides are known. -/
def convertTile (plan : TilePlan) (newBuf : Option TileBuffer) (held : Ledger TileBuffer) :
    Run OwnedRead :=
  if plan.is1d then do
    let (overflow, bytes) ← plan.fastPath
    readCleanup overflow newBuf (some .strides) none
      ⟨if overflow then .overflow else .ok, tilePointer newBuf, bytes, held⟩
  else
    match allocate grant .odometer held with
    | none => readCleanup false newBuf (some .strides) none (untouched t .oom held)
    | some held => do
      let (overflow, bytes) ← plan.mainLoop fuel
      readCleanup false newBuf (some .strides) (some .odometer)
        ⟨if overflow then .overflow else .ok, tilePointer newBuf, bytes, held⟩

/-- `asdf_ndarray_read_tile_ndim` from the strides on.
`asdf_ndarray_read_tile_init_strides` releases them itself where it fails. -/
def readRows (convert : ConvertFn) (tile : Bytes) (newBuf : Option TileBuffer)
    (held : Ledger TileBuffer) : Run OwnedRead :=
  match allocate grant .strides held with
  | none => readCleanup false newBuf none none (untouched t .oom held)
  | some held => do
    match ← readTileInitStrides a.shape a.ndim with
    | none => do
      let held ← held.release .memory .strides
      readCleanup false newBuf none none (untouched t .outOfBounds held)
    | some strides =>
      convertTile grant fuel t
        (tilePlan a t.origin t.shape dstT t.dst convert tile strides) newBuf held

/-- `asdf_ndarray_read_tile_ndim`. -/
def readTileBuffers : Run OwnedRead :=
  match tileChecks pf a dstT t with
  | .error err => .ret (untouched t err [])
  | .ok convert =>
    match allocateTile grant a dstT t with
    | none => .ret (untouched t .oom [])
    | some (tile, newBuf, held) =>
      if a.ndim = 0 ∨ tileSize a t.shape (destDatatype a dstT) = 0 then
        .ret ⟨.ok, tilePointer newBuf, tile, held⟩
      else readRows grant fuel a dstT t convert tile newBuf held

end Read

/-! ## What is to become of the buffers -/

/-- The bytes of a buffer are the tile: they have room for it, its elements are
elements of the array, and each is there, converted. -/
structure HoldsTile (pf : Platform) (a : Ndarray) (dstT : ScalarDatatype) (t : TileRead)
    (bytes : Bytes) : Prop where
  room : tileBytes a t.shape dstT ≤ bytes.length
  inside : ∀ k, TileIndex a t.shape k → ∀ d < a.ndim, t.origin.nat d + k d < a.shape.nat d
  elem : ∀ k, TileIndex a t.shape k →
    elementAt bytes 0 (destDatatype a dstT).size (position t.shape.nat k a.ndim) =
      (tileElement pf a dstT fun d => t.origin.nat d + k d).1

/-- A return with the tile in a buffer, which is the caller's from now on, or with
an error and everything as before. -/
inductive Settled (pf : Platform) (a : Ndarray) (dstT : ScalarDatatype) (t : TileRead)
    (r : OwnedRead) : Prop
  | read (err : r.err = .ok ∨ r.err = .overflow) (dst : r.dst ≠ .null)
      (tile : HoldsTile pf a dstT t r.bytes) (held : r.held = r.dst.owned)
  | failed (ok : r.err ≠ .ok) (overflow : r.err ≠ .overflow) (dst : r.dst = t.pointer)
      (held : r.held = [])

/-- Every call settles its buffers, whichever allocations succeed. -/
structure ReadSettles (pf : Platform) (a : Ndarray) (dstT : ScalarDatatype) (t : TileRead) : Prop where
  runs : ∀ grant fuel e, readTileBuffers grant fuel pf a dstT t ≠ .fault e
  returns : ∀ grant fuel, t.Enough a fuel → readTileBuffers grant fuel pf a dstT t ≠ .timeout
  result : ∀ grant fuel r, readTileBuffers grant fuel pf a dstT t = .ret r → Settled pf a dstT t r

/-- A tile that passes the checks is in range, one of no bytes has no elements,
and no element in the last row of a tile for a new buffer clamps, unless the tile
is one-dimensional. -/
structure TileSettles (pf : Platform) (a : Ndarray) (dstT : ScalarDatatype) (t : TileRead) : Prop where
  empty : Checked pf a t.origin t.shape dstT t.dst → tileSize a t.shape (destDatatype a dstT) = 0 →
    tileBytes a t.shape dstT = 0
  range : ReadsOn pf a t.origin t.shape dstT t.dst → InRange a t.origin t.shape dstT
  last : ReadsOn pf a t.origin t.shape dstT t.dst → t.dst = none →
    (∃ d < a.ndim - 1, t.shape.nat d ≠ 1) → ¬ LastRowClamps pf a dstT t

variable {pf : Platform} {a : Ndarray} {dstT : ScalarDatatype} {t : TileRead}
  {grant : TileBuffer → Bool} {fuel : ℕ}

/-! ## The checks and the tile's buffer -/

theorem tileChecks_ok {convert : ConvertFn} (h : tileChecks pf a dstT t = .ok convert)
    (allocated : t.dst = none → (tileSize a t.shape (destDatatype a dstT)).toNat ≤ offMax) :
    Checked pf a t.origin t.shape dstT t.dst := by
  unfold tileChecks at h
  split at h
  · cases h
  · split at h
    · cases h
    · split at h
      · cases h
      · rename_i sizes bounds covers
        split at h
        · cases h
        · rename_i known
          cases h
          exact
            { srcElsize := by omega
              dstElsize := by omega
              bounds := by simpa using bounds
              coversTile := by omega
              coversArray := by omega
              supported := by rw [known]; rfl
              allocated := allocated }

/-- The function as far as the choice of the path, after the checks. -/
theorem prepareTile_eq_checks (pf : Platform) (a : Ndarray) (dstT : ScalarDatatype) (t : TileRead) :
    prepareTile pf a t.origin t.shape dstT t.dst =
      match tileChecks pf a dstT t with
      | .error err => .ret (.inl (.failed err t.dst))
      | .ok convert =>
        match tileBuffer t.dst (tileSize a t.shape (destDatatype a dstT)).toNat with
        | none => .ret (.inl (.failed .oom t.dst))
        | some tile =>
          if a.ndim = 0 ∨ tileSize a t.shape (destDatatype a dstT) = 0 then
            .ret (.inl { err := .ok, dst := some tile, freed := false })
          else readTileInitStrides a.shape a.ndim >>= fun
            | none => .ret (.inl (.failed .outOfBounds t.dst))
            | some strides =>
              .ret (.inr (tilePlan a t.origin t.shape dstT t.dst convert tile strides)) := by
  unfold tileChecks prepareTile
  dsimp only
  split
  · rfl
  · split
    · rfl
    · by_cases covers : a.data.bytes.length < (tileSize a t.shape a.datatype).toNat ∨
          a.data.bytes.length < (ndarrayNbytes a).toNat
      · rw [if_pos covers]
        exact if_pos covers
      · rw [if_neg covers, if_neg (by exact covers)]
        unfold readConvertFn
        cases getConvertFn pf a.datatype (destDatatype a dstT)
          (shouldByteswap pf a.datatype.size a.byteorder) with
        | none => rfl
        | some convert => rfl

/-- The two kinds of buffer: the caller's, and a new one, which is held. -/
inductive TileAllocation (t : TileRead) (size : ℕ) :
    Bytes → Option TileBuffer → Ledger TileBuffer → Prop
  | caller {buf : Object} (given : t.dst = some buf) : TileAllocation t size buf.bytes none []
  | new (given : t.dst = none) (room : size ≤ offMax) :
      TileAllocation t size (List.replicate size 0) (some .tile) [.tile]

theorem allocateTile_cases {tile : Bytes} {newBuf : Option TileBuffer} {held : Ledger TileBuffer}
    (h : allocateTile grant a dstT t = some (tile, newBuf, held)) :
    TileAllocation t (tileSize a t.shape (destDatatype a dstT)).toNat tile newBuf held := by
  unfold allocateTile at h
  cases given : t.dst with
  | some buf =>
    rw [given] at h
    cases h
    exact .caller given
  | none =>
    rw [given] at h
    unfold malloc allocate at h
    by_cases room : (tileSize a t.shape (destDatatype a dstT)).toNat ≤ offMax
    · cases allowed : grant .tile with
      | true =>
        rw [if_pos room, allowed] at h
        cases h
        exact .new given room
      | false =>
        rw [if_pos room, allowed] at h
        cases h
    · rw [if_neg room] at h
      cases h

/-- The conversion, with what is left when it returns. -/
def convertedTile (grant : TileBuffer → Bool) (fuel : ℕ) (t : TileRead) (plan : TilePlan)
    (newBuf : Option TileBuffer) (held : Ledger TileBuffer) : Run OwnedRead :=
  if plan.is1d then
    plan.fastPath >>= fun r =>
      .ret ⟨if r.1 then .overflow else .ok, tilePointer newBuf, r.2, held⟩
  else if grant .odometer then
    plan.mainLoop fuel >>= fun r =>
      .ret ⟨if r.1 then .overflow else .ok, tilePointer newBuf, r.2, if r.1 then [] else held⟩
  else .ret (untouched t .oom [])

namespace TileAllocation

variable {size : ℕ} {tile : Bytes} {newBuf : Option TileBuffer} {held : Ledger TileBuffer}

theorem held_eq (h : TileAllocation t size tile newBuf held) :
    held = (tilePointer newBuf).owned := by
  cases h <;> rfl

theorem buffer_eq (h : TileAllocation t size tile newBuf held) : tileBuffer t.dst size = some tile := by
  cases h with
  | caller given => rw [given]; rfl
  | new given room => rw [given, tileBuffer, malloc, if_pos room]

theorem allocated (h : TileAllocation t size tile newBuf held) : t.dst = none → size ≤ offMax := by
  cases h with
  | caller given => exact fun none => nomatch given.symm.trans none
  | new given room => exact fun _ => room

theorem pointer_ne_null (newBuf : Option TileBuffer) : tilePointer newBuf ≠ .null := by
  cases newBuf <;> nofun

/-- The buffer is released where the read failed. -/
theorem cleanup_failed (h : TileAllocation t size tile newBuf held) {err : NdarrayErr}
    (bad : err ≠ .ok) :
    readCleanup false newBuf none none (untouched t err held) = .ret (untouched t err []) := by
  cases h <;> simp [readCleanup, untouched, bad, Ledger.release]

theorem cleanup_failed_strides (h : TileAllocation t size tile newBuf held) {err : NdarrayErr}
    (bad : err ≠ .ok) :
    readCleanup false newBuf (some .strides) none (untouched t err (held.acquire .strides)) =
      .ret (untouched t err []) := by
  cases h <;> simp [readCleanup, untouched, bad, Ledger.release, Ledger.acquire]

/-- The end of the one-dimensional path. -/
theorem cleanup_flat (h : TileAllocation t size tile newBuf held) (overflow : Bool) (bytes : Bytes) :
    readCleanup overflow newBuf (some .strides) none
        ⟨if overflow then .overflow else .ok, tilePointer newBuf, bytes, held.acquire .strides⟩ =
      .ret ⟨if overflow then .overflow else .ok, tilePointer newBuf, bytes, held⟩ := by
  cases h <;> cases overflow <;> simp [readCleanup, Ledger.release, Ledger.acquire]

/-- The end of the main loop: an overflow has a new buffer released, though `*dst`
points to it. -/
theorem cleanup_rows (h : TileAllocation t size tile newBuf held) (overflow : Bool) (bytes : Bytes) :
    readCleanup false newBuf (some .strides) (some .odometer)
        ⟨if overflow then .overflow else .ok, tilePointer newBuf, bytes,
          (held.acquire .strides).acquire .odometer⟩ =
      .ret ⟨if overflow then .overflow else .ok, tilePointer newBuf, bytes,
        if overflow then [] else held⟩ := by
  cases h <;> cases overflow <;> simp [readCleanup, Ledger.release, Ledger.acquire]

theorem convertTile_eq (h : TileAllocation t size tile newBuf held) (plan : TilePlan) :
    convertTile grant fuel t plan newBuf (held.acquire .strides) =
      convertedTile grant fuel t plan newBuf held := by
  unfold convertTile convertedTile
  by_cases flat : plan.is1d = true
  · rw [if_pos flat, if_pos flat]
    cases plan.fastPath with
    | ret r => exact h.cleanup_flat r.1 r.2
    | fault e => rfl
    | timeout => rfl
  · rw [if_neg flat, if_neg flat]
    cases granted : grant .odometer with
    | false =>
      rw [allocate, granted]
      exact h.cleanup_failed_strides nofun
    | true =>
      rw [allocate, granted, if_pos rfl, if_pos rfl]
      cases plan.mainLoop fuel with
      | ret r => exact h.cleanup_rows r.1 r.2
      | fault e => rfl
      | timeout => rfl

theorem readRows_eq (h : TileAllocation t size tile newBuf held) (convert : ConvertFn) :
    readRows grant fuel a dstT t convert tile newBuf held =
      if grant .strides then
        readTileInitStrides a.shape a.ndim >>= fun
          | none => .ret (untouched t .outOfBounds [])
          | some strides => convertedTile grant fuel t
              (tilePlan a t.origin t.shape dstT t.dst convert tile strides) newBuf held
      else .ret (untouched t .oom []) := by
  unfold readRows
  cases granted : grant .strides with
  | false =>
    rw [allocate, granted]
    exact h.cleanup_failed nofun
  | true =>
    rw [allocate, granted, if_pos rfl, if_pos rfl]
    cases readTileInitStrides a.shape a.ndim with
    | ret r =>
      cases r with
      | none =>
        simp only [Outcome.ret_bind, Ledger.release_acquire]
        exact h.cleanup_failed nofun
      | some strides => exact h.convertTile_eq _
    | fault e => rfl
    | timeout => rfl

end TileAllocation

/-- A call with all the memory that it asks for, and what `readTileNdim` says of it. -/
def OwnedRead.view (r : OwnedRead) : ReadResult where
  err := r.err
  dst := if r.dst = .null then none else some r.bytes
  freed := decide (∃ b ∈ r.dst.owned, b ∉ r.held)

theorem view_untouched (t : TileRead) (err : NdarrayErr) :
    (untouched t err []).view = .failed err t.dst := by
  unfold untouched OwnedRead.view TileRead.pointer ReadResult.failed
  cases t.dst <;> rfl

/-! ## Every call settles -/

theorem Settled.untouched {err : NdarrayErr} (ok : err ≠ .ok) (overflow : err ≠ .overflow) :
    Settled pf a dstT t (untouched t err []) := .failed ok overflow rfl rfl

theorem tileChecks_error {err : NdarrayErr} (h : tileChecks pf a dstT t = .error err) :
    err ≠ .ok ∧ err ≠ .overflow := by
  unfold tileChecks at h
  split at h
  · cases h
    exact ⟨nofun, nofun⟩
  · split at h
    · cases h
      exact ⟨nofun, nofun⟩
    · split at h
      · cases h
        exact ⟨nofun, nofun⟩
      · split at h
        · cases h
          exact ⟨nofun, nofun⟩
        · cases h

/-- A tile without elements is held by any buffer. -/
theorem holdsTile_empty (bytes : Bytes) (target : 0 < (destDatatype a dstT).size)
    (empty : tileBytes a t.shape dstT = 0) : HoldsTile pf a dstT t bytes := by
  have none : ∀ k, ¬ TileIndex a t.shape k := by
    rintro k ⟨dims, inside⟩
    have positive := Nat.mul_pos target (Nat.zero_lt_of_lt (position_lt inside))
    rw [tileBytes, tileElems, if_neg (Nat.ne_of_gt dims)] at empty
    omega
  exact ⟨by omega, fun k at_ => absurd at_ (none k), fun k at_ => absurd at_ (none k)⟩

/-- The tile after its last row. -/
theorem holdsTile_filled {plan : TilePlan} (inBox : plan.InBox a.shape) (hshape : plan.shape = t.shape)
    (hndim : plan.ndim = a.ndim) (helsize : plan.dstElsize = (destDatatype a dstT).size)
    (horigin : plan.origin = t.origin)
    (elem : ∀ k, Inside t.shape.nat k a.ndim → plan.convert.elem (plan.source a.shape k) =
      tileElement pf a dstT fun d => t.origin.nat d + k d)
    {overflow : Bool} {bytes : Bytes} (after : plan.AfterRow a.shape (plan.rows - 1) overflow bytes) :
    HoldsTile pf a dstT t bytes := by
  have dims := inBox.dims
  have rowCount : plan.rows = volume t.shape.nat (a.ndim - 1) := by
    rw [TilePlan.rows, TilePlan.innerDim, hshape, hndim]
  refine ⟨?_, ?_, ?_⟩
  · have length := after.length.trans inBox.tile
    rw [hshape, hndim, helsize] at length
    rw [length, tileBytes, tileElems, if_neg (by omega)]
  · rintro k ⟨-, inside⟩ d lt
    have bound := inBox.bounds d (by omega)
    have less := inside d lt
    rw [hshape, horigin] at bound
    omega
  · rintro k ⟨-, inside⟩
    have below : Inside t.shape.nat k (a.ndim - 1) := fun d lt => inside d (by omega)
    have row := position_lt below
    have pos := inBox.rows_pos
    have filled := after.filled k (by rwa [hshape, hndim]) (by
      rw [hshape, TilePlan.innerDim, hndim]
      omega)
    rw [helsize, hshape, hndim, elem k inside] at filled
    exact filled

/-- The plan of a read that has got its buffer. -/
theorem TileAllocation.prepareTile_eq {tile : Bytes} {newBuf : Option TileBuffer}
    {held : Ledger TileBuffer} {convert : ConvertFn}
    (h : TileAllocation t (tileSize a t.shape (destDatatype a dstT)).toNat tile newBuf held)
    (checks : tileChecks pf a dstT t = .ok convert)
    (some_ : ¬ (a.ndim = 0 ∨ tileSize a t.shape (destDatatype a dstT) = 0)) :
    prepareTile pf a t.origin t.shape dstT t.dst =
      (readTileInitStrides a.shape a.ndim >>= fun
        | none => .ret (.inl (.failed .outOfBounds t.dst))
        | some strides =>
          .ret (.inr (tilePlan a t.origin t.shape dstT t.dst convert tile strides))) := by
  rw [prepareTile_eq_checks, checks, h.buffer_eq]
  exact if_neg some_

/-- The conversion settles, once the strides are known. -/
theorem convertedTile_settles {tile : Bytes} {newBuf : Option TileBuffer} {held : Ledger TileBuffer}
    {convert : ConvertFn} {strides : ℕ → ℕ} {size : ℕ}
    (h : TileAllocation t size tile newBuf held) (on : ReadsOn pf a t.origin t.shape dstT t.dst)
    (required : Required a t.shape dstT t.dst) (when_ : TileSettles pf a dstT t)
    (prepared : prepareTile pf a t.origin t.shape dstT t.dst =
      .ret (.inr (tilePlan a t.origin t.shape dstT t.dst convert tile strides))) :
    Outcome.wp (fun _ => False) (¬ t.Enough a fuel) (Settled pf a dstT t)
      (convertedTile grant fuel t (tilePlan a t.origin t.shape dstT t.dst convert tile strides)
        newBuf held) := by
  have converts : Converts pf a dstT t := ⟨on, (readSafe_iff required).mpr when_.range⟩
  obtain ⟨f, tile', strides', prepared', inBox, rows, elem⟩ := converts.plan
  have same := Sum.inr.inj (Outcome.ret.inj (prepared.symm.trans prepared'))
  obtain rfl : convert = f := congrArg TilePlan.convert same
  obtain rfl : tile = tile' := congrArg TilePlan.tile same
  obtain rfl : strides = strides' := congrArg TilePlan.strides same
  have reported (overflow : Bool) :
      (if overflow then NdarrayErr.overflow else .ok) = .ok ∨
        (if overflow then NdarrayErr.overflow else .ok) = .overflow := by
    cases overflow <;> simp
  unfold convertedTile
  by_cases flat : (tilePlan a t.origin t.shape dstT t.dst convert tile strides).is1d = true
  · obtain ⟨overflow, bytes, ret, after⟩ := inBox.fastPath_ret rows flat
    rw [if_pos flat, ret]
    exact .read (reported overflow) (TileAllocation.pointer_ne_null newBuf)
      (holdsTile_filled inBox rfl rfl rfl rfl elem after) h.held_eq
  · rw [if_neg flat]
    have more := TilePlan.innerDim_pos flat
    split
    · by_cases enough : t.Enough a fuel
      · obtain ⟨overflow, bytes, ret, after⟩ := inBox.mainLoop_ret rows more enough
        rw [ret]
        apply Settled.read (reported overflow) (TileAllocation.pointer_ne_null newBuf)
          (holdsTile_filled inBox rfl rfl rfl rfl elem after)
        cases overflow with
        | false => exact h.held_eq
        | true =>
          cases h with
          | caller given => rfl
          | new given room =>
            apply absurd _ (when_.last on given _)
            · exact (rowOverflows_iff inBox rfl rfl elem).mp (after.overflow.mp rfl)
            · by_contra thin
              push Not at thin
              exact flat (TilePlan.is1d_iff.mpr thin)
      · have out := (inBox.mainLoop_timeout_iff rows more fuel).mpr (by
          unfold TileRead.Enough at enough
          exact Nat.lt_of_not_le enough)
        rw [out]
        exact enough
    · exact .untouched nofun nofun

/-- A call on a tile that meets the condition, whichever allocations succeed. -/
theorem readTileBuffers_settles (required : Required a t.shape dstT t.dst)
    (when_ : TileSettles pf a dstT t) (grant : TileBuffer → Bool) (fuel : ℕ) :
    Outcome.wp (fun _ => False) (¬ t.Enough a fuel) (Settled pf a dstT t)
      (readTileBuffers grant fuel pf a dstT t) := by
  unfold readTileBuffers
  cases checks : tileChecks pf a dstT t with
  | error err =>
    obtain ⟨ok, overflow⟩ := tileChecks_error checks
    exact .untouched ok overflow
  | ok convert =>
  cases buffer : allocateTile grant a dstT t with
  | none => exact .untouched (by rintro ⟨⟩) (by rintro ⟨⟩)
  | some r =>
  obtain ⟨tile, newBuf, held⟩ := r
  have alloc := allocateTile_cases buffer
  have ok := tileChecks_ok checks alloc.allocated
  dsimp only
  by_cases empty : a.ndim = 0 ∨ tileSize a t.shape (destDatatype a dstT) = 0
  · have none : tileBytes a t.shape dstT = 0 := by
      rcases empty with zero | zero
      · rw [tileBytes, tileElems, if_pos zero, Nat.mul_zero]
      · exact when_.empty ok zero
    rw [if_pos empty]
    exact .read (.inl rfl) (TileAllocation.pointer_ne_null newBuf)
      (holdsTile_empty tile ok.dstElsize none) alloc.held_eq
  · have prepared := alloc.prepareTile_eq checks empty
    obtain ⟨dims, nonempty⟩ := not_or.mp empty
    rw [if_neg empty, alloc.readRows_eq]
    split
    · have on (strides : readTileInitStrides a.shape a.ndim ≠ .ret none) :
          ReadsOn pf a t.origin t.shape dstT t.dst := ⟨ok, Nat.pos_of_ne_zero dims, nonempty, strides⟩
      cases strides : readTileInitStrides a.shape a.ndim with
      | timeout => exact absurd strides (readTileInitStrides_ne_timeout _ _)
      | fault e =>
        rw [strides] at prepared on
        obtain ⟨_, _, _, prepared', -⟩ := Converts.plan
          ⟨on (by rintro ⟨⟩), (readSafe_iff required).mpr when_.range⟩
        cases prepared.symm.trans prepared'
      | ret r =>
        rw [strides] at prepared on
        cases r with
        | none => exact .untouched (by rintro ⟨⟩) (by rintro ⟨⟩)
        | some strides => exact convertedTile_settles alloc (on (by rintro ⟨⟩)) required when_ prepared
    · exact .untouched (by rintro ⟨⟩) (by rintro ⟨⟩)

/-! ## With all the memory that is asked for -/

theorem finish_view {tile : Bytes} {newBuf : Option TileBuffer} {held : Ledger TileBuffer} {size : ℕ}
    (h : TileAllocation t size tile newBuf held) {plan : TilePlan} (new : plan.newBuf = t.dst.isNone) :
    plan.finish fuel = convertedTile (fun _ => true) fuel t plan newBuf held >>= fun r =>
      .ret r.view := by
  have flatView (overflow : Bool) (bytes : Bytes) :
      (⟨if overflow then .overflow else .ok, tilePointer newBuf, bytes, held⟩ : OwnedRead).view =
        ⟨if overflow then .overflow else .ok, some bytes, false⟩ := by
    cases h <;> rfl
  have rowsView (overflow : Bool) (bytes : Bytes) :
      (⟨if overflow then .overflow else .ok, tilePointer newBuf, bytes,
        if overflow then [] else held⟩ : OwnedRead).view =
        ⟨if overflow then .overflow else .ok, some bytes, overflow && plan.newBuf⟩ := by
    rw [new]
    cases h with
    | caller given => rw [given]; cases overflow <;> rfl
    | new given room => rw [given]; cases overflow <;> rfl
  unfold convertedTile
  by_cases flat : plan.is1d = true
  · rw [TilePlan.finish_of_flat flat, if_pos flat]
    cases plan.fastPath with
    | ret r => exact congrArg Outcome.ret (flatView r.1 r.2).symm
    | fault e => rfl
    | timeout => rfl
  · rw [TilePlan.finish_of_rows flat, if_neg flat, if_pos rfl]
    cases plan.mainLoop fuel with
    | ret r => exact congrArg Outcome.ret (rowsView r.1 r.2).symm
    | fault e => rfl
    | timeout => rfl

/-- The function that reads tiles, seen through what it does with its buffers. -/
theorem readTileBuffers_granted (fuel : ℕ) (pf : Platform) (a : Ndarray) (dstT : ScalarDatatype)
    (t : TileRead) :
    t.run pf a dstT fuel =
      readTileBuffers (fun _ => true) fuel pf a dstT t >>= fun r => .ret r.view := by
  unfold readTileBuffers
  rw [TileRead.run, readTileNdim, prepareTile_eq_checks]
  cases checks : tileChecks pf a dstT t with
  | error err => exact congrArg Outcome.ret (view_untouched t err).symm
  | ok convert =>
  cases buffer : allocateTile (fun _ => true) a dstT t with
  | none =>
    have huge : tileBuffer t.dst (tileSize a t.shape (destDatatype a dstT)).toNat = none := by
      unfold allocateTile at buffer
      cases given : t.dst with
      | some buf =>
        rw [given] at buffer
        cases buffer
      | none =>
        rw [given] at buffer
        unfold tileBuffer
        cases room : malloc (tileSize a t.shape (destDatatype a dstT)).toNat with
        | none => rfl
        | some bytes =>
          rw [room] at buffer
          cases buffer
    rw [huge]
    exact congrArg Outcome.ret (view_untouched t .oom).symm
  | some r =>
  obtain ⟨tile, newBuf, held⟩ := r
  have alloc := allocateTile_cases buffer
  dsimp only
  rw [alloc.buffer_eq]
  by_cases empty : a.ndim = 0 ∨ tileSize a t.shape (destDatatype a dstT) = 0
  · rw [if_pos empty]
    dsimp only
    rw [if_pos empty]
    cases alloc <;> rfl
  · dsimp only
    rw [if_neg empty, if_neg empty, alloc.readRows_eq, if_pos rfl]
    cases readTileInitStrides a.shape a.ndim with
    | timeout => rfl
    | fault e => rfl
    | ret r =>
      cases r with
      | none => exact congrArg Outcome.ret (view_untouched t .outOfBounds).symm
      | some strides => exact finish_view alloc rfl

/-! ## What a settled read says of the tile -/

/-- A result of `readTileNdim` is the view of one that is settled. -/
theorem ReadSettles.view (h : ReadSettles pf a dstT t) {r : ReadResult}
    (run : t.run pf a dstT fuel = .ret r) : ∃ o, OwnedRead.view o = r ∧ Settled pf a dstT t o := by
  rw [readTileBuffers_granted] at run
  obtain ⟨o, ret, view⟩ := Outcome.bind_eq_ret.mp run
  cases view
  exact ⟨o, rfl, h.result _ _ o ret⟩

/-- One that says that it has read the tile has it. -/
theorem ReadSettles.holds (h : ReadSettles pf a dstT t) {r : ReadResult}
    (run : t.run pf a dstT fuel = .ret r) (err : r.err = .ok ∨ r.err = .overflow) :
    r.freed = false ∧ ∃ bytes, r.dst = some bytes ∧ HoldsTile pf a dstT t bytes := by
  obtain ⟨o, rfl, settled⟩ := h.view run
  cases settled with
  | read _ dst tile held =>
    refine ⟨?_, o.bytes, if_neg dst, tile⟩
    apply decide_eq_false
    rw [held]
    rintro ⟨b, owned, lost⟩
    exact lost owned
  | failed ok overflow dst held => exact (err.elim ok overflow).elim

theorem finish_err {plan : TilePlan} {r : ReadResult} (h : plan.finish fuel = .ret r) :
    r.err = .ok ∨ r.err = .overflow := by
  have reported (overflow : Bool) :
      (if overflow then NdarrayErr.overflow else .ok) = .ok ∨
        (if overflow then NdarrayErr.overflow else .ok) = .overflow := by
    cases overflow <;> simp
  by_cases flat : plan.is1d = true
  · rw [TilePlan.finish_of_flat flat] at h
    obtain ⟨res, -, h⟩ := Outcome.bind_eq_ret.mp h
    cases h
    exact reported res.1
  · rw [TilePlan.finish_of_rows flat] at h
    obtain ⟨res, -, h⟩ := Outcome.bind_eq_ret.mp h
    cases h
    exact reported res.1

/-- A read with rounds for all rows returns. -/
theorem ReadSettles.run_ret (h : ReadSettles pf a dstT t) (enough : t.Enough a fuel) :
    ∃ r, t.run pf a dstT fuel = .ret r := by
  rw [readTileBuffers_granted]
  cases run : readTileBuffers (fun _ => true) fuel pf a dstT t with
  | ret r => exact ⟨_, rfl⟩
  | fault e => exact absurd run (h.runs _ _ e)
  | timeout => exact absurd run (h.returns _ _ enough)

theorem ReadSettles.plan_holds (h : ReadSettles pf a dstT t) {plan : TilePlan}
    (prepared : prepareTile pf a t.origin t.shape dstT t.dst = .ret (.inr plan)) :
    ∃ bytes, bytes.length = plan.tile.length ∧ HoldsTile pf a dstT t bytes := by
  obtain ⟨r, run⟩ := h.run_ret (Nat.le_refl _)
  have finish := run
  rw [TileRead.run, readTileNdim_of_plan prepared] at finish
  obtain ⟨-, bytes, dst, tile⟩ := h.holds run (finish_err finish)
  obtain ⟨buf, dst', length⟩ := TilePlan.finish_length finish
  cases dst.symm.trans dst'
  exact ⟨bytes, length, tile⟩

/-- Such a read is safe. -/
theorem ReadSettles.safe (h : ReadSettles pf a dstT t) (required : Required a t.shape dstT t.dst)
    (on : ReadsOn pf a t.origin t.shape dstT t.dst) :
    ReadSafe (t.run pf a dstT) (prepareTile pf a t.origin t.shape dstT t.dst) a t.origin t.shape
      dstT := by
  refine ⟨fun fuel e faults => ?_, fun plan prepared d lt => ?_, fun plan prepared => ?_⟩
  · rw [readTileBuffers_granted] at faults
    rcases Outcome.bind_eq_fault.mp faults with faults | ⟨r, -, faults⟩
    · exact h.runs _ _ e faults
    · cases faults
  · obtain ⟨bytes, -, tile⟩ := h.plan_holds prepared
    have extents := on.extent_pos
    have last := tile.inside (fun d => t.shape.nat d - 1)
      ⟨on.dims, fun d lt => Nat.sub_lt (extents d lt) Nat.one_pos⟩ d lt
    have := extents d lt
    omega
  · obtain ⟨bytes, length, tile⟩ := h.plan_holds prepared
    have room := tile.room
    rcases prepareTile_cases pf a t.origin t.shape dstT t.dst with
      ⟨off, -⟩ | ⟨-, f, buffer, -, given, ⟨strides, -, eq⟩ | ⟨e, -, eq⟩⟩
    · exact absurd on off
    · cases prepared.symm.trans eq
      cases dst : t.dst with
      | some buf =>
        rw [dst] at given required
        cases given
        exact required on.dims buf rfl
      | none =>
        rw [dst, tileBuffer, malloc, if_pos (on.allocated dst)] at given
        cases given
        have size : (tileSize a t.shape (destDatatype a dstT)).toNat ≤ tileBytes a t.shape dstT := by
          rw [tileSize_toNat]
          exact Nat.mod_le _ _
        change (List.replicate _ _).length = _
        change _ = (List.replicate _ _).length at length
        rw [List.length_replicate] at length ⊢
        omega
    · cases prepared.symm.trans eq

/-- What a tile of no bytes is. -/
theorem ReadSettles.empty (h : ReadSettles pf a dstT t) (required : Required a t.shape dstT t.dst)
    (ok : Checked pf a t.origin t.shape dstT t.dst)
    (zero : tileSize a t.shape (destDatatype a dstT) = 0) : tileBytes a t.shape dstT = 0 := by
  obtain ⟨f, tile, -, given, eq⟩ := ok.prepareTile_eq
  rw [if_pos (.inr zero)] at eq
  obtain ⟨-, bytes, dst, holds⟩ := h.holds (readTileNdim_of_result eq 0) (.inl rfl)
  cases dst
  have room := holds.room
  have size : (destDatatype a dstT).size * tileElems a t.shape % 2 ^ 64 = 0 := by
    rw [← tileSize_toNat, zero]
    rfl
  cases dst : t.dst with
  | none =>
    rw [dst, zero] at given
    cases given
    exact Nat.eq_zero_of_le_zero room
  | some buf =>
    by_cases dims : a.ndim = 0
    · rw [tileBytes, tileElems, if_pos dims, Nat.mul_zero]
    · have length := required (Nat.pos_of_ne_zero dims) buf dst
      have le := buf.size_le
      have small : offMax < 2 ^ 64 := by decide
      rw [← size]
      apply (Nat.mod_eq_of_lt _).symm
      exact Nat.lt_of_le_of_lt (length ▸ le) small

/-- A read settles its buffers, whichever of its allocations succeed, just if the
tile is in range and no overflow in its last row has a new buffer released. -/
theorem tile_ownership (required : Required a t.shape dstT t.dst) :
    ReadSettles pf a dstT t ↔ TileSettles pf a dstT t := by
  constructor
  · intro h
    have range (on : ReadsOn pf a t.origin t.shape dstT t.dst) :
        InRange a t.origin t.shape dstT :=
      (readSafe_iff required).mp (h.safe required on) on
    refine ⟨h.empty required, range, fun on given wide clamps => ?_⟩
    obtain ⟨f, tile, strides, prepared, inBox, rows, elem⟩ :=
      Converts.plan (t := t) ⟨on, h.safe required on⟩
    obtain ⟨overflow, buf, ret, after⟩ := inBox.finish_ret rows (Nat.le_refl _)
    have run := (readTileNdim_of_plan prepared _).trans ret
    have reported : overflow = true :=
      after.overflow.mpr ((rowOverflows_iff inBox rfl rfl elem).mpr clamps)
    have flat : (tilePlan a t.origin t.shape dstT t.dst f tile strides).is1d = false := by
      rw [Bool.eq_false_iff]
      intro flat
      obtain ⟨d, lt, ne⟩ := wide
      exact ne (TilePlan.is1d_iff.mp flat d lt)
    have new : (tilePlan a t.origin t.shape dstT t.dst f tile strides).newBuf = true := by
      change t.dst.isNone = true
      rw [given]
      rfl
    rw [reported, flat, new] at run
    obtain ⟨live, -⟩ := h.holds run (.inr rfl)
    cases live
  · intro when_
    have settles := readTileBuffers_settles required when_
    refine ⟨fun grant fuel e faults => ?_, fun grant fuel enough out => ?_, fun grant fuel r ret => ?_⟩
    · have := settles grant fuel
      rw [faults] at this
      exact this
    · have := settles grant fuel
      rw [out] at this
      exact this enough
    · exact Outcome.wp_of_ret (settles grant fuel) ret

theorem tile_ownership_grid : ReadSettles x86 grid .int8 wholeGrid := by
  have required := wholeGrid_converts.required
  apply (tile_ownership required).mpr
  refine ⟨fun _ zero => ?_, (readSafe_iff required).mp wholeGrid_converts.2, fun _ given => ?_⟩
  · exact absurd zero (by decide)
  · cases given

/-- `grid` as `int8` in a new buffer, which is given to the caller and released. -/
theorem grid_released : ¬ ReadSettles x86 grid .int8 { wholeGrid with dst := none } := by
  intro settles
  have run : readTileBuffers (fun _ => true) 2 x86 grid .int8 { wholeGrid with dst := none } =
      .ret ⟨.overflow, .tile, [1, 2, 3, 127], []⟩ := by decide +kernel
  cases settles.result _ _ _ run with
  | read _ _ _ held => cases held
  | failed _ overflow => exact overflow rfl

end LibAsdf
