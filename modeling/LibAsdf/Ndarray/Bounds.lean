import LibAsdf.Ndarray.Tile
import Mathlib.Data.UInt

/-!
# What a read touches

`ReadsOn` says when `asdf_ndarray_read_tile_ndim` goes on to convert elements:
all its checks, made modulo `2 ^ 64`, have passed. `InRange` is what they should
have said.

* `prepareTile_cases`: the checks, and the plan they lead to;
* `ReadsOn.plan`: with sums that do not wrap, the plan is one for a tile inside
  its array;
* `read_bounds`: a read is safe just if one that goes on is in range.
-/

namespace LibAsdf

open RowMajor

/-! ## Strides -/

/-- Without empty dimensions the strides are those of the array, or are refused
because one of them does not fit `int64_t`. -/
theorem stridesFrom_spec {shape : Extents} {n : ℕ} (pos : ∀ d < n, 0 < shape.nat d) :
    ∀ (dim : ℕ) (strides : ℕ → ℕ), dim < n →
      (∀ d < n, dim ≤ d → strides d = stride shape.nat d n) →
      (∃ s, stridesFrom shape dim strides = .ret (some s) ∧ ∀ d < n, s d = stride shape.nat d n) ∨
        stridesFrom shape dim strides = .ret none ∧ int64Max < volume shape.nat n := by
  intro dim
  induction dim with
  | zero =>
    intro strides lt known
    exact .inl ⟨strides, rfl, fun d less => known d less (Nat.zero_le d)⟩
  | succ dim ih =>
    intro strides lt known
    have here : strides (dim + 1) = stride shape.nat (dim + 1) n := known _ lt (Nat.le_refl _)
    have whole : volume shape.nat (dim + 1 + 1) * strides (dim + 1) = volume shape.nat n := by
      rw [here]
      exact volume_mul_stride shape.nat lt
    have nonzero : 0 < strides (dim + 1) :=
      Nat.pos_of_mul_pos_left (whole ▸ volume_pos pos)
    have below : stride shape.nat dim n = strides (dim + 1) * (shape (dim + 1)).toNat := by
      rw [here]
      exact stride_down shape.nat lt
    unfold stridesFrom
    dsimp only
    rw [if_neg (Nat.ne_of_gt nonzero)]
    by_cases large : (shape (dim + 1)).toNat > int64Max / strides (dim + 1)
    · rw [if_pos large]
      refine .inr ⟨rfl, ?_⟩
      calc int64Max < (shape (dim + 1)).toNat * strides (dim + 1) :=
            (Nat.div_lt_iff_lt_mul nonzero).mp large
        _ = stride shape.nat dim n := by rw [below, Nat.mul_comm]
        _ ≤ volume shape.nat n := stride_le_volume (by omega) pos
    · rw [if_neg large]
      apply ih _ (by omega)
      intro d less ge
      by_cases same : d = dim
      · subst same
        rw [Function.update_self]
        exact below.symm
      · rw [Function.update_of_ne same]
        exact known d less (by omega)

theorem readTileInitStrides_spec {shape : Extents} {n : ℕ} (dims : 0 < n)
    (pos : ∀ d < n, 0 < shape.nat d) :
    (∃ s, readTileInitStrides shape n = .ret (some s) ∧ ∀ d < n, s d = stride shape.nat d n) ∨
      readTileInitStrides shape n = .ret none ∧ int64Max < volume shape.nat n := by
  apply stridesFrom_spec pos _ _ (by omega)
  intro d less ge
  have last : d = n - 1 := by omega
  have eq : n = d + 1 := by omega
  rw [last, Function.update_self, ← last, eq, stride_last]

theorem stridesFrom_ne_timeout (shape : Extents) (dim : ℕ) (strides : ℕ → ℕ) :
    stridesFrom shape dim strides ≠ .timeout := by
  induction dim generalizing strides with
  | zero => nofun
  | succ dim ih =>
    unfold stridesFrom
    dsimp only
    split
    · nofun
    · split
      · nofun
      · exact ih _

theorem readTileInitStrides_ne_timeout (shape : Extents) (n : ℕ) :
    readTileInitStrides shape n ≠ .timeout := stridesFrom_ne_timeout _ _ _

/-! ## The checks -/

def tileSize (a : Ndarray) (shape : Extents) (t : ScalarDatatype) : UInt64 :=
  UInt64.ofNat t.size * tileNelems a shape

/-- The conversion function that a read of `a` uses. -/
def readConvertFn (pf : Platform) (a : Ndarray) (dstT : ScalarDatatype) : Option ConvertFn :=
  getConvertFn pf a.datatype (destDatatype a dstT) (shouldByteswap pf a.datatype.size a.byteorder)

/-- The checks on the arguments pass, and there is a buffer. -/
structure Checked (pf : Platform) (a : Ndarray) (origin shape : Extents) (dstT : ScalarDatatype)
    (dst : Option Object) : Prop where
  srcElsize : 0 < a.datatype.size
  dstElsize : 0 < (destDatatype a dstT).size
  bounds : checkBounds a origin shape = true
  coversTile : (tileSize a shape a.datatype).toNat ≤ a.data.bytes.length
  coversArray : (ndarrayNbytes a).toNat ≤ a.data.bytes.length
  supported : (readConvertFn pf a dstT).isSome = true
  allocated : dst = none → (tileSize a shape (destDatatype a dstT)).toNat ≤ offMax

/-- The read goes on to the conversion, or to a division by zero in the strides. -/
structure ReadsOn (pf : Platform) (a : Ndarray) (origin shape : Extents) (dstT : ScalarDatatype)
    (dst : Option Object) : Prop extends Checked pf a origin shape dstT dst where
  dims : 0 < a.ndim
  nonempty : tileSize a shape (destDatatype a dstT) ≠ 0
  strides : readTileInitStrides a.shape a.ndim ≠ .ret none

/-- The plan that the checks lead to. -/
def tilePlan (a : Ndarray) (origin shape : Extents) (dstT : ScalarDatatype) (dst : Option Object)
    (convert : ConvertFn) (tile : Bytes) (strides : Nat → Nat) : TilePlan :=
  { ndim := a.ndim
    origin := origin
    shape := shape
    strides := strides
    srcElsize := a.datatype.size
    dstElsize := (destDatatype a dstT).size
    nelems := tileNelems a shape
    convert := convert
    data := a.data.bytes
    tile := tile
    newBuf := dst.isNone
    offset := tileOffset origin strides a.ndim a.datatype.size }

variable {pf : Platform} {a : Ndarray} {origin shape : Extents} {dstT : ScalarDatatype}
  {dst : Option Object}

theorem tileBuffer_isSome {size : ℕ} :
    (tileBuffer dst size).isSome = true ↔ (dst = none → size ≤ offMax) := by
  cases dst with
  | some buf => simp [tileBuffer]
  | none =>
    rw [tileBuffer, malloc]
    by_cases room : size ≤ offMax
    · simp [room]
    · simp [room]

theorem prepareTile_unchecked (failed : ¬ Checked pf a origin shape dstT dst) :
    ∃ r, prepareTile pf a origin shape dstT dst = .ret (.inl r) := by
  unfold prepareTile
  dsimp only
  by_cases elsize : a.datatype.size < 1 ∨ (destDatatype a dstT).size < 1
  · rw [if_pos elsize]
    exact ⟨_, rfl⟩
  rw [if_neg elsize]
  cases bounds : checkBounds a origin shape with
  | false => exact ⟨_, rfl⟩
  | true =>
  rw [if_neg (by decide)]
  by_cases covers : a.data.bytes.length < (tileSize a shape a.datatype).toNat ∨
      a.data.bytes.length < (ndarrayNbytes a).toNat
  · exact ⟨_, if_pos covers⟩
  rw [if_neg (by exact covers)]
  cases convert : readConvertFn pf a dstT with
  | none =>
    unfold readConvertFn at convert
    rw [convert]
    exact ⟨_, rfl⟩
  | some f =>
    have supported : (readConvertFn pf a dstT).isSome = true := by rw [convert]; rfl
    unfold readConvertFn at convert
    rw [convert]
    cases buffer : tileBuffer dst (tileSize a shape (destDatatype a dstT)).toNat with
    | none =>
      unfold tileSize at buffer
      rw [buffer]
      exact ⟨_, rfl⟩
    | some tile =>
      refine absurd ?_ failed
      exact
        { srcElsize := by omega
          dstElsize := by omega
          bounds := bounds
          coversTile := by omega
          coversArray := by omega
          supported := supported
          allocated := tileBuffer_isSome.mp (by rw [buffer]; rfl) }

/-- What the checks leave to do. -/
theorem Checked.prepareTile_eq (ok : Checked pf a origin shape dstT dst) :
    ∃ f tile, readConvertFn pf a dstT = some f ∧
      tileBuffer dst (tileSize a shape (destDatatype a dstT)).toNat = some tile ∧
      prepareTile pf a origin shape dstT dst =
        if a.ndim = 0 ∨ tileSize a shape (destDatatype a dstT) = 0 then
          .ret (.inl { err := .ok, dst := some tile, freed := false })
        else readTileInitStrides a.shape a.ndim >>= fun
          | none => .ret (.inl (.failed .outOfBounds dst))
          | some strides => .ret (.inr (tilePlan a origin shape dstT dst f tile strides)) := by
  obtain ⟨f, convert⟩ := Option.isSome_iff_exists.mp ok.supported
  obtain ⟨tile, buffer⟩ := Option.isSome_iff_exists.mp (tileBuffer_isSome.mpr ok.allocated)
  refine ⟨f, tile, convert, buffer, ?_⟩
  have covers : ¬ (a.data.bytes.length < (tileSize a shape a.datatype).toNat ∨
      a.data.bytes.length < (ndarrayNbytes a).toNat) := by
    have := ok.coversTile
    have := ok.coversArray
    omega
  have elsize : ¬ (a.datatype.size < 1 ∨ (destDatatype a dstT).size < 1) := by
    have := ok.srcElsize
    have := ok.dstElsize
    omega
  unfold readConvertFn at convert
  unfold tileSize at buffer covers
  unfold prepareTile
  dsimp only
  rw [if_neg elsize, ok.bounds, if_neg (by decide), if_neg covers, convert]
  dsimp only
  rw [buffer]
  rfl

theorem prepareTile_cases (pf : Platform) (a : Ndarray) (origin shape : Extents)
    (dstT : ScalarDatatype) (dst : Option Object) :
    (¬ ReadsOn pf a origin shape dstT dst ∧
      ∃ r, prepareTile pf a origin shape dstT dst = .ret (.inl r)) ∨
    (ReadsOn pf a origin shape dstT dst ∧
      ∃ f tile, readConvertFn pf a dstT = some f ∧
        tileBuffer dst (tileSize a shape (destDatatype a dstT)).toNat = some tile ∧
        ((∃ strides, readTileInitStrides a.shape a.ndim = .ret (some strides) ∧
          prepareTile pf a origin shape dstT dst =
            .ret (.inr (tilePlan a origin shape dstT dst f tile strides))) ∨
        ∃ e, readTileInitStrides a.shape a.ndim = .fault e ∧
          prepareTile pf a origin shape dstT dst = .fault e)) := by
  by_cases ok : Checked pf a origin shape dstT dst
  · obtain ⟨f, tile, convert, buffer, eq⟩ := ok.prepareTile_eq
    by_cases empty : a.ndim = 0 ∨ tileSize a shape (destDatatype a dstT) = 0
    · rw [if_pos empty] at eq
      refine .inl ⟨fun on => ?_, _, eq⟩
      exact empty.elim (Nat.ne_of_gt on.dims) on.nonempty
    · rw [if_neg empty] at eq
      obtain ⟨dims, nonempty⟩ := not_or.mp empty
      have on (strides : readTileInitStrides a.shape a.ndim ≠ .ret none) :
          ReadsOn pf a origin shape dstT dst := ⟨ok, Nat.pos_of_ne_zero dims, nonempty, strides⟩
      cases strides : readTileInitStrides a.shape a.ndim with
      | timeout => exact absurd strides (readTileInitStrides_ne_timeout _ _)
      | fault e =>
        rw [strides] at eq on
        exact .inr ⟨on nofun, f, tile, convert, buffer, .inr ⟨e, rfl, eq⟩⟩
      | ret r =>
        rw [strides] at eq
        cases r with
        | none => exact .inl ⟨fun on => on.strides strides, _, eq⟩
        | some s =>
          rw [strides] at on
          exact .inr ⟨on nofun, f, tile, convert, buffer, .inl ⟨s, rfl, eq⟩⟩
  · exact .inl ⟨fun on => ok on.toChecked, prepareTile_unchecked ok⟩

/-! ## The exact conditions -/

/-- The elements of a tile; an array without dimensions has none. -/
def tileElems (a : Ndarray) (shape : Extents) : ℕ :=
  if a.ndim = 0 then 0 else volume shape.nat a.ndim

/-- The bytes of a tile, not reduced modulo `2 ^ 64`. -/
def tileBytes (a : Ndarray) (shape : Extents) (dstT : ScalarDatatype) : ℕ :=
  (destDatatype a dstT).size * tileElems a shape

/-- A buffer of the caller has room for the tile, and no more. -/
def Required (a : Ndarray) (shape : Extents) (dstT : ScalarDatatype) (dst : Option Object) : Prop :=
  0 < a.ndim → ∀ buf, dst = some buf → buf.bytes.length = tileBytes a shape dstT

/-- Where the row of `k` begins in the data, in bytes. -/
def rowOffset (a : Ndarray) (origin : Extents) (k : ℕ → ℕ) : ℕ :=
  a.datatype.size * place a.shape origin a.ndim (outer a.ndim k)

/-- The tile lies in its array and in its buffer, and its rows, at addresses
modulo `2 ^ 64`, lie in the data. -/
structure InRange (a : Ndarray) (origin shape : Extents) (dstT : ScalarDatatype) : Prop where
  sums : ∀ d < a.ndim, origin.nat d + shape.nat d < 2 ^ 64
  bytes : tileBytes a shape dstT < 2 ^ 64
  rows : ∀ k, Inside shape.nat k (a.ndim - 1) →
    rowOffset a origin k % 2 ^ 64 + shape.nat (a.ndim - 1) * a.datatype.size ≤ a.data.bytes.length

theorem tileNelems_toNat (a : Ndarray) (shape : Extents) :
    (tileNelems a shape).toNat = tileElems a shape % 2 ^ 64 := by
  unfold tileNelems tileElems
  by_cases dims : a.ndim = 0
  · rw [if_neg (by omega), if_pos dims]
    rfl
  · rw [if_pos (by omega), if_neg dims]
    exact extentsProduct_toNat shape a.ndim

theorem tileSize_toNat (a : Ndarray) (shape : Extents) (t : ScalarDatatype) :
    (tileSize a shape t).toNat = t.size * tileElems a shape % 2 ^ 64 := by
  rw [tileSize, UInt64.toNat_mul, UInt64.toNat_ofNat', tileNelems_toNat, Nat.mod_mul_mod,
    Nat.mul_mod_mod]

theorem ReadsOn.elems (on : ReadsOn pf a origin shape dstT dst) :
    tileElems a shape = volume shape.nat a.ndim := if_neg (Nat.ne_of_gt on.dims)

/-- A tile that is read has no empty dimension. -/
theorem ReadsOn.extent_pos (on : ReadsOn pf a origin shape dstT dst) :
    ∀ d < a.ndim, 0 < shape.nat d := by
  apply pos_of_volume_pos
  rw [← on.elems]
  apply Nat.pos_of_ne_zero
  intro zero
  apply on.nonempty
  apply UInt64.toNat_inj.mp
  rw [tileSize_toNat, zero, Nat.mul_zero]
  rfl

theorem ReadsOn.inside (on : ReadsOn pf a origin shape dstT dst)
    (sums : ∀ d < a.ndim, origin.nat d + shape.nat d < 2 ^ 64) :
    ∀ d < a.ndim, origin.nat d + shape.nat d ≤ a.shape.nat d := by
  intro d lt
  have check := of_decide_eq_true (List.all_eq_true.mp on.bounds d (List.mem_range.mpr lt))
  rw [UInt64.le_iff_toNat_le, UInt64.toNat_add] at check
  rwa [show (origin d).toNat + (shape d).toNat = origin.nat d + shape.nat d from rfl,
    Nat.mod_eq_of_lt (sums d lt)] at check

/-- What is left of the checks when nothing wraps: a plan for a tile inside its
array. -/
theorem ReadsOn.plan (on : ReadsOn pf a origin shape dstT dst)
    (sums : ∀ d < a.ndim, origin.nat d + shape.nat d < 2 ^ 64)
    (bytes : tileBytes a shape dstT < 2 ^ 64) (required : Required a shape dstT dst) :
    ∃ f tile strides, readConvertFn pf a dstT = some f ∧
      prepareTile pf a origin shape dstT dst =
        .ret (.inr (tilePlan a origin shape dstT dst f tile strides)) ∧
      (tilePlan a origin shape dstT dst f tile strides).InBox a.shape := by
  have inside := on.inside sums
  have extents := on.extent_pos
  rcases prepareTile_cases pf a origin shape dstT dst with ⟨off, -⟩ | ⟨-, f, tile, hf, hb, cases_⟩
  · exact absurd on off
  have boxes : ∀ d < a.ndim, 0 < a.shape.nat d := fun d lt => by
    have := inside d lt
    have := extents d lt
    omega
  have length : tile.length = tileBytes a shape dstT := by
    cases dst with
    | some buf =>
      cases hb
      exact required on.dims buf rfl
    | none =>
      unfold tileBuffer malloc at hb
      rw [if_pos (on.allocated rfl)] at hb
      cases hb
      rw [List.length_replicate, tileSize_toNat]
      exact Nat.mod_eq_of_lt bytes
  have known : ∃ s, readTileInitStrides a.shape a.ndim = .ret (some s) ∧
      ∀ d < a.ndim, s d = stride a.shape.nat d a.ndim := by
    rcases readTileInitStrides_spec on.dims boxes with ok | ⟨refused, -⟩
    · exact ok
    · exact absurd refused on.strides
  obtain ⟨s, hs, correct⟩ := known
  rcases cases_ with ⟨strides, hstrides, prepared⟩ | ⟨e, hstrides, -⟩
  · cases hs.symm.trans hstrides
    unfold tileBytes at length bytes
    rw [on.elems] at length bytes
    have regular := getConvertFn_regular hf
    have sizes := getConvertFn_sizes hf
    exact ⟨f, tile, s, hf, prepared,
      { dims := on.dims
        strides := correct
        bounds := inside
        nonempty := extents
        offset := rfl
        nelems := if_pos on.dims
        regular := regular
        srcSize := sizes.1
        dstSize := sizes.2
        dstElsize := on.dstElsize
        tile := length
        tile_lt := bytes }⟩
  · cases hs.symm.trans hstrides

/-- A read without faults (an access outside an object, or a division by zero),
which goes on to convert only a tile inside its array, into a buffer of the
tile's size. -/
structure ReadSafe (read : ℕ → Run ReadResult) (prepared : Run (ReadResult ⊕ TilePlan))
    (a : Ndarray) (origin shape : Extents) (dstT : ScalarDatatype) : Prop where
  runs : ∀ fuel e, read fuel ≠ .fault e
  bounds : ∀ plan, prepared = .ret (.inr plan) →
    ∀ d < a.ndim, origin.nat d + shape.nat d ≤ a.shape.nat d
  tile : ∀ plan, prepared = .ret (.inr plan) → plan.tile.length = tileBytes a shape dstT

theorem readTileNdim_of_plan {plan : TilePlan}
    (h : prepareTile pf a origin shape dstT dst = .ret (.inr plan)) (fuel : ℕ) :
    readTileNdim fuel pf a origin shape dstT dst = plan.finish fuel := by
  rw [readTileNdim, h]
  rfl

theorem readTileNdim_of_result {r : ReadResult}
    (h : prepareTile pf a origin shape dstT dst = .ret (.inl r)) (fuel : ℕ) :
    readTileNdim fuel pf a origin shape dstT dst = .ret r := by
  rw [readTileNdim, h]
  rfl

/-- The buffer of a plan is an object, so its size is less than `2 ^ 64`. -/
theorem tileBuffer_length_le {size : ℕ} {tile : Bytes} (h : tileBuffer dst size = some tile) :
    tile.length ≤ offMax := by
  cases dst with
  | some buf =>
    cases h
    exact buf.size_le
  | none =>
    rw [tileBuffer, malloc] at h
    split at h
    · cases h
      rwa [List.length_replicate]
    · cases h

theorem readSafe_iff (required : Required a shape dstT dst) :
    ReadSafe (readTileNdim · pf a origin shape dstT dst) (prepareTile pf a origin shape dstT dst)
        a origin shape dstT ↔
      (ReadsOn pf a origin shape dstT dst → InRange a origin shape dstT) := by
  rcases prepareTile_cases pf a origin shape dstT dst with ⟨off, r, eq⟩ | ⟨on, f, tile, -, buffer, run⟩
  · refine ⟨fun _ on => absurd on off, fun _ => ⟨fun fuel e => ?_, ?_, ?_⟩⟩
    · rw [readTileNdim_of_result eq]
      nofun
    · intro plan plans
      cases eq.symm.trans plans
    · intro plan plans
      cases eq.symm.trans plans
  constructor
  · intro safe _
    rcases run with ⟨strides, -, eq⟩ | ⟨e, -, eq⟩
    · have sums : ∀ d < a.ndim, origin.nat d + shape.nat d < 2 ^ 64 := fun d lt =>
        Nat.lt_of_le_of_lt (safe.bounds _ eq d lt) (a.shape d).toNat_lt
      have bytes : tileBytes a shape dstT < 2 ^ 64 := by
        have length := safe.tile _ eq
        have le := tileBuffer_length_le buffer
        rw [← length]
        exact Nat.lt_of_le_of_lt le (by decide)
      obtain ⟨f', tile', strides', -, eq', inBox⟩ := on.plan sums bytes required
      have reads := inBox.finish_no_fault_iff.mp fun fuel e => by
        rw [← readTileNdim_of_plan eq']
        exact safe.runs fuel e
      exact ⟨sums, bytes, reads⟩
    · exact absurd (by rw [readTileNdim, eq]; rfl) (safe.runs 0 e)
  · intro range
    have range := range on
    obtain ⟨f', tile', strides', -, eq', inBox⟩ := on.plan range.sums range.bytes required
    refine ⟨fun fuel e => ?_, fun _ _ => on.inside range.sums, fun plan plans => ?_⟩
    · rw [readTileNdim_of_plan eq']
      exact inBox.finish_no_fault_iff.mpr range.rows fuel e
    · cases eq'.symm.trans plans
      have length := inBox.tile
      rwa [tileBytes, on.elems]

/-- The element that `asdf_ndarray_read_at` reads, as a tile. -/
def unitShape : Extents := fun _ => 1

/-- A read of a tile, or of an element, is safe just if what passes the checks is
in range. -/
theorem read_bounds (pf : Platform) (a : Ndarray) (origin shape indices : Extents)
    (dstT : ScalarDatatype) (dst : Option Object) (elem : Object)
    (required : Required a shape dstT dst) (requiredElem : Required a unitShape dstT (some elem)) :
    (ReadSafe (readTileNdim · pf a origin shape dstT dst)
        (prepareTile pf a origin shape dstT dst) a origin shape dstT ↔
      (ReadsOn pf a origin shape dstT dst → InRange a origin shape dstT)) ∧
    (ReadSafe (readAt · pf a indices dstT elem)
        (prepareTile pf a indices unitShape dstT (some elem)) a indices unitShape dstT ↔
      (ReadsOn pf a indices unitShape dstT (some elem) → InRange a indices unitShape dstT)) := by
  refine ⟨readSafe_iff required, ?_⟩
  by_cases dims : a.ndim = 0
  · have off : ¬ ReadsOn pf a indices unitShape dstT (some elem) := fun on =>
      absurd on.dims (by omega)
    refine ⟨fun _ on => absurd on off, fun _ => ⟨fun fuel e => ?_, ?_, ?_⟩⟩
    · rw [readAt, if_pos dims]
      nofun
    all_goals
      intro plan plans
      rcases prepareTile_cases pf a indices unitShape dstT (some elem) with ⟨-, r, eq⟩ | ⟨on, -⟩
      · cases eq.symm.trans plans
      · exact absurd on off
  · have same : (readAt · pf a indices dstT elem) =
        (readTileNdim · pf a indices unitShape dstT (some elem)) := by
      funext fuel
      exact if_neg dims
    rw [same]
    exact readSafe_iff requiredElem

/-- Four bytes, which is all there is of the array, and a tile whose origin is
`2 ^ 64 - 1`: `origin + shape` wraps to zero, and the byte before the data is
read. -/
def wrappedOrigin : Ndarray :=
  { extents := [4], datatype := .uint8, byteorder := .little, offset := 0
    data := ⟨[1, 2, 3, 4], by decide⟩ }

theorem wrappedOrigin_unsafe :
    ¬ ReadSafe (readTileNdim · x86 wrappedOrigin (fun _ => 2 ^ 64 - 1) unitShape .uint8 none)
      (prepareTile x86 wrappedOrigin (fun _ => 2 ^ 64 - 1) unitShape .uint8 none)
      wrappedOrigin (fun _ => 2 ^ 64 - 1) unitShape .uint8 := by
  intro safe
  exact safe.runs 0 .memory (by decide +kernel)

theorem read_bounds_wrappedOrigin :
    ReadSafe (readTileNdim · x86 wrappedOrigin (fun _ => 3) unitShape .uint8 none)
        (prepareTile x86 wrappedOrigin (fun _ => 3) unitShape .uint8 none)
        wrappedOrigin (fun _ => 3) unitShape .uint8 ↔
      (ReadsOn x86 wrappedOrigin (fun _ => 3) unitShape .uint8 none →
        InRange wrappedOrigin (fun _ => 3) unitShape .uint8) :=
  (read_bounds x86 wrappedOrigin (fun _ => 3) unitShape (fun _ => 3) .uint8 none
    ⟨[0], by decide⟩ nofun (by rintro _ _ ⟨⟩; rfl)).1

end LibAsdf
