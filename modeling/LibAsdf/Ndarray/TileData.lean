import LibAsdf.Ndarray.Bounds

/-!
# What a read returns

The elements of a tile are the conversions of the array's elements at the same
places.

* `convertedElement`: an element of an array whose data begins at some offset;
* `ReadsOn.covered`: a plan for data that covers the array reads its elements;
* `tile_data`: a tile within bounds is returned, unless its buffer is freed.
-/

namespace LibAsdf

open RowMajor

variable {pf : Platform} {a : Ndarray} {origin shape : Extents} {dstT : ScalarDatatype}
  {dst : Option Object}

/-- Element `i` of the array whose data begins at byte `off` of the block, as a
read is to return it, and whether the conversion overflows. -/
def convertedElement (pf : Platform) (a : Ndarray) (dstT : ScalarDatatype) (off i : ℕ) :
    Bytes × Bool :=
  convertValue pf a.datatype (destDatatype a dstT)
    (hostBytes pf a.byteorder (elementAt a.data.bytes off a.datatype.size i))

/-- The indices of a tile; there is none in an array without dimensions. -/
def TileIndex (a : Ndarray) (shape : Extents) (k : ℕ → ℕ) : Prop :=
  0 < a.ndim ∧ Inside shape.nat k a.ndim

/-- The data covers the array, from byte `off` on. -/
def Covers (a : Ndarray) (off : ℕ) : Prop :=
  off + a.datatype.size * tileElems a a.shape ≤ a.data.bytes.length

/-- A read that returns the tile, of the array whose data begins at byte `off`,
in a buffer that is still there. -/
structure TileHolds (pf : Platform) (a : Ndarray) (origin shape : Extents) (dstT : ScalarDatatype)
    (off : ℕ) (r : ReadResult) : Prop where
  err : r.err = .ok ∨ r.err = .overflow
  live : r.freed = false
  tile : ∃ buf, r.dst = some buf ∧ ∀ k, TileIndex a shape k →
    elementAt buf 0 (destDatatype a dstT).size (position shape.nat k a.ndim) =
      (convertedElement pf a dstT off (place a.shape origin a.ndim k)).1

theorem reverse_of_length_le_one {val : Bytes} (h : val.length ≤ 1) : val.reverse = val := by
  cases val with
  | nil => rfl
  | cons b rest =>
    cases rest with
    | nil => rfl
    | cons c rest => simp at h

/-- The bytes are swapped where the flag that is passed says so. -/
theorem hostBytes_of_swap {order : Byteorder} {val : Bytes} {size : ℕ} (len : val.length = size) :
    hostBytes pf order val = if shouldByteswap pf size order then val.reverse else val := by
  unfold shouldByteswap hostBytes
  by_cases short : size ≤ 1
  · rw [if_pos short, if_neg Bool.false_ne_true, reverse_of_length_le_one (len ▸ short), ite_self]
  · rw [if_neg short]
    simp only [decide_eq_true_eq]

theorem readConvertFn_elem {f : ConvertFn} (h : readConvertFn pf a dstT = some f) {val : Bytes}
    (len : val.length = a.datatype.size) :
    f.elem val = convertValue pf a.datatype (destDatatype a dstT) (hostBytes pf a.byteorder val) := by
  rw [getConvertFn_elem h, hostBytes_of_swap len]

theorem place_outer (a : Ndarray) (origin : Extents) (k : ℕ → ℕ) (dims : 0 < a.ndim) :
    place a.shape origin a.ndim (outer a.ndim k) + k (a.ndim - 1) = place a.shape origin a.ndim k := by
  obtain ⟨m, hm⟩ := Nat.exists_eq_succ_of_ne_zero (Nat.ne_of_gt dims)
  rw [hm, place, place, Nat.succ_eq_add_one, position_succ, position_succ, Nat.add_sub_cancel]
  have below : ∀ d < m, origin.nat d + outer (m + 1) k d = origin.nat d + k d := by
    intro d lt
    rw [outer, if_pos (by omega)]
  have last : outer (m + 1) k m = 0 := if_neg (by omega)
  rw [position_congr below, last]
  omega

/-- A row of a tile within bounds ends in the array. -/
theorem place_row_le (bounds : ∀ d < a.ndim, origin.nat d + shape.nat d ≤ a.shape.nat d)
    (dims : 0 < a.ndim) {k : ℕ → ℕ} (h : Inside shape.nat k (a.ndim - 1)) :
    place a.shape origin a.ndim (outer a.ndim k) + shape.nat (a.ndim - 1) ≤ tileElems a a.shape := by
  rw [tileElems, if_neg (Nat.ne_of_gt dims)]
  obtain ⟨m, hm⟩ := Nat.exists_eq_succ_of_ne_zero (Nat.ne_of_gt dims)
  rw [hm, Nat.succ_eq_add_one] at bounds ⊢
  rw [hm, Nat.succ_eq_add_one, Nat.add_sub_cancel] at h
  rw [place, Nat.add_sub_cancel]
  apply position_row_le bounds
  · intro d lt
    rw [outer, if_pos (by omega)]
    exact h d lt
  · exact if_neg (by omega)

/-- A row begins where the exact arithmetic says, if the data covers the array. -/
theorem rowOffset_mod (bounds : ∀ d < a.ndim, origin.nat d + shape.nat d ≤ a.shape.nat d)
    (dims : 0 < a.ndim) (covers : Covers a 0) {k : ℕ → ℕ} (h : Inside shape.nat k (a.ndim - 1)) :
    rowOffset a origin k % 2 ^ 64 = rowOffset a origin k ∧
      rowOffset a origin k + shape.nat (a.ndim - 1) * a.datatype.size ≤ a.data.bytes.length := by
  have le := Nat.mul_le_mul_left a.datatype.size (place_row_le bounds dims h)
  have size := a.data.size_le
  unfold Covers at covers
  unfold rowOffset
  rw [Nat.mul_add, Nat.mul_comm _ (shape.nat _)] at le
  have small : offMax < 2 ^ 64 := by decide
  exact ⟨Nat.mod_eq_of_lt (by omega), by omega⟩

/-- A plan for data that covers the array: it has all rows, and converts the
elements of the array. -/
theorem ReadsOn.covered (on : ReadsOn pf a origin shape dstT dst)
    (sums : ∀ d < a.ndim, origin.nat d + shape.nat d < 2 ^ 64)
    (bytes : tileBytes a shape dstT < 2 ^ 64) (required : Required a shape dstT dst)
    (covers : Covers a 0) :
    ∃ f tile strides,
      prepareTile pf a origin shape dstT dst =
        .ret (.inr (tilePlan a origin shape dstT dst f tile strides)) ∧
      (tilePlan a origin shape dstT dst f tile strides).InBox a.shape ∧
      (∀ j < (tilePlan a origin shape dstT dst f tile strides).rows,
        (tilePlan a origin shape dstT dst f tile strides).RowOk a.shape j) ∧
      ∀ k, Inside shape.nat k a.ndim →
        f.elem ((tilePlan a origin shape dstT dst f tile strides).source a.shape k) =
          convertedElement pf a dstT 0 (place a.shape origin a.ndim k) := by
  obtain ⟨f, tile, strides, hf, prepared, inBox⟩ := on.plan sums bytes required
  have bounds := on.inside sums
  refine ⟨f, tile, strides, prepared, inBox, ?_, ?_⟩
  · apply TilePlan.rows_iff.mp
    intro k inside
    obtain ⟨exact_, le⟩ := rowOffset_mod bounds on.dims covers inside
    change rowOffset a origin k % 2 ^ 64 + _ ≤ _
    rw [exact_]
    exact le
  · intro k inside
    have below : Inside shape.nat k (a.ndim - 1) := fun d lt => inside d (by omega)
    obtain ⟨exact_, le⟩ := rowOffset_mod bounds on.dims covers below
    have last : k (a.ndim - 1) < shape.nat (a.ndim - 1) :=
      inside (a.ndim - 1) (Nat.sub_lt on.dims Nat.one_pos)
    have source : (tilePlan a origin shape dstT dst f tile strides).source a.shape k =
        elementAt a.data.bytes 0 a.datatype.size (place a.shape origin a.ndim k) := by
      change elementAt a.data.bytes (rowOffset a origin k % 2 ^ 64) a.datatype.size (k (a.ndim - 1)) = _
      rw [exact_, rowOffset, ← place_outer a origin k on.dims, ← elementAt_add, Nat.zero_add,
        Nat.mul_comm]
    have fits : (k (a.ndim - 1) + 1) * a.datatype.size ≤
        shape.nat (a.ndim - 1) * a.datatype.size := Nat.mul_le_mul_right _ last
    rw [source, convertedElement]
    apply readConvertFn_elem hf
    apply length_elementAt
    rw [← place_outer a origin k on.dims, Nat.zero_add, Nat.add_assoc, Nat.add_mul,
      Nat.mul_comm _ a.datatype.size]
    unfold rowOffset at le
    omega

/-! ## Tiles within bounds -/

/-- A tile within the bounds of an array that its data covers, of types that can
be converted, and of a size that an object can have. -/
structure TileRequest (pf : Platform) (a : Ndarray) (origin shape : Extents)
    (dstT : ScalarDatatype) (dst : Option Object) : Prop where
  supported : Supported pf a.datatype (destDatatype a dstT)
  covers : Covers a 0
  bounds : ∀ d < a.ndim, origin.nat d + shape.nat d ≤ a.shape.nat d
  fits : tileBytes a shape dstT ≤ offMax
  required : Required a shape dstT dst

theorem tileElems_mono (le : ∀ d < a.ndim, shape.nat d ≤ a.shape.nat d) :
    tileElems a shape ≤ tileElems a a.shape := by
  unfold tileElems
  split
  · exact Nat.le_refl _
  · exact volume_mono le

theorem ndarrayNbytes_le (a : Ndarray) :
    (ndarrayNbytes a).toNat ≤ a.datatype.size * tileElems a a.shape := by
  have size : (ndarraySize a).toNat = tileElems a a.shape % 2 ^ 64 := by
    unfold ndarraySize tileElems
    split
    · rfl
    · exact extentsProduct_toNat _ _
  unfold ndarrayNbytes
  split
  · exact Nat.zero_le _
  · rw [UInt64.toNat_mul, UInt64.toNat_ofNat', size, Nat.mod_mul_mod, Nat.mul_mod_mod,
      Nat.mul_comm]
    exact Nat.mod_le _ _

theorem checkBounds_of_le (bounds : ∀ d < a.ndim, origin.nat d + shape.nat d ≤ a.shape.nat d) :
    checkBounds a origin shape = true := by
  apply List.all_eq_true.mpr
  intro d member
  have le := bounds d (List.mem_range.mp member)
  apply decide_eq_true
  rw [UInt64.le_iff_toNat_le, UInt64.toNat_add]
  exact Nat.le_trans (Nat.mod_le _ _) le

namespace TileRequest

theorem checked (h : TileRequest pf a origin shape dstT dst) :
    Checked pf a origin shape dstT dst := by
  obtain ⟨source, target⟩ := h.supported.sizes
  have covers := h.covers
  unfold Covers at covers
  refine ⟨source, target, checkBounds_of_le h.bounds, ?_, ?_, ?_, fun _ => ?_⟩
  · rw [tileSize_toNat]
    have fewer : tileElems a shape ≤ tileElems a a.shape :=
      tileElems_mono fun d lt => Nat.le_of_add_left_le (h.bounds d lt)
    have le := Nat.mul_le_mul_left a.datatype.size fewer
    have := Nat.mod_le (a.datatype.size * tileElems a shape) (2 ^ 64)
    omega
  · have := ndarrayNbytes_le a
    omega
  · exact getConvertFn_isSome.mpr h.supported
  · rw [tileSize_toNat]
    exact Nat.le_trans (Nat.mod_le _ _) h.fits

theorem bytes_lt (h : TileRequest pf a origin shape dstT dst) : tileBytes a shape dstT < 2 ^ 64 :=
  Nat.lt_of_le_of_lt h.fits (by decide)

theorem sums (h : TileRequest pf a origin shape dstT dst) :
    ∀ d < a.ndim, origin.nat d + shape.nat d < 2 ^ 64 := fun d lt =>
  Nat.lt_of_le_of_lt (h.bounds d lt) (a.shape d).toNat_lt

/-- The test for an empty tile. -/
theorem empty_iff (h : TileRequest pf a origin shape dstT dst) :
    (a.ndim = 0 ∨ tileSize a shape (destDatatype a dstT) = 0) ↔ ∀ k, ¬ TileIndex a shape k := by
  obtain ⟨-, target⟩ := h.supported.sizes
  have size : (tileSize a shape (destDatatype a dstT)).toNat = tileBytes a shape dstT := by
    rw [tileSize_toNat]
    exact Nat.mod_eq_of_lt h.bytes_lt
  constructor
  · rintro (zero | zero) k ⟨dims, inside⟩
    · omega
    · have positive := Nat.mul_pos target (Nat.zero_lt_of_lt (position_lt inside))
      rw [zero, tileBytes, tileElems, if_neg (Nat.ne_of_gt dims)] at size
      exact absurd size (Nat.ne_of_lt positive)
  · intro none
    by_cases dims : a.ndim = 0
    · exact .inl dims
    · refine .inr (UInt64.toNat_inj.mp ?_)
      by_contra nonzero
      rw [size, tileBytes, tileElems, if_neg dims] at nonzero
      have positive : 0 < volume shape.nat a.ndim :=
        Nat.pos_of_ne_zero fun zero => nonzero (by rw [zero, Nat.mul_zero]; rfl)
      exact none (fun _ => 0) ⟨Nat.pos_of_ne_zero dims, pos_of_volume_pos positive⟩

/-- A tile that is not empty is converted. -/
theorem readsOn (h : TileRequest pf a origin shape dstT dst) {k : ℕ → ℕ}
    (index : TileIndex a shape k) : ReadsOn pf a origin shape dstT dst := by
  obtain ⟨source, -⟩ := h.supported.sizes
  obtain ⟨dims, nonempty⟩ := not_or.mp fun empty => h.empty_iff.mp empty k index
  refine ⟨h.checked, index.1, nonempty, fun refused => ?_⟩
  have boxes : ∀ d < a.ndim, 0 < a.shape.nat d := fun d lt => by
    have := h.bounds d lt
    have := index.2 d lt
    omega
  rcases readTileInitStrides_spec index.1 boxes with ⟨s, ok, -⟩ | ⟨-, large⟩
  · cases refused.symm.trans ok
  · have covers := h.covers
    have le := a.data.size_le
    unfold Covers tileElems at covers
    rw [if_neg dims, Nat.zero_add] at covers
    have whole : volume a.shape.nat a.ndim ≤ a.datatype.size * volume a.shape.nat a.ndim :=
      Nat.le_mul_of_pos_left _ source
    have same : int64Max = offMax := rfl
    omega

end TileRequest

/-- Such a tile of an array at the start of its block, whose byte order is known. -/
structure PlainRequest (pf : Platform) (a : Ndarray) (origin shape : Extents)
    (dstT : ScalarDatatype) (dst : Option Object) : Prop
    extends TileRequest pf a origin shape dstT dst where
  offset : a.offset = 0
  byteorder : a.byteorder ≠ .default

/-- What a read of a tile within bounds is to do: it returns the tile; the
odometer loop goes as many rounds as there are rows; and where the tile is
one-dimensional, it would do what the other path does. -/
structure TileCorrect (pf : Platform) (a : Ndarray) (origin shape : Extents)
    (dstT : ScalarDatatype) (dst : Option Object) : Prop where
  returns : ∀ fuel, volume shape.nat (a.ndim - 1) ≤ fuel →
    ∃ r, readTileNdim fuel pf a origin shape dstT dst = .ret r ∧
      TileHolds pf a origin shape dstT 0 r
  rounds : ∀ plan, prepareTile pf a origin shape dstT dst = .ret (.inr plan) → plan.is1d ≠ true →
    ∀ fuel, plan.mainLoop fuel = .timeout ↔ fuel < volume shape.nat (a.ndim - 1)
  paths : ∀ plan, prepareTile pf a origin shape dstT dst = .ret (.inr plan) → plan.is1d = true →
    1 < a.ndim → ∀ fuel, plan.mainLoop (fuel + 1) = plan.fastPath

/-- No conversion in the last row of a tile in a new buffer overflows, unless the
tile is one-dimensional. -/
def LastRowFits (pf : Platform) (a : Ndarray) (origin shape : Extents) (dstT : ScalarDatatype)
    (dst : Option Object) : Prop :=
  dst = none → (∃ d < a.ndim - 1, shape.nat d ≠ 1) → ∀ k, TileIndex a shape k →
    (∀ d < a.ndim - 1, k d + 1 = shape.nat d) →
    (convertedElement pf a dstT 0 (place a.shape origin a.ndim k)).2 = false

/-- The plan of a tile within bounds overflows in its last row if an element with
the largest outer indices does. -/
theorem rowOverflows_last {plan : TilePlan} (hplan : plan.InBox a.shape) (ndim : plan.ndim = a.ndim)
    (hshape : plan.shape = shape) (elem : ∀ k, Inside shape.nat k a.ndim →
      plan.convert.elem (plan.source a.shape k) =
        convertedElement pf a dstT 0 (place a.shape origin a.ndim k)) :
    plan.RowOverflows a.shape (plan.rows - 1) ↔
      ∃ k, TileIndex a shape k ∧ (∀ d < a.ndim - 1, k d + 1 = shape.nat d) ∧
        (convertedElement pf a dstT 0 (place a.shape origin a.ndim k)).2 = true := by
  have pos := hplan.rows_pos
  have dims := hplan.dims
  unfold TilePlan.rows TilePlan.innerDim at pos
  unfold TilePlan.RowOverflows TilePlan.rows TilePlan.innerDim
  rw [ndim, hshape] at pos ⊢
  rw [ndim] at dims
  have last : ∀ k, Inside shape.nat k a.ndim →
      (position shape.nat k (a.ndim - 1) = volume shape.nat (a.ndim - 1) - 1 ↔
        ∀ d < a.ndim - 1, k d + 1 = shape.nat d) := by
    intro k inside
    have below : Inside shape.nat k (a.ndim - 1) := fun d lt => inside d (by omega)
    rw [← position_last_iff below]
    omega
  constructor
  · rintro ⟨k, inside, at_, exceeds⟩
    exact ⟨k, ⟨dims, inside⟩, (last k inside).mp at_, by rwa [← elem k inside]⟩
  · rintro ⟨k, ⟨-, inside⟩, ends, exceeds⟩
    exact ⟨k, inside, (last k inside).mpr ends, by rwa [elem k inside]⟩

/-- The conversion of a tile within bounds, as the code leaves it. -/
theorem ReadsOn.run (on : ReadsOn pf a origin shape dstT dst)
    (sums : ∀ d < a.ndim, origin.nat d + shape.nat d < 2 ^ 64)
    (bytes : tileBytes a shape dstT < 2 ^ 64) (required : Required a shape dstT dst)
    (covers : Covers a 0) {fuel : ℕ} (enough : volume shape.nat (a.ndim - 1) ≤ fuel) :
    ∃ r, readTileNdim fuel pf a origin shape dstT dst = .ret r ∧
      (r.err = .ok ∨ r.err = .overflow) ∧
      (∃ buf, r.dst = some buf ∧ ∀ k, TileIndex a shape k →
        elementAt buf 0 (destDatatype a dstT).size (position shape.nat k a.ndim) =
          (convertedElement pf a dstT 0 (place a.shape origin a.ndim k)).1) ∧
      (r.freed = true ↔ ¬ LastRowFits pf a origin shape dstT dst) := by
  obtain ⟨f, tile, strides, prepared, inBox, reads, elem⟩ := on.covered sums bytes required covers
  obtain ⟨overflow, buf, ret, after⟩ := inBox.finish_ret reads enough
  refine ⟨_, (readTileNdim_of_plan prepared fuel).trans ret, ?_, ⟨buf, rfl, ?_⟩, ?_⟩
  · cases overflow
    · exact .inl rfl
    · exact .inr rfl
  · intro k ⟨dims, inside⟩
    have below : Inside shape.nat k (a.ndim - 1) := fun d lt => inside d (by omega)
    have row : position shape.nat k (a.ndim - 1) < volume shape.nat (a.ndim - 1) :=
      position_lt below
    have filled := after.filled k inside (by
      have := inBox.rows_pos
      rwa [Nat.sub_add_cancel this])
    exact filled.trans (congrArg Prod.fst (elem k inside))
  · have exceeds := after.overflow.trans (rowOverflows_last inBox rfl rfl elem)
    have flat : (tilePlan a origin shape dstT dst f tile strides).is1d = true ↔
        ∀ d < a.ndim - 1, shape.nat d = 1 := TilePlan.is1d_iff
    have new : (tilePlan a origin shape dstT dst f tile strides).newBuf = true ↔ dst = none :=
      Option.isNone_iff_eq_none
    simp only [Bool.and_eq_true, Bool.not_eq_true', ← Bool.not_eq_true, flat, exceeds, new,
      LastRowFits]
    push Not
    constructor
    · rintro ⟨wide, exceeds, new⟩
      exact ⟨new, wide, exceeds⟩
    · rintro ⟨new, wide, exceeds⟩
      exact ⟨wide, exceeds, new⟩

theorem TileRequest.run (h : TileRequest pf a origin shape dstT dst) {k : ℕ → ℕ}
    (index : TileIndex a shape k) {fuel : ℕ} (enough : volume shape.nat (a.ndim - 1) ≤ fuel) :
    ∃ r, readTileNdim fuel pf a origin shape dstT dst = .ret r ∧
      (r.err = .ok ∨ r.err = .overflow) ∧
      (∃ buf, r.dst = some buf ∧ ∀ k, TileIndex a shape k →
        elementAt buf 0 (destDatatype a dstT).size (position shape.nat k a.ndim) =
          (convertedElement pf a dstT 0 (place a.shape origin a.ndim k)).1) ∧
      (r.freed = true ↔ ¬ LastRowFits pf a origin shape dstT dst) :=
  (h.readsOn index).run h.sums h.bytes_lt h.required h.covers enough

/-- The odometer reads a tile within bounds correctly, except that an overflow in
the last row frees the buffer that it returns. -/
theorem tile_data (h : PlainRequest pf a origin shape dstT dst) :
    TileCorrect pf a origin shape dstT dst ↔ LastRowFits pf a origin shape dstT dst := by
  have h := h.toTileRequest
  by_cases index : ∃ k, TileIndex a shape k
  · obtain ⟨k, index⟩ := index
    have on := h.readsOn index
    obtain ⟨f, tile, strides, prepared, inBox, reads, -⟩ :=
      on.covered h.sums h.bytes_lt h.required h.covers
    constructor
    · intro correct
      obtain ⟨r, ret, holds⟩ := correct.returns _ (Nat.le_refl _)
      obtain ⟨r', ret', -, -, freed⟩ := h.run index (Nat.le_refl _)
      cases ret.symm.trans ret'
      by_contra fits
      have live := holds.live
      rw [freed.mpr fits] at live
      cases live
    · intro fits
      refine ⟨fun fuel enough => ?_, fun plan plans wide fuel => ?_, fun plan plans flat more fuel => ?_⟩
      · obtain ⟨r, ret, err, tile, freed⟩ := h.run index enough
        refine ⟨r, ret, err, ?_, tile⟩
        rw [Bool.eq_false_iff]
        exact fun frees => freed.mp frees fits
      · cases plans.symm.trans prepared
        exact inBox.mainLoop_timeout_iff reads (TilePlan.innerDim_pos wide) fuel
      · cases plans.symm.trans prepared
        exact inBox.mainLoop_eq_fastPath reads (Nat.sub_pos_of_lt more) flat fuel
  · have none : ∀ k, ¬ TileIndex a shape k := not_exists.mp index
    obtain ⟨f, tile, -, -, eq⟩ := h.checked.prepareTile_eq
    rw [if_pos (h.empty_iff.mpr none)] at eq
    constructor
    · exact fun _ _ _ k at_ => absurd at_ (none k)
    · intro _
      refine ⟨fun fuel _ => ?_, fun plan plans => ?_, fun plan plans => ?_⟩
      · exact ⟨_, readTileNdim_of_result eq fuel, .inl rfl, rfl, tile, rfl,
          fun k at_ => absurd at_ (none k)⟩
      · cases plans.symm.trans eq
      · cases plans.symm.trans eq

/-- Two rows of `int16`; the last element is 300. -/
def grid : Ndarray :=
  { extents := [2, 2], datatype := .int16, byteorder := .little, offset := 0
    data := ⟨[1, 0, 2, 0, 3, 0, 44, 1], by decide⟩ }

theorem grid_request {dst : Option Object} (h : Required grid grid.shape .int8 dst) :
    PlainRequest x86 grid (fun _ => 0) grid.shape .int8 dst where
  offset := rfl
  byteorder := nofun
  supported := by decide
  covers := by unfold Covers; decide
  bounds := by decide
  fits := by decide
  required := h

theorem tile_data_grid :
    TileCorrect x86 grid (fun _ => 0) grid.shape .int8 (some ⟨[0, 0, 0, 0], by decide⟩) :=
  (tile_data (grid_request (by rintro - _ ⟨⟩; rfl))).mpr nofun

/-- The new buffer for `grid` as `int8` is returned, and has been freed. -/
theorem grid_freed : PlainRequest x86 grid (fun _ => 0) grid.shape .int8 none ∧
    ¬ TileCorrect x86 grid (fun _ => 0) grid.shape .int8 none := by
  refine ⟨grid_request nofun, fun correct => ?_⟩
  obtain ⟨r, ret, holds⟩ := correct.returns 2 (by decide)
  have run : readTileNdim 2 x86 grid (fun _ => 0) grid.shape .int8 none =
      .ret { err := .overflow, dst := some [1, 2, 3, 127], freed := true } := by decide +kernel
  cases run.symm.trans ret
  cases holds.live

end LibAsdf
