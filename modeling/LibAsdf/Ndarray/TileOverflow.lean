import LibAsdf.Ndarray.TileData

/-!
# Overflow reports

A read that converts a tile is to report `ASDF_NDARRAY_ERR_OVERFLOW` just if the
conversion of some element clamps. The main loop reports that of its last row.

* `Converts`: a read that goes on to convert a tile, safely;
* `tileElement`, `Clamps`: the conversion of an element, by its place in the array;
* `Converts.reports`: what a read reports is whether its last row clamps;
* `tile_overflow`: it is whether some row does, if that includes the last one.
-/

namespace LibAsdf

open RowMajor

variable {pf : Platform} {a : Ndarray} {dstT : ScalarDatatype}

/-- The arguments of a read that say which tile it is to put where. -/
structure TileRead where
  origin : Extents
  shape : Extents
  dst : Option Object

/-- `asdf_ndarray_read_tile_ndim`, of one array. -/
def TileRead.run (t : TileRead) (pf : Platform) (a : Ndarray) (dstT : ScalarDatatype) (fuel : ℕ) :
    Run ReadResult :=
  readTileNdim fuel pf a t.origin t.shape dstT t.dst

/-- The read goes on to convert elements, without a fault, of a tile inside the
array, into a buffer of the tile's size. -/
def Converts (pf : Platform) (a : Ndarray) (dstT : ScalarDatatype) (t : TileRead) : Prop :=
  ReadsOn pf a t.origin t.shape dstT t.dst ∧
    ReadSafe (t.run pf a dstT) (prepareTile pf a t.origin t.shape dstT t.dst) a t.origin t.shape dstT

/-- The indices, in the array, of the elements of a tile. -/
def InTile (a : Ndarray) (t : TileRead) (idx : ℕ → ℕ) : Prop :=
  ∀ d < a.ndim, t.origin.nat d ≤ idx d ∧ idx d < t.origin.nat d + t.shape.nat d

/-- Those of its last row. -/
def InLastRow (a : Ndarray) (t : TileRead) (idx : ℕ → ℕ) : Prop :=
  ∀ d < a.ndim - 1, idx d + 1 = t.origin.nat d + t.shape.nat d

/-- The conversion of the element at `idx`, whose address is one modulo `2 ^ 64`. -/
def tileElement (pf : Platform) (a : Ndarray) (dstT : ScalarDatatype) (idx : ℕ → ℕ) : Bytes × Bool :=
  convertedElement pf a dstT (a.datatype.size * position a.shape.nat idx a.ndim % 2 ^ 64) 0

def Clamps (pf : Platform) (a : Ndarray) (dstT : ScalarDatatype) (idx : ℕ → ℕ) : Prop :=
  (tileElement pf a dstT idx).2 = true

def TileClamps (pf : Platform) (a : Ndarray) (dstT : ScalarDatatype) (t : TileRead) : Prop :=
  ∃ idx, InTile a t idx ∧ Clamps pf a dstT idx

def LastRowClamps (pf : Platform) (a : Ndarray) (dstT : ScalarDatatype) (t : TileRead) : Prop :=
  ∃ idx, InTile a t idx ∧ InLastRow a t idx ∧ Clamps pf a dstT idx

/-- The rounds that the main loop may take: one for each row. -/
def TileRead.Enough (t : TileRead) (a : Ndarray) (fuel : ℕ) : Prop :=
  volume t.shape.nat (a.ndim - 1) ≤ fuel

/-- The read reports an overflow. -/
def Overflows (pf : Platform) (a : Ndarray) (dstT : ScalarDatatype) (t : TileRead) : Prop :=
  ∃ fuel r, t.Enough a fuel ∧ t.run pf a dstT fuel = .ret r ∧ r.err = .overflow

/-- What a read of a tile is to report: an overflow if the conversion of an
element clamps, the same as reads of tiles that make up this one. -/
structure OverflowReported (pf : Platform) (a : Ndarray) (dstT : ScalarDatatype) (t : TileRead) :
    Prop where
  result : ∀ fuel, t.Enough a fuel →
    ∃ r, t.run pf a dstT fuel = .ret r ∧ (r.err = .overflow ↔ TileClamps pf a dstT t) ∧
      (r.err = .ok ↔ ¬ TileClamps pf a dstT t)
  pieces : ∀ pieces : List TileRead, (∀ p ∈ pieces, Converts pf a dstT p) →
    (∀ idx, InTile a t idx ↔ ∃ p ∈ pieces, InTile a p idx) →
    (Overflows pf a dstT t ↔ ∃ p ∈ pieces, Overflows pf a dstT p)

/-! ## The plan of such a read -/

/-- A buffer of the caller is as long as the read needs it to be. -/
theorem Converts.required {t : TileRead} (h : Converts pf a dstT t) :
    Required a t.shape dstT t.dst := by
  obtain ⟨on, safe⟩ := h
  intro _ buf given
  rcases prepareTile_cases pf a t.origin t.shape dstT t.dst with ⟨off, -⟩ | ⟨-, f, tile, -, buffer, run⟩
  · exact absurd on off
  rcases run with ⟨strides, -, eq⟩ | ⟨e, -, eq⟩
  · rw [given] at buffer
    cases buffer
    exact safe.tile _ eq
  · apply absurd _ (safe.runs 0 e)
    rw [TileRead.run, readTileNdim, eq]
    rfl

/-- The index in the array of the element with index `k` in the tile. -/
theorem inTile_add {t : TileRead} {k : ℕ → ℕ} (inside : Inside t.shape.nat k a.ndim) :
    InTile a t fun d => t.origin.nat d + k d := by
  intro d lt
  have := inside d lt
  simp only
  omega

theorem inside_sub {t : TileRead} {idx : ℕ → ℕ} (at_ : InTile a t idx) :
    Inside t.shape.nat (fun d => idx d - t.origin.nat d) a.ndim := by
  intro d lt
  have := at_ d lt
  simp only
  omega

/-- A row that lies in the data has its elements at their own addresses. -/
theorem source_eq (origin : Extents) {shape : Extents} (dims : 0 < a.ndim) {k : ℕ → ℕ}
    (last : k (a.ndim - 1) < shape.nat (a.ndim - 1))
    (row : rowOffset a origin k % 2 ^ 64 + shape.nat (a.ndim - 1) * a.datatype.size ≤
      a.data.bytes.length) :
    elementAt a.data.bytes (rowOffset a origin k % 2 ^ 64) a.datatype.size (k (a.ndim - 1)) =
      elementAt a.data.bytes
        (a.datatype.size * place a.shape origin a.ndim k % 2 ^ 64) a.datatype.size 0 := by
  have size := a.data.size_le
  have small : offMax < 2 ^ 64 := by decide
  have fits : k (a.ndim - 1) * a.datatype.size ≤ shape.nat (a.ndim - 1) * a.datatype.size :=
    Nat.mul_le_mul_right _ (Nat.le_of_lt last)
  have address : a.datatype.size * place a.shape origin a.ndim k % 2 ^ 64 =
      rowOffset a origin k % 2 ^ 64 + k (a.ndim - 1) * a.datatype.size := by
    rw [← place_outer a origin k dims, Nat.mul_add, Nat.mul_comm _ (k _), ← Nat.mod_add_mod]
    apply Nat.mod_eq_of_lt
    change rowOffset a origin k % 2 ^ 64 + _ < _
    omega
  rw [address, elementAt_add]
  rfl

/-- The conversion of a tile, with the elements by their places in the array. -/
theorem Converts.plan {t : TileRead} (h : Converts pf a dstT t) :
    ∃ f tile strides,
      prepareTile pf a t.origin t.shape dstT t.dst =
        .ret (.inr (tilePlan a t.origin t.shape dstT t.dst f tile strides)) ∧
      (tilePlan a t.origin t.shape dstT t.dst f tile strides).InBox a.shape ∧
      (∀ j < (tilePlan a t.origin t.shape dstT t.dst f tile strides).rows,
        (tilePlan a t.origin t.shape dstT t.dst f tile strides).RowOk a.shape j) ∧
      ∀ k, Inside t.shape.nat k a.ndim →
        f.elem ((tilePlan a t.origin t.shape dstT t.dst f tile strides).source a.shape k) =
          tileElement pf a dstT fun d => t.origin.nat d + k d := by
  have required := h.required
  obtain ⟨on, safe⟩ := h
  have range := (readSafe_iff required).mp safe on
  obtain ⟨f, tile, strides, hf, prepared, inBox⟩ := on.plan range.sums range.bytes required
  refine ⟨f, tile, strides, prepared, inBox, TilePlan.rows_iff.mp range.rows, ?_⟩
  intro k inside
  have last : k (a.ndim - 1) < t.shape.nat (a.ndim - 1) :=
    inside (a.ndim - 1) (Nat.sub_lt on.dims Nat.one_pos)
  have row := range.rows k fun d lt => inside d (by omega)
  have source := source_eq t.origin on.dims last row
  have len : (elementAt a.data.bytes (rowOffset a t.origin k % 2 ^ 64) a.datatype.size
      (k (a.ndim - 1))).length = a.datatype.size := by
    apply length_elementAt
    have := Nat.mul_le_mul_right a.datatype.size (Nat.succ_le_of_lt last)
    rw [Nat.succ_eq_add_one] at this
    omega
  have elem := readConvertFn_elem hf len
  rw [source] at elem
  change f.elem (elementAt a.data.bytes (rowOffset a t.origin k % 2 ^ 64) a.datatype.size
    (k (a.ndim - 1))) = _
  rw [source, elem]
  rfl

/-- An element of the last row of a plan, by its place in the tile and in the array. -/
theorem rowOverflows_iff {t : TileRead} {plan : TilePlan} (inBox : plan.InBox a.shape)
    (hshape : plan.shape = t.shape) (hndim : plan.ndim = a.ndim)
    (elem : ∀ k, Inside t.shape.nat k a.ndim → plan.convert.elem (plan.source a.shape k) =
      tileElement pf a dstT fun d => t.origin.nat d + k d) :
    plan.RowOverflows a.shape (plan.rows - 1) ↔ LastRowClamps pf a dstT t := by
  have dims := inBox.dims
  have pos := inBox.rows_pos
  have rowCount : plan.rows = volume t.shape.nat (a.ndim - 1) := by
    rw [TilePlan.rows, TilePlan.innerDim, hshape, hndim]
  rw [rowCount] at pos
  rw [TilePlan.RowOverflows, rowCount, hshape, hndim, TilePlan.innerDim, hndim]
  constructor
  · rintro ⟨k, inside, at_, exceeds⟩
    have below : Inside t.shape.nat k (a.ndim - 1) := fun d lt => inside d (by omega)
    have ends := (position_last_iff below).mp (by omega)
    rw [elem k inside] at exceeds
    refine ⟨_, inTile_add inside, fun d lt => ?_, exceeds⟩
    have := ends d lt
    simp only
    omega
  · rintro ⟨idx, inside, ends, exceeds⟩
    have below : Inside t.shape.nat (fun d => idx d - t.origin.nat d) (a.ndim - 1) := fun d lt =>
      inside_sub inside d (by omega)
    have last := (position_last_iff below).mpr fun d lt => by
      have := inside d (by omega)
      have := ends d lt
      omega
    have same : position a.shape.nat
        (fun d => t.origin.nat d + (idx d - t.origin.nat d)) a.ndim =
        position a.shape.nat idx a.ndim := position_congr fun d lt => by
      have := inside d lt
      omega
    refine ⟨_, inside_sub inside, by omega, ?_⟩
    rw [elem _ (inside_sub inside), tileElement, same]
    exact exceeds

/-- What a read reports: whether an element of the last row clamps. -/
theorem Converts.reports {t : TileRead} (h : Converts pf a dstT t) {fuel : ℕ}
    (enough : t.Enough a fuel) :
    ∃ r, t.run pf a dstT fuel = .ret r ∧ (r.err = .overflow ↔ LastRowClamps pf a dstT t) ∧
      (r.err = .ok ↔ ¬ LastRowClamps pf a dstT t) := by
  obtain ⟨f, tile, strides, prepared, inBox, rows, elem⟩ := h.plan
  obtain ⟨overflow, buf, ret, after⟩ := inBox.finish_ret rows enough
  have flag : overflow = true ↔ LastRowClamps pf a dstT t :=
    after.overflow.trans (rowOverflows_iff inBox rfl rfl elem)
  refine ⟨_, (readTileNdim_of_plan prepared fuel).trans ret, ?_, ?_⟩
  · rw [← flag]
    cases overflow <;> simp
  · rw [← flag]
    cases overflow <;> simp

theorem Converts.overflows_iff {t : TileRead} (h : Converts pf a dstT t) :
    Overflows pf a dstT t ↔ LastRowClamps pf a dstT t := by
  constructor
  · rintro ⟨fuel, r, enough, ret, err⟩
    obtain ⟨r', ret', flag, -⟩ := h.reports enough
    cases ret.symm.trans ret'
    exact flag.mp err
  · intro clamps
    obtain ⟨r, ret, flag, -⟩ := h.reports (Nat.le_refl _)
    exact ⟨_, r, Nat.le_refl _, ret, flag.mpr clamps⟩

/-! ## Overflows in any row -/

theorem TileClamps.of_lastRow {t : TileRead} (h : LastRowClamps pf a dstT t) :
    TileClamps pf a dstT t := by
  obtain ⟨idx, inside, -, clamps⟩ := h
  exact ⟨idx, inside, clamps⟩

/-- An element of the last row of a tile is in the last row of any part of the
tile that it is in. -/
theorem InLastRow.of_part {t p : TileRead} (part : ∀ idx, InTile a p idx → InTile a t idx)
    {idx : ℕ → ℕ} (inside : InTile a p idx) (last : InLastRow a t idx) : InLastRow a p idx := by
  intro d lt
  have low := inside d (by omega)
  by_contra more
  -- the element below it would be in the part, but not in the tile
  have next : InTile a p (Function.update idx d (idx d + 1)) := by
    intro e le
    by_cases same : e = d
    · subst same
      rw [Function.update_self]
      omega
    · rw [Function.update_of_ne same]
      exact inside e le
  have outside := part _ next d (by omega)
  rw [Function.update_self] at outside
  have := last d lt
  omega

/-- A tile within the bounds of an array that its data covers is converted, unless
it is empty. -/
theorem TileRequest.converts {t : TileRead} (h : TileRequest pf a t.origin t.shape dstT t.dst)
    {k : ℕ → ℕ} (index : TileIndex a t.shape k) : Converts pf a dstT t := by
  refine ⟨h.readsOn index, (readSafe_iff h.required).mpr fun _ => ⟨h.sums, h.bytes_lt, ?_⟩⟩
  intro k inside
  obtain ⟨exact_, le⟩ := rowOffset_mod h.bounds index.1 h.covers inside
  rw [exact_]
  exact le

/-- A read reports the overflow of an element in any row just if one of them is in
the last row. -/
theorem tile_overflow {t : TileRead} (h : Converts pf a dstT t) :
    OverflowReported pf a dstT t ↔ (TileClamps pf a dstT t → LastRowClamps pf a dstT t) := by
  constructor
  · intro reported clamps
    obtain ⟨r, ret, flag, -⟩ := reported.result _ (Nat.le_refl _)
    obtain ⟨r', ret', flag', -⟩ := h.reports (Nat.le_refl _)
    cases ret.symm.trans ret'
    exact flag'.mp (flag.mpr clamps)
  · intro last
    have same : TileClamps pf a dstT t ↔ LastRowClamps pf a dstT t := ⟨last, .of_lastRow⟩
    refine ⟨fun fuel enough => ?_, fun pieces converts covers => ?_⟩
    · rw [same]
      exact h.reports enough
    · rw [h.overflows_iff]
      constructor
      · rintro ⟨idx, inside, ends, clamps⟩
        obtain ⟨p, member, inPart⟩ := (covers idx).mp inside
        have part : ∀ idx, InTile a p idx → InTile a t idx := fun idx at_ =>
          (covers idx).mpr ⟨p, member, at_⟩
        refine ⟨p, member, (converts p member).overflows_iff.mpr ?_⟩
        exact ⟨idx, inPart, ends.of_part part inPart, clamps⟩
      · rintro ⟨p, member, overflows⟩
        obtain ⟨idx, inPart, -, clamps⟩ := (converts p member).overflows_iff.mp overflows
        exact last ⟨idx, (covers idx).mpr ⟨p, member, inPart⟩, clamps⟩

/-- All of `grid` as `int8`; the element that clamps is the last one. -/
def wholeGrid : TileRead := ⟨fun _ => 0, grid.shape, some ⟨[0, 0, 0, 0], by decide⟩⟩

theorem wholeGrid_converts : Converts x86 grid .int8 wholeGrid :=
  (grid_request (by rintro - _ ⟨⟩; rfl)).toTileRequest.converts (k := fun _ => 0)
    ⟨by decide, by unfold RowMajor.Inside; decide⟩

theorem tile_overflow_grid : OverflowReported x86 grid .int8 wholeGrid := by
  apply (tile_overflow wholeGrid_converts).mpr
  intro _
  refine ⟨fun _ => 1, by unfold InTile; decide, by unfold InLastRow; decide, ?_⟩
  unfold Clamps tileElement
  decide

/-- Two rows of `int16`; only the first one has an element that `int8` cannot hold. -/
def earlyGrid : Ndarray :=
  { extents := [2, 2], datatype := .int16, byteorder := .little, offset := 0
    data := ⟨[44, 1, 2, 0, 3, 0, 4, 0], by decide⟩ }

/-- All of `earlyGrid`. -/
def earlyTile : TileRead := ⟨fun _ => 0, earlyGrid.shape, some ⟨[0, 0, 0, 0], by decide⟩⟩

theorem earlyTile_request :
    TileRequest x86 earlyGrid earlyTile.origin earlyTile.shape .int8 earlyTile.dst where
  supported := by decide
  covers := by unfold Covers; decide
  bounds := by decide
  fits := by decide
  required := by rintro - _ ⟨⟩; rfl

/-- The overflow of the first row is forgotten. -/
theorem earlyTile_unreported : Converts x86 earlyGrid .int8 earlyTile ∧
    ¬ OverflowReported x86 earlyGrid .int8 earlyTile := by
  refine ⟨earlyTile_request.converts (k := fun _ => 0) ⟨by decide, by unfold RowMajor.Inside; decide⟩,
    fun reported => ?_⟩
  obtain ⟨r, ret, flag, -⟩ := reported.result 2 (by unfold TileRead.Enough; decide)
  have run : earlyTile.run x86 earlyGrid .int8 2 =
      .ret { err := .ok, dst := some [127, 2, 3, 4], freed := false } := by decide +kernel
  cases run.symm.trans ret
  have clamps : TileClamps x86 earlyGrid .int8 earlyTile := by
    refine ⟨fun _ => 0, by unfold InTile; decide, ?_⟩
    unfold Clamps tileElement
    decide
  cases flag.mpr clamps

end LibAsdf
