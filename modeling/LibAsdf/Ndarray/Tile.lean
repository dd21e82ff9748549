import LibAsdf.Ndarray.Read

/-!
# The walk over a tile

The odometer loop visits the rows of the tile in row-major order, and the source
pointer is at the place of each row in the array, modulo `2 ^ 64`.

* `TilePlan.InBox`: a plan for a tile that lies in its array;
* `TilePlan.carry_spec`: the carry is the odometer step `RowMajor.advance`;
* `TilePlan.counted`: the main loop goes one round for each row.
-/

namespace LibAsdf

open RowMajor

/-- Extents as numbers. -/
def Extents.nat (s : Extents) : ℕ → ℕ := fun d => (s d).toNat

theorem extentsProduct_toNat (s : Extents) (n : ℕ) :
    (extentsProduct s n).toNat = volume s.nat n % 2 ^ 64 := by
  induction n with
  | zero => rfl
  | succ n ih =>
    rw [extentsProduct, UInt64.toNat_mul, ih, Nat.mod_mul_mod]
    rfl

/-- The sum of the loop in `tileOffset`, over the first `m` dimensions. -/
theorem foldl_offset (origin : Extents) (strides : Nat → Nat) (start : UInt64) (m : ℕ) :
    (List.range m).foldl (fun offset dim => offset + origin dim * UInt64.ofNat (strides dim)) start =
      start + UInt64.ofNat (∑ d ∈ Finset.range m, origin.nat d * strides d) := by
  induction m with
  | zero => exact (UInt64.add_zero _).symm
  | succ m ih =>
    rw [List.range_succ, List.foldl_append, ih, Finset.sum_range_succ, UInt64.ofNat_add,
      UInt64.ofNat_mul, ← UInt64.add_assoc]
    simp [Extents.nat]

theorem tileOffset_eq {origin box : Extents} {strides : Nat → Nat} {n : ℕ} (pos : 0 < n)
    (hs : ∀ d < n, strides d = stride box.nat d n) (elsize : ℕ) :
    tileOffset origin strides n elsize =
      UInt64.ofNat (elsize * position box.nat origin.nat n) := by
  obtain ⟨m, rfl⟩ := Nat.exists_eq_succ_of_ne_zero (Nat.ne_of_gt pos)
  have last : origin m = UInt64.ofNat (origin.nat m) := (UInt64.ofNat_toNat).symm
  have sum : ∑ d ∈ Finset.range m, origin.nat d * strides d =
      ∑ d ∈ Finset.range m, origin.nat d * stride box.nat d (m + 1) :=
    Finset.sum_congr rfl fun d member => by
      rw [hs d (Nat.lt_succ_of_lt (Finset.mem_range.mp member))]
  have total : position box.nat origin.nat (m + 1) =
      origin.nat m + ∑ d ∈ Finset.range m, origin.nat d * strides d := by
    rw [position_eq_sum, Finset.sum_range_succ, stride_last, Nat.mul_one, sum, Nat.add_comm]
  unfold tileOffset
  split
  · rw [Nat.succ_eq_add_one, Nat.add_sub_cancel, foldl_offset, total, UInt64.ofNat_mul,
      UInt64.ofNat_add, ← last, UInt64.mul_comm]
  · have zero : m = 0 := by omega
    subst zero
    rw [total, Finset.range_zero, Finset.sum_empty, Nat.add_zero, UInt64.ofNat_mul, ← last,
      UInt64.mul_comm]

/-! ## Plans -/

/-- The indices of a row: those of the outer dimensions. -/
def outer (n : ℕ) (k : ℕ → ℕ) : ℕ → ℕ := fun d => if d < n - 1 then k d else 0

/-- The number of an element of the array, from its place in the tile. -/
def place (box origin : Extents) (n : ℕ) (k : ℕ → ℕ) : ℕ :=
  position box.nat (fun d => origin.nat d + k d) n

namespace TilePlan

/-- A plan for a tile that is not empty and lies in an array of shape `box`. -/
structure InBox (plan : TilePlan) (box : Extents) : Prop where
  dims : 0 < plan.ndim
  strides : ∀ d < plan.ndim, plan.strides d = stride box.nat d plan.ndim
  bounds : ∀ d < plan.ndim, plan.origin.nat d + plan.shape.nat d ≤ box.nat d
  nonempty : ∀ d < plan.ndim, 0 < plan.shape.nat d
  offset : plan.offset = tileOffset plan.origin plan.strides plan.ndim plan.srcElsize
  nelems : plan.nelems = extentsProduct plan.shape plan.ndim
  regular : plan.convert.Regular
  srcSize : plan.convert.srcSize = plan.srcElsize
  dstSize : plan.convert.dstSize = plan.dstElsize
  dstElsize : 0 < plan.dstElsize
  tile : plan.tile.length = plan.dstElsize * volume plan.shape.nat plan.ndim
  tile_lt : plan.dstElsize * volume plan.shape.nat plan.ndim < 2 ^ 64

variable {plan : TilePlan} {box : Extents}

theorem InBox.inner (h : plan.InBox box) : plan.innerDim + 1 = plan.ndim := by
  have := h.dims
  unfold innerDim
  omega

/-- One step of the source pointer: one more in dimension `dim`. -/
theorem InBox.src_step (h : plan.InBox box) {dim : ℕ} (lt : dim < plan.ndim) (idx : ℕ → ℕ) (a : ℕ) :
    UInt64.ofNat (plan.srcElsize *
        place box plan.origin plan.ndim (Function.update idx dim a)) =
      UInt64.ofNat (plan.srcElsize *
        place box plan.origin plan.ndim (Function.update idx dim 0)) +
      UInt64.ofNat a * (UInt64.ofNat (plan.strides dim) * UInt64.ofNat plan.srcElsize) := by
  rw [place, place, position_add, position_add, position_update box.nat idx lt a, h.strides dim lt,
    ← UInt64.ofNat_mul, ← UInt64.ofNat_mul, ← UInt64.ofNat_add]
  congr 1
  ring

/-- The comparison that ends a carry. -/
theorem InBox.room_iff (h : plan.InBox box) {dim : ℕ} (lt : dim < plan.ndim) {odometer : UInt64}
    {i : ℕ} (hi : i < plan.shape.nat dim) (eq : odometer.toNat = plan.origin.nat dim + i) :
    (odometer + 1).toNat = plan.origin.nat dim + (i + 1) ∧
      (odometer + 1 < plan.origin dim + plan.shape dim ↔ i + 1 < plan.shape.nat dim) := by
  have bound := h.bounds dim lt
  have max : box.nat dim < 2 ^ 64 := (box dim).toNat_lt
  have one : (1 : UInt64).toNat = 1 := rfl
  have next : (odometer + 1).toNat = plan.origin.nat dim + (i + 1) := by
    rw [UInt64.toNat_add, eq, one, Nat.mod_eq_of_lt (by omega)]
    omega
  have sum : (plan.origin dim + plan.shape dim).toNat = plan.origin.nat dim + plan.shape.nat dim := by
    rw [UInt64.toNat_add]
    exact Nat.mod_eq_of_lt (Nat.lt_of_le_of_lt bound max)
  refine ⟨next, ?_⟩
  rw [UInt64.lt_iff_toNat_lt, next, sum]
  omega

theorem carry_full {dim : ℕ} {odometer : Extents} (src : UInt64)
    (full : ¬ odometer (dim + 1) + 1 < plan.origin (dim + 1) + plan.shape (dim + 1)) :
    plan.carry (dim + 1) odometer src =
      plan.carry dim (Function.update odometer (dim + 1) (plan.origin (dim + 1)))
        (src + UInt64.ofNat (plan.strides (dim + 1)) * UInt64.ofNat plan.srcElsize -
          plan.shape (dim + 1) *
            (UInt64.ofNat (plan.strides (dim + 1)) * UInt64.ofNat plan.srcElsize)) := by
  rw [carry]
  simp only [Function.update_self, Function.update_idem]
  rw [if_neg full]

theorem carry_spec (h : plan.InBox box) :
    ∀ (dim : ℕ) (idx : ℕ → ℕ) (odometer : Extents) (src : UInt64), dim < plan.innerDim →
      Inside plan.shape.nat idx (dim + 1) →
      (∀ d < plan.innerDim, (odometer d).toNat = plan.origin.nat d + idx d) →
      src = UInt64.ofNat (plan.srcElsize * place box plan.origin plan.ndim idx) →
      match advance plan.shape.nat (dim + 1) idx with
      | some idx' => ∃ odometer' src', plan.carry dim odometer src = (false, odometer', src') ∧
          (∀ d < plan.innerDim, (odometer' d).toNat = plan.origin.nat d + idx' d) ∧
          src' = UInt64.ofNat (plan.srcElsize * place box plan.origin plan.ndim idx')
      | none => (plan.carry dim odometer src).1 = true := by
  intro dim idx odometer src lt inside odo hsrc
  have inner := h.inner
  have low : dim < plan.ndim := by omega
  obtain ⟨next, room⟩ := h.room_iff low (inside dim (Nat.lt_succ_self dim)) (odo dim lt)
  -- the pointer after the step of this dimension
  have moved : src + UInt64.ofNat (plan.strides dim) * UInt64.ofNat plan.srcElsize =
      UInt64.ofNat (plan.srcElsize *
        place box plan.origin plan.ndim (Function.update idx dim (idx dim + 1))) := by
    have now := h.src_step low idx (idx dim)
    rw [Function.update_eq_self] at now
    rw [h.src_step low, UInt64.ofNat_add, UInt64.add_mul, ← UInt64.add_assoc, ← now, hsrc]
    exact congrArg _ (UInt64.one_mul _).symm
  rw [advance]
  by_cases more : idx dim + 1 < plan.shape.nat dim
  · rw [if_pos more]
    refine ⟨Function.update odometer dim (odometer dim + 1), _, ?_, ?_, moved⟩
    · unfold carry
      simp only [Function.update_self]
      rw [if_pos (room.mpr more)]
    · intro d hd
      by_cases same : d = dim
      · subst same
        rw [Function.update_self, Function.update_self]
        exact next
      · rw [Function.update_of_ne same, Function.update_of_ne same]
        exact odo d hd
  · rw [if_neg more]
    have full : idx dim + 1 = plan.shape.nat dim := by
      have := inside dim (Nat.lt_succ_self dim)
      omega
    cases dim with
    | zero =>
      unfold carry
      simp only [Function.update_self]
      rw [if_neg fun lt => more (room.mp lt)]
      rfl
    | succ dim =>
      -- back to the start of this dimension
      have back : src + UInt64.ofNat (plan.strides (dim + 1)) * UInt64.ofNat plan.srcElsize -
            plan.shape (dim + 1) *
              (UInt64.ofNat (plan.strides (dim + 1)) * UInt64.ofNat plan.srcElsize) =
          UInt64.ofNat (plan.srcElsize *
            place box plan.origin plan.ndim (Function.update idx (dim + 1) 0)) := by
        have extent : plan.shape (dim + 1) = UInt64.ofNat (plan.shape.nat (dim + 1)) :=
          (UInt64.ofNat_toNat).symm
        rw [moved, h.src_step low, full, extent, UInt64.add_sub_cancel]
      have reset : Inside plan.shape.nat (Function.update idx (dim + 1) 0) (dim + 1) := by
        intro d hd
        rw [Function.update_of_ne (Nat.ne_of_lt hd)]
        exact inside d (by omega)
      rw [carry_full src fun lt => more (room.mp lt)]
      apply carry_spec h dim _ _ _ (by omega) reset _ back
      intro d hd
      by_cases same : d = dim + 1
      · subst same
        rw [Function.update_self, Function.update_self]
        rfl
      · rw [Function.update_of_ne same, Function.update_of_ne same]
        exact odo d hd

/-! ## Rows -/

/-- Where the code reads the row of an element from. -/
def rowAddress (plan : TilePlan) (box : Extents) (k : ℕ → ℕ) : ℕ :=
  plan.srcElsize * place box plan.origin plan.ndim (outer plan.ndim k) % 2 ^ 64

/-- The bytes that the code converts for an element of the tile. -/
def source (plan : TilePlan) (box : Extents) (k : ℕ → ℕ) : Bytes :=
  elementAt plan.data (plan.rowAddress box k) plan.srcElsize (k plan.innerDim)

def rows (plan : TilePlan) : ℕ := volume plan.shape.nat plan.innerDim

/-- The row of `k` lies in the data. -/
def RowReads (plan : TilePlan) (box : Extents) (k : ℕ → ℕ) : Prop :=
  plan.rowAddress box k + plan.shape.nat plan.innerDim * plan.srcElsize ≤ plan.data.length

/-- The rows before row `j` are in the tile. -/
def Filled (plan : TilePlan) (box : Extents) (dst : Bytes) (j : ℕ) : Prop :=
  ∀ k, Inside plan.shape.nat k plan.ndim → position plan.shape.nat k plan.innerDim < j →
    elementAt dst 0 plan.dstElsize (position plan.shape.nat k plan.ndim) =
      (plan.convert.elem (plan.source box k)).1

/-- Some element of row `j` overflows. -/
def RowOverflows (plan : TilePlan) (box : Extents) (j : ℕ) : Prop :=
  ∃ k, Inside plan.shape.nat k plan.ndim ∧ position plan.shape.nat k plan.innerDim = j ∧
    (plan.convert.elem (plan.source box k)).2 = true

/-- The loop before row `j`. -/
structure AtRow (plan : TilePlan) (box : Extents) (j : ℕ) (s : TileLoop) : Prop where
  row : ∃ idx, Inside plan.shape.nat idx plan.innerDim ∧
    position plan.shape.nat idx plan.innerDim = j ∧ (∀ d ≥ plan.innerDim, idx d = 0) ∧
    (∀ d < plan.innerDim, (s.odometer d).toNat = plan.origin.nat d + idx d) ∧
    s.src = UInt64.ofNat (plan.srcElsize * place box plan.origin plan.ndim idx)
  dstTmp : s.dstTmp.toNat = j * (plan.shape.nat plan.innerDim * plan.dstElsize)
  length : s.dst.length = plan.tile.length
  filled : plan.Filled box s.dst j

/-- The tile after the conversion of row `j`. -/
structure AfterRow (plan : TilePlan) (box : Extents) (j : ℕ) (overflow : Bool) (dst : Bytes) :
    Prop where
  length : dst.length = plan.tile.length
  filled : plan.Filled box dst (j + 1)
  overflow : overflow = true ↔ plan.RowOverflows box j

theorem outer_eq {idx k : ℕ → ℕ} (same : ∀ d < plan.innerDim, idx d = k d) :
    outer plan.ndim idx = outer plan.ndim k := by
  funext d
  unfold outer
  split
  · exact same d ‹_›
  · rfl

theorem outer_self {idx : ℕ → ℕ} (rest : ∀ d ≥ plan.innerDim, idx d = 0) :
    outer plan.ndim idx = idx := by
  funext d
  unfold outer
  split
  · rfl
  · exact (rest d (Nat.le_of_not_lt ‹_›)).symm

theorem InBox.volume_eq (h : plan.InBox box) :
    volume plan.shape.nat plan.ndim = plan.rows * plan.shape.nat plan.innerDim := by
  rw [← h.inner]
  rfl

theorem InBox.position_eq (h : plan.InBox box) (k : ℕ → ℕ) :
    position plan.shape.nat k plan.ndim =
      position plan.shape.nat k plan.innerDim * plan.shape.nat plan.innerDim +
        k plan.innerDim := by
  rw [← h.inner]
  rfl

/-- A row's bytes lie in the tile. -/
theorem InBox.row_room (h : plan.InBox box) {j : ℕ} (lt : j < plan.rows) :
    j * (plan.shape.nat plan.innerDim * plan.dstElsize) +
      plan.shape.nat plan.innerDim * plan.dstElsize ≤ plan.tile.length := by
  have le : (j + 1) * (plan.shape.nat plan.innerDim * plan.dstElsize) ≤
      plan.rows * (plan.shape.nat plan.innerDim * plan.dstElsize) := Nat.mul_le_mul_right _ lt
  have total : plan.tile.length = plan.rows * (plan.shape.nat plan.innerDim * plan.dstElsize) := by
    rw [h.tile, h.volume_eq]
    ring
  rw [total, ← Nat.succ_mul]
  exact le

theorem AtRow.lt_rows {j : ℕ} {s : TileLoop} (at_ : plan.AtRow box j s) : j < plan.rows := by
  obtain ⟨idx, inside, rfl, -⟩ := at_.row
  exact position_lt inside

theorem src_toNat {s : TileLoop} {idx : ℕ → ℕ}
    (rest : ∀ d ≥ plan.innerDim, idx d = 0)
    (src : s.src = UInt64.ofNat (plan.srcElsize * place box plan.origin plan.ndim idx)) :
    s.src.toNat = plan.rowAddress box idx := by
  rw [src, UInt64.toNat_ofNat', rowAddress, outer_self rest]

theorem InBox.start (h : plan.InBox box) :
    plan.AtRow box 0
      { dst := plan.tile, dstTmp := 0, src := plan.offset, odometer := plan.origin } := by
  refine ⟨⟨fun _ => 0, ?_, position_const_zero _ _, fun _ _ => rfl, fun _ _ => rfl, ?_⟩, ?_, rfl, ?_⟩
  · intro d lt
    have := h.inner
    exact h.nonempty d (by omega)
  · change plan.offset = _
    rw [h.offset, tileOffset_eq h.dims h.strides]
    rfl
  · rw [Nat.zero_mul]
    rfl
  · exact fun k _ lt => absurd lt (Nat.not_lt_zero _)

/-- The conversion of a row that lies in the data. -/
theorem InBox.row_ret (h : plan.InBox box) {j : ℕ} {s : TileLoop} (at_ : plan.AtRow box j s)
    (reads : ∀ k, Inside plan.shape.nat k plan.innerDim →
      position plan.shape.nat k plan.innerDim = j → plan.RowReads box k) :
    ∃ overflow dst, plan.convert.run s.dst s.dstTmp.toNat plan.data s.src.toNat
        (plan.shape plan.innerDim).toNat = .ret (overflow, dst) ∧
      plan.AfterRow box j overflow dst := by
  obtain ⟨idx, inside, eq, rest, -, src⟩ := at_.row
  have room := h.row_room at_.lt_rows
  have lt := h.tile_lt
  rw [← h.tile] at lt
  have bytes : (plan.shape plan.innerDim).toNat * plan.convert.dstSize < 2 ^ 64 := by
    rw [h.dstSize]
    exact Nat.lt_of_le_of_lt (Nat.le_of_add_left_le room) lt
  have inData : s.src.toNat + (plan.shape plan.innerDim).toNat * plan.convert.srcSize ≤
      plan.data.length := by
    rw [src_toNat rest src, h.srcSize]
    exact reads idx inside eq
  have target : s.dstTmp.toNat + (plan.shape plan.innerDim).toNat * plan.convert.dstSize ≤
      s.dst.length := by
    rw [h.dstSize, at_.dstTmp, at_.length]
    exact room
  obtain ⟨overflow, dst, ret, conv⟩ := h.regular.run_ret bytes inData target
  -- the elements of this row are those of the index `idx`
  have this_row : ∀ k, Inside plan.shape.nat k plan.ndim →
      position plan.shape.nat k plan.innerDim = j →
      plan.source box k = elementAt plan.data s.src.toNat plan.convert.srcSize (k plan.innerDim) := by
    intro k hk same
    have below : Inside plan.shape.nat k plan.innerDim := by
      rw [← h.inner] at hk
      exact hk.init
    rw [source, src_toNat rest src, h.srcSize, rowAddress, rowAddress,
      outer_eq (position_inj below inside (same.trans eq.symm))]
  refine ⟨overflow, dst, ret, conv.length.trans at_.length, ?_, conv.overflow.trans ?_⟩
  · intro k hk less
    have last : k plan.innerDim < plan.shape.nat plan.innerDim :=
      hk plan.innerDim (by have := h.inner; omega)
    rw [h.position_eq]
    rcases Nat.lt_succ_iff_lt_or_eq.mp less with earlier | same
    · have fits : (position plan.shape.nat k plan.innerDim * plan.shape.nat plan.innerDim +
          k plan.innerDim + 1) * plan.dstElsize ≤ s.dstTmp.toNat := by
        rw [at_.dstTmp, ← Nat.mul_assoc]
        apply Nat.mul_le_mul_right
        calc position plan.shape.nat k plan.innerDim * plan.shape.nat plan.innerDim +
              k plan.innerDim + 1
            ≤ (position plan.shape.nat k plan.innerDim + 1) * plan.shape.nat plan.innerDim := by
              rw [Nat.succ_mul]
              omega
          _ ≤ j * plan.shape.nat plan.innerDim := Nat.mul_le_mul_right _ earlier
      rw [← elementAt_take (n := s.dstTmp.toNat) (by omega), conv.before,
        elementAt_take (by omega), ← h.position_eq]
      exact at_.filled k hk earlier
    · rw [this_row k hk same, ← conv.elem _ last, h.dstSize, same, at_.dstTmp, ← Nat.mul_assoc]
      have eq := elementAt_add dst 0 plan.dstElsize (j * plan.shape.nat plan.innerDim)
        (k plan.innerDim)
      rw [← eq, Nat.zero_add]
  · constructor
    · rintro ⟨i, less, exceeds⟩
      have below : ∀ d < plan.innerDim, Function.update idx plan.innerDim i d = idx d := fun d lt =>
        Function.update_of_ne (Nat.ne_of_lt lt) _ _
      have hk : Inside plan.shape.nat (Function.update idx plan.innerDim i) plan.ndim := by
        intro d lt
        by_cases same : d = plan.innerDim
        · subst same
          rwa [Function.update_self]
        · have := h.inner
          rw [Function.update_of_ne same]
          exact inside d (by omega)
      have same : position plan.shape.nat (Function.update idx plan.innerDim i) plan.innerDim = j :=
        (position_congr below).trans eq
      refine ⟨_, hk, same, ?_⟩
      rwa [this_row _ hk same, Function.update_self]
    · rintro ⟨k, hk, same, exceeds⟩
      rw [this_row k hk same] at exceeds
      exact ⟨k plan.innerDim, hk plan.innerDim (by have := h.inner; omega), exceeds⟩

/-- The rows with number `j` are read from the data: there is one of them. -/
def RowOk (plan : TilePlan) (box : Extents) (j : ℕ) : Prop :=
  ∀ k, Inside plan.shape.nat k plan.innerDim → position plan.shape.nat k plan.innerDim = j →
    plan.RowReads box k

theorem InBox.row_fault (h : plan.InBox box) {j : ℕ} {s : TileLoop} (at_ : plan.AtRow box j s)
    (stop : ¬ plan.RowOk box j) :
    plan.convert.run s.dst s.dstTmp.toNat plan.data s.src.toNat (plan.shape plan.innerDim).toNat =
      .fault .memory := by
  obtain ⟨idx, inside, eq, rest, -, src⟩ := at_.row
  have room := h.row_room at_.lt_rows
  have lt := h.tile_lt
  rw [← h.tile] at lt
  apply h.regular.run_fault
  · rw [h.dstSize]
    exact Nat.lt_of_le_of_lt (Nat.le_of_add_left_le room) lt
  · rw [src_toNat rest src, h.srcSize]
    intro reads
    apply stop
    intro k hk same
    unfold RowReads rowAddress
    rw [outer_eq (position_inj hk inside (same.trans eq.symm))]
    exact reads

/-- One round of the main loop: a row, and the step to the next one. -/
theorem InBox.round (h : plan.InBox box) (more : 0 < plan.innerDim) {j : ℕ} {s : TileLoop}
    (at_ : plan.AtRow box j s) {overflow : Bool} {dst : Bytes}
    (ret : plan.convert.run s.dst s.dstTmp.toNat plan.data s.src.toNat
      (plan.shape plan.innerDim).toNat = .ret (overflow, dst))
    (after : plan.AfterRow box j overflow dst) :
    if j + 1 < plan.rows then
      ∃ s', plan.mainRound s = .ret (.inl s') ∧ plan.AtRow box (j + 1) s'
    else plan.mainRound s = .ret (.inr (overflow, dst)) := by
  obtain ⟨idx, inside, eq, rest, odo, src⟩ := at_.row
  have dims : plan.innerDim - 1 + 1 = plan.innerDim := by omega
  have carried := carry_spec h (plan.innerDim - 1) idx s.odometer s.src (by omega)
    (by rwa [dims]) odo src
  have next := advance_position inside
  rw [dims] at carried
  have body : plan.mainRound s =
      if (plan.carry (plan.innerDim - 1) s.odometer s.src).1 then .ret (.inr (overflow, dst))
      else .ret (.inl
        { dst := dst
          dstTmp := s.dstTmp + plan.shape plan.innerDim * UInt64.ofNat plan.dstElsize
          src := (plan.carry (plan.innerDim - 1) s.odometer s.src).2.2
          odometer := (plan.carry (plan.innerDim - 1) s.odometer s.src).2.1 }) := by
    unfold mainRound
    dsimp only
    rw [ret]
    rfl
  cases step : advance plan.shape.nat plan.innerDim idx with
  | none =>
    rw [step] at carried next
    rw [if_neg (by unfold rows; simp only at next; omega), body, if_pos carried]
  | some idx' =>
    rw [step] at carried next
    obtain ⟨odometer', src', same, odo', hsrc'⟩ := carried
    obtain ⟨inside', eq'⟩ := next
    have lt : j + 1 < plan.rows := by
      have := position_lt inside'
      unfold rows
      omega
    rw [if_pos lt, body, same, if_neg Bool.false_ne_true]
    refine ⟨_, rfl, ⟨idx', inside', by omega, ?_, odo', hsrc'⟩, ?_, after.length, after.filled⟩
    · intro d ge
      rw [advance_frame ge step]
      exact rest d ge
    · have room := h.row_room lt
      have less := h.tile_lt
      rw [← h.tile] at less
      have row : (plan.shape plan.innerDim * UInt64.ofNat plan.dstElsize).toNat =
          plan.shape.nat plan.innerDim * plan.dstElsize := by
        rw [UInt64.toNat_mul, UInt64.toNat_ofNat', Nat.mul_mod_mod]
        exact Nat.mod_eq_of_lt (Nat.lt_of_le_of_lt (Nat.le_of_add_left_le room) less)
      change (s.dstTmp + plan.shape plan.innerDim * UInt64.ofNat plan.dstElsize).toNat = _
      rw [UInt64.toNat_add, row, at_.dstTmp, ← Nat.succ_mul]
      exact Nat.mod_eq_of_lt (Nat.lt_of_le_of_lt (Nat.le_of_add_right_le room) less)

/-- The main loop goes one round for each row of the tile. -/
theorem InBox.counted (h : plan.InBox box) (more : 0 < plan.innerDim) :
    Outcome.Counted plan.mainRound plan.rows (plan.AtRow box) (plan.RowOk box)
      (fun r => plan.AfterRow box (plan.rows - 1) r.1 r.2) where
  next j s lt at_ reads := by
    obtain ⟨overflow, dst, ret, after⟩ := h.row_ret at_ reads
    have := h.round more at_ ret after
    rwa [if_pos lt] at this
  last j s eq at_ reads := by
    obtain ⟨overflow, dst, ret, after⟩ := h.row_ret at_ reads
    have := h.round more at_ ret after
    rw [if_neg (by omega)] at this
    rw [← eq, Nat.add_sub_cancel]
    exact ⟨_, this, after⟩
  bad j s _ at_ stop := by
    refine ⟨.memory, ?_⟩
    unfold mainRound
    dsimp only
    rw [h.row_fault at_ stop]
    rfl

theorem InBox.rows_pos (h : plan.InBox box) : 0 < plan.rows :=
  volume_pos fun d lt => h.nonempty d (by have := h.inner; omega)

theorem is1d_iff : plan.is1d = true ↔ ∀ d < plan.innerDim, plan.shape.nat d = 1 := by
  unfold is1d
  rw [List.all_eq_true]
  constructor
  · intro all d lt
    have := of_decide_eq_true (all d (List.mem_range.mpr lt))
    rw [Extents.nat, this]
    rfl
  · intro all d member
    apply decide_eq_true
    apply UInt64.toNat_inj.mp
    exact all d (List.mem_range.mp member)

theorem rows_of_is1d (flat : plan.is1d = true) : plan.rows = 1 := by
  have ones : volume plan.shape.nat plan.innerDim = volume (fun _ => 1) plan.innerDim :=
    volume_congr (is1d_iff.mp flat)
  rw [rows, ones]
  have (n : ℕ) : volume (fun _ => 1) n = 1 := by
    induction n with
    | zero => rfl
    | succ n ih => rw [volume_succ, ih]
  exact this _

/-- The one-dimensional path is the conversion of the only row. -/
theorem fastPath_eq (h : plan.InBox box) (flat : plan.is1d = true) :
    plan.fastPath = plan.convert.run plan.tile (0 : UInt64).toNat plan.data plan.offset.toNat
      (plan.shape plan.innerDim).toNat := by
  have count : plan.nelems.toNat = (plan.shape plan.innerDim).toNat := by
    rw [h.nelems, extentsProduct_toNat, h.volume_eq, rows_of_is1d flat, Nat.one_mul]
    exact Nat.mod_eq_of_lt (plan.shape plan.innerDim).toNat_lt
  rw [fastPath, count]
  rfl

theorem innerDim_pos (flat : plan.is1d ≠ true) : 0 < plan.innerDim := by
  apply Nat.pos_of_ne_zero
  intro zero
  apply flat
  apply is1d_iff.mpr
  rw [zero]
  exact fun d lt => absurd lt (Nat.not_lt_zero d)

theorem finish_of_flat (flat : plan.is1d = true) (fuel : ℕ) :
    plan.finish fuel = plan.fastPath >>= fun r =>
      pure { err := if r.1 then .overflow else .ok, dst := some r.2, freed := false } :=
  if_pos flat

theorem finish_of_rows (flat : plan.is1d ≠ true) (fuel : ℕ) :
    plan.finish fuel = plan.mainLoop fuel >>= fun r =>
      pure { err := if r.1 then .overflow else .ok, dst := some r.2
             freed := r.1 && plan.newBuf } :=
  if_neg flat

theorem rows_iff : (∀ k, Inside plan.shape.nat k plan.innerDim → plan.RowReads box k) ↔
    ∀ j < plan.rows, plan.RowOk box j :=
  ⟨fun all _ _ k inside _ => all k inside, fun all k inside => all _ (position_lt inside) k inside rfl⟩

/-- The conversion faults for no number of rounds just if the data has all rows. -/
theorem InBox.finish_no_fault_iff (h : plan.InBox box) :
    (∀ fuel e, plan.finish fuel ≠ .fault e) ↔
      ∀ k, Inside plan.shape.nat k plan.innerDim → plan.RowReads box k := by
  rw [rows_iff]
  by_cases flat : plan.is1d = true
  · have body := finish_of_flat flat
    rw [rows_of_is1d flat]
    constructor
    · intro none j lt
      by_contra stop
      have first : j = 0 := by omega
      subst first
      apply none 0 .memory
      have faults := h.row_fault h.start stop
      rw [body, fastPath_eq h flat]
      exact congrArg (· >>= _) faults
    · intro all fuel e
      obtain ⟨overflow, dst, ret, -⟩ := h.row_ret h.start (all 0 Nat.one_pos)
      rw [body, fastPath_eq h flat]
      intro eq
      cases (congrArg (· >>= _) ret).symm.trans eq
  · have body := finish_of_rows flat
    rw [← (h.counted (innerDim_pos flat)).no_fault_iff h.rows_pos h.start]
    constructor
    · intro none fuel e eq
      apply none fuel e
      rw [body]
      exact congrArg (· >>= _) eq
    · intro none fuel e eq
      rw [body] at eq
      rcases Outcome.bind_eq_fault.mp eq with eq | ⟨r, -, eq⟩
      · exact none fuel e eq
      · cases eq

/-- The buffer that is returned is the plan's. -/
theorem finish_length {fuel : ℕ} {r : ReadResult} (h : plan.finish fuel = .ret r) :
    ∃ buf, r.dst = some buf ∧ buf.length = plan.tile.length := by
  by_cases flat : plan.is1d = true
  · rw [finish_of_flat flat] at h
    obtain ⟨⟨overflow, buf⟩, run, h⟩ := Outcome.bind_eq_ret.mp h
    cases h
    exact ⟨buf, rfl, ConvertFn.run_length run⟩
  · rw [finish_of_rows flat] at h
    obtain ⟨⟨overflow, buf⟩, run, h⟩ := Outcome.bind_eq_ret.mp h
    cases h
    refine ⟨buf, rfl, ?_⟩
    have step : ∀ s : TileLoop, s.dst.length = plan.tile.length →
        Outcome.wp (fun _ => True) True (Outcome.Round (fun s' => s'.dst.length = plan.tile.length)
          fun r : Bool × Bytes => r.2.length = plan.tile.length) (plan.mainRound s) := by
      intro s len
      apply Outcome.wp_partial
      intro result h
      obtain ⟨⟨exceeds, dst⟩, row, h⟩ := Outcome.bind_eq_ret.mp h
      have kept := (ConvertFn.run_length row).trans len
      dsimp only at h
      split at h
      · cases h
        exact kept
      · cases h
        exact kept
    have kept := Outcome.wp_of_ret (Outcome.wp_loop step fuel _ rfl) run
    exact kept

/-- The conversion of a one-dimensional tile that the data has. -/
theorem InBox.fastPath_ret (h : plan.InBox box) (reads : ∀ j < plan.rows, plan.RowOk box j)
    (flat : plan.is1d = true) :
    ∃ overflow dst, plan.fastPath = .ret (overflow, dst) ∧
      plan.AfterRow box (plan.rows - 1) overflow dst := by
  obtain ⟨overflow, dst, ret, after⟩ := h.row_ret h.start (reads 0 h.rows_pos)
  rw [fastPath_eq h flat, rows_of_is1d flat]
  exact ⟨overflow, dst, ret, after⟩

/-- The conversion of the rows of a tile that the data has. -/
theorem InBox.mainLoop_ret (h : plan.InBox box) (reads : ∀ j < plan.rows, plan.RowOk box j)
    (more : 0 < plan.innerDim) {fuel : ℕ} (enough : plan.rows ≤ fuel) :
    ∃ overflow dst, plan.mainLoop fuel = .ret (overflow, dst) ∧
      plan.AfterRow box (plan.rows - 1) overflow dst := by
  have run := (h.counted more).loop_within reads fuel 0 _ h.rows_pos h.start
  rw [if_neg (by omega)] at run
  obtain ⟨⟨overflow, dst⟩, ret, after⟩ := run
  exact ⟨overflow, dst, ret, after⟩

/-- The conversion of a tile whose rows the data has. -/
theorem InBox.finish_ret (h : plan.InBox box) (reads : ∀ j < plan.rows, plan.RowOk box j) {fuel : ℕ}
    (enough : plan.rows ≤ fuel) :
    ∃ overflow dst, plan.finish fuel = .ret
        { err := if overflow then .overflow else .ok, dst := some dst
          freed := !plan.is1d && (overflow && plan.newBuf) } ∧
      plan.AfterRow box (plan.rows - 1) overflow dst := by
  by_cases flat : plan.is1d = true
  · obtain ⟨overflow, dst, ret, after⟩ := h.fastPath_ret reads flat
    refine ⟨overflow, dst, ?_, after⟩
    rw [finish_of_flat flat, ret, flat]
    rfl
  · obtain ⟨overflow, dst, ret, after⟩ := h.mainLoop_ret reads (innerDim_pos flat) enough
    refine ⟨overflow, dst, ?_, after⟩
    rw [finish_of_rows flat, ret, Bool.eq_false_iff.mpr flat]
    rfl

/-- The main loop needs a round for each row. -/
theorem InBox.mainLoop_timeout_iff (h : plan.InBox box) (reads : ∀ j < plan.rows, plan.RowOk box j)
    (more : 0 < plan.innerDim) (fuel : ℕ) : plan.mainLoop fuel = .timeout ↔ fuel < plan.rows := by
  have run := (h.counted more).loop_within reads fuel 0 _ h.rows_pos h.start
  constructor
  · intro out
    by_contra enough
    rw [if_neg (by omega)] at run
    obtain ⟨r, ret, -⟩ := run
    cases out.symm.trans ret
  · intro few
    rwa [if_pos (by omega)] at run

/-- On a one-dimensional tile the main loop does what the other path does. -/
theorem InBox.mainLoop_eq_fastPath (h : plan.InBox box)
    (reads : ∀ j < plan.rows, plan.RowOk box j) (more : 0 < plan.innerDim)
    (flat : plan.is1d = true) (fuel : ℕ) : plan.mainLoop (fuel + 1) = plan.fastPath := by
  obtain ⟨overflow, dst, ret, after⟩ := h.row_ret h.start (reads 0 h.rows_pos)
  have only := h.round more h.start ret after
  rw [if_neg (by rw [rows_of_is1d flat]; omega)] at only
  rw [fastPath_eq h flat, mainLoop, Outcome.loop_of_exit only]
  exact ret.symm

end TilePlan

end LibAsdf
