import LibAsdf.Ndarray.Inline
import LibAsdf.Ndarray.TileData

/-!
# The byte offset of an array

Whether the elements that are returned, or written inline, are those at the
array's offset in its block, whatever the bytes of the block are.

* `windows_same`: a function of the bytes at two overlapping places that always
  gives the same there is constant;
* `tileHonours_iff`, `inlineHonours_iff`: the exact conditions of the paths;
* `offset_honoured`: the paths together.
-/

namespace LibAsdf

open RowMajor

/-! ## Windows -/

/-- Bytes that are `n` shifts apart. -/
theorem windows_chain {β : Type} {f : Bytes → β} {off size : ℕ}
    (step : ∀ x : Bytes, x.length = off + size → f (x.take size) = f (x.drop off)) :
    ∀ (n : ℕ) (x : Bytes), x.length = n * off + size → f (x.take size) = f (x.drop (n * off)) := by
  intro n
  induction n with
  | zero =>
    intro x len
    rw [Nat.zero_mul, List.drop_zero, List.take_of_length_le (by omega)]
  | succ n ih =>
    intro x len
    rw [Nat.succ_mul] at len
    have first := step (x.take (off + size)) (by rw [List.length_take]; omega)
    have rest := ih (x.drop off) (by rw [List.length_drop]; omega)
    rw [List.take_take, Nat.min_eq_left (by omega), List.drop_take, Nat.add_sub_cancel_left] at first
    rw [first, rest, List.drop_drop, Nat.succ_mul, Nat.add_comm off]

/-- What is the same at two places of all data of some length is constant. -/
theorem windows_same {β : Type} {f : Bytes → β} {len p off size : ℕ} (pos : 0 < off)
    (fits : p + off + size ≤ len)
    (same : ∀ data : Bytes, data.length = len →
      f ((data.drop p).take size) = f ((data.drop (p + off)).take size)) {x y : Bytes}
    (hx : x.length = size) (hy : y.length = size) : f x = f y := by
  have step : ∀ z : Bytes, z.length = off + size → f (z.take size) = f (z.drop off) := by
    intro z hz
    have data := same (List.replicate p 0 ++ (z ++ List.replicate (len - (p + off + size)) 0)) (by
      rw [List.length_append, List.length_append, List.length_replicate, List.length_replicate, hz]
      omega)
    have skip : (List.replicate p (0 : Byte)).length = p := List.length_replicate
    rw [← List.drop_drop, List.drop_left' skip, List.take_append_of_le_length (by omega),
      List.drop_append_of_le_length (by omega), List.take_append_of_le_length (by
        rw [List.length_drop]; omega)] at data
    have whole : (z.drop off).take size = z.drop off :=
      List.take_of_length_le (by rw [List.length_drop]; omega)
    rwa [whole] at data
  have far : size ≤ size * off := Nat.le_mul_of_pos_right _ pos
  have chain := windows_chain step size (x ++ (List.replicate (size * off - size) 0 ++ y)) (by
    rw [List.length_append, List.length_append, List.length_replicate, hx, hy]
    omega)
  have split : x ++ (List.replicate (size * off - size) 0 ++ y) =
      (x ++ List.replicate (size * off - size) 0) ++ y := (List.append_assoc _ _ _).symm
  rw [List.take_append_of_le_length (by omega), List.take_of_length_le (by omega), split,
    List.drop_left' (by rw [List.length_append, List.length_replicate, hx]; omega)] at chain
  exact chain

/-! ## Tiles -/

/-- The array on other data. -/
def withData (a : Ndarray) (data : Object) : Ndarray := { a with data := data }

/-- Element `i` of the array is in the block. -/
def Stored (a : Ndarray) (i : ℕ) : Prop :=
  a.offset.toNat + (i + 1) * a.datatype.size ≤ a.data.bytes.length

/-- Whatever the data is, a read that goes on has found that it covers the array
from its offset on, and returns the elements that are stored there. -/
def TileHonours (pf : Platform) (a : Ndarray) (origin shape : Extents) (dstT : ScalarDatatype)
    (dst : Option Object) (read : ℕ → Ndarray → Run ReadResult) : Prop :=
  ∀ data : Object, data.bytes.length = a.data.bytes.length →
    ReadsOn pf (withData a data) origin shape dstT dst →
    Covers a a.offset.toNat ∧
    ∀ fuel, volume shape.nat (a.ndim - 1) ≤ fuel →
      ∃ r buf, read fuel (withData a data) = .ret r ∧ r.dst = some buf ∧
        ∀ k, TileIndex a shape k → Stored a (place a.shape origin a.ndim k) ∧
          elementAt buf 0 (destDatatype a dstT).size (position shape.nat k a.ndim) =
            (convertedElement pf (withData a data) dstT a.offset.toNat
              (place a.shape origin a.ndim k)).1

/-- An array at the start of its block, and sizes that do not wrap. -/
structure AtStart (a : Ndarray) (origin shape : Extents) (dstT : ScalarDatatype) : Prop where
  offset : a.offset = 0
  sums : ∀ d < a.ndim, origin.nat d + shape.nat d < 2 ^ 64
  bytes : tileBytes a shape dstT < 2 ^ 64
  array : a.datatype.size * tileElems a a.shape < 2 ^ 64

variable {pf : Platform} {a : Ndarray} {origin shape : Extents} {dstT : ScalarDatatype}
  {dst : Option Object}

/-- The checks read the length of the data, not the data. -/
theorem ReadsOn.withData (on : ReadsOn pf a origin shape dstT dst) {data : Object}
    (len : data.bytes.length = a.data.bytes.length) :
    ReadsOn pf (withData a data) origin shape dstT dst :=
  { on with
    coversTile := by
      have := on.coversTile
      rwa [← len] at this
    coversArray := by
      have := on.coversArray
      rwa [← len] at this }

theorem ndarrayNbytes_toNat (dims : 0 < a.ndim) :
    (ndarrayNbytes a).toNat = a.datatype.size * tileElems a a.shape % 2 ^ 64 := by
  have size : (ndarraySize a).toNat = tileElems a a.shape % 2 ^ 64 := by
    rw [ndarraySize, if_neg (Nat.ne_of_gt dims), tileElems, if_neg (Nat.ne_of_gt dims)]
    exact extentsProduct_toNat _ _
  unfold ndarrayNbytes
  split
  · rw [‹ndarraySize a = 0›] at size
    rw [Nat.mul_mod, ← size]
    rfl
  · rw [UInt64.toNat_mul, UInt64.toNat_ofNat', size, Nat.mod_mul_mod, Nat.mul_mod_mod, Nat.mul_comm]

theorem ReadsOn.covers (on : ReadsOn pf a origin shape dstT dst)
    (array : a.datatype.size * tileElems a a.shape < 2 ^ 64) : Covers a 0 := by
  have := on.coversArray
  rw [ndarrayNbytes_toNat on.dims, Nat.mod_eq_of_lt array] at this
  rwa [Covers, Nat.zero_add]

/-- An element of a tile within bounds is one of the array. -/
theorem place_lt (bounds : ∀ d < a.ndim, origin.nat d + shape.nat d ≤ a.shape.nat d) {k : ℕ → ℕ}
    (index : TileIndex a shape k) : place a.shape origin a.ndim k < tileElems a a.shape := by
  rw [tileElems, if_neg (Nat.ne_of_gt index.1)]
  apply position_lt
  intro d lt
  have := bounds d lt
  have := index.2 d lt
  simp only
  omega

theorem ReadsOn.honours (on : ReadsOn pf a origin shape dstT dst) (start : AtStart a origin shape dstT)
    (required : Required a shape dstT dst) :
    TileHonours pf a origin shape dstT dst fun fuel b => readTileNdim fuel pf b origin shape dstT dst := by
  intro data len on'
  have zero : a.offset.toNat = 0 := by rw [start.offset]; rfl
  have covers := on.covers start.array
  have covers' : Covers (LibAsdf.withData a data) 0 := on'.covers start.array
  rw [zero]
  refine ⟨covers, fun fuel enough => ?_⟩
  obtain ⟨r, ret, -, ⟨buf, hbuf, elem⟩, -⟩ :=
    on'.run start.sums start.bytes required covers' enough
  refine ⟨r, buf, ret, hbuf, fun k index => ⟨?_, elem k index⟩⟩
  have lt := place_lt (on.inside start.sums) index
  have le := Nat.mul_le_mul_left a.datatype.size (Nat.succ_le_of_lt lt)
  unfold Covers at covers
  rw [Nat.succ_eq_add_one] at le
  rw [Stored, zero, Nat.mul_comm]
  omega

/-- The last element of a tile that is read. -/
theorem ReadsOn.last_index (on : ReadsOn pf a origin shape dstT dst) :
    TileIndex a shape fun d => shape.nat d - 1 :=
  ⟨on.dims, fun d lt => Nat.sub_lt (on.extent_pos d lt) Nat.one_pos⟩

/-- If the last element of a tile is in the block, no sum wraps. -/
theorem ReadsOn.sums_of_stored (on : ReadsOn pf a origin shape dstT dst)
    (stored : Stored a (place a.shape origin a.ndim fun d => shape.nat d - 1)) :
    ∀ d < a.ndim, origin.nat d + shape.nat d < 2 ^ 64 := by
  have size := a.data.size_le
  have pos := on.srcElsize
  have small : place a.shape origin a.ndim (fun d => shape.nat d - 1) < offMax := by
    unfold Stored at stored
    have := Nat.le_mul_of_pos_right (place a.shape origin a.ndim (fun d => shape.nat d - 1) + 1) pos
    omega
  -- from the last dimension down: the strides above are not zero
  have from_ : ∀ m, ∀ d, d < a.ndim → a.ndim - m ≤ d → origin.nat d + shape.nat d < 2 ^ 64 := by
    intro m
    induction m with
    | zero => intro d lt ge; omega
    | succ m ih =>
      intro d lt ge
      by_cases later : a.ndim - m ≤ d
      · exact ih d lt later
      · have boxes : ∀ e < a.ndim, d < e → 0 < a.shape.nat e := by
          intro e less after
          have sum := ih e less (by omega)
          have check := of_decide_eq_true
            (List.all_eq_true.mp on.bounds e (List.mem_range.mpr less))
          rw [UInt64.le_iff_toNat_le, UInt64.toNat_add] at check
          have exact_ : ((origin e).toNat + (shape e).toNat) % 2 ^ 64 =
              origin.nat e + shape.nat e := Nat.mod_eq_of_lt sum
          have extent := on.extent_pos e less
          have box : (a.shape e).toNat = a.shape.nat e := rfl
          omega
        have stride := stride_pos lt boxes
        have le := mul_stride_le_position a.shape.nat
          (fun d => origin.nat d + (shape.nat d - 1)) lt
        have one := Nat.le_mul_of_pos_right (origin.nat d + (shape.nat d - 1)) stride
        have extent := on.extent_pos d lt
        have max : offMax < 2 ^ 64 - 1 := by decide
        have small : position a.shape.nat (fun d => origin.nat d + (shape.nat d - 1)) a.ndim <
            offMax := small
        omega
  exact fun d lt => from_ a.ndim d lt (by omega)

theorem elementAt_room {mem : Bytes} {off size idx : ℕ} (pos : 0 < size)
    (len : (elementAt mem off size idx).length = size) : off + (idx + 1) * size ≤ mem.length := by
  rw [elementAt, List.length_take, List.length_drop] at len
  rw [Nat.succ_mul]
  omega

theorem length_hostBytes (pf : Platform) (order : Byteorder) (val : Bytes) :
    (hostBytes pf order val).length = val.length := by
  unfold hostBytes
  split
  · exact List.length_reverse
  · rfl

/-- The buffer has the last element, so the tile's size does not wrap. -/
theorem ReadsOn.bytes_of_last (on : ReadsOn pf a origin shape dstT dst) {buf : Bytes}
    (le : buf.length ≤ offMax)
    (stored : Stored a (place a.shape origin a.ndim fun d => shape.nat d - 1))
    (last : elementAt buf 0 (destDatatype a dstT).size
        (position shape.nat (fun d => shape.nat d - 1) a.ndim) =
      (convertedElement pf a dstT a.offset.toNat
        (place a.shape origin a.ndim fun d => shape.nat d - 1)).1) :
    tileBytes a shape dstT < 2 ^ 64 := by
  have supported := getConvertFn_isSome.mp on.supported
  have length : (elementAt buf 0 (destDatatype a dstT).size
      (position shape.nat (fun d => shape.nat d - 1) a.ndim)).length =
      (destDatatype a dstT).size := by
    rw [last]
    apply length_convertValue supported
    rw [length_hostBytes]
    exact length_elementAt stored
  have room := elementAt_room on.dstElsize length
  have whole : position shape.nat (fun d => shape.nat d - 1) a.ndim + 1 = volume shape.nat a.ndim := by
    apply (position_last_iff on.last_index.2).mpr
    intro d lt
    have := on.extent_pos d lt
    omega
  rw [whole, Nat.zero_add, Nat.mul_comm] at room
  rw [tileBytes, on.elems]
  have : offMax < 2 ^ 64 := by decide
  omega

/-- Two places with the same conversions for all data are the same. -/
theorem offset_eq_zero (supported : Supported pf a.datatype (destDatatype a dstT)) {i : ℕ}
    (stored : Stored a i)
    (same : ∀ data : Object, data.bytes.length = a.data.bytes.length →
      (convertedElement pf (withData a data) dstT 0 i).1 =
        (convertedElement pf (withData a data) dstT a.offset.toNat i).1) : a.offset = 0 := by
  apply UInt64.toNat_inj.mp
  by_contra nonzero
  have pos : 0 < a.offset.toNat := Nat.pos_of_ne_zero nonzero
  obtain ⟨x, y, hx, hy, differ⟩ := convertValue_separates supported
  let f : Bytes → Bytes := fun val =>
    (convertValue pf a.datatype (destDatatype a dstT) (hostBytes pf a.byteorder val)).1
  have fits : i * a.datatype.size + a.offset.toNat + a.datatype.size ≤ a.data.bytes.length := by
    unfold Stored at stored
    rw [Nat.succ_mul] at stored
    omega
  have constant {u v : Bytes} (hu : u.length = a.datatype.size) (hv : v.length = a.datatype.size) :
      f u = f v := by
    apply windows_same pos fits _ hu hv
    intro data len
    have eq := same ⟨data, by rw [len]; exact a.data.size_le⟩ len
    change f (elementAt data 0 a.datatype.size i) = f (elementAt data a.offset.toNat a.datatype.size i) at eq
    rwa [elementAt, elementAt, Nat.zero_add, Nat.add_comm a.offset.toNat] at eq
  have involutive (val : Bytes) : hostBytes pf a.byteorder (hostBytes pf a.byteorder val) = val := by
    unfold hostBytes
    split
    · exact List.reverse_reverse val
    · rfl
  apply differ
  have eq := constant (u := hostBytes pf a.byteorder x) (v := hostBytes pf a.byteorder y)
    (by rw [length_hostBytes, hx]) (by rw [length_hostBytes, hy])
  simpa only [f, involutive] using eq

/-- The tile path honours the offset just where there is none to honour. -/
theorem tileHonours_iff (required : Required a shape dstT dst) :
    TileHonours pf a origin shape dstT dst
        (fun fuel b => readTileNdim fuel pf b origin shape dstT dst) ↔
      (ReadsOn pf a origin shape dstT dst → AtStart a origin shape dstT) := by
  constructor
  · intro honours on
    have found (data : Object) (len : data.bytes.length = a.data.bytes.length) :=
      (honours data len (on.withData len)).2 _ (Nat.le_refl _)
    obtain ⟨covers, -⟩ := honours a.data rfl on
    obtain ⟨r, buf, ret, hbuf, elem⟩ := found a.data rfl
    obtain ⟨stored, last⟩ := elem _ on.last_index
    have sums := on.sums_of_stored stored
    have array : a.datatype.size * tileElems a a.shape < 2 ^ 64 := by
      have := a.data.size_le
      have : offMax < 2 ^ 64 := by decide
      unfold Covers at covers
      omega
    have le : buf.length ≤ offMax := by
      rcases prepareTile_cases pf a origin shape dstT dst with ⟨off, -⟩ | ⟨-, f, tile, -, buffer, run⟩
      · exact absurd on off
      · rcases run with ⟨strides, -, eq⟩ | ⟨e, -, eq⟩
        · obtain ⟨buf', hbuf', length⟩ :=
            TilePlan.finish_length ((readTileNdim_of_plan eq _).symm.trans ret)
          cases hbuf.symm.trans hbuf'
          rw [length]
          exact tileBuffer_length_le buffer
        · have faults : readTileNdim (volume shape.nat (a.ndim - 1)) pf a origin shape dstT dst =
              .fault e := by
            rw [readTileNdim, eq]
            rfl
          cases faults.symm.trans ret
    have bytes := on.bytes_of_last le stored last
    refine ⟨?_, sums, bytes, array⟩
    apply offset_eq_zero (getConvertFn_isSome.mp on.supported) stored
    intro data len
    have on' := on.withData len
    obtain ⟨r, ret, -, ⟨buf, hbuf, elem⟩, -⟩ :=
      on'.run sums bytes required (on'.covers array) (Nat.le_refl _)
    obtain ⟨r', buf', ret', hbuf', elem'⟩ := found data len
    cases ret.symm.trans ret'
    cases hbuf.symm.trans hbuf'
    exact (elem _ on.last_index).symm.trans (elem' _ on.last_index).2
  · intro start data len on'
    have on : ReadsOn pf a origin shape dstT dst := on'.withData (a := withData a data) len.symm
    exact on.honours (start on) required data len on'

/-! ## Inline serialization -/

/-- The indices of an element, as a path in nested sequences. -/
def indexPath (n : ℕ) (k : ℕ → ℕ) : List ℕ := (List.range n).map k

theorem indexPath_succ (n : ℕ) (k : ℕ → ℕ) :
    indexPath (n + 1) k = k 0 :: indexPath n fun d => k (d + 1) := by
  rw [indexPath, List.range_succ_eq_map, List.map_cons, List.map_map]
  rfl

theorem extentsVolume_eq (extents : List UInt64) :
    extentsVolume extents = volume (fun d => (extents.getD d 0).toNat) extents.length := by
  induction extents with
  | nil => rfl
  | cons dim rest ih =>
    rw [extentsVolume, ih, List.length_cons, volume_front]
    rfl

theorem extentsPosition_eq (extents : List UInt64) (k : ℕ → ℕ) :
    extentsPosition extents (indexPath extents.length k) =
      position (fun d => (extents.getD d 0).toNat) k extents.length := by
  induction extents generalizing k with
  | nil => rfl
  | cons dim rest ih =>
    rw [List.length_cons, indexPath_succ, extentsPosition, ih, extentsVolume_eq, position_front]
    rfl

/-- A path to an element has an index for each dimension. -/
theorem written_path {extents : List UInt64} {path : List ℕ} (h : Written extents path) :
    ∃ k, path = indexPath extents.length k := by
  induction extents generalizing path with
  | nil => cases path <;> cases h
  | cons dim rest ih =>
    cases rest with
    | nil =>
      cases path with
      | nil => cases h
      | cons idx path =>
        cases path with
        | nil => exact ⟨fun _ => idx, rfl⟩
        | cons next path => cases h
    | cons inner rest =>
      cases path with
      | nil => cases h
      | cons idx path =>
        obtain ⟨k, rfl⟩ := ih h.2
        let k' : ℕ → ℕ := fun d => if d = 0 then idx else k (d - 1)
        exact ⟨k', (indexPath_succ (inner :: rest).length k').symm⟩

/-- Whatever the data is, the elements that are written inline are those stored
at the array's offset. -/
def InlineHonours (pf : Platform) (a : Ndarray) : Prop :=
  ∀ data : Object, data.bytes.length = a.data.bytes.length →
    ∃ result, serializeInlineData pf (withData a data) = .ret result ∧
      ∀ node, result = some node → ∀ k bytes, node.scalarAt (indexPath a.ndim k) = some bytes →
        Stored a (position a.shape.nat k a.ndim) ∧
          bytes = elementAt data.bytes a.offset.toNat a.datatype.size
            (position a.shape.nat k a.ndim)

/-- Arrays with elements to write: at the start of their block, of another type
than `float16`, with the elements in the block. -/
def InlineAtStart (pf : Platform) (a : Ndarray) : Prop :=
  leafWidth pf a.datatype ≠ none → ∀ k, Written a.extents (indexPath a.ndim k) →
    a.offset = 0 ∧ a.datatype ≠ .float16 ∧
      (position a.shape.nat k a.ndim + 1) * a.datatype.size ≤ a.data.bytes.length

theorem leafWidth_eq {t : ScalarDatatype} {width : ℕ} (h : leafWidth pf t = some width) :
    0 < width ∧ (width = t.size ↔ t ≠ .float16) := by
  cases t <;> simp_all [leafWidth, ScalarDatatype.size] <;> omega

theorem serializeInlineData_of_level {result : Option (YamlNode × UInt64)}
    (h : serializeSeqLevel pf a a.extents 0 = .ret result) :
    serializeInlineData pf a = .ret (result.map Prod.fst) := by
  rw [serializeInlineData, h]
  cases result <;> rfl

theorem inline_returns {width : ℕ} (supported : leafWidth pf a.datatype = some width)
    (data : HasData pf a a.extents 0) :
    ∃ node, serializeInlineData pf a = .ret (some node) ∧ HasWritten pf a a.extents node ∧
      HasValues a a.extents 0 node := by
  cases extents : a.extents with
  | nil =>
    have level : serializeSeqLevel pf a a.extents 0 = .ret (some (.seq [], 0)) := by
      rw [extents]
      rfl
    have shape := serializeSeqLevel_shape level
    rw [extents] at shape
    exact ⟨.seq [], serializeInlineData_of_level level, shape, fun path written => by
      cases path <;> cases written⟩
  | cons dim rest =>
    rw [extents] at data
    obtain ⟨node, eq, values⟩ := serializeSeqLevel_ret supported rest dim 0 data
    have level : serializeSeqLevel pf a a.extents 0 =
        .ret (some (node, UInt64.ofNat (0 + extentsVolume (dim :: rest)))) := by
      rw [extents]
      exact eq
    have shape := serializeSeqLevel_shape level
    rw [extents] at shape
    exact ⟨node, serializeInlineData_of_level level, shape, values⟩

/-- The paths of the elements, and the numbers of the elements there. -/
theorem hasData_iff (pf : Platform) (a : Ndarray) : HasData pf a a.extents 0 ↔
    ∀ k, Written a.extents (indexPath a.ndim k) → leafWidth pf a.datatype = some a.datatype.size ∧
      (position a.shape.nat k a.ndim + 1) * a.datatype.size ≤ a.data.bytes.length := by
  constructor
  · intro data k written
    have := data _ written
    rwa [Nat.zero_add, Ndarray.ndim, extentsPosition_eq] at this
  · intro all path written
    obtain ⟨k, rfl⟩ := written_path written
    rw [Nat.zero_add, extentsPosition_eq]
    exact all k written

theorem HasValues.index {node : YamlNode} (h : HasValues a a.extents 0 node) {k : ℕ → ℕ}
    (written : Written a.extents (indexPath a.ndim k)) :
    node.scalarAt (indexPath a.ndim k) =
      some (elementAt a.data.bytes 0 a.datatype.size (position a.shape.nat k a.ndim)) := by
  have value := h _ written
  rwa [Nat.zero_add, Ndarray.ndim, extentsPosition_eq] at value

theorem inlineHonours_iff (pf : Platform) (a : Ndarray) :
    InlineHonours pf a ↔ InlineAtStart pf a := by
  constructor
  · intro honours supported k written
    obtain ⟨width, hwidth⟩ := Option.ne_none_iff_exists'.mp supported
    obtain ⟨result, eq, right⟩ := honours a.data rfl
    -- every element that is written is stored in the block
    have each : ∀ k, Written a.extents (indexPath a.ndim k) →
        leafWidth pf a.datatype = some a.datatype.size ∧ Stored a (position a.shape.nat k a.ndim) := by
      intro k written
      obtain ⟨level, hlevel, eq'⟩ := Outcome.bind_eq_ret.mp eq
      cases level with
      | none => exact absurd hlevel (serializeSeqLevel_some hwidth _ _)
      | some level =>
        cases eq'
        obtain ⟨bytes, found, size⟩ := (serializeSeqLevel_shape hlevel _).1 written
        obtain ⟨stored, value⟩ := right _ rfl k bytes found
        have len : bytes.length = a.datatype.size := by
          rw [value]
          exact length_elementAt stored
        exact ⟨size.trans (congrArg some len), stored⟩
    have data : HasData pf a a.extents 0 := by
      apply (hasData_iff pf a).mpr
      intro k written
      obtain ⟨size, stored⟩ := each k written
      unfold Stored at stored
      exact ⟨size, by omega⟩
    obtain ⟨size, stored⟩ := each k written
    obtain ⟨positive, half⟩ := leafWidth_eq size
    refine ⟨?_, half.mp rfl, ((hasData_iff pf a).mp data k written).2⟩
    apply UInt64.toNat_inj.mp
    by_contra nonzero
    have fits : position a.shape.nat k a.ndim * a.datatype.size + a.offset.toNat +
        a.datatype.size ≤ a.data.bytes.length := by
      unfold Stored at stored
      rw [Nat.succ_mul] at stored
      omega
    have constant : List.replicate a.datatype.size (0 : Byte) = List.replicate a.datatype.size 1 := by
      apply windows_same (f := fun val => val) (Nat.pos_of_ne_zero nonzero) fits _
        List.length_replicate List.length_replicate
      intro bytes len
      have object : bytes.length ≤ offMax := by
        rw [len]
        exact a.data.size_le
      obtain ⟨result, eq, right⟩ := honours ⟨bytes, object⟩ len
      have data' : HasData pf (withData a ⟨bytes, object⟩) a.extents 0 := by
        intro path written
        have := data path written
        rwa [← len] at this
      obtain ⟨node, eq', -, values⟩ := inline_returns (a := withData a ⟨bytes, object⟩) hwidth data'
      cases eq.symm.trans eq'
      obtain ⟨-, value⟩ := right node rfl k _ (values.index written)
      change elementAt bytes 0 a.datatype.size (position a.shape.nat k a.ndim) = _ at value
      rwa [elementAt, elementAt, Nat.zero_add, Nat.add_comm a.offset.toNat] at value
    obtain ⟨n, hn⟩ := Nat.exists_eq_succ_of_ne_zero (Nat.ne_of_gt positive)
    rw [hn] at constant
    simp [List.replicate_succ] at constant
  · intro start data len
    cases supported : leafWidth pf a.datatype with
    | none =>
      obtain ⟨level, eq⟩ :=
        serializeSeqLevel_unsupported (a := withData a data) supported a.extents 0
      refine ⟨_, serializeInlineData_of_level eq, ?_⟩
      intro node found k bytes at_
      obtain ⟨⟨node', off⟩, rfl, same⟩ := Option.map_eq_some_iff.mp found
      have shape := serializeSeqLevel_shape eq (indexPath a.ndim k)
      cases same
      by_cases written : Written a.extents (indexPath a.ndim k)
      · obtain ⟨_, -, width⟩ := shape.1 written
        cases supported.symm.trans width
      · cases at_.symm.trans (shape.2 written)
    | some width =>
      have start := start (by rw [supported]; rintro ⟨⟩)
      have data' : HasData pf (withData a data) a.extents 0 := by
        apply (hasData_iff pf (withData a data)).mpr
        intro k written
        obtain ⟨-, half, fits⟩ := start k written
        refine ⟨?_, by rw [← len] at fits; exact fits⟩
        have same := (leafWidth_eq supported).2.mpr half
        exact supported.trans (congrArg some same)
      obtain ⟨node, eq, shape, values⟩ := inline_returns (a := withData a data) supported data'
      refine ⟨some node, eq, ?_⟩
      rintro _ ⟨⟩ k bytes found
      have written : Written a.extents (indexPath a.ndim k) := by
        by_contra out
        cases found.symm.trans ((shape _).2 out)
      obtain ⟨zero, -, fits⟩ := start k written
      have value := found.symm.trans (values.index written)
      have zero : a.offset.toNat = 0 := by rw [zero]; rfl
      refine ⟨by rw [Stored, zero, Nat.zero_add]; exact fits, ?_⟩
      rw [zero]
      exact Option.some.inj value

/-! ## The paths together -/

/-- Each way to read an array, and to write it inline, honours the offset just
where there is none to honour and nothing wraps. -/
theorem offset_honoured (pf : Platform) (a : Ndarray) (origin shape indices : Extents)
    (dstT : ScalarDatatype) (dst whole : Option Object) (elem : Object)
    (required : Required a shape dstT dst) (requiredWhole : Required a a.shape dstT whole)
    (requiredElem : Required a unitShape dstT (some elem)) :
    (TileHonours pf a origin shape dstT dst
        (fun fuel b => readTileNdim fuel pf b origin shape dstT dst) ↔
      (ReadsOn pf a origin shape dstT dst → AtStart a origin shape dstT)) ∧
    (TileHonours pf a (fun _ => 0) a.shape dstT whole (fun fuel b => readAll fuel pf b dstT whole) ↔
      (ReadsOn pf a (fun _ => 0) a.shape dstT whole → AtStart a (fun _ => 0) a.shape dstT)) ∧
    (TileHonours pf a indices unitShape dstT (some elem)
        (fun fuel b => readAt fuel pf b indices dstT elem) ↔
      (ReadsOn pf a indices unitShape dstT (some elem) → AtStart a indices unitShape dstT)) ∧
    (InlineHonours pf a ↔ InlineAtStart pf a) := by
  refine ⟨tileHonours_iff required, ?_, ?_, inlineHonours_iff pf a⟩
  · exact tileHonours_iff requiredWhole
  · by_cases dims : a.ndim = 0
    · constructor
      · exact fun _ on => absurd on.dims (by omega)
      · intro _ data _ on
        have pos : 0 < a.ndim := on.dims
        omega
    · have same : (fun (fuel : ℕ) (b : Ndarray) => readAt fuel pf b indices dstT elem) = fun fuel b =>
          if b.ndim = 0 then .ret (.failed .inval (some elem))
          else readTileNdim fuel pf b indices unitShape dstT (some elem) := rfl
      rw [← tileHonours_iff requiredElem, same]
      unfold TileHonours
      have step (data : Object) (fuel : ℕ) :
          (if (withData a data).ndim = 0 then .ret (.failed .inval (some elem))
            else readTileNdim fuel pf (withData a data) indices unitShape dstT (some elem)) =
          readTileNdim fuel pf (withData a data) indices unitShape dstT (some elem) := if_neg dims
      simp only [step]

/-- Two elements of one byte, the array at the second one. -/
def atSecondByte : Ndarray :=
  { extents := [1], datatype := .uint8, byteorder := .little, offset := 1
    data := ⟨[1, 2], by decide⟩ }

theorem offset_ignored : ¬ TileHonours x86 atSecondByte (fun _ => 0) atSecondByte.shape .uint8 none
    (fun fuel b => readAll fuel x86 b .uint8 none) := by
  intro honours
  have on : ReadsOn x86 (withData atSecondByte atSecondByte.data) (fun _ => 0) atSecondByte.shape
      .uint8 none := by
    refine ⟨⟨?_, ?_, ?_, ?_, ?_, ?_, ?_⟩, ?_, ?_, ?_⟩
    all_goals first | decide +kernel | exact fun _ => by decide +kernel | nofun
  obtain ⟨-, returns⟩ := honours atSecondByte.data rfl on
  obtain ⟨r, buf, ret, hbuf, elem⟩ := returns 1 (by decide)
  have run : readAll 1 x86 (withData atSecondByte atSecondByte.data) .uint8 none =
      .ret { err := .ok, dst := some [1], freed := false } := by decide +kernel
  cases run.symm.trans ret
  cases hbuf
  have first := (elem (fun _ => 0) ⟨Nat.one_pos, fun d _ => by decide +revert⟩).2
  exact absurd first (by decide +kernel)

theorem offset_honoured_grid : InlineHonours x86 grid ↔ InlineAtStart x86 grid :=
  (offset_honoured x86 grid (fun _ => 0) grid.shape (fun _ => 0) .int8 none none ⟨[0], by decide⟩
    nofun nofun (by rintro - _ ⟨⟩; rfl)).2.2.2

end LibAsdf
