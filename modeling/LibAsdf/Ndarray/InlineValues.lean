import LibAsdf.Ndarray.Offset

/-!
# Inline values and values that are read

The numbers of the nested sequences against those of `asdf_ndarray_read_all`.

* `serializeSeqLevel_nested`, `serializeSeqLevel_first`: the nesting, and the
  bytes of the first number;
* `readAll_source`: what a read in the array's own type returns;
* `inline_values`: the arrays for which the two agree.
-/

namespace LibAsdf

open RowMajor

/-! ## Nested sequences -/

/-- Sequences that are nested according to the extents, with numbers in the last. -/
def Nested : List UInt64 → YamlNode → Prop
  | [], .scalar _ => True
  | dim :: rest, .seq items => items.length = dim.toNat ∧ ∀ node ∈ items, Nested rest node
  | _, _ => False

/-- The same for an array; one without dimensions is an empty sequence. -/
def NestedAs (extents : List UInt64) (node : YamlNode) : Prop :=
  if extents = [] then node = .seq [] else Nested extents node

/-- The last dimension is counted as it is, or there is none of its rows. -/
def RowsCounted : List UInt64 → Prop
  | [] => True
  | [dim] => intCount dim = dim.toNat
  | dim :: inner :: rest => dim.toNat = 0 ∨ RowsCounted (inner :: rest)

theorem intCount_le (dim : UInt64) : intCount dim ≤ dim.toNat := by
  unfold intCount
  rw [Int.bmod_def]
  split <;> omega

theorem intCount_eq {dim : UInt64} (small : dim.toNat < 2 ^ 31) : intCount dim = dim.toNat := by
  unfold intCount
  rw [Int.bmod_def]
  split <;> omega

theorem intCount_lt (dim : UInt64) : intCount dim < 2 ^ 31 := by
  unfold intCount
  rw [Int.bmod_def]
  split <;> omega

theorem serializeSeqLevel_nested {pf : Platform} {a : Ndarray} :
    ∀ {rest : List UInt64} {dim off off' : UInt64} {node : YamlNode},
      RowsCounted (dim :: rest) →
      serializeSeqLevel pf a (dim :: rest) off = .ret (some (node, off')) →
      Nested (dim :: rest) node := by
  intro rest
  induction rest with
  | nil =>
    intro dim off off' node counted h
    unfold serializeSeqLevel at h
    cases width : leafWidth pf a.datatype with
    | none =>
      rw [width] at h
      cases h
    | some w =>
      rw [width] at h
      obtain ⟨items, hitems, h⟩ := Outcome.bind_eq_ret.mp h
      cases h
      obtain ⟨length, known⟩ := sequenceOf_length hitems
      constructor
      · exact length.trans counted
      · intro item member
        obtain ⟨idx, lt, eq⟩ := List.mem_iff_getElem.mp member
        obtain ⟨bytes, found, -⟩ := known idx (by omega)
        rw [List.getElem?_eq_getElem lt, eq] at found
        cases found
        trivial
  | cons inner rest ih =>
    intro dim off off' node counted h
    unfold serializeSeqLevel at h
    obtain ⟨result, hresult, h⟩ := Outcome.bind_eq_ret.mp h
    cases result with
    | none => cases h
    | some result =>
      cases h
      rcases counted with zero | counted
      · rw [zero] at hresult
        cases hresult
        exact ⟨zero.symm, List.forall_mem_nil _⟩
      · exact serializeItems_all (fun _ _ _ => ih counted) hresult

theorem sequenceOf_room {mem : Bytes} {start width size : ℕ} {items : List YamlNode}
    (h : sequenceOf mem start width size = .ret items) (pos : 0 < size) :
    start + size * width ≤ mem.length := by
  cases size with
  | zero => cases pos
  | succ size =>
    obtain ⟨first, -, h⟩ := Outcome.bind_eq_ret.mp h
    obtain ⟨item, hitem, -⟩ := Outcome.bind_eq_ret.mp h
    rw [Nat.succ_mul, ← Nat.add_assoc]
    by_contra outside
    rw [load, if_neg outside] at hitem
    cases hitem

/-- The first number is what the data has at the element offset. -/
theorem serializeSeqLevel_first {pf : Platform} {a : Ndarray} {width : ℕ}
    (supported : leafWidth pf a.datatype = some width) :
    ∀ {extents : List UInt64} {off off' : UInt64} {node : YamlNode} {bytes : Bytes},
      serializeSeqLevel pf a extents off = .ret (some (node, off')) →
      node.scalarAt (indexPath extents.length fun _ => 0) = some bytes →
      (off * UInt64.ofNat a.datatype.size).toNat + width ≤ a.data.bytes.length ∧
        bytes = (a.data.bytes.drop (off * UInt64.ofNat a.datatype.size).toNat).take width := by
  intro extents
  induction extents with
  | nil =>
    intro off off' node bytes h found
    cases h
    cases found
  | cons dim rest ih =>
    intro off off' node bytes h found
    rw [List.length_cons, indexPath_succ] at found
    cases rest with
    | nil =>
      unfold serializeSeqLevel at h
      rw [supported] at h
      obtain ⟨items, hitems, h⟩ := Outcome.bind_eq_ret.mp h
      cases h
      rw [YamlNode.scalarAt_seq] at found
      by_cases pos : 0 < intCount dim
      · have room := sequenceOf_room hitems pos
        have fits := Nat.le_mul_of_pos_left width pos
        have all := Outcome.ret.inj (hitems.symm.trans (sequenceOf_ret fun _ => room))
        rw [all, List.getElem?_map, List.getElem?_range pos, Option.map_some, Option.bind_some] at found
        have value := Option.some.inj found
        constructor
        · omega
        · rw [← value, elementAt, Nat.zero_mul, Nat.add_zero]
      · have none : items[0]? = none := by
          rw [List.getElem?_eq_none (by rw [(sequenceOf_length hitems).1]; omega)]
        rw [none] at found
        cases found
    | cons inner rest =>
      unfold serializeSeqLevel at h
      obtain ⟨result, hresult, h⟩ := Outcome.bind_eq_ret.mp h
      cases result with
      | none => cases h
      | some result =>
        cases h
        rw [YamlNode.scalarAt_seq] at found
        cases count : dim.toNat with
        | zero =>
          rw [count] at hresult
          cases hresult
          cases found
        | succ n =>
          rw [count] at hresult
          unfold serializeItems at hresult
          obtain ⟨first, hfirst, hresult⟩ := Outcome.bind_eq_ret.mp hresult
          cases first with
          | none => cases hresult
          | some first =>
            obtain ⟨others, -, hresult⟩ := Outcome.bind_eq_ret.mp hresult
            cases others with
            | none => cases hresult
            | some others =>
              cases hresult
              exact ih hfirst found

/-! ## Both paths -/

variable {pf : Platform} {a : Ndarray}

/-- The type in which an inline number is written. -/
def leafType : ScalarDatatype → ScalarDatatype
  | .float16 => .float32
  | t => t

/-- The numbers of `node` are those of the array's elements in `buf`. -/
def SameNumbers (pf : Platform) (a : Ndarray) (node : YamlNode) (buf : Bytes) : Prop :=
  ∀ k, TileIndex a a.shape k → node.scalarAt (indexPath a.ndim k) =
    some (convertValue pf a.datatype (leafType a.datatype)
      (elementAt buf 0 a.datatype.size (position a.shape.nat k a.ndim))).1

/-- Whatever the data is, the array is written inline according to its shape,
with the numbers that `asdf_ndarray_read_all` returns for it. -/
def InlineFaithful (pf : Platform) (a : Ndarray) : Prop :=
  ∀ data : Object, data.bytes.length = a.data.bytes.length →
    ∀ fuel, volume a.shape.nat (a.ndim - 1) ≤ fuel →
      ∃ node r buf, serializeInlineData pf (withData a data) = .ret (some node) ∧
        readAll fuel pf (withData a data) .unknown none = .ret r ∧
        r.err = .ok ∧ r.freed = false ∧ r.dst = some buf ∧
        NestedAs a.extents node ∧ SameNumbers pf (withData a data) node buf

/-- No element needs what the inline path does not do: it converts no `float16`,
swaps no bytes and counts a row as an `int`. -/
def InlineExact (pf : Platform) (a : Ndarray) : Prop :=
  ∀ k, TileIndex a a.shape k → a.datatype ≠ .float16 ∧
    shouldByteswap pf a.datatype.size a.byteorder = false ∧ a.shape.nat (a.ndim - 1) < 2 ^ 31

theorem convertValue_self (pf : Platform) {t : ScalarDatatype} (val : Bytes) :
    convertValue pf t t val = (val, false) := by
  unfold convertValue
  split
  · exact if_pos rfl
  · rfl

/-- A read in the array's own type returns the elements of the data, in the
host's byte order. -/
theorem readAll_source (supported : Supported pf a.datatype a.datatype) (covers : Covers a 0)
    {fuel : ℕ} (enough : volume a.shape.nat (a.ndim - 1) ≤ fuel) :
    ∃ r buf, readAll fuel pf a .unknown none = .ret r ∧ r.err = .ok ∧ r.freed = false ∧
      r.dst = some buf ∧ ∀ k, TileIndex a a.shape k →
        elementAt buf 0 a.datatype.size (position a.shape.nat k a.ndim) =
          hostBytes pf a.byteorder
            (elementAt a.data.bytes 0 a.datatype.size (position a.shape.nat k a.ndim)) := by
  have same : destDatatype a .unknown = a.datatype := if_pos rfl
  have zero : Extents.nat (fun _ => 0) = fun _ => 0 := rfl
  have at_ (k : ℕ → ℕ) : place a.shape (fun _ => 0) a.ndim k = position a.shape.nat k a.ndim := by
    simp [place, zero]
  have element (k : ℕ → ℕ) : convertedElement pf a .unknown 0 (place a.shape (fun _ => 0) a.ndim k) =
      (hostBytes pf a.byteorder
        (elementAt a.data.bytes 0 a.datatype.size (position a.shape.nat k a.ndim)), false) := by
    rw [convertedElement, same, convertValue_self, at_]
  have request : TileRequest pf a (fun _ => 0) a.shape .unknown none := by
    refine ⟨by rwa [same], covers, fun d _ => by simp [zero], ?_, by rintro _ _ ⟨⟩⟩
    have size := a.data.size_le
    unfold Covers at covers
    rw [tileBytes, same]
    omega
  by_cases index : ∃ k, TileIndex a a.shape k
  · obtain ⟨k, index⟩ := index
    have on := request.readsOn index
    obtain ⟨f, tile, strides, prepared, inBox, reads, elem⟩ :=
      on.covered request.sums request.bytes_lt request.required covers
    obtain ⟨overflow, buf, ret, after⟩ := inBox.finish_ret reads enough
    have exceeds := after.overflow.trans (rowOverflows_last inBox rfl rfl elem)
    have fits : overflow = false := by
      rw [Bool.eq_false_iff]
      intro over_
      obtain ⟨k, -, -, flag⟩ := exceeds.mp over_
      rw [element] at flag
      cases flag
    obtain ⟨r, ret', -, ⟨buf', hbuf, values⟩, -⟩ := request.run index enough
    have run := (readTileNdim_of_plan prepared fuel).trans ret
    cases ret'.symm.trans run
    cases hbuf
    subst fits
    refine ⟨_, buf, run, rfl, ?_, rfl, ?_⟩
    · exact Bool.and_false _
    · intro k index
      have value := values k index
      rwa [element, same] at value
  · have none : ∀ k, ¬ TileIndex a a.shape k := not_exists.mp index
    obtain ⟨f, tile, -, -, eq⟩ := request.checked.prepareTile_eq
    rw [if_pos (request.empty_iff.mpr none)] at eq
    exact ⟨_, tile, readTileNdim_of_result eq fuel, rfl, rfl, rfl, fun k at_ => absurd at_ (none k)⟩

/-! ## The condition -/

/-- What is written has indices below the extents. -/
theorem written_index {extents : List UInt64} {k : ℕ → ℕ}
    (h : Written extents (indexPath extents.length k)) :
    0 < extents.length ∧ (∀ d < extents.length, k d < (extents.getD d 0).toNat) ∧
      k (extents.length - 1) < intCount (extents.getD (extents.length - 1) 0) := by
  induction extents generalizing k with
  | nil => cases h
  | cons dim rest ih =>
    rw [List.length_cons, indexPath_succ] at h
    cases rest with
    | nil =>
      have counted : k 0 < intCount dim := h
      refine ⟨Nat.one_pos, fun d lt => ?_, counted⟩
      obtain rfl : d = 0 := Nat.lt_one_iff.mp lt
      exact Nat.lt_of_lt_of_le counted (intCount_le dim)
    | cons inner rest =>
      obtain ⟨first, others⟩ := h
      obtain ⟨-, below, last⟩ := ih others
      refine ⟨Nat.succ_pos _, fun d lt => ?_, last⟩
      cases d with
      | zero => exact first
      | succ d => exact below d (Nat.lt_of_succ_lt_succ lt)

/-- An element of a short enough row is written. -/
theorem written_of_index {extents : List UInt64} {k : ℕ → ℕ} (dims : 0 < extents.length)
    (below : ∀ d < extents.length, k d < (extents.getD d 0).toNat)
    (last : (extents.getD (extents.length - 1) 0).toNat < 2 ^ 31) :
    Written extents (indexPath extents.length k) := by
  induction extents generalizing k with
  | nil => cases dims
  | cons dim rest ih =>
    rw [List.length_cons, indexPath_succ]
    have first : k 0 < dim.toNat := below 0 (Nat.succ_pos _)
    cases rest with
    | nil =>
      have counted : intCount dim = dim.toNat := intCount_eq last
      exact Nat.lt_of_lt_of_eq first counted.symm
    | cons inner rest =>
      constructor
      · exact first
      · apply ih (Nat.succ_pos _) _ last
        intro d lt
        exact below (d + 1) (Nat.succ_lt_succ lt)

theorem rowsCounted_of_last :
    ∀ {extents : List UInt64}, ((∀ d < extents.length, 0 < (extents.getD d 0).toNat) →
      (extents.getD (extents.length - 1) 0).toNat < 2 ^ 31) → RowsCounted extents := by
  intro extents
  induction extents with
  | nil => exact fun _ => trivial
  | cons dim rest ih =>
    intro last
    cases rest with
    | nil =>
      by_cases zero : dim.toNat = 0
      · exact intCount_eq (by rw [zero]; decide)
      · apply intCount_eq
        apply last
        intro d lt
        obtain rfl : d = 0 := Nat.lt_one_iff.mp lt
        exact Nat.pos_of_ne_zero zero
    | cons inner rest =>
      by_cases zero : dim.toNat = 0
      · exact .inl zero
      · right
        apply ih
        intro pos
        apply last
        intro d lt
        cases d with
        | zero => exact Nat.pos_of_ne_zero zero
        | succ d => exact pos d (Nat.lt_of_succ_lt_succ lt)

/-- The numbers of a type that a read converts are written. -/
theorem leafWidth_supported (supported : Supported pf a.datatype a.datatype) :
    ∃ width, leafWidth pf a.datatype = some width := by
  obtain ⟨numeric, -, half⟩ := supported
  cases h : a.datatype with
  | float16 =>
    have has : pf.float16 = true := half.resolve_right fun other => other.1 h
    exact ⟨4, if_pos has⟩
  | unknown | complex64 | complex128 | bool8 | ascii | ucs4 | structured =>
    rw [h] at numeric
    cases numeric
  | _ => exact ⟨_, rfl⟩

theorem level_of_serializeInlineData {node : YamlNode}
    (h : serializeInlineData pf a = .ret (some node)) :
    ∃ off, serializeSeqLevel pf a a.extents 0 = .ret (some (node, off)) := by
  obtain ⟨result, level, h⟩ := Outcome.bind_eq_ret.mp h
  cases result with
  | none => cases h
  | some result =>
    cases h
    exact ⟨result.2, level⟩

theorem InlineExact.hasData (ok : InlineExact pf a) (supported : Supported pf a.datatype a.datatype)
    (covers : Covers a 0) : HasData pf a a.extents 0 := by
  obtain ⟨width, hwidth⟩ := leafWidth_supported supported
  apply (hasData_iff pf a).mpr
  intro k written
  obtain ⟨dims, below, -⟩ := written_index written
  change 0 < a.ndim at dims
  obtain ⟨whole, -, -⟩ := ok k ⟨dims, below⟩
  constructor
  · exact hwidth.trans (congrArg some ((leafWidth_eq hwidth).2.mpr whole))
  · have lt : position a.shape.nat k a.ndim < volume a.shape.nat a.ndim := position_lt below
    have le := Nat.mul_le_mul_left a.datatype.size lt
    unfold Covers tileElems at covers
    rw [if_neg (Nat.ne_of_gt dims)] at covers
    rw [Nat.mul_comm]
    exact Nat.le_trans le (by omega)

/-- What the inline path writes, where it is exact. -/
theorem InlineExact.written (ok : InlineExact pf a) (supported : Supported pf a.datatype a.datatype)
    (covers : Covers a 0) :
    ∃ node, serializeInlineData pf a = .ret (some node) ∧ NestedAs a.extents node ∧
      ∀ k, TileIndex a a.shape k → node.scalarAt (indexPath a.ndim k) =
        some (elementAt a.data.bytes 0 a.datatype.size (position a.shape.nat k a.ndim)) := by
  obtain ⟨width, hwidth⟩ := leafWidth_supported supported
  obtain ⟨node, eq, -, values⟩ := inline_returns hwidth (ok.hasData supported covers)
  refine ⟨node, eq, ?_, ?_⟩
  · obtain ⟨off, level⟩ := level_of_serializeInlineData eq
    have counted : RowsCounted a.extents := by
      apply rowsCounted_of_last
      intro pos
      by_cases dims : 0 < a.extents.length
      · exact (ok (fun _ => 0) ⟨dims, pos⟩).2.2
      · rw [List.length_eq_zero_iff.mp (Nat.eq_zero_of_not_pos dims)]
        decide
    unfold NestedAs
    cases extents : a.extents with
    | nil =>
      rw [extents] at level
      cases level
      rw [if_pos rfl]
    | cons dim rest =>
      rw [extents] at level counted
      rw [if_neg (List.cons_ne_nil _ _)]
      exact serializeSeqLevel_nested counted level
  · intro k index
    apply values.index
    exact written_of_index index.1 index.2 (ok k index).2.2

/-- Data that differs in one byte. -/
theorem exists_data (a : Ndarray) (prefix_ : Bytes) (fits : prefix_.length ≤ a.data.bytes.length) :
    ∃ data : Object, data.bytes.length = a.data.bytes.length ∧
      data.bytes.take prefix_.length = prefix_ := by
  let bytes := prefix_ ++ List.replicate (a.data.bytes.length - prefix_.length) 0
  have len : bytes.length = a.data.bytes.length := by
    rw [List.length_append, List.length_replicate]
    omega
  exact ⟨⟨bytes, by rw [len]; exact a.data.size_le⟩, len, List.take_left⟩

/-- What faithfulness says of the first element. -/
theorem InlineFaithful.first (faithful : InlineFaithful pf a)
    (supported : Supported pf a.datatype a.datatype) (covers : Covers a 0) {width : ℕ}
    (hwidth : leafWidth pf a.datatype = some width) {k : ℕ → ℕ} (index : TileIndex a a.shape k)
    {data : Object} (len : data.bytes.length = a.data.bytes.length) :
    width ≤ a.data.bytes.length ∧
      data.bytes.take width = (convertValue pf a.datatype (leafType a.datatype)
        (hostBytes pf a.byteorder (data.bytes.take a.datatype.size))).1 := by
  obtain ⟨node, r, buf, eq, ret, -, -, hbuf, -, same⟩ := faithful data len _ (Nat.le_refl _)
  have covers' : Covers (withData a data) 0 := by
    unfold Covers at covers ⊢
    rwa [← len] at covers
  obtain ⟨r', buf', ret', -, -, hbuf', values⟩ :=
    readAll_source (a := withData a data) supported covers' (Nat.le_refl _)
  cases ret.symm.trans ret'
  cases hbuf.symm.trans hbuf'
  have zeros : TileIndex a a.shape fun _ => 0 :=
    ⟨index.1, fun d lt => Nat.zero_lt_of_lt (index.2 d lt)⟩
  have found := same (fun _ => 0) zeros
  obtain ⟨off, level⟩ := level_of_serializeInlineData eq
  obtain ⟨room, value⟩ := serializeSeqLevel_first (a := withData a data) hwidth level found
  have start : ((0 : UInt64) * UInt64.ofNat a.datatype.size).toNat = 0 := by
    rw [UInt64.zero_mul]
    rfl
  have element := values (fun _ => 0) zeros
  change (0 * UInt64.ofNat a.datatype.size).toNat + width ≤ data.bytes.length at room
  change _ = (data.bytes.drop (0 * UInt64.ofNat a.datatype.size).toNat).take width at value
  rw [start] at room value
  rw [Nat.zero_add, len] at room
  rw [List.drop_zero] at value
  refine ⟨room, value.symm.trans ?_⟩
  change elementAt buf 0 a.datatype.size (position a.shape.nat (fun _ => 0) a.ndim) =
    hostBytes pf a.byteorder
      (elementAt data.bytes 0 a.datatype.size (position a.shape.nat (fun _ => 0) a.ndim)) at element
  change (convertValue pf a.datatype (leafType a.datatype)
    (elementAt buf 0 a.datatype.size (position a.shape.nat (fun _ => 0) a.ndim))).1 = _
  rw [element, position_const_zero, elementAt, Nat.zero_mul, Nat.add_zero, List.drop_zero]

theorem leafType_of_ne {t : ScalarDatatype} (whole : t ≠ .float16) : leafType t = t := by
  unfold leafType
  split
  · exact absurd rfl whole
  · rfl

/-- Bytes that begin with a one are others when they are swapped. -/
theorem reverse_one_ne (n : ℕ) :
    ((1 : Byte) :: List.replicate (n + 1) 0).reverse ≠ 1 :: List.replicate (n + 1) 0 := by
  rw [List.reverse_cons, List.reverse_replicate, List.replicate_succ]
  intro eq
  injection eq with head
  exact absurd head (by decide)

/-- The inline path agrees with `asdf_ndarray_read_all` just where no element
needs what it does not do. -/
theorem inline_values (supported : Supported pf a.datatype a.datatype) (covers : Covers a 0) :
    InlineFaithful pf a ↔ InlineExact pf a := by
  constructor
  · intro faithful k index
    obtain ⟨width, hwidth⟩ := leafWidth_supported supported
    obtain ⟨fits, -⟩ := faithful.first supported covers hwidth index rfl
    -- the bytes after a `float16` element do not belong to it
    have whole : a.datatype ≠ .float16 := by
      intro half
      have four : width = 4 := by
        rw [half, leafWidth] at hwidth
        split at hwidth
        · exact (Option.some.inj hwidth).symm
        · cases hwidth
      subst four
      obtain ⟨data, len, start⟩ := exists_data a [0, 0, 0, 0] fits
      obtain ⟨data', len', start'⟩ := exists_data a [0, 0, 1, 0] fits
      have first := (faithful.first supported covers hwidth index len).2
      have first' := (faithful.first supported covers hwidth index len').2
      change data.bytes.take 4 = _ at start
      change data'.bytes.take 4 = _ at start'
      have two : data.bytes.take 2 = data'.bytes.take 2 := by
        have eq : data.bytes.take 2 = (data.bytes.take 4).take 2 := by rw [List.take_take]; rfl
        have eq' : data'.bytes.take 2 = (data'.bytes.take 4).take 2 := by rw [List.take_take]; rfl
        rw [eq, eq', start, start']
        rfl
      have size : a.datatype.size = 2 := by rw [half]; rfl
      rw [size, two, ← size, ← first', start, start'] at first
      exact absurd first (by decide)
    have same := (leafWidth_eq hwidth).2.mpr whole
    subst same
    refine ⟨whole, ?_, ?_⟩
    · rw [Bool.eq_false_iff]
      intro swap
      have wide : 1 < a.datatype.size := by
        by_contra short
        rw [shouldByteswap, if_pos (by omega)] at swap
        cases swap
      obtain ⟨n, hn⟩ : ∃ n, a.datatype.size = n + 1 + 1 := ⟨a.datatype.size - 2, by omega⟩
      have length : ((1 : Byte) :: List.replicate (n + 1) 0).length = a.datatype.size := by
        rw [List.length_cons, List.length_replicate, hn]
      obtain ⟨data, len, start⟩ := exists_data a (1 :: List.replicate (n + 1) 0) (by rwa [length])
      have first := (faithful.first supported covers hwidth index len).2
      rw [length] at start
      rw [leafType_of_ne whole, convertValue_self, start, hostBytes_of_swap length, if_pos swap]
        at first
      exact reverse_one_ne n first.symm
    · obtain ⟨node, r, buf, eq, -, -, -, -, -, numbers⟩ := faithful a.data rfl _ (Nat.le_refl _)
      obtain ⟨off, level⟩ := level_of_serializeInlineData eq
      -- the last element of the first row
      let last : ℕ → ℕ := fun d => if d = a.ndim - 1 then a.shape.nat (a.ndim - 1) - 1 else 0
      have inside : TileIndex a a.shape last := by
        refine ⟨index.1, fun d lt => ?_⟩
        have pos := Nat.zero_lt_of_lt (index.2 d lt)
        by_cases inner : d = a.ndim - 1
        · subst inner
          simp only [last, if_pos]
          omega
        · simp only [last, if_neg inner]
          exact pos
      have found := numbers last inside
      have written : Written a.extents (indexPath a.ndim last) := by
        by_contra out
        have none := (serializeSeqLevel_shape level (indexPath a.ndim last)).2 out
        cases none.symm.trans found
      have pos := Nat.zero_lt_of_lt (index.2 (a.ndim - 1) (Nat.sub_lt index.1 Nat.one_pos))
      have counted : last (a.ndim - 1) < intCount (a.shape (a.ndim - 1)) :=
        (written_index written).2.2
      have small := intCount_lt (a.shape (a.ndim - 1))
      simp only [last, if_pos] at counted
      omega
  · intro ok data len fuel enough
    have covers' : Covers (withData a data) 0 := by
      unfold Covers at covers ⊢
      rwa [← len] at covers
    have ok' : InlineExact pf (withData a data) := ok
    obtain ⟨node, eq, nested, found⟩ := ok'.written supported covers'
    obtain ⟨r, buf, ret, err, live, hbuf, values⟩ :=
      readAll_source (a := withData a data) supported covers' enough
    refine ⟨node, r, buf, eq, ret, err, live, hbuf, nested, ?_⟩
    intro k index
    obtain ⟨whole, keeps, -⟩ := ok k index
    have same : leafType (withData a data).datatype = (withData a data).datatype :=
      leafType_of_ne whole
    have written : Written a.extents (indexPath a.ndim k) :=
      written_of_index index.1 index.2 (ok k index).2.2
    have fits := ((hasData_iff pf (withData a data)).mp (ok'.hasData supported covers') k written).2
    rw [found k index, values k index, same, convertValue_self,
      hostBytes_of_swap (length_elementAt (by rwa [Nat.zero_add]))]
    exact congrArg some (if_neg (by rw [Bool.eq_false_iff] at keeps; exact keeps)).symm

theorem grid_inline_values : InlineFaithful x86 grid :=
  (inline_values (by decide) (by unfold Covers; decide)).mpr fun _ _ =>
    ⟨by decide, by decide, by decide⟩

/-- The number 1 in the other byte order. -/
def swappedOne : Ndarray :=
  { extents := [1], datatype := .uint16, byteorder := .big, offset := 0, data := ⟨[0, 1], by decide⟩ }

/-- It is written as 256. -/
theorem swapped_inline : Supported x86 swappedOne.datatype swappedOne.datatype ∧
    Covers swappedOne 0 ∧ ¬ InlineFaithful x86 swappedOne := by
  refine ⟨by decide, by unfold Covers; decide, ?_⟩
  intro faithful
  obtain ⟨node, r, buf, eq, ret, -, -, hbuf, -, same⟩ := faithful swappedOne.data rfl 1 (by decide)
  have written : serializeInlineData x86 (withData swappedOne swappedOne.data) =
      .ret (some (.seq [.scalar [0, 1]])) := rfl
  have read : readAll 1 x86 (withData swappedOne swappedOne.data) .unknown none =
      .ret { err := .ok, dst := some [1, 0], freed := false } := by decide +kernel
  cases written.symm.trans eq
  cases read.symm.trans ret
  cases hbuf
  have found := same (fun _ => 0) ⟨Nat.one_pos, fun d _ => by decide +revert⟩
  exact absurd found (by decide +kernel)

end LibAsdf
