import LibAsdf.Ndarray.Read

/-!
# Inline serialization

`asdf_ndarray_serialize_seq_level`: an array as nested YAML sequences.

* `serializeSeqLevel_shape`: which elements a result has;
* `serializeSeqLevel_ret`: the elements, where the data has them all.
-/

namespace LibAsdf

/-- A YAML value: a number, as the bytes it is read from, or a sequence. -/
inductive YamlNode where
  | scalar (bytes : Bytes)
  | seq (items : List YamlNode)

/-- The number at the indices `path`. -/
def YamlNode.scalarAt : YamlNode → List ℕ → Option Bytes
  | .scalar bytes, [] => some bytes
  | .seq items, idx :: path =>
    match items[idx]? with
    | some node => node.scalarAt path
    | none => none
  | _, _ => none

/-- `(int)size`, as a number of rounds. -/
def intCount (size : UInt64) : ℕ := (Int.bmod size.toNat (2 ^ 32)).toNat

/-- The size of what the leaf level reads as one element; the values of a
`float16` array are read as `float`, the copy that is made of them is not used. -/
def leafWidth (pf : Platform) : ScalarDatatype → Option ℕ
  | .bool8 | .int8 | .uint8 => some 1
  | .int16 | .uint16 => some 2
  | .int32 | .uint32 | .float32 => some 4
  | .int64 | .uint64 | .float64 => some 8
  | .float16 => if pf.float16 then some 4 else none
  | _ => none

/-- `asdf_sequence_of_int8` and the like. -/
def sequenceOf (mem : Bytes) (start width : ℕ) : ℕ → Run (List YamlNode)
  | 0 => .ret []
  | size + 1 => do
    let items ← sequenceOf mem start width size
    let item ← load mem (start + size * width) width
    return items ++ [.scalar item]

/-- The loop over a dimension that is not the last one. -/
def serializeItems (inner : UInt64 → Run (Option (YamlNode × UInt64))) :
    ℕ → UInt64 → Run (Option (List YamlNode × UInt64))
  | 0, elemOffset => .ret (some ([], elemOffset))
  | n + 1, elemOffset => do
    match ← inner elemOffset with
    | none => return none
    | some (node, elemOffset) =>
      match ← serializeItems inner n elemOffset with
      | none => return none
      | some (items, elemOffset) => return some (node :: items, elemOffset)

/-- `asdf_ndarray_serialize_seq_level` for the dimensions from `depth` on: the
sequence and the new element offset. -/
def serializeSeqLevel (pf : Platform) (a : Ndarray) :
    List UInt64 → UInt64 → Run (Option (YamlNode × UInt64))
  | [], elemOffset => .ret (some (.seq [], elemOffset))
  | [dimSize], elemOffset =>
    match leafWidth pf a.datatype with
    | none => .ret none
    | some width => do
      let start := elemOffset * UInt64.ofNat a.datatype.size
      let items ← sequenceOf a.data.bytes start.toNat width (intCount dimSize)
      return some (.seq items, elemOffset + dimSize)
  | dimSize :: inner :: rest, elemOffset => do
    match ← serializeItems (serializeSeqLevel pf a (inner :: rest)) dimSize.toNat elemOffset with
    | none => return none
    | some (items, elemOffset) => return some (.seq items, elemOffset)

/-- `asdf_ndarray_serialize_inline_data`. -/
def serializeInlineData (pf : Platform) (a : Ndarray) : Run (Option YamlNode) := do
  match ← serializeSeqLevel pf a a.extents 0 with
  | none => return none
  | some (node, _) => return some node

/-! ## The elements of a result -/

/-- The indices of the elements that are written. -/
def Written : List UInt64 → List ℕ → Prop
  | [dim], [idx] => idx < intCount dim
  | dim :: inner :: rest, idx :: path => idx < dim.toNat ∧ Written (inner :: rest) path
  | _, _ => False

def extentsVolume : List UInt64 → ℕ
  | [] => 1
  | dim :: rest => dim.toNat * extentsVolume rest

/-- The row-major index of an element. -/
def extentsPosition : List UInt64 → List ℕ → ℕ
  | _ :: rest, idx :: path => idx * extentsVolume rest + extentsPosition rest path
  | _, _ => 0

theorem sequenceOf_length {mem : Bytes} {start width size : ℕ} {items : List YamlNode}
    (h : sequenceOf mem start width size = .ret items) :
    items.length = size ∧ ∀ idx < size, ∃ bytes, items[idx]? = some (.scalar bytes) ∧
      bytes.length = width := by
  induction size generalizing items with
  | zero =>
    cases h
    exact ⟨rfl, fun idx lt => absurd lt (Nat.not_lt_zero idx)⟩
  | succ size ih =>
    obtain ⟨first, hfirst, h⟩ := Outcome.bind_eq_ret.mp h
    obtain ⟨item, hitem, h⟩ := Outcome.bind_eq_ret.mp h
    cases h
    obtain ⟨length, known⟩ := ih hfirst
    refine ⟨by rw [List.length_append, length]; rfl, fun idx lt => ?_⟩
    rcases Nat.lt_succ_iff_lt_or_eq.mp lt with less | rfl
    · rw [List.getElem?_append_left (by omega)]
      exact known idx less
    · refine ⟨item, by rw [← length, List.getElem?_concat_length], ?_⟩
      unfold load at hitem
      split at hitem
      · cases hitem
        rw [List.length_take, List.length_drop]
        omega
      · cases hitem

theorem sequenceOf_ret {mem : Bytes} {start width : ℕ} :
    ∀ {size : ℕ}, (0 < size → start + size * width ≤ mem.length) →
      sequenceOf mem start width size =
        .ret ((List.range size).map fun idx => .scalar (elementAt mem start width idx)) := by
  intro size
  induction size with
  | zero => exact fun _ => rfl
  | succ size ih =>
    intro fits
    have fits := fits (Nat.succ_pos size)
    rw [Nat.succ_mul] at fits
    rw [sequenceOf, ih fun _ => by omega, Outcome.ret_bind, load_of_le (by omega), List.range_succ,
      List.map_append]
    rfl

theorem YamlNode.scalarAt_seq (items : List YamlNode) (idx : ℕ) (path : List ℕ) :
    (YamlNode.seq items).scalarAt (idx :: path) = items[idx]?.bind fun node => node.scalarAt path := by
  rw [scalarAt]
  cases items[idx]? <;> rfl

theorem serializeItems_all {inner : UInt64 → Run (Option (YamlNode × UInt64))}
    {Q : YamlNode → Prop} (each : ∀ off node off', inner off = .ret (some (node, off')) → Q node) :
    ∀ {n : ℕ} {off off' : UInt64} {items : List YamlNode},
      serializeItems inner n off = .ret (some (items, off')) →
      items.length = n ∧ ∀ node ∈ items, Q node := by
  intro n
  induction n with
  | zero =>
    intro off off' items h
    cases h
    exact ⟨rfl, fun node member => absurd member List.not_mem_nil⟩
  | succ n ih =>
    intro off off' items h
    obtain ⟨first, hfirst, h⟩ := Outcome.bind_eq_ret.mp h
    cases first with
    | none => cases h
    | some first =>
      obtain ⟨rest, hrest, h⟩ := Outcome.bind_eq_ret.mp h
      cases rest with
      | none => cases h
      | some rest =>
        cases h
        obtain ⟨length, all⟩ := ih hrest
        refine ⟨by rw [List.length_cons, length], fun node member => ?_⟩
        rcases List.mem_cons.mp member with rfl | member
        · exact each _ _ _ hfirst
        · exact all node member

/-- A result has the elements that are written, and no others. -/
def HasWritten (pf : Platform) (a : Ndarray) (extents : List UInt64) (node : YamlNode) : Prop :=
  ∀ path, (Written extents path →
      ∃ bytes, node.scalarAt path = some bytes ∧ leafWidth pf a.datatype = some bytes.length) ∧
    (¬ Written extents path → node.scalarAt path = none)

theorem hasWritten_seq {pf : Platform} {a : Ndarray} {dim inner : UInt64} {rest : List UInt64}
    {items : List YamlNode} (length : items.length = dim.toNat)
    (all : ∀ node ∈ items, HasWritten pf a (inner :: rest) node) :
    HasWritten pf a (dim :: inner :: rest) (.seq items) := by
  intro path
  cases path with
  | nil => exact ⟨False.elim, fun _ => rfl⟩
  | cons idx path =>
    rw [YamlNode.scalarAt_seq]
    by_cases lt : idx < items.length
    · have known := all _ (List.getElem_mem lt) path
      rw [List.getElem?_eq_getElem lt, Option.bind_some]
      rw [length] at lt
      exact ⟨fun written => known.1 written.2, fun out => known.2 fun written => out ⟨lt, written⟩⟩
    · rw [List.getElem?_eq_none (by omega)]
      exact ⟨fun written => absurd written.1 (by omega), fun _ => rfl⟩

theorem serializeSeqLevel_shape {pf : Platform} {a : Ndarray} :
    ∀ {extents : List UInt64} {off off' : UInt64} {node : YamlNode},
      serializeSeqLevel pf a extents off = .ret (some (node, off')) →
      HasWritten pf a extents node := by
  intro extents
  induction extents with
  | nil =>
    intro off off' node h path
    cases h
    refine ⟨False.elim, fun _ => ?_⟩
    cases path <;> rfl
  | cons dim rest ih =>
    intro off off' node h
    cases rest with
    | nil =>
      unfold serializeSeqLevel at h
      cases width : leafWidth pf a.datatype with
      | none =>
        rw [width] at h
        cases h
      | some w =>
        rw [width] at h
        obtain ⟨items, hitems, h⟩ := Outcome.bind_eq_ret.mp h
        cases h
        obtain ⟨length, known⟩ := sequenceOf_length hitems
        intro path
        cases path with
        | nil => exact ⟨False.elim, fun _ => rfl⟩
        | cons idx path =>
          rw [YamlNode.scalarAt_seq]
          cases path with
          | nil =>
            constructor
            · intro written
              obtain ⟨bytes, eq, size⟩ := known idx written
              rw [eq]
              exact ⟨bytes, rfl, by rw [width, size]⟩
            · intro out
              rw [List.getElem?_eq_none (by rw [length]; exact Nat.le_of_not_lt out)]
              rfl
          | cons next path =>
            refine ⟨False.elim, fun _ => ?_⟩
            by_cases lt : idx < intCount dim
            · obtain ⟨bytes, eq, -⟩ := known idx lt
              rw [eq]
              rfl
            · rw [List.getElem?_eq_none (by omega)]
              rfl
    | cons inner rest =>
      unfold serializeSeqLevel at h
      obtain ⟨result, hresult, h⟩ := Outcome.bind_eq_ret.mp h
      cases result with
      | none => cases h
      | some result =>
        cases h
        obtain ⟨length, all⟩ := serializeItems_all (fun _ _ _ => ih) hresult
        exact hasWritten_seq length all

/-- An array of another type is refused, or has no element. -/
theorem serializeSeqLevel_unsupported {pf : Platform} {a : Ndarray}
    (unsupported : leafWidth pf a.datatype = none) :
    ∀ (extents : List UInt64) (off : UInt64), ∃ r, serializeSeqLevel pf a extents off = .ret r := by
  intro extents
  induction extents with
  | nil => exact fun off => ⟨_, rfl⟩
  | cons dim rest ih =>
    intro off
    cases rest with
    | nil =>
      unfold serializeSeqLevel
      rw [unsupported]
      exact ⟨none, rfl⟩
    | cons inner rest =>
      have items : ∀ n off,
          ∃ r, serializeItems (serializeSeqLevel pf a (inner :: rest)) n off = .ret r := by
        intro n
        induction n with
        | zero => exact fun off => ⟨_, rfl⟩
        | succ n step =>
          intro off
          unfold serializeItems
          obtain ⟨first, hfirst⟩ := ih off
          rw [hfirst, Outcome.ret_bind]
          cases first with
          | none => exact ⟨none, rfl⟩
          | some first =>
            obtain ⟨second, hsecond⟩ := step first.2
            dsimp only
            rw [hsecond, Outcome.ret_bind]
            cases second <;> exact ⟨_, rfl⟩
      unfold serializeSeqLevel
      obtain ⟨result, hresult⟩ := items dim.toNat off
      rw [hresult, Outcome.ret_bind]
      cases result <;> exact ⟨_, rfl⟩

/-- An array of a type that can be written is not refused. -/
theorem serializeSeqLevel_some {pf : Platform} {a : Ndarray} {width : ℕ}
    (supported : leafWidth pf a.datatype = some width) :
    ∀ (extents : List UInt64) (off : UInt64), serializeSeqLevel pf a extents off ≠ .ret none := by
  intro extents
  induction extents with
  | nil => nofun
  | cons dim rest ih =>
    intro off
    cases rest with
    | nil =>
      unfold serializeSeqLevel
      rw [supported]
      intro eq
      obtain ⟨items, -, eq⟩ := Outcome.bind_eq_ret.mp eq
      cases eq
    | cons inner rest =>
      have items : ∀ n off,
          serializeItems (serializeSeqLevel pf a (inner :: rest)) n off ≠ .ret none := by
        intro n
        induction n with
        | zero => nofun
        | succ n step =>
          intro off eq
          obtain ⟨first, hfirst, eq⟩ := Outcome.bind_eq_ret.mp eq
          cases first with
          | none => exact ih off hfirst
          | some first =>
            obtain ⟨second, hsecond, eq⟩ := Outcome.bind_eq_ret.mp eq
            cases second with
            | none => exact step _ hsecond
            | some second => cases eq
      unfold serializeSeqLevel
      intro eq
      obtain ⟨result, hresult, eq⟩ := Outcome.bind_eq_ret.mp eq
      cases result with
      | none => exact items _ _ hresult
      | some result => cases eq

/-! ## The values -/

/-- The elements of a result are those of the data, from number `off` on. -/
def HasValues (a : Ndarray) (extents : List UInt64) (off : ℕ) (node : YamlNode) : Prop :=
  ∀ path, Written extents path → node.scalarAt path =
    some (elementAt a.data.bytes 0 a.datatype.size (off + extentsPosition extents path))

/-- The data has all elements that are written, from number `off` on, and the
leaf level reads them as what they are. -/
def HasData (pf : Platform) (a : Ndarray) (extents : List UInt64) (off : ℕ) : Prop :=
  ∀ path, Written extents path → leafWidth pf a.datatype = some a.datatype.size ∧
    (off + extentsPosition extents path + 1) * a.datatype.size ≤ a.data.bytes.length

theorem serializeItems_ret {pf : Platform} {a : Ndarray} {extents : List UInt64}
    (inner : ∀ off, HasData pf a extents off → ∃ node,
      serializeSeqLevel pf a extents (UInt64.ofNat off) =
        .ret (some (node, UInt64.ofNat (off + extentsVolume extents))) ∧
      HasValues a extents off node) :
    ∀ (n off : ℕ), (∀ i < n, HasData pf a extents (off + i * extentsVolume extents)) →
      ∃ items, serializeItems (serializeSeqLevel pf a extents) n (UInt64.ofNat off) =
          .ret (some (items, UInt64.ofNat (off + n * extentsVolume extents))) ∧
        ∀ i < n, ∃ node, items[i]? = some node ∧
          HasValues a extents (off + i * extentsVolume extents) node := by
  intro n
  induction n with
  | zero =>
    intro off _
    refine ⟨[], ?_, fun i lt => absurd lt (Nat.not_lt_zero i)⟩
    rw [Nat.zero_mul]
    rfl
  | succ n ih =>
    intro off data
    obtain ⟨node, first, values⟩ := inner off (by simpa using data 0 (Nat.succ_pos n))
    have shift (i : ℕ) : off + extentsVolume extents + i * extentsVolume extents =
        off + (i + 1) * extentsVolume extents := by
      rw [Nat.succ_mul]
      omega
    obtain ⟨items, rest, known⟩ := ih (off + extentsVolume extents) fun i lt => by
      rw [shift]
      exact data (i + 1) (by omega)
    refine ⟨node :: items, ?_, fun i lt => ?_⟩
    · unfold serializeItems
      rw [first, Outcome.ret_bind]
      dsimp only
      rw [rest, shift]
      rfl
    · cases i with
      | zero =>
        refine ⟨node, rfl, ?_⟩
        rwa [Nat.zero_mul]
      | succ i =>
        obtain ⟨found, eq, values⟩ := known i (by omega)
        refine ⟨found, eq, ?_⟩
        rwa [shift] at values

theorem serializeSeqLevel_ret {pf : Platform} {a : Ndarray} {width : ℕ}
    (supported : leafWidth pf a.datatype = some width) :
    ∀ (rest : List UInt64) (dim : UInt64) (off : ℕ), HasData pf a (dim :: rest) off →
      ∃ node, serializeSeqLevel pf a (dim :: rest) (UInt64.ofNat off) =
          .ret (some (node, UInt64.ofNat (off + extentsVolume (dim :: rest)))) ∧
        HasValues a (dim :: rest) off node := by
  intro rest
  induction rest with
  | nil =>
    intro dim off data
    have same : 0 < intCount dim → width = a.datatype.size := fun pos =>
      Option.some.inj (supported.symm.trans (data [0] pos).1)
    have fits : 0 < intCount dim →
        (off + intCount dim) * a.datatype.size ≤ a.data.bytes.length := by
      intro pos
      have last := (data [intCount dim - 1] (Nat.sub_lt pos Nat.one_pos)).2
      have end_ : off + extentsPosition [dim] [intCount dim - 1] + 1 = off + intCount dim := by
        change off + ((intCount dim - 1) * 1 + 0) + 1 = _
        omega
      rwa [end_] at last
    have start : 0 < intCount dim →
        (UInt64.ofNat off * UInt64.ofNat a.datatype.size).toNat = off * a.datatype.size := by
      intro pos
      have fits := fits pos
      have size := a.data.size_le
      have small : offMax < 2 ^ 64 := by decide
      rw [Nat.add_mul] at fits
      rw [UInt64.toNat_mul, UInt64.toNat_ofNat', UInt64.toNat_ofNat', Nat.mod_mul_mod,
        Nat.mul_mod_mod]
      exact Nat.mod_eq_of_lt (by omega)
    have room : 0 < intCount dim →
        (UInt64.ofNat off * UInt64.ofNat a.datatype.size).toNat +
          intCount dim * width ≤ a.data.bytes.length := by
      intro pos
      rw [start pos, same pos, ← Nat.add_mul]
      exact fits pos
    have items := sequenceOf_ret room
    unfold serializeSeqLevel
    rw [supported]
    dsimp only
    rw [items, Outcome.ret_bind]
    have next : UInt64.ofNat off + dim = UInt64.ofNat (off + extentsVolume [dim]) := by
      rw [UInt64.ofNat_add, extentsVolume, extentsVolume, Nat.mul_one, UInt64.ofNat_toNat]
    refine ⟨_, by rw [next]; rfl, ?_⟩
    intro path written
    cases path with
    | nil => cases written
    | cons idx path =>
      cases path with
      | cons next path => cases written
      | nil =>
        have lt : idx < intCount dim := written
        rw [YamlNode.scalarAt_seq, List.getElem?_map, List.getElem?_range lt, start (by omega),
          same (by omega)]
        change some (elementAt _ _ _ _) = some (elementAt _ _ _ (off + (idx * 1 + 0)))
        rw [Nat.mul_one, Nat.add_zero, ← elementAt_add, Nat.zero_add]
  | cons inner rest ih =>
    intro dim off data
    obtain ⟨items, eq, known⟩ := serializeItems_ret (ih inner) dim.toNat off fun i lt path written => by
      have := data (i :: path) ⟨lt, written⟩
      rwa [extentsPosition, ← Nat.add_assoc] at this
    unfold serializeSeqLevel
    rw [eq, Outcome.ret_bind]
    refine ⟨.seq items, rfl, ?_⟩
    intro path written
    cases path with
    | nil => cases written
    | cons idx path =>
      obtain ⟨lt, written⟩ := written
      obtain ⟨node, found, values⟩ := known idx lt
      rw [YamlNode.scalarAt_seq, found, extentsPosition, ← Nat.add_assoc]
      exact values path written

end LibAsdf
