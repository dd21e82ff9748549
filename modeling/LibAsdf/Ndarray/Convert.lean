import LibAsdf.Base.Endian
import LibAsdf.Stream.Basic

/-!
# Conversions of array elements

The table of conversion functions: one macro of the source for each pair of
numeric datatypes, which converts an element at a time. Integers are converted
as the macros do it; what a macro does where one of the two types is a float is
a parameter of the model (`FloatConversions`).
-/

namespace LibAsdf

/-! ## Datatypes -/

/-- `asdf_scalar_datatype_t`; `ASDF_DATATYPE_SOURCE` is `unknown`. -/
inductive ScalarDatatype where
  | unknown
  | int8
  | uint8
  | int16
  | uint16
  | int32
  | uint32
  | int64
  | uint64
  | float16
  | float32
  | float64
  | complex64
  | complex128
  | bool8
  | ascii
  | ucs4
  | structured
  deriving DecidableEq, Repr

/-- `asdf_scalar_datatype_size`. -/
def ScalarDatatype.size : ScalarDatatype → Nat
  | .int8 | .uint8 | .bool8 => 1
  | .int16 | .uint16 | .float16 => 2
  | .int32 | .uint32 | .float32 => 4
  | .int64 | .uint64 | .float64 | .complex64 => 8
  | .complex128 => 16
  | .ascii | .ucs4 | .structured | .unknown => 0

theorem ScalarDatatype.size_le (t : ScalarDatatype) : t.size ≤ 16 := by
  cases t <;> decide

/-- `asdf_byteorder_t`. -/
inductive Byteorder where
  | default
  | big
  | little
  deriving DecidableEq, Repr

/-! ## Integers -/

structure IntType where
  signed : Bool
  bytes : Nat
  deriving DecidableEq, Repr

def ScalarDatatype.intType : ScalarDatatype → Option IntType
  | .int8 => some ⟨true, 1⟩
  | .uint8 => some ⟨false, 1⟩
  | .int16 => some ⟨true, 2⟩
  | .uint16 => some ⟨false, 2⟩
  | .int32 => some ⟨true, 4⟩
  | .uint32 => some ⟨false, 4⟩
  | .int64 => some ⟨true, 8⟩
  | .uint64 => some ⟨false, 8⟩
  | _ => none

namespace IntType

/-- `INT8_MIN` and the like. -/
def minval (t : IntType) : Int := if t.signed then -2 ^ (8 * t.bytes - 1) else 0

/-- `INT8_MAX`, `UINT8_MAX` and the like. -/
def maxval (t : IntType) : Int :=
  if t.signed then 2 ^ (8 * t.bytes - 1) - 1 else 2 ^ (8 * t.bytes) - 1

/-- The value with the bit pattern of `x`, as a cast to the type gives it. -/
def cast (t : IntType) (x : Int) : Int :=
  if t.signed then Int.bmod x (2 ^ (8 * t.bytes)) else x % 2 ^ (8 * t.bytes)

end IntType

/-- A value in memory, in the host's byte order. -/
def loadInt (host : Byteorder) (t : IntType) (bytes : Bytes) : Int :=
  t.cast (if host = .big then Endian.beNat bytes else Endian.leNat bytes)

def storeInt (host : Byteorder) (t : IntType) (x : Int) : Bytes :=
  let bits := (x % 2 ^ (8 * t.bytes)).toNat
  if host = .big then Endian.beBytes t.bytes bits else Endian.leBytes t.bytes bits

/-! ## The conversion table -/

/-- The macros that define the conversion functions. -/
inductive ConversionMacro where
  | identity
  | generic
  | clamp
  | clampMax
  | truncate
  | clampFloat
  | intToHalf
  | uintToHalf
  | halfToInt
  deriving DecidableEq, Repr

/-- The `DEFINE_*_CONVERSION` of each pair of numeric types. -/
def conversionMacro : ScalarDatatype → ScalarDatatype → Option ConversionMacro
  | .int8, .int8 => some .identity
  | .int8, .int16 | .int8, .int32 | .int8, .int64 => some .generic
  | .int8, .float16 | .int8, .float32 | .int8, .float64 => some .generic
  | .int8, .uint8 | .int8, .uint16 | .int8, .uint32 | .int8, .uint64 => some .truncate
  | .uint8, .uint8 => some .identity
  | .uint8, .int16 | .uint8, .uint16 | .uint8, .int32 | .uint8, .uint32 => some .generic
  | .uint8, .int64 | .uint8, .uint64 => some .generic
  | .uint8, .float16 | .uint8, .float32 | .uint8, .float64 => some .generic
  | .uint8, .int8 => some .clampMax
  | .int16, .int16 => some .identity
  | .int16, .int32 | .int16, .int64 => some .generic
  | .int16, .float16 | .int16, .float32 | .int16, .float64 => some .generic
  | .int16, .int8 | .int16, .uint8 => some .clamp
  | .int16, .uint16 | .int16, .uint32 | .int16, .uint64 => some .truncate
  | .uint16, .uint16 => some .identity
  | .uint16, .int32 | .uint16, .uint32 | .uint16, .int64 | .uint16, .uint64 => some .generic
  | .uint16, .float16 => some .uintToHalf
  | .uint16, .float32 | .uint16, .float64 => some .generic
  | .uint16, .int8 | .uint16, .uint8 | .uint16, .int16 => some .clampMax
  | .int32, .int32 => some .identity
  | .int32, .int64 => some .generic
  | .int32, .float16 => some .intToHalf
  | .int32, .float32 | .int32, .float64 => some .generic
  | .int32, .int8 | .int32, .uint8 | .int32, .int16 | .int32, .uint16 => some .clamp
  | .int32, .uint32 | .int32, .uint64 => some .truncate
  | .uint32, .uint32 => some .identity
  | .uint32, .int64 | .uint32, .uint64 => some .generic
  | .uint32, .float16 => some .uintToHalf
  | .uint32, .float32 | .uint32, .float64 => some .generic
  | .uint32, .int8 | .uint32, .uint8 | .uint32, .int16 | .uint32, .uint16 => some .clampMax
  | .uint32, .int32 => some .clampMax
  | .int64, .int64 => some .identity
  | .int64, .float16 => some .intToHalf
  | .int64, .float32 | .int64, .float64 => some .generic
  | .int64, .int8 | .int64, .uint8 | .int64, .int16 | .int64, .uint16 => some .clamp
  | .int64, .int32 | .int64, .uint32 => some .clamp
  | .int64, .uint64 => some .truncate
  | .uint64, .uint64 => some .identity
  | .uint64, .float16 => some .uintToHalf
  | .uint64, .float32 | .uint64, .float64 => some .generic
  | .uint64, .int8 | .uint64, .uint8 | .uint64, .int16 | .uint64, .uint16 => some .clampMax
  | .uint64, .int32 | .uint64, .uint32 | .uint64, .int64 => some .clampMax
  | .float16, .float16 => some .identity
  | .float16, .float32 | .float16, .float64 => some .generic
  | .float16, .int8 | .float16, .uint8 | .float16, .int16 | .float16, .uint16 => some .halfToInt
  | .float16, .int32 | .float16, .uint32 | .float16, .int64 | .float16, .uint64 => some .halfToInt
  | .float32, .float32 => some .identity
  | .float32, .float16 => some .clampFloat
  | .float32, .float64 => some .generic
  | .float32, .int8 | .float32, .uint8 | .float32, .int16 | .float32, .uint16 => some .clamp
  | .float32, .int32 | .float32, .uint32 | .float32, .int64 | .float32, .uint64 => some .clamp
  | .float64, .float64 => some .identity
  | .float64, .float16 | .float64, .float32 => some .clampFloat
  | .float64, .int8 | .float64, .uint8 | .float64, .int16 | .float64, .uint16 => some .clamp
  | .float64, .int32 | .float64, .uint32 | .float64, .int64 | .float64, .uint64 => some .clamp
  | _, _ => none

/-- One round of a macro's loop on an integer, for an integer: the value that is
stored, and whether it counts as an overflow. The bounds are compared with as the
source type has them. -/
def convertInt (macro_ : ConversionMacro) (src dst : IntType) (val : Int) : Int × Bool :=
  match macro_ with
  | .clamp =>
    if val < src.cast dst.minval then (dst.minval, true)
    else if val > src.cast dst.maxval then (dst.maxval, true)
    else (dst.cast val, false)
  | .clampMax => if val > src.cast dst.maxval then (dst.maxval, true) else (dst.cast val, false)
  | .truncate => if val < src.cast 0 then (dst.cast (src.cast 0), true) else (dst.cast val, false)
  | _ => (dst.cast val, false)

/-- What the macros do with an element where one of the two types is a float,
from and to bytes in the host's order. Values of the right size come out, and
not every element gives the same one. -/
structure FloatConversions where
  convert : ConversionMacro → ScalarDatatype → ScalarDatatype → Bytes → Bytes × Bool
  length (m : ConversionMacro) (src dst : ScalarDatatype) (bytes : Bytes) :
    (convert m src dst bytes).1.length = dst.size
  separates (m : ConversionMacro) (src dst : ScalarDatatype) :
    conversionMacro src dst = some m → ∃ a b, a.length = src.size ∧ b.length = src.size ∧
      (convert m src dst a).1 ≠ (convert m src dst b).1

/-- The machine and the compiler: the byte order, `HAVE_FLOAT16`, and floats. -/
structure Platform where
  host : Byteorder
  host_explicit : host ≠ .default
  float16 : Bool
  floats : FloatConversions

theorem conversionMacro_sizes {src dst : ScalarDatatype} {m : ConversionMacro}
    (h : conversionMacro src dst = some m) : 0 < src.size ∧ 0 < dst.size := by
  cases src <;> cases dst <;> cases h <;> decide

/-- Conversions that keep the bytes there is room for, for runs on integers. -/
def byteFloats : FloatConversions where
  convert _ _ dst bytes := ((bytes ++ List.replicate dst.size 0).take dst.size, false)
  length _ _ dst bytes := by
    rw [List.length_take, List.length_append, List.length_replicate]
    omega
  separates m src dst h := by
    obtain ⟨source, target⟩ := conversionMacro_sizes h
    obtain ⟨n, hn⟩ := Nat.exists_eq_succ_of_ne_zero (Nat.ne_of_gt source)
    obtain ⟨k, hk⟩ := Nat.exists_eq_succ_of_ne_zero (Nat.ne_of_gt target)
    refine ⟨List.replicate src.size 0, 1 :: List.replicate n 0, ?_, ?_, ?_⟩
    · exact List.length_replicate
    · rw [List.length_cons, List.length_replicate, hn]
    · simp [hn, hk, List.replicate_succ]

/-- A little-endian machine without `_Float16`. -/
def x86 : Platform := { host := .little, host_explicit := nofun, float16 := false, floats := byteFloats }

/-- A conversion function: `memcpy`, or a loop over the elements. -/
structure ConvertFn where
  srcSize : Nat
  dstSize : Nat
  copies : Bool
  elem : Bytes → Bytes × Bool

/-- One element, from bytes that have been swapped if they are to be. -/
def convertElem (pf : Platform) (m : ConversionMacro) (src dst : ScalarDatatype) (val : Bytes) :
    Bytes × Bool :=
  if src = dst then (val, false)
  else
    match src.intType, dst.intType with
    | some s, some d =>
      let (value, overflow) := convertInt m s d (loadInt pf.host s val)
      (storeInt pf.host d value, overflow)
    | _, _ => pf.floats.convert m src dst val

/-- `asdf_ndarray_get_convert_fn`. -/
def getConvertFn (pf : Platform) (src dst : ScalarDatatype) (byteswap : Bool) : Option ConvertFn :=
  if (src = .float16 ∨ dst = .float16) ∧ !pf.float16 then none
  else (conversionMacro src dst).map fun m =>
    { srcSize := src.size
      dstSize := dst.size
      copies := m = .identity && !byteswap
      elem := fun val => convertElem pf m src dst (if byteswap then val.reverse else val) }

/-- The element with number `idx` of those that begin at `off`. -/
def elementAt (mem : Bytes) (off size idx : Nat) : Bytes := (mem.drop (off + idx * size)).take size

/-- A call of a conversion function: whether it reports an overflow, and the
destination. The loop reads and writes `count` elements, `memcpy` the bytes that
a `size_t` product says. -/
def ConvertFn.run (f : ConvertFn) (dst : Bytes) (dstOff : Nat) (src : Bytes) (srcOff count : Nat) :
    Run (Bool × Bytes) :=
  if f.copies then do
    let bytes ← load src srcOff (count * f.dstSize % 2 ^ 64)
    let dst ← store dst dstOff bytes
    return (false, dst)
  else do
    let _ ← load src srcOff (count * f.srcSize)
    let elems := (List.range count).map fun idx => f.elem (elementAt src srcOff f.srcSize idx)
    let dst ← store dst dstOff (elems.flatMap Prod.fst)
    return (elems.any Prod.snd, dst)

/-! ## What a conversion function does -/

theorem length_elementAt {mem : Bytes} {off size idx : Nat}
    (h : off + (idx + 1) * size ≤ mem.length) : (elementAt mem off size idx).length = size := by
  rw [Nat.succ_mul] at h
  rw [elementAt, List.length_take, List.length_drop]
  omega

theorem elementAt_take {mem : Bytes} {off size idx n : Nat} (h : off + (idx + 1) * size ≤ n) :
    elementAt (mem.take n) off size idx = elementAt mem off size idx := by
  rw [Nat.succ_mul] at h
  rw [elementAt, elementAt, List.drop_take, List.take_take]
  congr 1
  omega

theorem elementAt_append_left {mem : Bytes} {off size idx : Nat} (rest : Bytes)
    (h : off + (idx + 1) * size ≤ mem.length) :
    elementAt (mem ++ rest) off size idx = elementAt mem off size idx := by
  have whole : elementAt ((mem ++ rest).take mem.length) off size idx =
      elementAt (mem ++ rest) off size idx := elementAt_take h
  rw [← whole, List.take_left]

theorem elementAt_append_right (mem rest : Bytes) (off size idx : Nat) :
    elementAt (mem ++ rest) (mem.length + off) size idx = elementAt rest off size idx := by
  rw [elementAt, elementAt, Nat.add_assoc, List.drop_append, Nat.add_sub_cancel_left,
    List.drop_of_length_le (Nat.le_add_right _ _), List.nil_append]

/-- Elements further on, counted from an element. -/
theorem elementAt_add (mem : Bytes) (off size n idx : Nat) :
    elementAt mem (off + n * size) size idx = elementAt mem off size (n + idx) := by
  rw [elementAt, elementAt, Nat.add_mul, Nat.add_assoc]

theorem elementAt_drop_take {mem : Bytes} {off n size idx : Nat} (h : (idx + 1) * size ≤ n) :
    elementAt ((mem.drop off).take n) 0 size idx = elementAt mem off size idx := by
  rw [elementAt_take (by omega), elementAt, elementAt, List.drop_drop, Nat.zero_add]

theorem elementAt_flatMap {α : Type} {f : α → Bytes} {size : Nat} :
    ∀ {elems : List α} {idx : Nat} (lt : idx < elems.length), (∀ a ∈ elems, (f a).length = size) →
      elementAt (elems.flatMap f) 0 size idx = f elems[idx] := by
  intro elems
  induction elems with
  | nil => intro idx lt; cases lt
  | cons a elems ih =>
    intro idx lt sizes
    have first : (f a).length = size := sizes a List.mem_cons_self
    rw [List.flatMap_cons]
    cases idx with
    | zero =>
      rw [elementAt_append_left _ (by rw [first]; omega), elementAt, Nat.zero_mul, Nat.add_zero,
        List.drop_zero, ← first, List.take_length]
      rfl
    | succ idx =>
      have shift := elementAt_append_right (f a) (elems.flatMap f) 0 size idx
      rw [first, Nat.add_zero] at shift
      have eq := elementAt_add (f a ++ elems.flatMap f) 0 size 1 idx
      rw [Nat.zero_add, Nat.one_mul, Nat.add_comm 1 idx] at eq
      rw [← eq, shift]
      exact ih (Nat.lt_of_succ_lt_succ lt) fun b member => sizes b (List.mem_cons_of_mem a member)

theorem length_flatMap_of_length {α β : Type} {f : α → List β} {size : Nat} {elems : List α}
    (h : ∀ a ∈ elems, (f a).length = size) : (elems.flatMap f).length = elems.length * size := by
  induction elems with
  | nil => rw [List.flatMap_nil, List.length_nil, List.length_nil, Nat.zero_mul]
  | cons a elems ih =>
    rw [List.flatMap_cons, List.length_append, h a List.mem_cons_self,
      ih fun b member => h b (List.mem_cons_of_mem a member), List.length_cons, Nat.succ_mul,
      Nat.add_comm]

/-- What the conversion functions of the table have in common. -/
structure ConvertFn.Regular (f : ConvertFn) : Prop where
  length : ∀ val, val.length = f.srcSize → (f.elem val).1.length = f.dstSize
  copy : f.copies = true → f.srcSize = f.dstSize ∧ ∀ val, f.elem val = (val, false)

namespace ConvertFn

variable {f : ConvertFn} {dst src : Bytes} {dstOff srcOff count : Nat}

/-- What a call leaves in the destination: `count` converted elements from
`dstOff` on, and the bytes before them as they were. -/
structure Converted (f : ConvertFn) (dst : Bytes) (dstOff : Nat) (src : Bytes)
    (srcOff count : Nat) (overflow : Bool) (dst' : Bytes) : Prop where
  length : dst'.length = dst.length
  elem : ∀ idx < count, elementAt dst' dstOff f.dstSize idx =
    (f.elem (elementAt src srcOff f.srcSize idx)).1
  before : dst'.take dstOff = dst.take dstOff
  overflow : overflow = true ↔ ∃ idx < count, (f.elem (elementAt src srcOff f.srcSize idx)).2 = true

theorem converted_of_store (bytes dst' : Bytes) (overflow : Bool) (len : bytes.length = count * f.dstSize)
    (room : dstOff + count * f.dstSize ≤ dst.length) (stored : store dst dstOff bytes = .ret dst')
    (elem : ∀ idx < count, elementAt bytes 0 f.dstSize idx =
      (f.elem (elementAt src srcOff f.srcSize idx)).1)
    (flag : overflow = true ↔
      ∃ idx < count, (f.elem (elementAt src srcOff f.srcSize idx)).2 = true) :
    Converted f dst dstOff src srcOff count overflow dst' := by
  obtain ⟨_, eq, length, prefix_⟩ := store_of_le dst dstOff bytes (by rwa [len])
  cases stored.symm.trans eq
  have taken : (dst.take dstOff).length = dstOff := by
    rw [List.length_take]
    omega
  refine ⟨length, fun idx lt => ?_, ?_, flag⟩
  · have fits : (idx + 1) * f.dstSize ≤ count * f.dstSize := Nat.mul_le_mul_right _ lt
    have shift := elementAt_append_right (dst.take dstOff) bytes 0 f.dstSize idx
    rw [taken, Nat.add_zero] at shift
    rw [← elem idx lt, ← shift, ← prefix_, elementAt_take (by omega)]
  · have := congrArg (List.take dstOff) prefix_
    rwa [List.take_take, Nat.min_eq_left (Nat.le_add_right _ _), List.take_append_of_le_length
      (by rw [taken]), List.take_take, Nat.min_self] at this

theorem Regular.run_ret (regular : f.Regular) (bytes : count * f.dstSize < 2 ^ 64)
    (source : srcOff + count * f.srcSize ≤ src.length)
    (room : dstOff + count * f.dstSize ≤ dst.length) :
    ∃ overflow dst', f.run dst dstOff src srcOff count = .ret (overflow, dst') ∧
      Converted f dst dstOff src srcOff count overflow dst' := by
  unfold run
  cases copies : f.copies with
  | true =>
    obtain ⟨same, keeps⟩ := regular.copy copies
    rw [same] at source
    have len : ((src.drop srcOff).take (count * f.dstSize)).length = count * f.dstSize := by
      rw [List.length_take, List.length_drop]
      omega
    obtain ⟨dst', stored, -⟩ := store_of_le dst dstOff _ (by rw [len]; exact room)
    refine ⟨false, dst', ?_, converted_of_store _ dst' false len room stored ?_ ?_⟩
    · rw [if_pos rfl, Nat.mod_eq_of_lt bytes, load_of_le source, Outcome.ret_bind, stored]
      rfl
    · intro idx lt
      rw [elementAt_drop_take (Nat.mul_le_mul_right _ lt), keeps, same]
    · simp [keeps]
  | false =>
    have inside : ∀ idx < count, (elementAt src srcOff f.srcSize idx).length = f.srcSize := by
      intro idx lt
      have : (idx + 1) * f.srcSize ≤ count * f.srcSize := Nat.mul_le_mul_right _ lt
      exact length_elementAt (by omega)
    have sizes : ∀ e ∈ (List.range count).map fun idx => f.elem (elementAt src srcOff f.srcSize idx),
        e.1.length = f.dstSize := by
      intro e member
      obtain ⟨idx, lt, rfl⟩ := List.mem_map.mp member
      exact regular.length _ (inside idx (List.mem_range.mp lt))
    have len := length_flatMap_of_length sizes
    rw [List.length_map, List.length_range] at len
    obtain ⟨dst', stored, -⟩ := store_of_le dst dstOff _ (by rw [len]; exact room)
    let elems := (List.range count).map fun idx => f.elem (elementAt src srcOff f.srcSize idx)
    refine ⟨elems.any Prod.snd, dst', ?_, converted_of_store _ dst' _ len room stored ?_ ?_⟩
    · rw [if_neg Bool.false_ne_true, load_of_le source, Outcome.ret_bind]
      simp only [stored, Outcome.ret_bind]
      rfl
    · intro idx lt
      rw [elementAt_flatMap (by rwa [List.length_map, List.length_range]) sizes]
      simp
    · simp [elems, List.any_eq_true]

/-- A call keeps the destination's size. -/
theorem run_length {overflow : Bool} {dst' : Bytes}
    (h : f.run dst dstOff src srcOff count = .ret (overflow, dst')) : dst'.length = dst.length := by
  have stored : ∃ bytes, store dst dstOff bytes = .ret dst' := by
    unfold run at h
    split at h
    all_goals
      obtain ⟨bytes, -, h⟩ := Outcome.bind_eq_ret.mp h
      obtain ⟨mem, hmem, h⟩ := Outcome.bind_eq_ret.mp h
      cases h
      exact ⟨_, hmem⟩
  obtain ⟨bytes, stored⟩ := stored
  by_cases room : dstOff + bytes.length ≤ dst.length
  · obtain ⟨mem, eq, length, -⟩ := store_of_le dst dstOff bytes room
    cases stored.symm.trans eq
    exact length
  · rw [store, if_neg room] at stored
    cases stored

/-- A call that would read outside the source's object. -/
theorem Regular.run_fault (regular : f.Regular) (bytes : count * f.dstSize < 2 ^ 64)
    (outside : ¬ srcOff + count * f.srcSize ≤ src.length) :
    f.run dst dstOff src srcOff count = .fault .memory := by
  unfold run
  cases copies : f.copies with
  | true =>
    rw [(regular.copy copies).1] at outside
    rw [if_pos rfl, Nat.mod_eq_of_lt bytes, load, if_neg outside]
    rfl
  | false =>
    rw [if_neg Bool.false_ne_true, load, if_neg outside]
    rfl

end ConvertFn

/-! ## The functions of the table -/

theorem conversionMacro_identity {src dst : ScalarDatatype}
    (h : conversionMacro src dst = some .identity) : src = dst := by
  cases src <;> cases dst <;> first | rfl | cases h

theorem ScalarDatatype.intType_bytes {t : ScalarDatatype} {i : IntType} (h : t.intType = some i) :
    i.bytes = t.size := by
  cases t <;> cases h <;> rfl

@[simp] theorem length_storeInt (host : Byteorder) (t : IntType) (x : Int) :
    (storeInt host t x).length = t.bytes := by
  unfold storeInt
  split
  · rw [Endian.length_beBytes]
  · rw [Endian.length_leBytes]

theorem length_convertElem (pf : Platform) (m : ConversionMacro) {src dst : ScalarDatatype}
    {val : Bytes} (h : val.length = src.size) :
    (convertElem pf m src dst val).1.length = dst.size := by
  unfold convertElem
  by_cases same : src = dst
  · rw [if_pos same, ← same]
    exact h
  · rw [if_neg same]
    cases hs : src.intType with
    | none => exact pf.floats.length m src dst val
    | some s =>
      cases hd : dst.intType with
      | none => exact pf.floats.length m src dst val
      | some d => exact (length_storeInt _ _ _).trans (ScalarDatatype.intType_bytes hd)

theorem getConvertFn_sizes {pf : Platform} {src dst : ScalarDatatype} {byteswap : Bool}
    {f : ConvertFn} (h : getConvertFn pf src dst byteswap = some f) :
    f.srcSize = src.size ∧ f.dstSize = dst.size := by
  unfold getConvertFn at h
  split at h
  · cases h
  · obtain ⟨m, -, rfl⟩ := Option.map_eq_some_iff.mp h
    exact ⟨rfl, rfl⟩

theorem getConvertFn_regular {pf : Platform} {src dst : ScalarDatatype} {byteswap : Bool}
    {f : ConvertFn} (h : getConvertFn pf src dst byteswap = some f) : f.Regular := by
  unfold getConvertFn at h
  split at h
  · cases h
  · obtain ⟨m, hm, rfl⟩ := Option.map_eq_some_iff.mp h
    constructor
    · intro val len
      apply length_convertElem
      split
      · exact List.length_reverse.trans len
      · exact len
    · intro copies
      obtain ⟨identity, keeps⟩ := Bool.and_eq_true_iff.mp copies
      have same := conversionMacro_identity (of_decide_eq_true identity ▸ hm)
      subst same
      refine ⟨rfl, fun val => ?_⟩
      cases byteswap with
      | true => cases keeps
      | false => exact if_pos rfl

/-- The types that the table is about. -/
def ScalarDatatype.numeric : ScalarDatatype → Bool
  | .unknown | .complex64 | .complex128 | .bool8 | .ascii | .ucs4 | .structured => false
  | _ => true

/-- A pair of types that a read can convert. -/
def Supported (pf : Platform) (src dst : ScalarDatatype) : Prop :=
  src.numeric = true ∧ dst.numeric = true ∧
    (pf.float16 = true ∨ src ≠ .float16 ∧ dst ≠ .float16)

instance (pf : Platform) (src dst : ScalarDatatype) : Decidable (Supported pf src dst) :=
  inferInstanceAs (Decidable (_ ∧ _ ∧ _))

theorem conversionMacro_isSome (src dst : ScalarDatatype) :
    (conversionMacro src dst).isSome = (src.numeric && dst.numeric) := by
  cases src <;> cases dst <;> rfl

theorem getConvertFn_isSome {pf : Platform} {src dst : ScalarDatatype} {byteswap : Bool} :
    (getConvertFn pf src dst byteswap).isSome = true ↔ Supported pf src dst := by
  unfold getConvertFn Supported
  by_cases missing : (src = .float16 ∨ dst = .float16) ∧ !pf.float16
  · rw [if_pos missing]
    obtain ⟨half, lacks⟩ := missing
    have lacks : pf.float16 ≠ true := by simpa using lacks
    constructor
    · nofun
    · rintro ⟨-, -, has | ⟨hs, hd⟩⟩
      · exact absurd has lacks
      · exact (half.elim hs hd).elim
  · rw [if_neg missing, Option.isSome_map, conversionMacro_isSome, Bool.and_eq_true]
    constructor
    · rintro ⟨hs, hd⟩
      refine ⟨hs, hd, ?_⟩
      by_cases has : pf.float16 = true
      · exact .inl has
      · have lacks : (!pf.float16) = true := by simpa using has
        exact .inr ⟨fun eq => missing ⟨.inl eq, lacks⟩, fun eq => missing ⟨.inr eq, lacks⟩⟩
    · rintro ⟨hs, hd, -⟩
      exact ⟨hs, hd⟩

theorem Supported.sizes {pf : Platform} {src dst : ScalarDatatype} (h : Supported pf src dst) :
    0 < src.size ∧ 0 < dst.size := by
  have some := conversionMacro_isSome src dst
  rw [h.1, h.2.1] at some
  obtain ⟨m, hm⟩ := Option.isSome_iff_exists.mp some
  exact conversionMacro_sizes hm

/-- The conversion of an element of type `src` in the host's byte order. -/
def convertValue (pf : Platform) (src dst : ScalarDatatype) (val : Bytes) : Bytes × Bool :=
  match conversionMacro src dst with
  | some m => convertElem pf m src dst val
  | none => (val, false)

/-- An element that is stored in `byteorder`, in the host's. -/
def hostBytes (pf : Platform) (byteorder : Byteorder) (val : Bytes) : Bytes :=
  if pf.host ≠ byteorder then val.reverse else val

theorem getConvertFn_elem {pf : Platform} {src dst : ScalarDatatype} {byteswap : Bool}
    {f : ConvertFn} (h : getConvertFn pf src dst byteswap = some f) (val : Bytes) :
    f.elem val = convertValue pf src dst (if byteswap then val.reverse else val) := by
  unfold getConvertFn at h
  split at h
  · cases h
  · obtain ⟨m, hm, rfl⟩ := Option.map_eq_some_iff.mp h
    rw [convertValue, hm]

theorem length_convertValue {pf : Platform} {src dst : ScalarDatatype} (h : Supported pf src dst)
    {val : Bytes} (len : val.length = src.size) :
    (convertValue pf src dst val).1.length = dst.size := by
  have some := conversionMacro_isSome src dst
  rw [h.1, h.2.1] at some
  obtain ⟨m, hm⟩ := Option.isSome_iff_exists.mp some
  rw [convertValue, hm]
  exact length_convertElem pf m len

/-- What the integer conversions make of all zeros and of all ones. -/
theorem convertInt_separates (host : Byteorder) :
    ∀ {src dst : ScalarDatatype} {s d : IntType} {m : ConversionMacro}, src.intType = some s →
      dst.intType = some d → conversionMacro src dst = some m →
      storeInt host d (convertInt m s d (loadInt host s (List.replicate src.size 0))).1 ≠
        storeInt host d (convertInt m s d (loadInt host s (List.replicate src.size 1))).1 := by
  intro src dst s d m hs hd hm
  cases host <;> cases src <;> cases hs <;> cases dst <;> cases hd <;> cases hm <;> decide

/-- A conversion is not constant. -/
theorem convertValue_separates {pf : Platform} {src dst : ScalarDatatype} (h : Supported pf src dst) :
    ∃ a b, a.length = src.size ∧ b.length = src.size ∧
      (convertValue pf src dst a).1 ≠ (convertValue pf src dst b).1 := by
  have some := conversionMacro_isSome src dst
  rw [h.1, h.2.1] at some
  obtain ⟨m, hm⟩ := Option.isSome_iff_exists.mp some
  have value (val : Bytes) : convertValue pf src dst val = convertElem pf m src dst val := by
    rw [convertValue, hm]
  obtain ⟨pos, -⟩ := h.sizes
  by_cases same : src = dst
  · refine ⟨List.replicate src.size 0, List.replicate src.size 1, List.length_replicate,
      List.length_replicate, ?_⟩
    obtain ⟨n, hn⟩ := Nat.exists_eq_succ_of_ne_zero (Nat.ne_of_gt pos)
    rw [value, value, convertElem, convertElem, if_pos same, if_pos same, hn]
    simp [List.replicate_succ]
  · have float (floating : src.intType = none ∨ dst.intType = none) (val : Bytes) :
        convertElem pf m src dst val = pf.floats.convert m src dst val := by
      unfold convertElem
      rw [if_neg same]
      rcases floating with hs | hd
      · rw [hs]
      · rw [hd]
        cases src.intType <;> rfl
    cases hs : src.intType with
    | none =>
      obtain ⟨x, y, hx, hy, differ⟩ := pf.floats.separates m src dst hm
      refine ⟨x, y, hx, hy, ?_⟩
      rwa [value, value, float (.inl hs), float (.inl hs)]
    | some s =>
      cases hd : dst.intType with
      | none =>
        obtain ⟨x, y, hx, hy, differ⟩ := pf.floats.separates m src dst hm
        refine ⟨x, y, hx, hy, ?_⟩
        rwa [value, value, float (.inr hd), float (.inr hd)]
      | some d =>
        refine ⟨List.replicate src.size 0, List.replicate src.size 1, List.length_replicate,
          List.length_replicate, ?_⟩
        rw [value, value, convertElem, convertElem, if_neg same, if_neg same, hs, hd]
        exact convertInt_separates pf.host hs hd hm

end LibAsdf
