import LibAsdf.Datatype.Sizes
import LibAsdf.Ndarray.InlineTree

/-!
# What inline arrays are accepted, and how they are filled

* `parseInlineArrayLevel_rect`: the parse of a rectangular tree goes through its
  scalars in row-major order;
* `parseLeaves_wrote`: the elements are written one behind the other;
* `inline_array_correct`: the accepted arrays that are read as they are nested.
-/

namespace LibAsdf

/-! ## What is to hold -/

/-- The nodes that the parse of the data takes for sequences, with their depths. -/
inductive WalkedAs (a : InlineNdarray) : Nat → Node → Prop
  | top : WalkedAs a 0 a.inlineData
  | inner {depth : Nat} {node elem : Node} (outer : WalkedAs a depth node)
      (more : depth + 1 ≠ a.shape.length) (member : elem ∈ node.items) : WalkedAs a (depth + 1) elem

/-- The scalars are nodes in memory, at an address of their own and of eight
bytes at least. -/
def InMemory (node : Node) : Prop := 8 * node.leaves.length < 18446744073709551616

/-- The parse of the data into a buffer of the array's size writes nowhere else,
and if it does not fail it writes all elements at their row-major positions. -/
def FillsBuffer (env : ElementEnv) (a : InlineNdarray) : Prop :=
  ∀ buf : Bytes, inlineNbytes a ≠ 0 → buf.length = (inlineNbytes a).toNat →
    ∃ err st, parseInlineData env a buf = .ret (err, st) ∧ st.buf.length = buf.length ∧
      (err = .ok → st.offset.toNat = extentsVolume a.shape ∧
        ∀ path elem, a.inlineData.atPath path = some elem → elem.isSequence = false →
          ∃ bytes, convertScalarToNative env a.datatype.type elem = (.ok, some bytes) ∧
            elementAt st.buf 0 a.datatype.type.size (extentsPosition a.shape path) = bytes)

/-- What an accepted array is to be. -/
structure InlineCorrect (env : ElementEnv) (a : InlineNdarray) : Prop where
  rect : Rect a.shape a.inlineData
  sequences : ∀ depth node, WalkedAs a depth node → node.isSequence = true
  fills : FillsBuffer env a

/-! ## The parse of the data -/

/-- The elements one after the other, until one cannot be converted. -/
def parseLeaves (env : ElementEnv) (dtype : ScalarDatatype) :
    List Node → InlineBuffer → Run (ValueErr × InlineBuffer)
  | [], st => .ret (.ok, st)
  | elem :: rest, st => (parseElement env dtype elem st).bind fun r =>
      if r.1 = .ok then parseLeaves env dtype rest r.2 else .ret r

variable {elemEnv : ElementEnv} {a : InlineNdarray}

theorem parseLeaves_append (dtype : ScalarDatatype) (first second : List Node) (st : InlineBuffer) :
    parseLeaves elemEnv dtype (first ++ second) st =
      (parseLeaves elemEnv dtype first st).bind fun r =>
        if r.1 = .ok then parseLeaves elemEnv dtype second r.2 else .ret r := by
  induction first generalizing st with
  | nil => rfl
  | cons elem rest ih =>
    rw [List.cons_append, parseLeaves, parseLeaves, Outcome.bind_assoc]
    congr 1
    funext r
    by_cases ok : r.1 = .ok
    · rw [if_pos ok, if_pos ok, ih]
    · rw [if_neg ok, if_neg ok]
      exact (if_neg ok).symm

theorem parseLeaves_singleton (dtype : ScalarDatatype) (elem : Node) (st : InlineBuffer) :
    parseLeaves elemEnv dtype [elem] st = parseElement elemEnv dtype elem st := by
  rw [parseLeaves]
  cases parseElement elemEnv dtype elem st with
  | ret r =>
    change (if r.1 = .ok then .ret (.ok, r.2) else .ret r) = Outcome.ret r
    split
    · rw [← ‹r.1 = .ok›]
    · rfl
  | fault e => rfl
  | timeout => rfl

/-- The loop over the elements goes through their scalars. -/
theorem parseElements_leaves {depth : Nat} {items : List Node}
    (each : ∀ elem ∈ items, ∀ st, (if depth + 1 = a.shape.length then
        parseElement elemEnv a.datatype.type elem st
      else parseInlineArrayLevel elemEnv a (depth + 1) elem st) =
        parseLeaves elemEnv a.datatype.type elem.leaves st) (st : InlineBuffer) :
    parseElements elemEnv a depth items st =
      parseLeaves elemEnv a.datatype.type (items.flatMap Node.leaves) st := by
  induction items generalizing st with
  | nil => rfl
  | cons elem rest ih =>
    rw [List.flatMap_cons, parseLeaves_append, parseElements, each elem List.mem_cons_self]
    congr 1
    funext ⟨err, st⟩
    by_cases ok : err = .ok
    · exact (if_pos ok).trans ((ih (fun elem' mem => each elem' (List.mem_cons_of_mem elem mem)) st).trans
        (if_pos ok).symm)
    · exact (if_neg ok).trans (if_neg ok).symm

/-- The walk over a rectangular tree goes through its scalars in order. -/
theorem parseInlineArrayLevel_rect : ∀ {ds : List UInt64} {depth : Nat} {node : Node},
    Rect ds node → ds ≠ [] → depth + ds.length = a.shape.length → ∀ st,
    parseInlineArrayLevel elemEnv a depth node st =
      parseLeaves elemEnv a.datatype.type node.leaves st := by
  intro ds
  induction ds with
  | nil => exact fun _ none => absurd rfl none
  | cons dim rest ih =>
    intro depth node rect _ total st
    obtain ⟨seq, -, -, items⟩ := rect
    obtain ⟨tag, list, rfl⟩ := isSequence_iff.mp seq
    rw [List.length_cons] at total
    rw [Node.leaves_sequence, parseInlineArrayLevel]
    apply parseElements_leaves
    intro elem mem st
    cases rest with
    | nil =>
      have scalar : elem.isSequence = false := items elem mem
      have last : depth + 1 = a.shape.length := by simpa using total
      rw [if_pos last, Node.leaves_scalar scalar, parseLeaves_singleton]
    | cons dim' rest =>
      have more : depth + 1 ≠ a.shape.length := by
        rw [List.length_cons] at total
        omega
      rw [if_neg more]
      exact ih (items elem mem) (List.cons_ne_nil _ _) (by omega) st

/-! ## Elements -/

/-- What an arm of the conversion comes to: nothing but elements of `size` bytes
is written, and one is if there is no error. -/
structure Stores (size : Nat) (r : ValueErr × Option Bytes) : Prop where
  length : ∀ bytes, r.2 = some bytes → bytes.length = size
  some : r.1 = .ok → ∃ bytes, r.2 = some bytes

theorem stores_int (host : Byteorder) (size : Nat) {result : Result}
    (h : (result.1 ≠ .ok ∧ result.2 = none) ∨ ∃ v, result.2 = some (.int v)) :
    Stores size (storeResult host size result) := by
  unfold storeResult
  rcases h with ⟨err, none⟩ | ⟨v, out⟩
  · rw [none]
    exact ⟨nofun, fun ok => absurd ok err⟩
  · rw [out]
    constructor
    · rintro bytes ⟨⟩
      exact length_storeInt host ⟨false, size⟩ v
    · exact fun _ => ⟨_, rfl⟩

theorem asIntArms_arm (value : AsdfValue) (t : CIntType) : asIntArms value t = mismatch ∨
    ∃ member overflow, asIntArms value t = arm t member overflow := by
  cases t <;>
    simp only [asIntArms, asInt8Arms, asInt16Arms, asInt32Arms, asInt64Arms, asUint8Arms,
      asUint16Arms, asUint32Arms, asUint64Arms] <;>
    split <;> first | exact .inr ⟨_, _, rfl⟩ | exact .inl rfl

theorem asIntArms_out (value : AsdfValue) (t : CIntType) :
    (asIntArms value t).1 ≠ .ok ∧ (asIntArms value t).2 = none ∨
      ∃ v, (asIntArms value t).2 = some (.int v) := by
  rcases asIntArms_arm value t with eq | ⟨member, overflow, eq⟩
  · rw [eq]
    exact .inl ⟨nofun, rfl⟩
  · rw [eq]
    exact .inr ⟨_, rfl⟩

theorem valueAsInt_out (env : ScalarEnv) (t : CIntType) (value : AsdfValue) :
    (valueAsInt env t value).2.1 ≠ .ok ∧ (valueAsInt env t value).2.2 = none ∨
      ∃ v, (valueAsInt env t value).2.2 = some (.int v) := by
  unfold valueAsInt inferredAs
  dsimp only
  split
  · exact asIntArms_out _ t
  · exact .inl ⟨‹_›, rfl⟩

theorem stores_bool (env : ScalarEnv) (host : Byteorder) (value : AsdfValue) :
    Stores 1 (storeResult host 1 (valueAsBool env value).2) := by
  have out : ((valueAsBool env value).2.1 ≠ .ok ∧ (valueAsBool env value).2.2 = none) ∨
      ∃ b, (valueAsBool env value).2.2 = some (.bool b) := by
    unfold valueAsBool inferredAs
    dsimp only
    split
    · unfold asBoolArms
      split
      · exact .inr ⟨_, rfl⟩
      · split
        · exact .inl ⟨nofun, rfl⟩
        · exact .inr ⟨_, rfl⟩
    · exact .inl ⟨‹_›, rfl⟩
  unfold storeResult
  rcases out with ⟨err, none⟩ | ⟨b, out⟩
  · rw [none]
    exact ⟨nofun, fun ok => absurd ok err⟩
  · rw [out]
    constructor
    · rintro bytes ⟨⟩
      rfl
    · exact fun _ => ⟨_, rfl⟩

theorem stores_float (env : ElementEnv) (dtype : ScalarDatatype) (elem : Node) :
    Stores dtype.size (convertToFloat env dtype elem) := by
  unfold convertToFloat
  dsimp only
  constructor
  · intro bytes h
    dsimp only at h
    split at h
    · cases h
      exact length_storeInt _ _ _
    · cases h
  · intro ok
    exact ⟨_, if_pos ok⟩

theorem stores_nothing (size : Nat) : Stores size (.parseFailure, none) := ⟨nofun, nofun⟩

theorem convertScalarToNative_stores (env : ElementEnv) (dtype : ScalarDatatype) (elem : Node) :
    Stores dtype.size (convertScalarToNative env dtype elem) := by
  have ints (t : CIntType) (dtype : ScalarDatatype) : Stores dtype.size
      (storeResult env.pf.host dtype.size (valueAsInt env.scalars t (AsdfValue.create elem)).2) :=
    stores_int _ _ (valueAsInt_out _ _ _)
  cases dtype with
  | bool8 => exact stores_bool _ _ _
  | int8 => exact ints .int8 .int8
  | int16 => exact ints .int16 .int16
  | int32 => exact ints .int32 .int32
  | int64 => exact ints .int64 .int64
  | uint8 => exact ints .uint8 .uint8
  | uint16 => exact ints .uint16 .uint16
  | uint32 => exact ints .uint32 .uint32
  | uint64 => exact ints .uint64 .uint64
  | float16 =>
    unfold convertScalarToNative
    dsimp only
    split
    · exact stores_float env .float16 elem
    · exact stores_nothing _
  | float32 => exact stores_float env .float32 elem
  | float64 => exact stores_float env .float64 elem
  | unknown | complex64 | complex128 | ascii | ucs4 | structured => exact stores_nothing _

/-- The types with an arm that writes. -/
def Convertible (t : ScalarDatatype) : Prop := t.numeric = true ∨ t = .bool8

theorem convertible_of_some {env : ElementEnv} {dtype : ScalarDatatype} {elem : Node} {bytes : Bytes}
    (h : (convertScalarToNative env dtype elem).2 = some bytes) : Convertible dtype := by
  cases dtype with
  | unknown | complex64 | complex128 | ascii | ucs4 | structured => cases h
  | bool8 => exact .inr rfl
  | _ => exact .inl rfl

theorem Convertible.size {t : ScalarDatatype} (h : Convertible t) : 0 < t.size ∧ t.size ≤ 8 := by
  rcases h with numeric | rfl
  · cases t <;> first | exact ⟨by decide, by decide⟩ | cases numeric
  · exact ⟨by decide, by decide⟩

/-- What the buffer is after `leaves` have been written behind `st`. -/
structure WroteLeaves (env : ElementEnv) (dtype : ScalarDatatype) (leaves : List Node)
    (st st' : InlineBuffer) : Prop where
  offset : st'.offset.toNat = st.offset.toNat + leaves.length
  before : st'.buf.take (st.offset.toNat * dtype.size) = st.buf.take (st.offset.toNat * dtype.size)
  elem : ∀ idx elem, leaves[idx]? = some elem → ∃ bytes,
    convertScalarToNative env dtype elem = (.ok, some bytes) ∧
      elementAt st'.buf 0 dtype.size (st.offset.toNat + idx) = bytes

/-- The buffer has room for `count` more elements, if there are arms for them. -/
def HasRoom (dtype : ScalarDatatype) (count : Nat) (st : InlineBuffer) : Prop :=
  Convertible dtype → (st.offset.toNat + count) * dtype.size ≤ st.buf.length

theorem parseElement_wrote {dtype : ScalarDatatype} (elem : Node) {st : InlineBuffer}
    (room : HasRoom dtype 1 st) (small : st.buf.length < 18446744073709551616) :
    ∃ err st', parseElement elemEnv dtype elem st = .ret (err, st') ∧
      st'.buf.length = st.buf.length ∧ (err = .ok → WroteLeaves elemEnv dtype [elem] st st') := by
  have stores := convertScalarToNative_stores elemEnv dtype elem
  unfold parseElement
  cases convert : convertScalarToNative elemEnv dtype elem with
  | mk err native =>
    rw [convert] at stores
    cases native with
    | none =>
      have failed : err ≠ .ok := fun ok => by
        obtain ⟨bytes, eq⟩ := stores.some ok
        cases eq
      exact ⟨err, _, if_neg failed, rfl, fun ok => absurd ok failed⟩
    | some bytes =>
      have convertible := convertible_of_some (congrArg Prod.snd convert)
      obtain ⟨pos, le⟩ := convertible.size
      have length := stores.length bytes rfl
      have fits := room convertible
      rw [Nat.add_mul, Nat.one_mul] at fits
      have at_ : (st.offset * UInt64.ofNat dtype.size).toNat = st.offset.toNat * dtype.size := by
        rw [UInt64.toNat_mul, UInt64.toNat_ofNat', Nat.mod_eq_of_lt (by omega : dtype.size < 2 ^ 64)]
        exact Nat.mod_eq_of_lt (by omega)
      obtain ⟨buf, stored, kept, start⟩ :=
        store_of_le st.buf (st.offset.toNat * dtype.size) bytes (by rw [length]; exact fits)
      dsimp only
      rw [at_, stored]
      by_cases ok : err = .ok
      · refine ⟨.ok, ⟨buf, st.offset + 1⟩, if_pos ok, kept, fun _ => ?_⟩
        have next : (st.offset + 1).toNat = st.offset.toNat + 1 := by
          have := Nat.le_mul_of_pos_right st.offset.toNat pos
          rw [UInt64.toNat_add]
          exact Nat.mod_eq_of_lt (by
            have one : (1 : UInt64).toNat = 1 := rfl
            omega)
        have taken : (st.buf.take (st.offset.toNat * dtype.size)).length =
            st.offset.toNat * dtype.size := by
          rw [List.length_take]
          omega
        refine ⟨next, ?_, ?_⟩
        · have := congrArg (List.take (st.offset.toNat * dtype.size)) start
          rwa [List.take_take, Nat.min_eq_left (Nat.le_add_right _ _), List.take_append_of_le_length
            (Nat.le_of_eq taken.symm), List.take_take, Nat.min_self] at this
        · intro idx elem' found
          cases idx with
          | succ idx => cases found
          | zero =>
            cases found
            refine ⟨bytes, by rw [convert, ok], ?_⟩
            have shift := elementAt_append_right (st.buf.take (st.offset.toNat * dtype.size)) bytes 0
              dtype.size 0
            have whole : elementAt bytes 0 dtype.size 0 = bytes := by
              rw [elementAt, Nat.zero_mul, Nat.add_zero, List.drop_zero, ← length, List.take_length]
            have move := elementAt_add buf 0 dtype.size st.offset.toNat 0
            rw [Nat.zero_add] at move
            rw [taken, Nat.add_zero, whole, ← start, elementAt_take (by omega)] at shift
            exact move.symm.trans shift
      · exact ⟨err, ⟨buf, st.offset⟩, if_neg ok, kept, fun eq => absurd eq ok⟩

theorem parseLeaves_wrote {dtype : ScalarDatatype} {leaves : List Node} {st : InlineBuffer}
    (room : HasRoom dtype leaves.length st) (small : st.buf.length < 18446744073709551616) :
    ∃ err st', parseLeaves elemEnv dtype leaves st = .ret (err, st') ∧
      st'.buf.length = st.buf.length ∧ (err = .ok → WroteLeaves elemEnv dtype leaves st st') := by
  induction leaves generalizing st with
  | nil => exact ⟨.ok, st, rfl, rfl, fun _ => ⟨rfl, rfl, nofun⟩⟩
  | cons elem rest ih =>
    have one : HasRoom dtype 1 st := by
      intro convertible
      have fits := room convertible
      rw [List.length_cons] at fits
      exact Nat.le_trans (Nat.mul_le_mul_right _ (by omega)) fits
    obtain ⟨err, st₁, here, kept, wrote⟩ := parseElement_wrote elem one small
    unfold parseLeaves
    rw [here]
    by_cases ok : err = .ok
    · have first := wrote ok
      have more : HasRoom dtype rest.length st₁ := by
        intro convertible
        have fits := room convertible
        rw [List.length_cons] at fits
        rw [kept, first.offset, List.length_singleton, Nat.add_assoc, Nat.add_comm 1]
        exact fits
      obtain ⟨err', st', later, kept', wrote'⟩ := ih more (by rwa [kept])
      refine ⟨err', st', (if_pos ok).trans later, kept'.trans kept, fun ok' => ?_⟩
      have others := wrote' ok'
      have offset := others.offset
      have before := others.before
      rw [first.offset, List.length_singleton] at offset before
      refine ⟨by rw [offset, List.length_cons]; omega, ?_, ?_⟩
      · have earlier := congrArg (List.take (st.offset.toNat * dtype.size)) before
        rw [List.take_take, List.take_take, Nat.min_eq_left (Nat.mul_le_mul_right _ (by omega))]
          at earlier
        exact earlier.trans first.before
      · intro idx elem' found
        cases idx with
        | zero =>
          cases found
          obtain ⟨bytes, convert, value⟩ := first.elem 0 elem rfl
          refine ⟨bytes, convert, ?_⟩
          rw [Nat.add_zero] at value ⊢
          have whole (buf : Bytes) : elementAt (buf.take ((st.offset.toNat + 1) * dtype.size)) 0 dtype.size
              st.offset.toNat = elementAt buf 0 dtype.size st.offset.toNat :=
            elementAt_take (by omega)
          rw [← value, ← whole, before, whole]
        | succ idx =>
          obtain ⟨bytes, convert, value⟩ := others.elem idx elem' found
          refine ⟨bytes, convert, ?_⟩
          rw [← value, first.offset, List.length_singleton, Nat.add_assoc, Nat.add_comm 1]
    · exact ⟨err, st₁, if_neg ok, kept, fun eq => absurd eq ok⟩

/-! ## Accepted arrays -/

/-- What an accepted array has from its tree. -/
structure Accepted (env : ScalarEnv) (root : Node) (a : InlineNdarray) : Prop where
  data : a.inlineData = root
  shape : ∃ st, inferInlineArrayDatatype env 0 root ⟨[], .start⟩ = .ok st ∧ a.shape = st.shape
  size : Convertible a.datatype.type → datatypeSize a.datatype = UInt64.ofNat a.datatype.type.size

theorem datatypeSize_eq {d : Datatype} (convertible : Convertible d.type)
    (size : d.size = UInt64.ofNat d.type.size) : datatypeSize d = UInt64.ofNat d.type.size := by
  obtain ⟨pos, le⟩ := convertible.size
  have nonzero : d.size ≠ 0 := by
    intro zero
    have toNat := congrArg UInt64.toNat (size.symm.trans zero)
    rw [UInt64.toNat_ofNat', Nat.mod_eq_of_lt (by omega)] at toNat
    exact absurd toNat (Nat.ne_of_gt pos)
  exact (datatypeSize_stored nonzero).trans size

theorem datatypeParse_size {env : ScalarEnv} {byteorder : Byteorder} {value : Node} {d : Datatype}
    (parse : datatypeParse env byteorder value = .ok d) (convertible : Convertible d.type) :
    d.size = UInt64.ofNat d.type.size := by
  have top := (parsed_of_parse value).1 d parse
  obtain ⟨-, size, -⟩ := top.parsed
  have fixed : d.type.sized = false ∧ d.baseSize = UInt64.ofNat d.type.size := by
    unfold Datatype.baseSize
    rcases convertible with numeric | bool
    · cases type : d.type <;> rw [type] at numeric <;>
        first | exact ⟨rfl, rfl⟩ | cases numeric
    · rw [bool]
      exact ⟨rfl, rfl⟩
  rw [size fixed.1, top.shape, fixed.2]
  rfl

theorem inlineProperties_size {env : ScalarEnv} {map : Option Node} {d : Datatype}
    (h : inlineProperties env map = .ok (some d)) (convertible : Convertible d.type) :
    d.size = UInt64.ofNat d.type.size := by
  cases map with
  | none => cases h
  | some map =>
    obtain ⟨explicit, parsed, h⟩ := except_bind_ok.mp h
    obtain ⟨-, -, h⟩ := except_bind_ok.mp h
    cases h
    unfold inlineDatatype at parsed
    split at parsed
    · cases parse : datatypeParse env .default ‹Node› with
      | error err =>
        rw [parse] at parsed
        cases parsed
      | ok d' =>
        rw [parse] at parsed
        cases parsed
        exact datatypeParse_size parse convertible
    · cases parsed
    · cases parsed

theorem accepted_of_deserialize {env : ScalarEnv} {host : Byteorder} {map : Option Node} {root : Node}
    {a : InlineNdarray} (h : deserializeInline env host map root = .ok a) : Accepted env root a := by
  obtain ⟨explicit, properties, h⟩ := except_bind_ok.mp h
  obtain ⟨st, walk, h⟩ := except_bind_ok.mp h
  obtain ⟨datatype, type, h⟩ := except_bind_ok.mp h
  cases h
  refine ⟨rfl, ⟨st, walk, rfl⟩, fun convertible => datatypeSize_eq convertible ?_⟩
  cases explicit with
  | some d =>
    cases type
    exact inlineProperties_size properties convertible
  | none =>
    change implicitDatatype st.inf = .ok datatype at type
    unfold implicitDatatype at type
    dsimp only at type
    split at type
    · cases type
    · cases type
      rfl

theorem foldl_mul_eq (shape : List UInt64) (start : UInt64) :
    shape.foldl (· * ·) start = start * UInt64.ofNat (extentsVolume shape) := by
  induction shape generalizing start with
  | nil => exact (UInt64.mul_one start).symm
  | cons dim rest ih =>
    rw [List.foldl_cons, ih, extentsVolume, UInt64.ofNat_mul, UInt64.ofNat_toNat, UInt64.mul_assoc]

/-- The size of the buffer, where the elements are counted right. -/
theorem inlineNbytes_toNat (dims : a.shape ≠ []) (volume : 8 * extentsVolume a.shape < 18446744073709551616)
    (convertible : Convertible a.datatype.type)
    (size : datatypeSize a.datatype = UInt64.ofNat a.datatype.type.size) :
    (inlineNbytes a).toNat = extentsVolume a.shape * a.datatype.type.size := by
  obtain ⟨-, le⟩ := convertible.size
  have count : inlineSize a = UInt64.ofNat (extentsVolume a.shape) := by
    rw [inlineSize, if_neg dims, foldl_mul_eq, UInt64.one_mul]
  have bytes := Nat.mul_le_mul_left (extentsVolume a.shape) le
  unfold inlineNbytes
  by_cases zero : inlineSize a = 0
  · rw [if_pos zero]
    rw [count] at zero
    have none := congrArg UInt64.toNat zero
    rw [UInt64.toNat_ofNat', Nat.mod_eq_of_lt (by omega)] at none
    rw [none]
    exact (Nat.zero_mul _).symm
  · rw [if_neg zero, count, size, ← UInt64.ofNat_mul, UInt64.toNat_ofNat']
    exact Nat.mod_eq_of_lt (by omega)

theorem WalkedAs.rect (rect : Rect a.shape a.inlineData) (dims : a.shape ≠ []) {depth : Nat}
    {node : Node} (walked : WalkedAs a depth node) :
    depth < a.shape.length ∧ Rect (a.shape.drop depth) node := by
  induction walked with
  | top => exact ⟨List.length_pos_iff.mpr dims, rect⟩
  | inner outer more member ih =>
    obtain ⟨lt, rect⟩ := ih
    rw [List.drop_eq_getElem_cons lt] at rect
    obtain ⟨-, -, -, items⟩ := rect
    exact ⟨by omega, items _ member⟩

/-- A rectangular array fills the buffer. -/
theorem Accepted.fills {env : ElementEnv} {root : Node} (accepted : Accepted env.scalars root a)
    (memory : InMemory root) (rect : Rect a.shape root) (dims : a.shape ≠ []) : FillsBuffer env a := by
  intro buf nonzero length
  have volume := rect.length_leaves
  unfold InMemory at memory
  rw [volume] at memory
  have small := (inlineNbytes a).toNat_lt
  have zero : (0 : UInt64).toNat = 0 := rfl
  have room : HasRoom a.datatype.type root.leaves.length ⟨buf, 0⟩ := by
    intro convertible
    rw [zero, Nat.zero_add, volume, length,
      inlineNbytes_toNat dims memory convertible (accepted.size convertible)]
  obtain ⟨err, st, run, kept, wrote⟩ := @parseLeaves_wrote env _ _ _ room (by rwa [length])
  refine ⟨err, st, ?_, kept, fun ok => ?_⟩
  · rw [parseInlineData, accepted.data, parseInlineArrayLevel_rect rect dims (Nat.zero_add _)]
    exact run
  · have wrote := wrote ok
    constructor
    · rw [wrote.offset, zero, Nat.zero_add, volume]
    · intro path elem found scalar
      rw [accepted.data] at found
      obtain ⟨bytes, convert, value⟩ := wrote.elem _ elem (rect.leaf found scalar).2
      refine ⟨bytes, convert, ?_⟩
      rwa [zero, Nat.zero_add] at value

/-- An accepted array is what its tree is nested as just if all scalars are at one
depth and no sequence is empty. -/
theorem inline_array_correct {env : ElementEnv} {map : Option Node} {root : Node}
    (accepted : deserializeInline env.scalars env.pf.host map root = .ok a)
    (memory : InMemory root) : InlineCorrect env a ↔ ∃ d, FullTo d root := by
  have accepted := accepted_of_deserialize accepted
  obtain ⟨st, walk, shape⟩ := accepted.shape
  constructor
  · intro correct
    have rect := correct.rect
    rw [accepted.data] at rect
    have recorded : Recorded a.shape := by
      rw [shape]
      exact inferInlineArrayDatatype_recorded root walk nofun
    exact ⟨a.shape.length, rect.fullTo recorded⟩
  · rintro ⟨d, full⟩
    obtain ⟨seq, -⟩ := inferInlineArrayDatatype_ok walk
    cases d with
    | zero => cases seq.symm.trans full
    | succ d =>
      obtain ⟨ds, eq, count, rect⟩ := (visitFull d full _ _ walk).1 rfl
      have same : a.shape = ds := shape.trans eq
      have dims : a.shape ≠ [] := by
        intro empty
        rw [← same, empty] at count
        cases count
      rw [← same] at rect
      have fills := accepted.fills memory rect dims
      rw [← accepted.data] at rect
      refine ⟨rect, fun depth node walked => ?_, fills⟩
      obtain ⟨lt, rect⟩ := walked.rect rect dims
      rw [List.drop_eq_getElem_cons lt] at rect
      exact rect.1

/-- A machine for runs that convert no floats. -/
def plainElements : ElementEnv := ⟨plainScalars, x86, fun _ => 0⟩

/-- A plain `1`. -/
def plainOne : Node := .scalar none .plain [49]

/-- `[[1], [1]]` -/
def columnOfOnes : Node := .sequence none [.sequence none [plainOne], .sequence none [plainOne]]

theorem columnOfOnes_correct : ∃ a,
    deserializeInline plainScalars .little none columnOfOnes = .ok a ∧ InlineCorrect plainElements a := by
  have accepted : deserializeInline plainElements.scalars plainElements.pf.host none columnOfOnes =
      .ok ⟨[2, 1], ⟨.uint8, 1, none, .default, [], []⟩, .little, columnOfOnes⟩ := rfl
  have memory : InMemory columnOfOnes := by
    unfold InMemory
    decide
  refine ⟨_, accepted, (inline_array_correct accepted memory).mpr ?_⟩
  refine ⟨2, rfl, nofun, by decide, ?_⟩
  simp [columnOfOnes, FullTo, Node.items, Node.isSequence, plainOne]

/-- `[[1], []]` -/
def raggedOnes : Node := .sequence none [.sequence none [plainOne], .sequence none []]

/-- It is accepted as a rectangle. -/
theorem raggedOnes_accepted : ∃ a, deserializeInline plainScalars .little none raggedOnes = .ok a ∧
    InMemory raggedOnes ∧ ¬ InlineCorrect plainElements a := by
  refine ⟨⟨[2, 1], ⟨.uint8, 1, none, .default, [], []⟩, .little, raggedOnes⟩, rfl, ?_, ?_⟩
  · unfold InMemory
    decide
  · intro correct
    obtain ⟨-, -, -, items⟩ := correct.rect
    obtain ⟨-, length, -⟩ := items (.sequence none []) (by simp [raggedOnes, Node.items])
    exact absurd length (by decide)

end LibAsdf
